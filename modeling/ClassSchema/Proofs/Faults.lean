import ClassSchema.Proofs.Lineages
import ClassSchema.Proofs.Messages
import ClassSchema.Proofs.Unresolved

namespace ClassSchema

/-- The families of faults that a caller can tell apart. A `breach` is of none of the reported ones. -/
inductive FaultFamily where
  | invalidInput | unsupportedShape | nestedContainer | cyclicType | duplicateRegistration
  | nameCollision | breach
  deriving DecidableEq, Repr

def FaultFamily.ofInput : List FaultFamily :=
  [invalidInput, unsupportedShape, nestedContainer, cyclicType, nameCollision]

def Fault.family : Fault → FaultFamily
  | invalidAffix _ | invalidPackage _ | emptyVersion | noRoot | notComposite _ | notClass _
  | unresolved .. | illegalFieldName _ => .invalidInput
  | unsupported .. | noElementType .. | noMapTypes .. | unsupportedElement .. | emptyEnum _ =>
    .unsupportedShape
  | nestedContainer .. => .nestedContainer
  | cycle .. => .cyclicType
  | alreadyRegistered .. => .duplicateRegistration
  | nameClash .. => .nameCollision
  | outsideMessage _ | nothingOpen | unregistered _ | unknownField _ | notOnTrail _ | unkeyable _
  | noAttribute .. | raised _ | outOfRoom => .breach

theorem Fault.isReported_eq_false_iff {fault : Fault} :
    fault.isReported = false ↔ fault.family = .breach := by
  cases fault <;> simp [isReported, family]

theorem Fault.not_ofInput {fault : Fault} (h : fault.isReported = false) :
    fault.family ∉ FaultFamily.ofInput := by
  rw [isReported_eq_false_iff.mp h]
  decide

namespace Model

inductive Undescribable (M : Model) (c : ClassRef) : Fault → Prop
  | unresolved {e} : M.FirstUnresolved (M.declarations c) e → Undescribable M c (unresolvedFault c e)
  | unsupported {name why} : Undescribable M c (.unsupported (M.simpleName c) name why)
  | unknownField {types name} : M.resolvedFields c = .ok types → name ∈ M.fieldNames c types →
      name ∉ types.map Prod.fst → Undescribable M c (.unknownField name)

variable {M : Model} {c : ClassRef} {fault : Fault} {e : Raised}

theorem describeField_error {name : String} {t : TypeExpr}
    (h : M.describeField (.cls c) name t = .error fault) :
    ∃ why, fault = .unsupported (M.simpleName c) name why := by
  unfold describeField at h
  split at h
  next => cases h
  next why _ =>
    cases h
    exact ⟨why, rfl⟩

theorem describeFields_error {types : List (String × TypeExpr)} {names : List String}
    (h : M.describeFields c types names = .error fault) :
    (∃ name why, fault = .unsupported (M.simpleName c) name why) ∨
      ∃ name ∈ names, name ∉ types.map Prod.fst ∧ fault = .unknownField name := by
  induction names with
  | nil => cases h
  | cons name names ih =>
      unfold describeFields at h
      split at h
      next hn =>
        cases h
        refine Or.inr ⟨name, List.mem_cons_self, ?_, rfl⟩
        intro hmem
        obtain ⟨e, he, rfl⟩ := List.mem_map.mp hmem
        exact bne_iff_ne.mp (List.lookup_eq_none_iff.mp hn e he) rfl
      next t _ =>
        rcases bind_eq_error.mp h with h | ⟨f, _, h⟩
        · obtain ⟨why, hwhy⟩ := describeField_error h
          exact Or.inl ⟨name, why, hwhy⟩
        · rcases bind_eq_error.mp h with h | ⟨_, _, h⟩
          · exact (ih h).imp_right fun ⟨n, hn, hx⟩ => ⟨n, List.mem_cons_of_mem _ hn, hx⟩
          · cases h

theorem describeClass_error (h : M.describeClass c = .error fault) :
    M.isEnumClass c = false ∧ M.Undescribable c fault := by
  unfold describeClass at h
  split at h
  next => cases h
  next he =>
    refine ⟨by simpa using he, ?_⟩
    split at h
    next e hr =>
      cases h
      exact .unresolved (resolvedFields_error_iff.mp hr)
    next types ht =>
      rcases bind_eq_error.mp h with h | ⟨_, _, h⟩
      · rcases describeFields_error h with ⟨name, why, rfl⟩ | ⟨name, hname, hnot, rfl⟩
        · exact .unsupported
        · exact .unknownField ht hname hnot
      · cases h

theorem describeClass_of_unresolved (he : M.isEnumClass c = false)
    (h : M.FirstUnresolved (M.declarations c) e) : M.describeClass c = .error (unresolvedFault c e) := by
  rw [describeClass, if_neg (Bool.eq_false_iff.mp he), resolvedFields_error_iff.mpr h]

/-- The first exception of resolving the annotations of the class is of neither a name nor a type. -/
structure BreaksOff (M : Model) (c : ClassRef) (e : Raised) : Prop where
  notEnum : M.isEnumClass c = false
  first : M.FirstUnresolved (M.declarations c) e
  notName : e.isA "NameError" = false
  notType : e.isA "TypeError" = false

theorem unresolvedFault_cases (c : ClassRef) (e : Raised) :
    (e.isA "NameError" = true ∨ e.isA "TypeError" = true) ∧ unresolvedFault c e = .unresolved c e ∨
      (e.isA "NameError" = false ∧ e.isA "TypeError" = false) ∧ unresolvedFault c e = .raised e := by
  unfold unresolvedFault
  split
  next h => exact Or.inl ⟨by simpa using h, rfl⟩
  next h => exact Or.inr ⟨by simpa using h, rfl⟩

theorem BreaksOff.describeClass (h : M.BreaksOff c e) : M.describeClass c = .error (.raised e) := by
  rw [describeClass_of_unresolved h.notEnum h.first, unresolvedFault, h.notName, h.notType]
  rfl

theorem describeClass_family (hM : M.ClosedLineages) (h : M.describeClass c = .error fault) :
    (∃ e, M.BreaksOff c e ∧ fault = .raised e) ∨ fault.family ∈ FaultFamily.ofInput := by
  obtain ⟨he, hf⟩ := describeClass_error h
  cases hf with
  | unresolved hf =>
      rcases unresolvedFault_cases c _ with ⟨_, hu⟩ | ⟨⟨hname, htype⟩, hu⟩
      · exact Or.inr (hu ▸ List.mem_cons_self)
      · exact Or.inl ⟨_, ⟨he, hf, hname, htype⟩, hu⟩
  | unsupported => exact Or.inr (by simp [Fault.family, FaultFamily.ofInput])
  | unknownField ht hname hnot => exact absurd (fieldNames_typed hM ht _ hname) hnot

end Model

namespace Compiler

variable {M : Model} {o : Options} {root : ClassRef} {fault : Fault} {t : TypeExpr}

theorem checkRoot_error (h : checkRoot M t = .error fault) :
    fault = .noRoot ∨ fault = .notComposite t := by
  unfold checkRoot at h
  split at h
  next =>
    cases h
    exact Or.inl rfl
  next =>
    split_ifs at h
    cases h
    exact Or.inr rfl

theorem compile_fault (h : compile M o t = .error fault) :
    (fault = .noRoot ∨ fault = .notComposite t) ∨ ∃ root, t = .cls root ∧ Cause M o root fault := by
  rcases bind_eq_error.mp h with hroot | ⟨_, hroot, _⟩
  · exact Or.inl (checkRoot_error hroot)
  · obtain ⟨root, rfl, hcomp⟩ := checkRoot_ok hroot
    exact Or.inr ⟨root, rfl, compile_error hcomp h⟩

theorem Cause.family (h : Cause M o root fault) :
    (∃ c, M.Reachable root c ∧ M.describeClass c = .error fault) ∨
      fault.family ∈ FaultFamily.ofInput := by
  cases h with
  | undescribed hc hx => exact Or.inl ⟨_, hc, hx⟩
  | _ => exact Or.inr (by simp [Fault.family, FaultFamily.ofInput])

/-- Where the references of every reachable class resolve, a compilation fails for its input alone. -/
theorem compile_error_ofInput (hM : M.ClosedLineages)
    (hresolved : ∀ root c, t = .cls root → M.Reachable root c → ∃ types, M.resolvedFields c = .ok types)
    (h : compile M o t = .error fault) : fault.family ∈ FaultFamily.ofInput := by
  rcases compile_fault h with (rfl | rfl) | ⟨root, rfl, hcause⟩
  · exact List.mem_cons_self
  · exact List.mem_cons_self
  · rcases hcause.family with ⟨c, hc, hx⟩ | hfamily
    · refine (Model.describeClass_family hM hx).resolve_left ?_
      rintro ⟨e, hb, _⟩
      obtain ⟨types, ht⟩ := hresolved root c rfl hc
      rw [Model.resolvedFields_error_iff.mpr hb.first] at ht
      cases ht
    · exact hfamily

def colorless : Model where
  classes := [
    { name := "Color", body := .enumeration .distinct [] },
    { name := "Item", body := .record .dataclass [] [("color", .cls (.declared 0))] }]

theorem colorless_error_ofInput : colorless.ClosedLineages ∧
    (∀ root c, TypeExpr.cls (.declared 1) = .cls root → colorless.Reachable root c →
      ∃ types, colorless.resolvedFields c = .ok types) ∧
    compile colorless default (.cls (.declared 1)) = .error (.emptyEnum "GrpcColor") ∧
    (Fault.emptyEnum "GrpcColor").family ∈ FaultFamily.ofInput := by
  have hM : colorless.ClosedLineages := by decide
  have hresolved : ∀ root c, TypeExpr.cls (.declared 1) = .cls root → colorless.Reachable root c →
      ∃ types, colorless.resolvedFields c = .ok types := by
    rintro root c hroot hc
    cases hroot
    have hmem : c ∈ [.declared 0, .declared 1] := hc.mem (by decide) (by decide)
    rcases List.mem_pair.mp hmem with rfl | rfl
    · exact ⟨_, rfl⟩
    · exact ⟨_, rfl⟩
  have h : compile colorless default (.cls (.declared 1)) = .error (.emptyEnum "GrpcColor") := by
    with_unfolding_all rfl
  exact ⟨hM, hresolved, h, compile_error_ofInput hM hresolved h⟩

theorem describe_unreported_iff (hM : M.ClosedLineages) :
    M.describe t = .error fault ∧ fault.isReported = false ↔
      ∃ c e, t = .cls c ∧ M.BreaksOff c e ∧ fault = .raised e := by
  constructor
  · rintro ⟨h, hf⟩
    cases t with
    | cls c =>
        obtain ⟨e, hb, rfl⟩ := (Model.describeClass_family hM h).resolve_right (Fault.not_ofInput hf)
        exact ⟨c, e, rfl, hb, rfl⟩
    | _ =>
        cases h
        cases hf
  · rintro ⟨c, e, rfl, hb, rfl⟩
    exact ⟨hb.describeClass, rfl⟩

theorem compile_unreported_iff (hM : M.ClosedLineages) (h : compile M o t = .error fault) :
    fault.isReported = false ↔
      ∃ root c e, t = .cls root ∧ M.Reachable root c ∧ M.BreaksOff c e ∧ fault = .raised e := by
  constructor
  · intro hf
    rcases compile_fault h with (rfl | rfl) | ⟨root, rfl, hcause⟩
    · cases hf
    · cases hf
    · obtain ⟨c, hc, hx⟩ := hcause.family.resolve_right (Fault.not_ofInput hf)
      obtain ⟨e, hb, rfl⟩ := (Model.describeClass_family hM hx).resolve_right (Fault.not_ofInput hf)
      exact ⟨root, c, e, rfl, hc, hb, rfl⟩
  · rintro ⟨root, c, e, _, _, _, rfl⟩
    rfl

/-- Exactly the exceptions of neither a name nor a type go unreported. All others of resolving the
annotations of a class are told as a fault of it. -/
theorem unreported_iff (hM : M.ClosedLineages) (o : Options) (t : TypeExpr) (fault : Fault) :
    (M.describe t = .error fault ∧ fault.isReported = false ↔
        ∃ c e, t = .cls c ∧ M.BreaksOff c e ∧ fault = .raised e) ∧
      (compile M o t = .error fault →
        (fault.isReported = false ↔
          ∃ root c e, t = .cls root ∧ M.Reachable root c ∧ M.BreaksOff c e ∧ fault = .raised e)) ∧
      ∀ c e, t = .cls c → M.isEnumClass c = false → M.FirstUnresolved (M.declarations c) e →
        (∃ d ∈ M.declarations c, M.evaluator.Raises d.1 e) ∧
          (M.BreaksOff c e ∧ M.describe t = .error (.raised e) ∨
            (e.isA "NameError" = true ∨ e.isA "TypeError" = true) ∧
              M.describe t = .error (.unresolved c e)) := by
  refine ⟨describe_unreported_iff hM, compile_unreported_iff hM, ?_⟩
  rintro c e rfl he hfirst
  refine ⟨hfirst.raises, ?_⟩
  rcases Model.unresolvedFault_cases c e with ⟨hkind, hu⟩ | ⟨⟨hname, htype⟩, _⟩
  · exact Or.inr ⟨hkind, hu ▸ Model.describeClass_of_unresolved he hfirst⟩
  · have hb : M.BreaksOff c e := ⟨he, hfirst, hname, htype⟩
    exact Or.inl ⟨hb, hb.describeClass⟩

def misspelt : Model where
  classes := [{ name := "Holder", body := .record .plain [] [("item", .text "a b")] }]

theorem misspelt_unreported : misspelt.ClosedLineages ∧
    misspelt.describe (.cls (.declared 0)) = .error (.raised (Names.malformed "a b")) ∧
    compile misspelt default (.cls (.declared 0)) = .error (.raised (Names.malformed "a b")) ∧
    (Names.malformed "a b").kind = "SyntaxError" ∧
    (Fault.raised (Names.malformed "a b")).isReported = false ∧
    ∃ root c e, TypeExpr.cls (.declared 0) = .cls root ∧ misspelt.Reachable root c ∧
      misspelt.BreaksOff c e ∧ Fault.raised (Names.malformed "a b") = .raised e := by
  have hM : misspelt.ClosedLineages := by decide
  obtain ⟨_, hcompile, _⟩ :=
    unreported_iff hM default (.cls (.declared 0)) (.raised (Names.malformed "a b"))
  exact ⟨hM, rfl, rfl, rfl, rfl, (hcompile rfl).mp rfl⟩

theorem not_always_reported :
    ¬ ∀ (M : Model) (t : TypeExpr) (fault : Fault), M.ClosedLineages → M.describe t = .error fault →
      fault.isReported = true := by
  intro hall
  have h := hall misspelt (.cls (.declared 0)) (.raised (Names.malformed "a b")) (by decide) rfl
  exact Bool.false_ne_true h

end Compiler

end ClassSchema
