import ClassSchema.Proofs.Acceptance
import ClassSchema.Proofs.Faults

namespace ClassSchema

theorem Fault.nameIn_cls (M : Model) (c : ClassRef) : nameIn M (.cls c) = M.simpleName c := by
  simp [nameIn, Model.nameOf?]

theorem Fault.message_cycle (M : Model) (owner field : String) (d : ClassRef) (cs : List ClassRef) :
    (Fault.cycle owner field (.cls d) (cs.map .cls)).message M = owner ++ "." ++ field ++
      " refers back to " ++ M.simpleName d ++ " (" ++ " -> ".intercalate (cs.map M.simpleName) ++ ")" := by
  have hnames : (cs.map TypeExpr.cls).map (nameIn M) = cs.map M.simpleName := by
    rw [List.map_map]
    exact List.map_congr_left (fun c _ => nameIn_cls M c)
  rw [← hnames, ← nameIn_cls M d]
  unfold message
  rfl

namespace Model

variable {M : Model} {root c : ClassRef} {fault : Fault}

/-- A class that the root reaches leads back to itself. -/
def Cyclic (M : Model) (root : ClassRef) : Prop :=
  ∃ c, M.Reachable root c ∧ Relation.TransGen M.Refers c c

/-- The fault tells that the field `f` of the class `c` refers back to `d`, and names the classes
from `d` to `c`, each of which has a field that refers to the next one. -/
structure TellsCycle (M : Model) (c d : ClassRef) (f : Field) (inner : List ClassRef) (fault : Fault) :
    Prop where
  field : f ∈ M.fieldsOf c
  uses : f.Uses (.cls d)
  last : (d :: inner).getLast? = some c
  chain : (d :: inner ++ [d]).IsChain M.Refers
  told : fault = .cycle (M.simpleName c) f.name (.cls d) ((d :: inner ++ [d]).map .cls)
  text : fault.message M = M.simpleName c ++ "." ++ f.name ++ " refers back to " ++ M.simpleName d
    ++ " (" ++ " -> ".intercalate ((d :: inner ++ [d]).map M.simpleName) ++ ")"

theorem TellsCycle.returns {d : ClassRef} {f : Field} {inner : List ClassRef}
    (h : M.TellsCycle c d f inner fault) : Relation.TransGen M.Refers d d :=
  Compiler.transGen_of_isChain h.chain

theorem Undescribable.not_cyclicType (h : M.Undescribable c fault) : fault.family ≠ .cyclicType := by
  cases h with
  | unresolved =>
      rcases unresolvedFault_cases c _ with ⟨_, hu⟩ | ⟨_, hu⟩ <;> rw [hu] <;> simp [Fault.family]
  | unsupported | unknownField => simp [Fault.family]

def partsAmong (M : Model) (cs : List ClassRef) : List Part :=
  cs.map .message ++ (cs.filter M.isEnumClass).map .enumeration ++
    cs.flatMap (fun c => ((M.fieldsOf c).filter (·.shape = .map)).map (fun f => .entry c f.name))

theorem Needs.mem {p : Part} (h : M.Needs root p) {cs : List ClassRef} (hroot : root ∈ cs)
    (hcs : ∀ x ∈ cs, ∀ y ∈ M.mentioned x, y ∈ cs) : p ∈ M.partsAmong cs := by
  cases p with
  | message c =>
      have hc : c ∈ cs := Reachable.mem h hroot hcs
      exact List.mem_append_left _ (List.mem_append_left _ (List.mem_map_of_mem hc))
  | enumeration e =>
      obtain ⟨he, c, hc, hm⟩ := h
      have he : e ∈ cs.filter M.isEnumClass :=
        List.mem_filter.mpr ⟨hcs c (hc.mem hroot hcs) e hm.mem_mentioned, he⟩
      exact List.mem_append_left _ (List.mem_append_right _ (List.mem_map_of_mem he))
  | entry c name =>
      obtain ⟨hc, f, hf, hm, rfl⟩ := h
      refine List.mem_append_right _ (List.mem_flatMap.mpr ⟨c, hc.mem hroot hcs, ?_⟩)
      exact List.mem_map_of_mem (List.mem_filter.mpr ⟨hf, by simpa using hm⟩)

end Model

namespace Compiler

variable {M : Model} {o : Options} {root c : ClassRef} {fault : Fault} {t : TypeExpr}

theorem acceptable_iff : Acceptable M o root ↔ Supported M o root ∧ ¬ M.Cyclic root := by
  constructor
  · intro h
    refine ⟨h.supported, ?_⟩
    rintro ⟨c, hc, hr⟩
    exact h.acyclic c hc hr
  · rintro ⟨h, hacyclic⟩
    exact ⟨h.described, h.containers, fun c hc hr => hacyclic ⟨c, hc, hr⟩, h.constants, h.fieldNames,
      h.messageNames, h.apart⟩

theorem Cause.tellsCycle (h : Cause M o root fault) (hf : fault.family = .cyclicType) :
    ∃ c d f inner, M.Reachable root d ∧ M.TellsCycle c d f inner fault := by
  cases h with
  | undescribed _ hx => exact absurd hf (Model.describeClass_error hx).2.not_cyclicType
  | @cycle c f inner d hd hfield hu hlast hchain =>
      exact ⟨c, d, f, inner, hd, hfield, hu, hlast, hchain, rfl, Fault.message_cycle M _ _ d _⟩
  | _ => cases hf

/-- A compilation that tells of a cycle tells of one that is there. One that has nothing else to
fail for tells of a cycle wherever there is one. -/
theorem compile_cyclicType (M : Model) (o : Options) (t : TypeExpr) :
    (∀ fault, compile M o t = .error fault → fault.family = .cyclicType →
        ∃ root c d f inner, t = .cls root ∧ M.Cyclic root ∧ M.Reachable root d ∧
          M.TellsCycle c d f inner fault) ∧
      (∀ root, t = .cls root → M.isComposite root = true → Supported M o root → M.Cyclic root →
        ∃ fault, compile M o t = .error fault ∧ fault.family = .cyclicType) ∧
      ∀ root, t = .cls root → ¬ M.Cyclic root →
        ∀ fault, compile M o t = .error fault → fault.family ≠ .cyclicType := by
  have sound : ∀ fault, compile M o t = .error fault → fault.family = .cyclicType →
      ∃ root c d f inner, t = .cls root ∧ M.Cyclic root ∧ M.Reachable root d ∧
        M.TellsCycle c d f inner fault := by
    intro fault h hf
    rcases compile_fault h with (rfl | rfl) | ⟨root, rfl, hcause⟩
    · cases hf
    · cases hf
    · obtain ⟨c, d, f, inner, hd, htells⟩ := hcause.tellsCycle hf
      exact ⟨root, c, d, f, inner, rfl, ⟨d, hd, htells.returns⟩, hd, htells⟩
  refine ⟨sound, ?_, ?_⟩
  · rintro root rfl hroot hsupported hcyclic
    cases h : compile M o (.cls root) with
    | ok doc =>
        obtain ⟨_, ps, s, heq, _, hat, hmem, rfl⟩ := compile_ok h
        cases heq
        have hapart := hat.draft.apart
        rw [hat.blocks] at hapart
        exact absurd hcyclic (acceptable_iff.mp (hat.sound.acceptable hapart hmem)).2
    | error fault =>
        obtain ⟨owner, field, target, chain, rfl⟩ := hsupported.cycle_of_cause (compile_error hroot h)
        exact ⟨_, rfl, rfl⟩
  · rintro root rfl hacyclic fault h hf
    obtain ⟨_, _, _, _, _, heq, hcyclic, _⟩ := sound fault h hf
    cases heq
    exact hacyclic hcyclic

theorem Supported.of_closed (cs : List ClassRef) (hroot : root ∈ cs)
    (hclosed : ∀ x ∈ cs, ∀ y ∈ M.mentioned x, y ∈ cs)
    (hdescribed : ∀ c ∈ cs, (M.describeClass c).toOption.isSome = true)
    (hoperands : ∀ c ∈ cs, ∀ f ∈ M.fieldsOf c, ∀ operand ∈ f.operands,
      operand.any (fun e => e.unwrap.toOption.any TypeExpr.isElement) = true)
    (hconstants : ∀ c ∈ cs, M.isEnumClass c = true → M.constants c ≠ [])
    (hfields : ∀ c ∈ cs, ∀ f ∈ M.fieldsOf c, Name.sanitize f.name ≠ "")
    (hmessages : ∀ c ∈ cs, Name.sanitize (Name.lowerFirst (messageName M o root c)) ≠ "")
    (hapart : ∀ p ∈ M.partsAmong cs, ∀ q ∈ M.partsAmong cs, p ≠ q → p.kind ≠ .message →
      ∀ name ∈ partNames M o root p, name ∉ partNames M o root q) : Supported M o root where
  described := fun c hc => exists_of_isSome (hdescribed c (hc.mem hroot hclosed))
  containers := by
    intro c hc f hf _ operand ho
    have hany := hoperands c (hc.mem hroot hclosed) f hf operand ho
    obtain ⟨e, rfl, he⟩ := (Option.any_eq_true _ _).mp hany
    obtain ⟨t, ht, hel⟩ := exists_of_any he
    exact ⟨e, t, rfl, ht, hel⟩
  constants := by
    rintro e ⟨he, c, hc, hm⟩
    exact hconstants e (hclosed c (hc.mem hroot hclosed) e hm.mem_mentioned) he
  fieldNames := fun c hc => hfields c (hc.mem hroot hclosed)
  messageNames := fun c hc => hmessages c (hc.mem hroot hclosed)
  apart := fun p q hp hq => hapart p (hp.mem hroot hclosed) q (hq.mem hroot hclosed)

def kinship : Model where
  classes := [
    { name := "Parent", body := .record .dataclass []
        [("children", .subscript (.cls (.builtin .list)) [.cls (.declared 1)])] },
    { name := "Child", body := .record .dataclass [] [("parent", .cls (.declared 0))] }]

theorem kinship_supported : Supported kinship default (.declared 0) :=
  .of_closed [.declared 0, .declared 1] (by decide) (by decide) (by decide +kernel) (by decide +kernel)
    (by decide) (by decide +kernel) (by decide +kernel) (by decide +kernel)

theorem kinship_cyclic : kinship.Cyclic (.declared 0) := by
  have hchild : kinship.Refers (.declared 0) (.declared 1) := ⟨⟨_, .head _, _, .head _, rfl⟩, rfl⟩
  have hparent : kinship.Refers (.declared 1) (.declared 0) := ⟨⟨_, .head _, _, .head _, rfl⟩, rfl⟩
  exact ⟨.declared 0, .refl, .head hchild (.single hparent)⟩

theorem colorless_acyclic : ¬ colorless.Cyclic (.declared 1) := by
  rintro ⟨c, hc, hr⟩
  obtain ⟨d, hcd, _⟩ := Relation.TransGen.head'_iff.mp hr
  have hnone : ∀ x ∈ [ClassRef.declared 0, .declared 1], ∀ y ∈ colorless.mentioned x,
      colorless.isComposite y = false := by decide
  have hd := hnone c (hc.mem (by decide) (by decide)) d hcd.1.mem_mentioned
  rw [hcd.2] at hd
  cases hd

theorem kinship_cyclicType :
    (∃ fault, compile kinship default (.cls (.declared 0)) = .error fault ∧
      fault.family = .cyclicType ∧ ∃ root c d f inner, TypeExpr.cls (.declared 0) = .cls root ∧
        kinship.Cyclic root ∧ kinship.Reachable root d ∧ kinship.TellsCycle c d f inner fault) ∧
    compile colorless default (.cls (.declared 1)) = .error (.emptyEnum "GrpcColor") ∧
      (Fault.emptyEnum "GrpcColor").family ≠ .cyclicType := by
  obtain ⟨sound, complete, _⟩ := compile_cyclicType kinship default (.cls (.declared 0))
  obtain ⟨_, _, never⟩ := compile_cyclicType colorless default (.cls (.declared 1))
  obtain ⟨fault, h, hf⟩ := complete _ rfl (by decide) kinship_supported kinship_cyclic
  have hempty : compile colorless default (.cls (.declared 1)) = .error (.emptyEnum "GrpcColor") := by
    with_unfolding_all rfl
  exact ⟨⟨fault, h, hf, sound fault h hf⟩, hempty, never _ rfl colorless_acyclic _ hempty⟩

end Compiler

end ClassSchema
