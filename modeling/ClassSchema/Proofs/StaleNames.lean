import ClassSchema.Proofs.ElementPath
import ClassSchema.Proofs.Frames

namespace ClassSchema

theorem Registry.register_new {r : Registry} {c : ClassRef} (h : r.contains (.cls c) = false)
    (path name : String) : r.register (.cls c) path name = .ok ⟨(.cls c, ⟨path, name⟩) :: r.entries⟩ := by
  rw [contains, TypeExpr.isKey_cls, Bool.true_and, Option.isSome_eq_false_iff, Option.isNone_iff_eq_none] at h
  simp only [register, TypeExpr.unkeyable?_cls, h]

def Draft.RefusesEnum (d : Draft) (name : String) (constants : List String) (fault : Fault) : Prop :=
  constants = [] ∧ fault = .emptyEnum name ∨ Refusal d [.enum name constants] fault

namespace Compiler

open Compiling Trail

variable {M : Model} {o : Options} {s s' : Progress} {c : ClassRef} {f : Field} {e : RegistryEntry}
  {moves : List Move} {nested : TypeExpr → Compiling String}

theorem isRegistered_of_get? (h : s.registry.get? (.cls c) = some e) :
    isRegistered (.cls c) s = .ok true s := by
  apply Ends.eq_ok
  apply isRegistered_ends
  simp [Registry.contains, TypeExpr.isKey_cls, h]

theorem registeredName_of_get? (h : s.registry.get? (.cls c) = some e) :
    registeredName (.cls c) s = .ok e.name s := by
  apply Ends.eq_ok
  refine registeredName_ends ?_ ⟨rfl, rfl⟩
  simp only [Registry.nameOf, Registry.entry, TypeExpr.unkeyable?_cls, h]
  rfl

theorem ensureEnum_of_get? (h : s.registry.get? (.cls c) = some e) :
    ensureEnum M o (.cls c) s = .ok e.name s := by
  rw [ensureEnum, run_bind (isRegistered_of_get? h), if_pos rfl, registeredName_of_get? h]

theorem elementName_of_get? (he : M.isEnumClass c = true) (h : s.registry.get? (.cls c) = some e) :
    elementName M o nested f (.cls c) s = .ok (some e.name) s := by
  rw [elementName_enum he, run_bind (ensureEnum_of_get? h)]
  rfl

theorem classifyField_of_get? (hs : f.shape = .enum) (hd : f.declared = .cls c)
    (h : s.registry.get? (.cls c) = some e) (ordinal : Int) :
    classifyField M o nested f ordinal s =
      onDraft (Draft.emitField Multiplicity.optional (some e.name) f.name ordinal) s := by
  have hknown : knownName? (.cls c) s = .ok (some e.name) s := by
    rw [knownName?, run_bind (isRegistered_of_get? h), if_pos rfl, run_bind (registeredName_of_get? h)]
    rfl
  unfold classifyField
  simp only [hs, hd, reduceCtorEq, if_false, decide_false, Bool.false_or]
  rw [run_bind (isRegistered_of_get? h), if_pos rfl, run_bind hknown]

/-- The enum has a name in this state: references to it are given the name, and no block is written
for them. -/
structure Answers (M : Model) (o : Options) (c : ClassRef) (name : String) (s : Progress) : Prop where
  ensured : ensureEnum M o (.cls c) s = .ok name s
  element : ∀ nested f, elementName M o nested f (.cls c) s = .ok (some name) s
  field : ∀ nested f ordinal, f.shape = .enum → f.declared = .cls c →
    classifyField M o nested f ordinal s =
      onDraft (Draft.emitField Multiplicity.optional (some name) f.name ordinal) s

theorem answers_of_get? (he : M.isEnumClass c = true) (h : s.registry.get? (.cls c) = some e) :
    Answers M o c e.name s where
  ensured := ensureEnum_of_get? h
  element := fun _ _ => elementName_of_get? he h
  field := fun _ _ ordinal hs hd => classifyField_of_get? hs hd h ordinal

/-- The enum alone has been registered since, and has its name in every state that keeps what is
registered. -/
structure Remembers (M : Model) (o : Options) (c : ClassRef) (name : String) (s s' : Progress) :
    Prop where
  registered : ∃ path, (entered (.cls c) s).trail.path M = .ok path ∧
    s'.registry = ⟨(.cls c, ⟨path, name⟩) :: s.registry.entries⟩
  answers : ∀ later : Progress,
    (∀ t e, s'.registry.get? t = some e → later.registry.get? t = some e) → Answers M o c name later

theorem Remembers.of_entries (he : M.isEnumClass c = true) {path name : String}
    (hpath : (entered (.cls c) s).trail.path M = .ok path)
    (hr : s'.registry = ⟨(.cls c, ⟨path, name⟩) :: s.registry.entries⟩) : Remembers M o c name s s' where
  registered := ⟨path, hpath, hr⟩
  answers := by
    intro later hlater
    refine answers_of_get? he (hlater (.cls c) ⟨path, name⟩ ?_)
    rw [hr, Registry.get?, List.find?_cons_of_pos (by simp [TypeExpr.same_cls])]
    rfl

theorem registerEnum_ends (hs : Faithful s.trail) (hnew : s.registry.contains (.cls c) = false)
    (name : String) :
    Ends (within (.cls c) (registerHere M (.cls c) name)) s
      (fun _ s' => s'.draft = s.draft ∧ Returns s.trail s'.trail ∧
        ∃ path, (entered (.cls c) s).trail.path M = .ok path ∧
          s'.registry = ⟨(.cls c, ⟨path, name⟩) :: s.registry.entries⟩)
      (fun fault s' => s'.draft = s.draft ∧ Returns s.trail s'.trail ∧
        (entered (.cls c) s).trail.path M = .error fault ∧ s'.registry = s.registry) := by
  have hreturns : Returns s.trail (left (entered (.cls c) s)).trail := Returns.nest (.cls c) (.refl _)
  refine within_key_ends (t := .cls c) hs
    ((registerHere_attempt (.cls c) name (entered (.cls c) s)).mono ?_ ?_)
  · rintro _ _ ⟨path, r, hpath, hr, rfl⟩
    have hr' : s.registry.register (.cls c) path name = .ok r := hr
    rw [Registry.register_new hnew] at hr'
    exact ⟨.refl _, rfl, hreturns, path, hpath, (Except.ok.inj hr').symm⟩
  · rintro fault _ ⟨rfl, hpath | ⟨path, _, hr⟩⟩
    · exact ⟨.refl _, rfl, hreturns, hpath, rfl⟩
    · have hr' : s.registry.register (.cls c) path name = .error fault := hr
      rw [Registry.register_new hnew] at hr'
      cases hr'

/-- An enum that is not registered yet gets a block, or nothing is written. Its name stays in the
registry even then, unless the trail makes no path. -/
theorem ensureEnum_writes_or_refuses (hs : s.trail = Trail.run moves) (he : M.isEnumClass c = true)
    (hnew : s.registry.contains (.cls c) = false) :
    Ends (ensureEnum M o (.cls c)) s
      (fun name s' => name = Name.enumName (M.simpleName c) o.affix ∧ M.constants c ≠ [] ∧
        s.draft.claims.lookup name = none ∧
        s'.draft.blocks = s.draft.blocks ++ [.enum name (M.constants c)] ∧
        Trail.Alike s.trail s'.trail ∧ Remembers M o c name s s')
      (fun fault s' => s'.draft = s.draft ∧ Trail.Alike s.trail s'.trail ∧
        ((entered (.cls c) s).trail.path M = .error fault ∧ s'.registry = s.registry ∨
          s.draft.RefusesEnum (Name.enumName (M.simpleName c) o.affix) (M.constants c) fault ∧
            Remembers M o c (Name.enumName (M.simpleName c) o.affix) s s')) := by
  have hfaithful : Faithful s.trail := hs ▸ run_faithful moves
  have halike : ∀ {p : Trail}, Returns s.trail p → Trail.Alike s.trail p :=
    fun h => (hfaithful.returns h).2
  obtain ⟨d, hd, htype, hconstants⟩ := Model.describeClass_enum he
  apply Ends.bind
  apply isRegistered_ends
  simp only [hnew, Bool.false_eq_true, if_false, Model.describe, hd, fromResult_ok, htype, hconstants]
  refine Ends.andThen ((registerEnum_ends hfaithful hnew _).mono (fun _ _ h => h) ?_) ?_
  · rintro fault s' ⟨hdraft, hr, hpath, hregistry⟩
    exact ⟨hdraft, halike hr, Or.inl ⟨hpath, hregistry⟩⟩
  -- From here on the enum is registered, whatever becomes of its block.
  rintro _ s₁ ⟨hdraft, hr, path, hpath, hregistry⟩
  refine Ends.bind (onDraft_ends ((Draft.emitEnum_attempt s₁.draft _ _).mono ?_ ?_))
  · rintro _ e ⟨hne, _, hattempt⟩
    have hfree : s.draft.claims.lookup (Name.enumName (M.simpleName c) o.affix) = none := by
      refine Option.eq_none_iff_forall_ne_some.mpr fun k hk => ?_
      cases (hattempt.free _ (List.mem_singleton_self _) k (hdraft ▸ hk)).2
    exact Ends.of_pure
      ⟨rfl, hne, hfree, hdraft ▸ hattempt.blocks, halike hr, .of_entries he hpath hregistry⟩
  · rintro fault _ ⟨rfl, hrefused⟩
    exact ⟨hdraft, halike hr, Or.inr ⟨hdraft ▸ hrefused, .of_entries he hpath hregistry⟩⟩

def blank : Model where
  classes := [{ name := "Empty", body := .enumeration .distinct [] }]

theorem blank_remembers : ∃ fault s', ensureEnum blank default (.cls (.declared 0)) {} = .error fault s' ∧
    fault = .emptyEnum "GrpcEmpty" ∧ s'.draft = {} ∧
    Remembers blank default (.declared 0) "GrpcEmpty" {} s' := by
  have henum : blank.isEnumClass (.declared 0) = true := by decide
  have htrail : ({} : Progress).trail = Trail.run [] := rfl
  have hends := ensureEnum_writes_or_refuses (o := default) htrail henum rfl
  obtain ⟨fault, s', hrun, hfault⟩ : ∃ fault s',
      ensureEnum blank default (.cls (.declared 0)) {} = .error fault s' ∧ fault = .emptyEnum "GrpcEmpty" :=
    ⟨_, _, rfl, rfl⟩
  obtain ⟨hdraft, _, ⟨hpath, _⟩ | ⟨_, hremembers⟩⟩ := hends.of_error hrun
  · cases hpath
  · exact ⟨fault, s', hrun, hfault, hdraft, hremembers⟩

/-- The second time, the enum without members is no longer refused. -/
theorem not_always_forgotten : ¬ ∀ (M : Model) (o : Options) (c : ClassRef) (moves : List Move)
    (s s' : Progress) (fault : Fault), s.trail = Trail.run moves → M.isEnumClass c = true →
    s.registry.contains (.cls c) = false → ensureEnum M o (.cls c) s = .error fault s' →
      s'.registry = s.registry ∧ s'.draft.blocks = s.draft.blocks ∧
        ∃ fault' s'', ensureEnum M o (.cls c) s' = .error fault' s'' := by
  intro hall
  obtain ⟨fault, s', hrun, hstale⟩ : ∃ fault s', ensureEnum blank default (.cls (.declared 0)) {} =
      .error fault s' ∧ (s'.registry.get? (.cls (.declared 0))).isSome = true :=
    ⟨_, _, rfl, by decide +kernel⟩
  obtain ⟨e, hget⟩ := Option.isSome_iff_exists.mp hstale
  obtain ⟨-, -, fault', s'', hagain⟩ :=
    hall blank default (.declared 0) [] {} s' fault rfl (by decide) rfl hrun
  rw [ensureEnum_of_get? hget] at hagain
  cases hagain

end Compiler

end ClassSchema
