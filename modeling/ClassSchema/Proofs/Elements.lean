import ClassSchema.Proofs.Traversal

namespace ClassSchema

namespace Compiler

open Compiling

variable {M : Model} {o : Options} {root c d e : ClassRef} {path : List ClassRef} {ps : List Piece}
  {pending : List OpenMessage} {s : Progress} {f : Field} {t : TypeExpr}
  {nested : TypeExpr → Compiling String} {enter : List Piece → ClassRef → List Piece}

theorem typeName?_of_isAny (h : t.isAny = true) : typeName? M o root t = none := by
  simp [typeName?, h]

theorem typeName?_of_keyword {keyword : String} (hany : t.isAny = false) (h : t.keyword? = some keyword) :
    typeName? M o root t = some keyword := by
  simp [typeName?, hany, h]

theorem typeName?_cls (hany : (TypeExpr.cls c).isAny = false) (h : (TypeExpr.cls c).keyword? = none) :
    typeName? M o root (.cls c) = some (className M o root c) := by
  simp [typeName?, hany, h, TypeExpr.class?]

theorem meetClass_ends {α : Type} {rest : Compiling α} {post : α → Progress → Prop}
    (hway : M.Way root (c :: path)) (h : At M o root (c :: path) ps pending s)
    (hn : Nests M o root nested enter (c :: path)) (hr : M.Refers c d) (hd : d ∉ c :: path)
    (hrest : ∀ s', Advances M o root (c :: path) [] ps pending
        (fun ps' => ps' = meet M enter ps (.cls d) ∧ .message d ∈ parts ps') s' →
      Ends rest s' post (Fails M o root (c :: path))) :
    Ends (do if !(← isRegistered (.cls d)) then discard (nested (.cls d))
             rest) s post (Fails M o root (c :: path)) := by
  have hpart := Model.part?_composite hr.2
  apply Ends.bind
  apply isRegistered_ends
  by_cases hreg : s.registry.contains (.cls d) = true
  · rw [hreg]
    have hst := ((h.contains_cls d).mp hreg).stands hd
    exact hrest s ⟨ps, .refl, h, (meet_of_stands hst).symm, hst _ hpart⟩
  · have hnew : .message d ∉ parts ps := fun hmem =>
      hreg ((h.contains_cls d).mpr (met_of_mem hpart hmem))
    rw [Bool.not_eq_true] at hreg
    rw [hreg]
    rw [meet_new hr.2 hnew] at hrest
    exact (Ends.discard (hn d ps pending s (.into hway hr hd) hnew h)).andThen (fun _ => hrest)

theorem elementName_ends (hroot : M.isComposite root = true) (hway : M.Way root (c :: path))
    (h : At M o root (c :: path) ps pending s) (hn : Nests M o root nested enter (c :: path))
    (hf : f ∈ M.fieldsOf c) (hu : f.Uses t) :
    Ends (elementName M o nested f t) s
      (fun name? s' => name? = typeName? M o root t ∧ t.isElement = true ∧
        Advances M o root (c :: path) [] ps pending
          (fun ps' => ps' = meet M enter ps t ∧ M.Stands ps' t) s')
      (Fails M o root (c :: path)) := by
  have hc : M.Reachable root c := hway.reachable c List.mem_cons_self
  unfold elementName
  by_cases hcont : t.containerShape?.isSome = true
  · rw [if_pos hcont]
    exact failField_ends hf h.trail (Cause.nestedContainer hc hf hu hcont)
  rw [if_neg hcont]
  by_cases hany : t.isAny = true
  · rw [if_pos hany]
    refine Ends.of_pure ⟨(typeName?_of_isAny hany).symm, by simp [TypeExpr.isElement, hany], ?_⟩
    have hst : M.Stands ps t := .of_none (Model.part?_of_scalar (Or.inl hany)) ps
    exact ⟨ps, .refl, h, (meet_of_stands hst).symm, hst⟩
  rw [if_neg hany]
  rw [Bool.not_eq_true] at hany
  cases hkey : t.keyword? with
  | some keyword =>
      have hscalar : t.isScalar = true := by simp [TypeExpr.isScalar, hkey]
      refine Ends.of_pure ⟨(typeName?_of_keyword hany hkey).symm, by simp [TypeExpr.isElement, hscalar], ?_⟩
      have hst : M.Stands ps t := .of_none (Model.part?_of_scalar (Or.inr hscalar)) ps
      exact ⟨ps, .refl, h, (meet_of_stands hst).symm, hst⟩
  | none =>
      have hscalar : t.isScalar = false := by simp [TypeExpr.isScalar, hkey]
      have hel (hclass : t.isClass = true) : t.isElement = true := by
        simpa [TypeExpr.isElement, hclass] using Or.inr hcont
      by_cases he : M.isEnum t = true
      · obtain ⟨e, rfl⟩ := TypeExpr.exists_of_isClass (Model.isClass_of_isEnum he)
        rw [typeName?_cls hany hkey]
        simp only [he, if_true]
        refine (ensureEnum_ends enter hroot hway h he ⟨f, hf, hu⟩).andThen ?_
        rintro _ s' ⟨rfl, hadv⟩
        exact Ends.of_pure ⟨rfl, hel rfl, hadv⟩
      · by_cases hclass : t.isClass = true
        · obtain ⟨d, rfl⟩ := TypeExpr.exists_of_isClass hclass
          have hd : M.isComposite d = true := by
            simp_all [Model.isComposite, Model.isEnum]
          rw [typeName?_cls hany hkey]
          simp only [he, hclass]
          refine (checkCycle_ends hway h hf hu hd).andThen ?_
          rintro _ _ ⟨rfl, hout⟩
          refine meetClass_ends hway h hn ⟨⟨f, hf, hu⟩, hd⟩ hout ?_
          rintro s' ⟨ps', hgrown, h', hmeet, hmem⟩
          have hmet : Met M (c :: path) ps' d := met_of_mem (Model.part?_composite hd) hmem
          refine Ends.bind (registeredName_ends (h'.registry.nameOf_cls hmet) ?_)
          exact Ends.of_pure ⟨rfl, hel rfl, ps', hgrown, h', hmeet, hmet.stands hout⟩
        · rw [Bool.not_eq_true] at hclass
          simp only [he, hclass, Bool.not_false, if_true, Bool.false_eq_true, if_false]
          have hel : t.isElement = false := by simp [TypeExpr.isElement, hany, hscalar, hclass]
          exact failField_ends hf h.trail (Cause.unsupportedElement hc hf hu hel)

theorem operandType?_of_unwrap {e : TypeExpr} (h : e.unwrap = .ok t) :
    operandType? M o root (some e) = typeName? M o root t := by
  simp [operandType?, h, Except.toOption]

theorem resolveElement_ends {operand : Option TypeExpr} (hroot : M.isComposite root = true)
    (hway : M.Way root (c :: path)) (h : At M o root (c :: path) ps pending s)
    (hn : Nests M o root nested enter (c :: path)) (hf : f ∈ M.fieldsOf c) (ho : operand ∈ f.operands) :
    Ends (resolveElement M o nested f operand) s
      (fun name? s' => name? = operandType? M o root operand ∧
        Advances M o root (c :: path) [] ps pending
          (fun ps' => ps' = meetOperand M enter ps operand ∧ M.Resolved ps' operand) s')
      (Fails M o root (c :: path)) := by
  have hc : M.Reachable root c := hway.reachable c List.mem_cons_self
  cases operand with
  | none => exact failField_ends hf h.trail (Cause.noElementType hc hf ho)
  | some e =>
      simp only [resolveElement]
      cases hu : e.unwrap with
      | error why => exact failField_ends hf h.trail (Cause.unsupported hc hf ho hu)
      | ok t =>
          rw [operandType?_of_unwrap hu]
          refine (elementName_ends hroot hway h hn hf ⟨e, ho, hu⟩).mono ?_ (fun _ _ h => h)
          rintro name? s' ⟨hname, hel, ps', hgrown, h', hmeet, hst⟩
          rw [← meetOperand_of_unwrap hu] at hmeet
          exact ⟨hname, ps', hgrown, h', hmeet, e, t, rfl, hu, hel, hst⟩

theorem writeEntry_ends (h : At M o root (c :: path) ps pending s) (hc : M.Reachable root c)
    (hf : f ∈ M.fieldsOf c) (hm : f.shape = .map) (hnew : .entry c f.name ∉ parts ps)
    (hres : ∀ operand ∈ f.operands, M.Resolved ps operand) :
    Ends (onDraft (Draft.emitEntry (Name.entryName (messageName M o root c) f.name)
        (operandType? M o root f.key) (operandType? M o root f.element))) s
      (fun _ s' => At M o root (c :: path) (.entry c f :: ps) pending s') (Fails M o root (c :: path)) := by
  have hneeds : M.Needs root (.entry c f.name) := ⟨hc, f, hf, hm, rfl⟩
  have hnoMessage (d : ClassRef) : (Piece.entry c f).part ≠ .message d := by simp [Piece.part]
  refine onDraft_ends ((Draft.emitEntry_ends h.draft _ _ _).mono ?_ ?_)
  · rintro _ d ⟨hd, hb, hp⟩
    refine h.write hnew hneeds ⟨hf, hm, hres⟩ ?_ hd hb (hp.trans h.pending) hnoMessage ?_
    · exact h.registry.congr (fun d => (met_cons.trans (or_iff_right Model.part?_ne_entry)).symm)
    · rintro d name hx
      cases hx
      exact List.mem_cons_self
  · intro fault d hcl
    exact ⟨h.trail, cause_of_clashes h.blocks h.sound hneeds hnew (by simp [partNames]) hcl⟩

theorem buildEntry_ends (hroot : M.isComposite root = true) (hway : M.Way root (c :: path))
    (h : At M o root (c :: path) ps pending s) (hn : Nests M o root nested enter (c :: path))
    (hf : f ∈ M.fieldsOf c) (hm : f.shape = .map) (hnew : .entry c f.name ∉ parts ps) :
    Ends (buildEntry M o nested f) s
      (fun name s' => name = Name.entryName (messageName M o root c) f.name ∧
        Advances M o root (c :: path) [.entry c f.name] ps pending
          (fun ps' => ps' = meetField M enter c ps f ∧ .entry c f.name ∈ parts ps' ∧
            ∀ operand ∈ f.operands, M.Resolved ps' operand) s')
      (Fails M o root (c :: path)) := by
  have hc : M.Reachable root c := hway.reachable c List.mem_cons_self
  have hops := Field.operands_of_map hm
  have hkey : f.key ∈ f.operands := by simp [hops]
  have helement : f.element ∈ f.operands := by simp [hops]
  unfold buildEntry
  cases hk : f.key with
  | none => exact failField_ends hf h.trail (Cause.noMapTypes hc hf hm (hk ▸ hkey))
  | some k =>
      rw [Option.isNone_some, if_neg Bool.false_ne_true, ← hk]
      refine (resolveElement_ends hroot hway h hn hf hkey).andThen ?_
      rintro _ s₁ ⟨rfl, ps₁, hgrown₁, h₁, hmeet₁, hres₁⟩
      refine (resolveElement_ends hroot hway h₁ hn hf helement).andThen ?_
      rintro _ s₂ ⟨rfl, ps₂, hgrown₂, h₂, hmeet₂, hres₂⟩
      have hgrown : Grown (c :: path) [] ps ps₂ := hgrown₁.trans hgrown₂
      have hres : ∀ operand ∈ f.operands, M.Resolved ps₂ operand := by
        rw [hops]
        simp only [List.forall_mem_cons]
        exact ⟨hres₁.mono hgrown₂.suffix, hres₂, fun _ hx => absurd hx List.not_mem_nil⟩
      -- Neither the key nor the values bring an entry of this class, which is still open.
      have hnew₂ : .entry c f.name ∉ parts ps₂ := fun hp =>
        hnew ((hgrown.entries c List.mem_cons_self _ hp).resolve_right List.not_mem_nil)
      have hmet : Met M (c :: path) ps₂ c := Or.inl List.mem_cons_self
      rw [Model.owner_of_field hf]
      refine Ends.bind (registeredName_ends (h₂.registry.nameOf_cls hmet) ?_)
      rw [className_of_composite (hway.composite hroot c List.mem_cons_self)]
      refine (writeEntry_ends h₂ hc hf hm hnew₂ hres).andThen ?_
      intro _ s₃ h₃
      refine Ends.of_pure ⟨rfl, .entry c f :: ps₂, ?_, h₃, ?_, List.mem_cons_self, ?_⟩
      · exact (hgrown.mono (List.nil_subset _)).cons (fun _ _ _ _ => List.mem_singleton_self _)
      · simp only [meetField, hm, hops, if_true, List.foldl_cons, List.foldl_nil, ← hmeet₁, ← hmeet₂]
      · exact fun operand ho => (hres operand ho).mono (List.suffix_cons _ _)

end Compiler

end ClassSchema
