import ClassSchema.Proofs.Coverage

namespace ClassSchema

/-- The type name is the fallback, a keyword, or one of the given names. -/
def ResolvesIn (names : List String) (type : String) : Prop :=
  type = defaultType ∨ (∃ t : TypeExpr, t.keyword? = some type) ∨ type ∈ names

theorem ResolvesIn.mono {names names' : List String} {type : String} (h : ResolvesIn names type)
    (hn : names ⊆ names') : ResolvesIn names' type :=
  h.imp_right (Or.imp_right (fun hm => hn hm))

/-- The type names of every block resolve in the names before it. -/
inductive Backward : List String → List Block → Prop
  | nil {names} : Backward names []
  | cons {names b bs} : (∀ l ∈ b.lines, ResolvesIn names l.type) → Backward (names ++ [b.name]) bs →
      Backward names (b :: bs)

namespace Backward

variable {names : List String} {bs bs' : List Block} {b : Block}

theorem append (h : Backward names bs) (h' : Backward (names ++ bs.map Block.name) bs') :
    Backward names (bs ++ bs') := by
  induction h with
  | nil => rwa [List.map_nil, List.append_nil] at h'
  | cons hb _ ih =>
      refine .cons hb (ih ?_)
      rwa [List.append_assoc, List.singleton_append, ← List.map_cons]

theorem middle (h : Backward names (bs ++ b :: bs')) :
    ∀ l ∈ b.lines, ResolvesIn (names ++ bs.map Block.name) l.type := by
  induction bs generalizing names with
  | nil =>
      cases h with
      | cons hb _ => rwa [List.map_nil, List.append_nil]
  | cons a bs ih =>
      cases h with
      | cons _ h =>
          rw [List.map_cons, ← List.singleton_append, ← List.append_assoc]
          exact ih h

end Backward

namespace Compiler

variable {M : Model} {o : Options} {root c : ClassRef} {ps : List Piece} {f : Field}

theorem name_mem_blocksOf {p : Part} {name : String} (hp : p ∈ parts ps)
    (hn : name ∈ partNames M o root p) : name ∈ (blocksOf M o root ps).map Block.name := by
  obtain ⟨q, hq, rfl⟩ := List.mem_map.mp hp
  rw [← pieceBlocks_names] at hn
  obtain ⟨b, hb, rfl⟩ := List.mem_map.mp hn
  exact List.mem_map_of_mem (mem_blocksOf.mpr ⟨q, hq, hb⟩)

theorem className_resolves (hel : (TypeExpr.cls c).isElement = true)
    (hany : (TypeExpr.cls c).isAny = false) (hkey : (TypeExpr.cls c).keyword? = none)
    (hst : M.Stands ps (.cls c)) : className M o root c ∈ (blocksOf M o root ps).map Block.name := by
  have hscalar : (TypeExpr.cls c).isScalar = false := by simp [TypeExpr.isScalar, hkey]
  by_cases he : M.isEnumClass c = true
  · rw [className_of_enum he]
    exact name_mem_blocksOf (hst _ (Model.part?_enum he)) (by simp [partNames])
  · have hc : M.isComposite c = true := by
      simpa [Model.isComposite, TypeExpr.isElement, hany, hscalar, he, TypeExpr.isClass] using hel
    rw [className_of_composite hc]
    exact name_mem_blocksOf (hst _ (Model.part?_composite hc)) (by simp [partNames])

theorem operandType?_resolves {operand : Option TypeExpr} (h : M.Resolved ps operand) :
    ResolvesIn ((blocksOf M o root ps).map Block.name)
      ((operandType? M o root operand).getD defaultType) := by
  obtain ⟨e, t, rfl, hu, hel, hst⟩ := h
  rw [operandType?_of_unwrap hu]
  by_cases hany : t.isAny = true
  · rw [typeName?_of_isAny hany]
    exact Or.inl rfl
  rw [Bool.not_eq_true] at hany
  cases hkey : t.keyword? with
  | some keyword =>
      rw [typeName?_of_keyword hany hkey]
      exact Or.inr (Or.inl ⟨t, hkey⟩)
  | none =>
      have hclass : t.isClass = true := by
        simp only [TypeExpr.isElement, TypeExpr.isScalar, hany, hkey, Option.isSome_none,
          Bool.false_or, Bool.and_eq_true] at hel
        exact hel.1
      obtain ⟨c, rfl⟩ := TypeExpr.exists_of_isClass hclass
      rw [typeName?_cls hany hkey]
      exact Or.inr (Or.inr (className_resolves hel hany hkey hst))

theorem fieldType?_resolves (h : Settled M ps c f) :
    ResolvesIn ((blocksOf M o root ps).map Block.name) ((fieldType? M o root c f).getD defaultType) := by
  cases hs : f.shape with
  | scalar | enum | composite | list | array | collection =>
      simp only [fieldType?, hs]
      exact operandType?_resolves (h.operands _ (by simp [Field.operands, hs]))
  | map =>
      simp only [fieldType?, hs, Option.getD_some]
      exact Or.inr (Or.inr (name_mem_blocksOf (h.entry hs) (by simp [partNames])))

theorem Filled.resolves {fs : List Field} {ls : List Line} (h : Filled M o root c fs ls ps) :
    ∀ l ∈ ls, ResolvesIn ((blocksOf M o root ps).map Block.name) l.type := by
  induction h with
  | none ps => exact fun l hl => absurd hl List.not_mem_nil
  | @field fs ls ps ps' f _ hs hf ih =>
      intro l hl
      rcases List.mem_append.mp hl with hl | hl
      · refine (ih l hl).mono (List.map_subset _ ?_)
        intro b hb
        rw [mem_blocksOf] at hb ⊢
        exact hb.imp (fun p hp => ⟨hs.subset hp.1, hp.2⟩)
      · rw [List.mem_singleton.mp hl]
        exact fieldType?_resolves hf

theorem Fits.backward {p : Piece} (h : Fits M o root ps p) :
    Backward ((blocksOf M o root ps).map Block.name) (pieceBlocks M o root p) := by
  cases p with
  | message c ls =>
      obtain ⟨_, x, _, hfill⟩ := h
      refine .cons hfill.resolves (.cons ?_ .nil)
      exact List.forall_mem_singleton.mpr (Or.inr (Or.inr (List.mem_append_right _ (List.mem_singleton_self _))))
  | enumeration e => exact .cons (fun l hl => absurd hl List.not_mem_nil) .nil
  | entry c f =>
      obtain ⟨_, hm, hres⟩ := h
      have hops := Field.operands_of_map hm
      rw [hops] at hres
      refine .cons (List.forall_mem_cons.mpr ⟨?_, List.forall_mem_singleton.mpr ?_⟩) .nil
      · exact operandType?_resolves (hres _ List.mem_cons_self)
      · exact operandType?_resolves (hres _ (List.mem_cons_of_mem _ (List.mem_singleton_self _)))

theorem Sound.backward (h : Sound M o root ps) : Backward [] (blocksOf M o root ps) := by
  induction h with
  | none => exact .nil
  | piece _ _ _ hf ih =>
      rw [blocksOf_cons]
      exact ih.append hf.backward

/-- Dependencies come first: a type name is the fallback, a keyword, or the name of a block that
stands before the line. -/
theorem compile_resolves {t : TypeExpr} {doc : Document} (h : compile M o t = .ok doc)
    {before after : List Block} {b : Block} (hb : doc.blocks = before ++ b :: after) {l : Line}
    (hl : l ∈ b.lines) :
    l.type = defaultType ∨ (∃ t : TypeExpr, t.keyword? = some l.type) ∨
      l.type ∈ before.map Block.name := by
  obtain ⟨root, ps, s, rfl, _, hat, _, rfl⟩ := compile_ok h
  have hback := hat.sound.backward
  have hblocks : blocksOf M o root ps = before ++ b :: after := hat.blocks.symm.trans hb
  rw [hblocks] at hback
  exact hback.middle l hl

theorem compile_resolves_shop : ∃ doc before after b l,
    compile .shop default (.cls (.declared 2)) = .ok doc ∧ doc.blocks = before ++ b :: after ∧
      l ∈ b.lines ∧ l.type = "Item" ∧
      (l.type = defaultType ∨ (∃ t : TypeExpr, t.keyword? = some l.type) ∨
        l.type ∈ before.map Block.name) := by
  obtain ⟨doc, h, hany⟩ : ∃ doc, compile .shop default (.cls (.declared 2)) = .ok doc ∧
      doc.blocks.any (fun b => b.lines.any (fun l => l.type = "Item")) = true :=
    exists_of_any (by decide +kernel)
  obtain ⟨b, hb, hany⟩ := List.any_eq_true.mp hany
  obtain ⟨l, hl, htype⟩ := List.any_eq_true.mp hany
  obtain ⟨before, after, hblocks⟩ := List.append_of_mem hb
  exact ⟨doc, before, after, b, l, h, hblocks, hl, of_decide_eq_true htype,
    compile_resolves h hblocks hl⟩

end Compiler

end ClassSchema
