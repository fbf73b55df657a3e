import ClassSchema.Proofs.Coverage

namespace ClassSchema

/-- Nothing that the root reaches stands against a document about it. -/
structure Compiler.Acceptable (M : Model) (o : Options) (root : ClassRef) : Prop where
  described : ∀ c, M.Reachable root c → ∃ d, M.describeClass c = .ok d
  /-- Containers have elements, and maps also keys, that are no containers again. -/
  containers : ∀ c, M.Reachable root c → ∀ f ∈ M.fieldsOf c, f.shape.isContainer = true →
    ∀ operand ∈ f.operands, ∃ e t, operand = some e ∧ e.unwrap = .ok t ∧ t.isElement = true
  acyclic : ∀ c, M.Reachable root c → ¬ Relation.TransGen M.Refers c c
  constants : ∀ e, M.Needs root (.enumeration e) → M.constants e ≠ []
  fieldNames : ∀ c, M.Reachable root c → ∀ f ∈ M.fieldsOf c, Name.sanitize f.name ≠ ""
  messageNames : ∀ c, M.Reachable root c →
    Name.sanitize (Name.lowerFirst (Compiler.messageName M o root c)) ≠ ""
  /-- Only messages share names with each other. -/
  apart : ∀ p q, M.Needs root p → M.Needs root q → p ≠ q → p.kind ≠ .message →
    ∀ name ∈ Compiler.partNames M o root p, name ∉ Compiler.partNames M o root q

/-- All that a document about the root asks for, apart from cycles. -/
structure Compiler.Supported (M : Model) (o : Options) (root : ClassRef) : Prop where
  described : ∀ c, M.Reachable root c → ∃ d, M.describeClass c = .ok d
  containers : ∀ c, M.Reachable root c → ∀ f ∈ M.fieldsOf c, f.shape.isContainer = true →
    ∀ operand ∈ f.operands, ∃ e t, operand = some e ∧ e.unwrap = .ok t ∧ t.isElement = true
  constants : ∀ e, M.Needs root (.enumeration e) → M.constants e ≠ []
  fieldNames : ∀ c, M.Reachable root c → ∀ f ∈ M.fieldsOf c, Name.sanitize f.name ≠ ""
  messageNames : ∀ c, M.Reachable root c →
    Name.sanitize (Name.lowerFirst (Compiler.messageName M o root c)) ≠ ""
  apart : ∀ p q, M.Needs root p → M.Needs root q → p ≠ q → p.kind ≠ .message →
    ∀ name ∈ Compiler.partNames M o root p, name ∉ Compiler.partNames M o root q

theorem TypeExpr.containerShape?_of_scalar {t : TypeExpr} (h : t.isAny = true ∨ t.isScalar = true) :
    t.containerShape? = Option.none := by
  cases t with
  | cls c =>
      cases c with
      | builtin b =>
          cases b <;>
            simp_all [isAny, isScalar, keyword?, Builtin.keyword?, containerShape?, origin?,
              Builtin.shape?]
      | declared i => simp [isAny, isScalar, keyword?] at h
  | _ => simp_all [isAny, isScalar, keyword?, containerShape?, origin?]

theorem TypeExpr.containerShape?_of_isElement {t : TypeExpr} (h : t.isElement = true) :
    t.containerShape? = Option.none := by
  simp only [isElement, Bool.or_eq_true, Bool.and_eq_true, Option.isNone_iff_eq_none] at h
  exact h.elim containerShape?_of_scalar And.right

namespace Compiler

variable {M : Model} {o : Options} {root c : ClassRef} {ps earlier : List Piece} {f : Field}

theorem operand_of_plain (hf : f ∈ M.fieldsOf c) (hs : f.shape.isContainer = false) :
    ∀ operand ∈ f.operands, ∃ e t, operand = some e ∧ e.unwrap = .ok t ∧ t.isElement = true := by
  rw [Field.operands_of_plain hs, List.forall_mem_singleton]
  rcases Model.layoutOf_cases (Model.layout_of_field hf) with
    ⟨_, hd⟩ | ⟨_, e, hd, he⟩ | ⟨hc, _⟩ | ⟨_, d, hd, hcomp⟩
  · refine ⟨_, _, rfl, Model.unwrap_of_scalar hd, ?_⟩
    rcases hd with hd | hd <;> simp [TypeExpr.isElement, hd]
  · rw [hd]
    refine ⟨_, _, rfl, Model.unwrap_cls e, ?_⟩
    simp [TypeExpr.isElement, TypeExpr.isClass, (Model.enum_facts he).2.2]
  · rw [hs] at hc
    cases hc
  · rw [hd]
    exact ⟨_, _, rfl, Model.unwrap_cls d, Model.isElement_composite hcomp⟩

theorem transGen_of_isChain {α : Type} {R : α → α → Prop} {a b : α} {l : List α}
    (h : (a :: l ++ [b]).IsChain R) : Relation.TransGen R a b := by
  induction l generalizing a with
  | nil => exact .single (List.isChain_pair.mp h)
  | cons x l ih =>
      obtain ⟨hx, h⟩ := List.isChain_cons_cons.mp h
      exact .head hx (ih h)

theorem Acceptable.supported (h : Acceptable M o root) : Supported M o root where
  described := h.described
  containers := h.containers
  constants := h.constants
  fieldNames := h.fieldNames
  messageNames := h.messageNames
  apart := h.apart

theorem Supported.operand (h : Supported M o root) (hc : M.Reachable root c) (hf : f ∈ M.fieldsOf c) :
    ∀ operand ∈ f.operands, ∃ e t, operand = some e ∧ e.unwrap = .ok t ∧ t.isElement = true := by
  by_cases hs : f.shape.isContainer = true
  · exact h.containers c hc f hf hs
  · exact operand_of_plain hf (Bool.not_eq_true _ ▸ hs)

theorem Supported.isElement (h : Supported M o root) {t : TypeExpr} (hc : M.Reachable root c)
    (hf : f ∈ M.fieldsOf c) (hu : f.Uses t) : t.isElement = true := by
  obtain ⟨e, he, ht⟩ := hu
  obtain ⟨_, u, heq, hu, hel⟩ := h.operand hc hf _ he
  cases heq
  rw [ht] at hu
  cases hu
  exact hel

theorem Supported.cycle_of_cause (h : Supported M o root) {fault : Fault} (hcause : Cause M o root fault) :
    ∃ owner field target chain, fault = .cycle owner field target chain := by
  cases hcause with
  | undescribed hc hx =>
      obtain ⟨d, hd⟩ := h.described _ hc
      rw [hx] at hd
      cases hd
  | noMapTypes hc hf _ ho | noElementType hc hf ho =>
      obtain ⟨e, t, heq, _⟩ := h.operand hc hf _ ho
      cases heq
  | unsupported hc hf ho hu =>
      obtain ⟨e, t, heq, ht, _⟩ := h.operand hc hf _ ho
      cases heq
      rw [hu] at ht
      cases ht
  | nestedContainer hc hf hu hcont =>
      rw [TypeExpr.containerShape?_of_isElement (h.isElement hc hf hu)] at hcont
      cases hcont
  | unsupportedElement hc hf hu hel =>
      rw [h.isElement hc hf hu] at hel
      cases hel
  | cycle => exact ⟨_, _, _, _, rfl⟩
  | emptyEnum he hnil => exact absurd hnil (h.constants _ he)
  | illegalFieldName hc hf hlegal => exact absurd hlegal (h.fieldNames _ hc _ hf)
  | illegalMessageName hc hlegal => exact absurd hlegal (h.messageNames _ hc)
  | @nameClash p q name hp hq hne hk hnp hnq =>
      rcases not_and_or.mp hk with hk | hk
      · exact absurd hnq (h.apart p q hp hq hne hk name hnp)
      · exact absurd hnp (h.apart q p hq hp hne.symm hk name hnq)

theorem Acceptable.not_cause (h : Acceptable M o root) (fault : Fault) : ¬ Cause M o root fault := by
  intro hcause
  obtain ⟨_, _, _, _, rfl⟩ := h.supported.cycle_of_cause hcause
  cases hcause with
  | undescribed hc hx =>
      obtain ⟨d, hd⟩ := h.described _ hc
      rw [hx] at hd
      cases hd
  | cycle hd _ _ _ hchain => exact h.acyclic _ hd (transGen_of_isChain hchain)

theorem Sound.transGen {d : ClassRef} (h : Sound M o root earlier)
    (hset : ∀ f ∈ M.fieldsOf c, Settled M earlier c f) (hr : Relation.TransGen M.Refers c d) :
    .message d ∈ parts earlier := by
  induction hr with
  | single hr =>
      obtain ⟨⟨f, hf, hu⟩, hd⟩ := hr
      exact (hset f hf).stands hu _ (Model.part?_composite hd)
  | tail _ hr ih => exact h.refers ih hr

theorem Sound.apart (hb : (blocksOf M o root ps).Pairwise Block.Apart) {p q : Part} (hp : p ∈ parts ps)
    (hq : q ∈ parts ps) (hne : p ≠ q) (hk : p.kind ≠ .message) {name : String}
    (hn : name ∈ partNames M o root p) : name ∉ partNames M o root q := by
  intro hnq
  obtain ⟨x, hx, rfl⟩ := List.mem_map.mp hp
  obtain ⟨y, hy, rfl⟩ := List.mem_map.mp hq
  have hne' : x ≠ y := fun he => hne (congrArg Piece.part he)
  have hxy := forall_of_pairwise (fun a b h hn => (h hn.symm).symm) hb hx hy hne'
  rw [← pieceBlocks_names] at hn hnq
  obtain ⟨u, hu, hun⟩ := List.mem_map.mp hn
  obtain ⟨v, hv, hvn⟩ := List.mem_map.mp hnq
  rw [← pieceBlocks_kind x hu] at hk
  exact hk (hxy u hu v hv (hun.trans hvn.symm)).1

theorem Sound.constants {e : ClassRef} (h : Sound M o root ps) (he : .enumeration e ∈ parts ps) :
    M.constants e ≠ [] := by
  obtain ⟨later, q, earlier, hs, hq⟩ := exists_split he
  subst hs
  obtain ⟨_, _, hfit⟩ := h.fits
  cases q with
  | enumeration e' => cases hq; exact hfit
  | message c ls => cases hq
  | entry c f => cases hq

theorem Sound.acceptable (h : Sound M o root ps) (hb : (blocksOf M o root ps).Pairwise Block.Apart)
    (hroot : .message root ∈ parts ps) : Acceptable M o root where
  described := by
    intro c hc
    obtain ⟨_, _, _, _, _, hx, _⟩ := h.message (h.reaches hroot hc)
    exact hx
  containers := by
    intro c hc f hf _ operand ho
    obtain ⟨_, _, _, _, _, _, hset⟩ := h.message (h.reaches hroot hc)
    obtain ⟨e, t, he, ht, hel, _⟩ := (hset f hf).operands operand ho
    exact ⟨e, t, he, ht, hel⟩
  acyclic := by
    intro c hc hr
    obtain ⟨_, _, hsound, hnot, _, _, hset⟩ := h.message (h.reaches hroot hc)
    exact hnot (hsound.transGen hset hr)
  constants := fun e he => h.constants (h.complete hroot he)
  fieldNames := by
    intro c hc f hf
    obtain ⟨_, _, _, _, _, _, hset⟩ := h.message (h.reaches hroot hc)
    exact (hset f hf).legal
  messageNames := by
    intro c hc
    obtain ⟨_, _, _, _, hlegal, _⟩ := h.message (h.reaches hroot hc)
    exact hlegal
  apart := fun p q hp hq hne hk _ hn =>
    Sound.apart hb (h.complete hroot hp) (h.complete hroot hq) hne hk hn

/-- A composite root class has a document exactly when it is acceptable. -/
theorem compile_ok_iff (hroot : M.isComposite root = true) :
    (∃ doc, compile M o (.cls root) = .ok doc) ↔ Acceptable M o root := by
  constructor
  · rintro ⟨doc, h⟩
    obtain ⟨root', ps, s, heq, _, hat, hmem, rfl⟩ := compile_ok h
    cases heq
    have hapart := hat.draft.apart
    rw [hat.blocks] at hapart
    exact hat.sound.acceptable hapart hmem
  · intro h
    cases hc : compile M o (.cls root) with
    | ok doc => exact ⟨doc, rfl⟩
    | error fault => exact absurd (compile_error hroot hc) (h.not_cause fault)

theorem acceptable_shop : Model.shop.isComposite (.declared 2) = true ∧
    (∃ doc, compile .shop default (.cls (.declared 2)) = .ok doc) ∧
      Acceptable .shop default (.declared 2) := by
  have hroot : Model.shop.isComposite (.declared 2) = true := by decide
  have hdoc : ∃ doc, compile .shop default (.cls (.declared 2)) = .ok doc :=
    exists_of_isSome (by decide +kernel)
  exact ⟨hroot, hdoc, (compile_ok_iff hroot).mp hdoc⟩

end Compiler

end ClassSchema
