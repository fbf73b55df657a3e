import ClassSchema.Proofs.Ends

namespace ClassSchema

namespace TypeExpr

theorem same_cls (c d : ClassRef) : same (.cls c) (.cls d) = decide (c = d) := by
  simp only [same]
  rfl

theorem same_cls_of_not_class (c : ClassRef) {t : TypeExpr} (h : t.isClass = false) :
    same (.cls c) t = false := by
  cases t <;> simp_all [same, isClass]

theorem unkeyable?_cls (c : ClassRef) : (cls c).unkeyable? = Option.none := rfl

theorem isKey_cls (c : ClassRef) : (cls c).isKey = true := rfl

end TypeExpr

namespace Registry

/-- The registry has exactly the classes that are `known`, each under its name. -/
structure Knows (r : Registry) (known : ClassRef → Prop) (name : ClassRef → String) : Prop where
  entries : ∀ e ∈ r.entries, ∃ c, e.1 = .cls c ∧ known c ∧ e.2.name = name c
  covers : ∀ c, known c → ∃ e ∈ r.entries, e.1 = .cls c

variable {r : Registry} {known : ClassRef → Prop} {name : ClassRef → String}

theorem Knows.empty (h : ∀ c, ¬ known c) : Knows {} known name where
  entries := fun _ he => absurd he List.not_mem_nil
  covers := fun c hc => absurd hc (h c)

theorem Knows.congr {known' : ClassRef → Prop} (h : r.Knows known name) (hk : ∀ c, known c ↔ known' c) :
    r.Knows known' name := by
  have he : known = known' := funext fun c => propext (hk c)
  exact he ▸ h

theorem Knows.get?_cls (h : r.Knows known name) {c : ClassRef} (hc : known c) :
    ∃ e, r.get? (.cls c) = some e ∧ e.name = name c := by
  obtain ⟨e, he, hec⟩ := h.covers c hc
  have hsome : (r.entries.find? (fun e => e.1.same (.cls c))).isSome := by
    rw [List.find?_isSome]
    exact ⟨e, he, by rw [hec, TypeExpr.same_cls]; simp⟩
  obtain ⟨x, hx⟩ := Option.isSome_iff_exists.mp hsome
  obtain ⟨d, hd, _, hname⟩ := h.entries x (List.mem_of_find?_eq_some hx)
  have hsame := List.find?_some hx
  rw [hd, TypeExpr.same_cls, decide_eq_true_iff] at hsame
  exact ⟨x.2, by rw [get?, hx]; rfl, hsame ▸ hname⟩

theorem Knows.get?_cls_none (h : r.Knows known name) {c : ClassRef} (hc : ¬ known c) :
    r.get? (.cls c) = none := by
  rw [get?, Option.map_eq_none_iff, List.find?_eq_none]
  intro e he hsame
  obtain ⟨d, hd, hk, _⟩ := h.entries e he
  rw [hd, TypeExpr.same_cls, decide_eq_true_iff] at hsame
  exact hc (hsame ▸ hk)

theorem Knows.contains_cls (h : r.Knows known name) (c : ClassRef) :
    r.contains (.cls c) = true ↔ known c := by
  by_cases hc : known c
  · obtain ⟨e, he, _⟩ := h.get?_cls hc
    simp [contains, TypeExpr.isKey_cls, he, hc]
  · simp [contains, h.get?_cls_none hc, hc]

theorem Knows.contains_of_not_class (h : r.Knows known name) {t : TypeExpr} (ht : t.isClass = false) :
    r.contains t = false := by
  have hn : r.get? t = none := by
    rw [get?, Option.map_eq_none_iff, List.find?_eq_none]
    intro e he hsame
    obtain ⟨d, hd, _⟩ := h.entries e he
    rw [hd, TypeExpr.same_cls_of_not_class d ht] at hsame
    exact Bool.false_ne_true hsame
  simp [contains, hn]

theorem Knows.nameOf_cls (h : r.Knows known name) {c : ClassRef} (hc : known c) :
    r.nameOf (.cls c) = .ok (name c) := by
  obtain ⟨e, he, hn⟩ := h.get?_cls hc
  simp only [nameOf, entry, TypeExpr.unkeyable?_cls, he, ← hn]
  rfl

theorem Knows.register (h : r.Knows known name) {c : ClassRef} (hc : ¬ known c) (path : String) :
    ∃ r', r.register (.cls c) path (name c) = .ok r' ∧
      r'.Knows (fun d => d = c ∨ known d) name := by
  refine ⟨⟨(.cls c, ⟨path, name c⟩) :: r.entries⟩, ?_, ?_, ?_⟩
  · simp only [Registry.register, TypeExpr.unkeyable?_cls, h.get?_cls_none hc]
  · intro e he
    rcases List.mem_cons.mp he with rfl | he
    · exact ⟨c, rfl, Or.inl rfl, rfl⟩
    · obtain ⟨d, hd, hk, hn⟩ := h.entries e he
      exact ⟨d, hd, Or.inr hk, hn⟩
  · rintro d (rfl | hd)
    · exact ⟨_, List.mem_cons_self, rfl⟩
    · obtain ⟨e, he, hed⟩ := h.covers d hd
      exact ⟨e, List.mem_cons_of_mem _ he, hed⟩

end Registry

namespace Trail

/-- The trail along a path of classes, which is given from the innermost outwards. -/
def along (path : List ClassRef) : Trail := ⟨(path.map .cls).reverse, (path.map .cls).reverse⟩

variable {path : List ClassRef} {c : ClassRef}

theorem holds_along (path : List ClassRef) (c : ClassRef) :
    holds (path.map .cls).reverse (.cls c) = decide (c ∈ path) := by
  rw [holds, List.any_reverse]
  induction path with
  | nil => rfl
  | cons d path ih =>
      rw [List.map_cons, List.any_cons, ih, TypeExpr.same_cls]
      simp [eq_comm]

theorem contains_along (path : List ClassRef) (c : ClassRef) :
    (along path).contains (.cls c) = decide (c ∈ path) := by
  rw [contains, TypeExpr.isKey_cls, Bool.true_and, along, holds_along]

theorem push_along_ends (hc : c ∉ path) {post : Unit → Trail → Prop} {fails : Fault → Trail → Prop}
    (h : post ⟨⟩ (along (c :: path))) : Ends (push (.cls c)) (along path) post fails := by
  have hh : holds (path.map .cls).reverse (.cls c) = false := by simpa [holds_along] using hc
  refine Ends.bind (Ends.of_modify (Ends.of_modify ?_))
  simpa only [along, hh, if_false, Bool.false_eq_true, List.map_cons, List.reverse_cons] using h

theorem pop_along_ends (hc : c ∉ path) {post : TypeExpr → Trail → Prop} {fails : Fault → Trail → Prop}
    (h : post (.cls c) (along path)) : Ends pop (along (c :: path)) post fails := by
  have hh : holds (path.map .cls).reverse (.cls c) = false := by simpa [holds_along] using hc
  have hf : (path.map TypeExpr.cls).filter (fun s => !s.same (.cls c)) = path.map .cls := by
    rw [List.filter_eq_self]
    intro t ht
    obtain ⟨d, hd, rfl⟩ := List.mem_map.mp ht
    have hdc : d ≠ c := fun he => hc (he ▸ hd)
    simp [TypeExpr.same_cls, hdc]
  have hlast : (along (c :: path)).stack.getLast? = some (.cls c) := by simp [along]
  have hstack : (along (c :: path)).stack.dropLast = (path.map .cls).reverse := by simp [along]
  have hactive : (along (c :: path)).active.filter (fun s => !s.same (.cls c)) =
      (path.map .cls).reverse := by
    simp [along, TypeExpr.same_cls, hf]
  apply Ends.bind
  apply Ends.of_get
  rw [hlast]
  refine Ends.bind (Ends.of_modify (Ends.bind (Ends.of_get ?_)))
  rw [hstack, hh, if_neg Bool.false_ne_true]
  refine Ends.bind (Ends.of_modify (Ends.of_pure ?_))
  change post _ ⟨(path.map .cls).reverse, (along (c :: path)).active.filter (fun s => !s.same (.cls c))⟩
  rw [hactive]
  exact h

theorem requireName_cls (M : Model) (cs : List ClassRef) :
    (cs.map TypeExpr.cls).mapM M.requireName = .ok (cs.map M.simpleName) := by
  induction cs with
  | nil => rfl
  | cons c cs ih =>
      rw [List.map_cons, List.mapM_cons, ih]
      rfl

theorem path_along (M : Model) (path : List ClassRef) : ∃ text, (along path).path M = .ok text := by
  simp only [Trail.path, along, ← List.map_reverse, requireName_cls]
  exact ⟨_, rfl⟩

theorem dropWhile_cls {cs : List ClassRef} (h : c ∈ cs) :
    ∃ outer rest, cs = outer ++ c :: rest ∧
      (cs.map TypeExpr.cls).dropWhile (fun s => !s.same (.cls c)) = (c :: rest).map .cls := by
  induction cs with
  | nil => exact absurd h List.not_mem_nil
  | cons d cs ih =>
      by_cases hd : d = c
      · subst hd
        exact ⟨[], cs, rfl, by simp [TypeExpr.same_cls]⟩
      · obtain ⟨outer, rest, hcs, hdrop⟩ := ih ((List.mem_cons.mp h).resolve_left (Ne.symm hd))
        exact ⟨d :: outer, rest, by rw [hcs, List.cons_append], by
          rw [List.map_cons, List.dropWhile_cons_of_pos (by simp [TypeExpr.same_cls, hd]), hdrop]⟩

theorem chain_along (M : Model) (h : c ∈ path) :
    ∃ outer rest, path.reverse = outer ++ c :: rest ∧
      (along path).chain (.cls c) = .ok ((c :: rest ++ [c]).map .cls) ∧
      ∃ text, (along path).chainText M (.cls c) = .ok text := by
  obtain ⟨outer, rest, hp, hdrop⟩ := dropWhile_cls (List.mem_reverse.mpr h)
  have hchain : (along path).chain (.cls c) = .ok ((c :: rest ++ [c]).map .cls) := by
    simp only [chain, along, ← List.map_reverse, hdrop]
    simp
  refine ⟨outer, rest, hp, hchain, ?_⟩
  rw [chainText, hchain]
  simp only [bind, Except.bind, requireName_cls]
  exact ⟨_, rfl⟩

end Trail

namespace Compiling

variable {α : Type} {s : Progress} {post : α → Progress → Prop} {fails : Fault → Progress → Prop}

theorem within_ends {path : List ClassRef} {c : ClassRef} (hs : s.trail = Trail.along path)
    (hc : c ∉ path) {step : Compiling α}
    (h : Ends step { s with trail := Trail.along (c :: path) }
      (fun a s' => s'.trail = Trail.along (c :: path) ∧ post a { s' with trail := Trail.along path })
      (fun fault s' => s'.trail = Trail.along (c :: path) ∧
        fails fault { s' with trail := Trail.along path })) :
    Ends (within (.cls c) step) s post fails := by
  apply Ends.bind
  apply onTrail_ends
  rw [hs]
  refine Trail.push_along_ends hc (thenLeave_ends (h.mono ?_ ?_))
  · rintro a s' ⟨hs', hpost⟩
    apply onTrail_ends
    rw [hs']
    exact Trail.pop_along_ends hc hpost
  · rintro fault s' ⟨hs', hfails⟩
    apply onTrail_ends
    rw [hs']
    exact Trail.pop_along_ends hc hfails

end Compiling

end ClassSchema
