import ClassSchema.Proofs.Coverage
import ClassSchema.Proofs.Routes

namespace ClassSchema

structure Leg where
  place : Step
  target : ClassRef

namespace Model

variable (M : Model)

/-- The operand at a place of a class is a composite class or an enum. -/
def Points (c : ClassRef) (s : Step) (d : ClassRef) : Prop :=
  ∃ f e, (M.fieldsOf c)[s.field]? = some f ∧ f.operands[s.operand]? = some (some e) ∧
    e.unwrap = .ok (.cls d) ∧ (M.isComposite d = true ∨ M.isEnumClass d = true)

def Trip : ClassRef → List Leg → ClassRef → Prop
  | a, [], b => a = b
  | a, l :: ls, b => M.Points a l.place l.target ∧ Trip l.target ls b

/-- No trip to the class takes places that come before these. A traversal in depth, which goes through
the places of a class in order and follows each reference at once, makes this trip first. -/
structure FirstTrip (root : ClassRef) (legs : List Leg) (c : ClassRef) : Prop where
  trip : M.Trip root legs c
  least : ∀ legs', M.Trip root legs' c →
    ¬ List.Lex Step.Before (legs'.map Leg.place) (legs.map Leg.place)

/-- The root reaches the class, or, if it is an enum, a class that mentions it. -/
def Involves (root d : ClassRef) : Prop :=
  M.Reachable root d ∨ M.isEnumClass d = true ∧ ∃ c, M.Reachable root c ∧ M.Mentions c (.cls d)

/-- Whatever is referred to before the place is there. -/
def Behind (ps : List Piece) (c : ClassRef) (s : Step) : Prop :=
  ∀ t d, M.Points c t d → t.Before s → M.Stands ps (.cls d)

/-- Whatever is referred to before the places of a trip is there. -/
def Passed (ps : List Piece) : ClassRef → List Leg → Prop
  | _, [] => True
  | a, l :: ls => M.Behind ps a l.place ∧ Passed ps l.target ls

variable {M} {a b c d x y : ClassRef} {s : Step} {l : Leg} {ls ls' : List Leg} {ps ps' : List Piece}
  {o : Options} {root : ClassRef} {f : Field} {e : TypeExpr}

theorem Points.unique (h : M.Points c s x) (h' : M.Points c s y) : x = y := by
  obtain ⟨f, e, hf, he, hx, _⟩ := h
  obtain ⟨f', e', hf', he', hy, _⟩ := h'
  rw [hf] at hf'
  cases hf'
  rw [he] at he'
  cases he'
  rw [hx] at hy
  cases hy
  rfl

theorem Points.exists_uses (h : M.Points c s d) :
    ∃ f, (M.fieldsOf c)[s.field]? = some f ∧ f ∈ M.fieldsOf c ∧ f.Uses (.cls d) := by
  obtain ⟨f, e, hf, he, hd, _⟩ := h
  exact ⟨f, hf, List.mem_of_getElem? hf, e, List.mem_of_getElem? he, hd⟩

theorem Points.target (h : M.Points c s d) : M.isComposite d = true ∨ M.isEnumClass d = true := by
  obtain ⟨_, _, _, _, _, hd⟩ := h
  exact hd

theorem composite_of_field (hf : f ∈ M.fieldsOf c) : M.isComposite c = true := by
  obtain ⟨x, hx, hfx⟩ := describeClass_of_field hf
  obtain ⟨i, -, rfl⟩ := declared_of_field hx hfx
  rcases (describeClass_ok hx).2 with ⟨_, _, hnil⟩ | ⟨hc, _⟩
  · rw [hnil] at hfx
    exact absurd hfx List.not_mem_nil
  · exact isComposite_iff.mpr ⟨rfl, rfl, hc, rfl⟩

theorem Points.composite (h : M.Points c s d) : M.isComposite c = true := by
  obtain ⟨_, _, hf, _⟩ := h.exists_uses
  exact composite_of_field hf

theorem Trip.concat (h : M.Trip a ls b) (hs : M.Points b s c) : M.Trip a (ls ++ [⟨s, c⟩]) c := by
  induction ls generalizing a with
  | nil =>
      cases h
      exact ⟨hs, rfl⟩
  | cons l ls ih => exact ⟨h.1, ih h.2⟩

theorem Behind.mono (h : M.Behind ps c s) (hs : ps <:+ ps') : M.Behind ps' c s :=
  fun t d ht hb => (h t d ht hb).mono hs

theorem Passed.mono (h : M.Passed ps a ls) (hs : ps <:+ ps') : M.Passed ps' a ls := by
  induction ls generalizing a with
  | nil => trivial
  | cons l ls ih => exact ⟨h.1.mono hs, ih h.2⟩

theorem Passed.concat (h : M.Passed ps a ls) (htrip : M.Trip a ls b) (hs : M.Behind ps b s) :
    M.Passed ps a (ls ++ [⟨s, c⟩]) := by
  induction ls generalizing a with
  | nil =>
      cases htrip
      exact ⟨hs, trivial⟩
  | cons l ls ih => exact ⟨h.1, ih h.2 htrip.2⟩

theorem Trip.stands (h : M.Trip x ls d) (hsound : Compiler.Sound M o root ps) (hst : M.Stands ps (.cls x)) :
    M.Stands ps (.cls d) := by
  induction ls generalizing x with
  | nil => exact h ▸ hst
  | cons l ls ih =>
      obtain ⟨hl, hrest⟩ := h
      obtain ⟨f, _, hf, hu⟩ := hl.exists_uses
      obtain ⟨earlier, hsuffix, _, _, _, _, hset⟩ :=
        hsound.message (hst _ (part?_composite hl.composite))
      exact ih hrest (((hset f hf).stands hu).mono hsuffix)

theorem Trip.involves (h : M.Trip a ls b) : M.Involves a b := by
  induction ls generalizing a with
  | nil => exact .inl (h ▸ .refl)
  | cons l ls ih =>
      obtain ⟨hl, hrest⟩ := h
      obtain ⟨f, _, hf, hu⟩ := hl.exists_uses
      rcases hl.target with hcomp | he
      · have hr : M.Refers a l.target := ⟨⟨f, hf, hu⟩, hcomp⟩
        rcases ih hrest with h | ⟨he, c, hc, hm⟩
        · exact .inl (.head hr h)
        · exact .inr ⟨he, c, .head hr hc, hm⟩
      · cases ls with
        | nil =>
            cases hrest
            exact .inr ⟨he, a, .refl, f, hf, hu⟩
        | cons l' ls =>
            have hcomp := isComposite_iff.mp hrest.1.composite
            rw [hcomp.2.2.1] at he
            cases he

/-- Where the places of a trip have been passed, all that lies on trips with earlier places is written,
unless it is open. -/
theorem Passed.stands (h : M.Passed ps a ls) (hsound : Compiler.Sound M o root ps) (htrip : M.Trip a ls b)
    (hout : d ∉ (a :: ls.map Leg.target).dropLast) (htrip' : M.Trip a ls' d)
    (hlex : List.Lex Step.Before (ls'.map Leg.place) (ls.map Leg.place)) : M.Stands ps (.cls d) := by
  induction ls generalizing a ls' with
  | nil => exact absurd hlex List.not_lex_nil
  | cons l ls ih =>
      rw [List.map_cons, List.dropLast_cons_cons, List.mem_cons, not_or] at hout
      cases ls' with
      | nil => exact absurd htrip'.symm hout.1
      | cons l' ls' =>
          obtain ⟨hl, htrip⟩ := htrip
          obtain ⟨hl', htrip'⟩ := htrip'
          -- The trips part here, and what is referred to at the earlier place has been written with all
          -- that it leads to, or they go on to the same class.
          rcases List.cons_lex_cons_iff.mp hlex with hb | ⟨hp, hlex⟩
          · exact htrip'.stands hsound (h.1 _ _ hl' hb)
          · rw [hp] at hl'
            rw [hl'.unique hl] at htrip'
            exact ih h.2 htrip hout.2 htrip' hlex

/-- So what has not been written is come to first along the open classes. -/
theorem Passed.firstTrip (h : M.Passed ps root ls) (hsound : Compiler.Sound M o root ps)
    (htrip : M.Trip root ls d) (hout : d ∉ (root :: ls.map Leg.target).dropLast) {p : Part}
    (hp : M.part? (.cls d) = some p) (hnew : p ∉ parts ps) : M.FirstTrip root ls d where
  trip := htrip
  least := fun _ htrip' hlex => hnew (h.stands hsound htrip hout htrip' hlex p hp)

theorem Trip.unique (h : M.Trip a ls b) (h' : M.Trip a ls' c) (hp : ls.map Leg.place = ls'.map Leg.place) :
    ls = ls' := by
  induction ls generalizing a ls' with
  | nil => exact (List.map_eq_nil_iff.mp hp.symm).symm
  | cons l ls ih =>
      cases ls' with
      | nil => cases hp
      | cons l' ls' =>
          obtain ⟨hplace, hp⟩ := List.cons.inj hp
          obtain ⟨⟨hl, h⟩, ⟨hl', h'⟩⟩ := And.intro h h'
          have htarget : l.target = l'.target := (hplace ▸ hl).unique hl'
          have hleg : l = l' := by
            cases l
            cases l'
            cases hplace
            cases htarget
            rfl
          rw [hleg, ih h (htarget ▸ h') hp]

theorem FirstTrip.unique (h : M.FirstTrip root ls c) (h' : M.FirstTrip root ls' c) : ls = ls' := by
  rcases lex_or_eq (ls.map Leg.place) (ls'.map Leg.place) with hlex | hp | hlex
  · exact absurd hlex (h'.least ls h.trip)
  · exact h.trip.unique h'.trip hp
  · exact absurd hlex (h.least ls' h'.trip)

theorem firstTrip_root (M : Model) (root : ClassRef) : M.FirstTrip root [] root :=
  ⟨rfl, fun _ _ => List.not_lex_nil⟩

theorem eq_of_reachable (hroot : M.fieldsOf root = []) (h : M.Reachable root c) : c = root := by
  rcases h.cases_head with rfl | ⟨d, ⟨⟨f, hf, _⟩, _⟩, _⟩
  · rfl
  · rw [hroot] at hf
    exact absurd hf List.not_mem_nil

theorem covers_bare (hroot : M.fieldsOf root = []) : M.Covers root [.message root []] where
  nodup := List.pairwise_singleton _ _
  needed := by
    intro p
    rw [List.map_singleton, List.mem_singleton, Piece.part]
    cases p with
    | message c =>
        rw [Part.message.injEq]
        exact ⟨fun h => h ▸ .refl, eq_of_reachable hroot⟩
    | enumeration e =>
        refine iff_of_false (fun h => by cases h) ?_
        rintro ⟨_, c, hc, f, hf, _⟩
        rw [eq_of_reachable hroot hc, hroot] at hf
        exact absurd hf List.not_mem_nil
    | entry c name =>
        refine iff_of_false (fun h => by cases h) ?_
        rintro ⟨hc, f, hf, _⟩
        rw [eq_of_reachable hroot hc, hroot] at hf
        exact absurd hf List.not_mem_nil
  entries := fun c f h => by cases List.mem_singleton.mp h
  lines := by
    intro c ls h
    cases List.mem_singleton.mp h
    rw [hroot]
    rfl

end Model

end ClassSchema
