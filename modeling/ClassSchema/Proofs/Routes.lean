import ClassSchema.Proofs.Causes
import ClassSchema.Proofs.Visits
import Mathlib.Data.List.Infix

namespace ClassSchema

/-- The place of a field in its class and of an operand in the field, both counted from 0. -/
structure Step where
  field : Nat
  operand : Nat
  deriving DecidableEq, Repr

def Step.Before (s t : Step) : Prop :=
  s.field < t.field ∨ s.field = t.field ∧ s.operand < t.operand

theorem Step.before_next {t : Step} {i j : Nat} :
    t.Before ⟨i, j + 1⟩ ↔ t.Before ⟨i, j⟩ ∨ t = ⟨i, j⟩ := by
  cases t
  simp only [Step.Before, Step.mk.injEq]
  omega

theorem Step.before_or_eq (s t : Step) : s.Before t ∨ s = t ∨ t.Before s := by
  cases s
  cases t
  simp only [Step.Before, Step.mk.injEq]
  omega

/-- The routes part, and the first one goes on with a step that comes before that of the other. -/
inductive LeftOf : List Step → List Step → Prop
  | here {s t q r} : s.Before t → LeftOf (s :: q) (t :: r)
  | later {s q r} : LeftOf q r → LeftOf (s :: q) (s :: r)

/-- The route `q` is left of `r` or goes through it. -/
def Through (r q : List Step) : Prop := LeftOf q r ∨ r <+: q

variable {q r u : List Step} {s : Step}

namespace LeftOf

theorem append (h : LeftOf q r) (u : List Step) : LeftOf (q ++ u) r := by
  induction h with
  | here h => exact .here h
  | later _ ih => exact .later ih

theorem lex (h : LeftOf q r) : List.Lex Step.Before q r := by
  induction h with
  | here h => exact .rel h
  | later _ ih => exact .cons ih

theorem concat_iff : LeftOf q (r ++ [s]) ↔ LeftOf q r ∨ ∃ t u, q = r ++ t :: u ∧ t.Before s := by
  induction r generalizing q with
  | nil =>
      constructor
      · rintro (hb | hl)
        · exact Or.inr ⟨_, _, rfl, hb⟩
        · cases hl
      · rintro (h | ⟨t, u, rfl, h⟩)
        · cases h
        · exact .here h
  | cons a r ih =>
      constructor
      · rintro (hb | hl)
        · exact Or.inl (.here hb)
        · rcases ih.mp hl with hl | ⟨t, u, rfl, hb⟩
          · exact Or.inl (.later hl)
          · exact Or.inr ⟨t, u, rfl, hb⟩
      · rintro (h | ⟨t, u, rfl, h⟩)
        · cases h with
          | here h => exact .here h
          | later h => exact .later (ih.mpr (Or.inl h))
        · exact .later (ih.mpr (Or.inr ⟨t, u, rfl, h⟩))

end LeftOf

theorem leftOf_or_prefix_of_lex (h : List.Lex Step.Before q r) :
    LeftOf q r ∨ ∃ s u, r = q ++ s :: u := by
  induction h with
  | nil => exact Or.inr ⟨_, _, rfl⟩
  | rel h => exact Or.inl (.here h)
  | cons _ ih =>
      rcases ih with ih | ⟨s, u, rfl⟩
      · exact Or.inl (.later ih)
      · exact Or.inr ⟨s, u, rfl⟩

theorem lex_or_eq (q r : List Step) :
    List.Lex Step.Before q r ∨ q = r ∨ List.Lex Step.Before r q := by
  induction q generalizing r with
  | nil =>
      cases r with
      | nil => exact Or.inr (Or.inl rfl)
      | cons t r => exact Or.inl .nil
  | cons s q ih =>
      cases r with
      | nil => exact Or.inr (Or.inr .nil)
      | cons t r =>
          rcases s.before_or_eq t with h | rfl | h
          · exact Or.inl (.rel h)
          · exact (ih r).imp .cons (Or.imp (congrArg _) .cons)
          · exact Or.inr (Or.inr (.rel h))

namespace Model

variable (M : Model)

def Leads (c : ClassRef) (s : Step) (d : ClassRef) : Prop :=
  ∃ f e, (M.fieldsOf c)[s.field]? = some f ∧ f.operands[s.operand]? = some (some e) ∧
    e.unwrap = .ok (.cls d) ∧ M.isComposite d = true

def Route : ClassRef → List Step → ClassRef → Prop
  | c, [], d => c = d
  | c, s :: r, d => ∃ b, M.Leads c s b ∧ Route b r d

/-- No route to the class comes before this one. A visit takes routes step by step, and what lies
beyond an earlier step comes first. -/
structure First (root : ClassRef) (r : List Step) (c : ClassRef) : Prop where
  route : M.Route root r c
  least : ∀ q, M.Route root q c → ¬ List.Lex Step.Before q r

variable {M} {root a b c d : ClassRef}

theorem Leads.refers (h : M.Leads c s d) : M.Refers c d := by
  obtain ⟨f, e, hf, he, hd, hcomp⟩ := h
  exact ⟨⟨f, List.mem_of_getElem? hf, e, List.mem_of_getElem? he, hd⟩, hcomp⟩

theorem Leads.field_lt (h : M.Leads c s d) : s.field < (M.fieldsOf c).length := by
  obtain ⟨f, _, hf, _⟩ := h
  exact (List.getElem?_eq_some_iff.mp hf).1

theorem Leads.operand_lt (h : M.Leads c s d) {f : Field} (hf : (M.fieldsOf c)[s.field]? = some f) :
    s.operand < f.operands.length := by
  obtain ⟨f', _, hf', he, _⟩ := h
  rw [hf] at hf'
  cases hf'
  exact (List.getElem?_eq_some_iff.mp he).1

theorem Leads.operand (h : M.Leads c s d) {f : Field} {operand : Option TypeExpr}
    (hf : (M.fieldsOf c)[s.field]? = some f) (ho : f.operands[s.operand]? = some operand) :
    ∃ e, operand = some e ∧ e.unwrap = .ok (.cls d) ∧ M.isComposite d = true := by
  obtain ⟨f', e, hf', he, hd, hcomp⟩ := h
  rw [hf] at hf'
  cases hf'
  rw [ho] at he
  cases he
  exact ⟨e, rfl, hd, hcomp⟩

theorem Leads.unique (h : M.Leads c s a) (h' : M.Leads c s b) : a = b := by
  obtain ⟨f, e, hf, he, ha, _⟩ := h
  obtain ⟨_, heq, hb, _⟩ := h'.operand hf he
  cases heq
  rw [ha] at hb
  cases hb
  rfl

theorem route_append : M.Route a (q ++ r) c ↔ ∃ b, M.Route a q b ∧ M.Route b r c := by
  induction q generalizing a with
  | nil => simp [Route]
  | cons s q ih =>
      simp only [List.cons_append, Route, ih]
      constructor
      · rintro ⟨x, hx, b, hq, hr⟩
        exact ⟨b, ⟨x, hx, hq⟩, hr⟩
      · rintro ⟨b, ⟨x, hx, hq⟩, hr⟩
        exact ⟨x, hx, b, hq, hr⟩

theorem Route.unique (h : M.Route a r b) (h' : M.Route a r c) : b = c := by
  induction r generalizing a with
  | nil => exact h.symm.trans h'
  | cons s r ih =>
      obtain ⟨x, hx, hr⟩ := h
      obtain ⟨y, hy, hr'⟩ := h'
      exact ih hr (hx.unique hy ▸ hr')

theorem Route.concat (h : M.Route a r b) (hs : M.Leads b s c) : M.Route a (r ++ [s]) c :=
  route_append.mpr ⟨b, h, c, hs, rfl⟩

theorem Route.step (h : M.Route a r b) (h' : M.Route a (r ++ s :: u) c) :
    ∃ x, M.Leads b s x ∧ M.Route x u c := by
  obtain ⟨y, hy, x, hs, hu⟩ := route_append.mp h'
  exact ⟨x, h.unique hy ▸ hs, hu⟩

/-- For routes, only the steps that lead on count. -/
theorem Route.leftOf_congr {t : Step} (h : M.Route a r b) (h' : M.Route a q c)
    (hst : ∀ x d, M.Leads b x d → (x.Before s ↔ x.Before t)) :
    LeftOf q (r ++ [s]) ↔ LeftOf q (r ++ [t]) := by
  rw [LeftOf.concat_iff, LeftOf.concat_iff]
  refine or_congr_right (exists_congr fun x => exists_congr fun u => and_congr_right ?_)
  rintro rfl
  obtain ⟨d, hd, _⟩ := h.step h'
  exact hst x d hd

theorem Route.reachable (h : M.Route a r b) : M.Reachable a b := by
  induction r generalizing a with
  | nil => exact h ▸ .refl
  | cons s r ih =>
      obtain ⟨x, hx, hr⟩ := h
      exact .head hx.refers (ih hr)

theorem Route.returns (h : M.Route a r c) (h' : M.Route a (r ++ s :: u) c) :
    Relation.TransGen M.Refers c c := by
  obtain ⟨x, hx, hu⟩ := h.step h'
  exact .head' hx.refers hu.reachable

theorem first_iff (h : M.Route root r c) (hacyclic : ¬ Relation.TransGen M.Refers c c) :
    M.First root r c ↔ ¬ ∃ q, M.Route root q c ∧ LeftOf q r := by
  constructor
  · rintro hfirst ⟨q, hq, hl⟩
    exact hfirst.least q hq hl.lex
  · intro hnone
    refine ⟨h, fun q hq hlex => ?_⟩
    rcases leftOf_or_prefix_of_lex hlex with hl | ⟨s, u, rfl⟩
    · exact hnone ⟨q, hq, hl⟩
    · exact hacyclic (hq.returns h)

theorem First.unique (h : M.First root q c) (h' : M.First root r c) : q = r := by
  rcases lex_or_eq q r with hlex | heq | hlex
  · exact absurd hlex (h'.least q h.route)
  · exact heq
  · exact absurd hlex (h.least r h'.route)

end Model

theorem leftOf_first : LeftOf q (r ++ [⟨0, 0⟩]) ↔ LeftOf q r := by
  rw [LeftOf.concat_iff, or_iff_left]
  rintro ⟨t, u, _, h⟩
  simp [Step.Before] at h

theorem leftOf_next {i j : Nat} : LeftOf q (r ++ [⟨i, j + 1⟩]) ↔ Through (r ++ [⟨i, j⟩]) q := by
  rw [Through, LeftOf.concat_iff, LeftOf.concat_iff, or_assoc]
  refine or_congr_right ⟨?_, ?_⟩
  · rintro ⟨t, u, rfl, h⟩
    rcases Step.before_next.mp h with h | rfl
    · exact Or.inl ⟨t, u, rfl, h⟩
    · exact Or.inr ⟨u, by simp⟩
  · rintro (⟨t, u, rfl, h⟩ | ⟨u, rfl⟩)
    · exact ⟨t, u, rfl, Step.before_next.mpr (Or.inl h)⟩
    · exact ⟨⟨i, j⟩, u, by simp, Step.before_next.mpr (Or.inr rfl)⟩

end ClassSchema
