import ClassSchema.Proofs.Restyling.Basic
import Mathlib.Logic.Relation

namespace ClassSchema.TypeExpr

/-- Whether the expression is a layer around others that a schema does not show. -/
def isLayer : TypeExpr → Bool
  | .annotated .. | .newType .. | .union .. => true
  | _ => false

def strip : TypeExpr → Except Unsupported (Option TypeExpr)
  | .annotated base _ => .ok (some base)
  | .newType _ base => .ok (some base)
  | .union native members =>
    match members.filter isPresent with
    | [m] => .ok (some m)
    | _ => .error (.union (.union native members))
  | _ => .ok Option.none

def rounds : Nat → TypeExpr → Option (Except Unsupported TypeExpr)
  | 0, _ => Option.none
  | n + 1, t =>
    match t.strip with
    | .ok (some u) => rounds n u
    | .ok Option.none => some (.ok t)
    | .error why => some (.error why)

/-- The loop comes to the second expression when it starts from the first. -/
def Meets : TypeExpr → TypeExpr → Prop := Relation.ReflTransGen fun t u => t.strip = .ok (some u)

/-- What can be written. Annotations nest and unions dissolve as they are built, and every union is
built of something. What is inside other forms is left as it is. -/
inductive Written : TypeExpr → Prop
  | plain {t} : t.isLayer = false → Written t
  | newType {tag base} : Written base → Written (.newType tag base)
  | annotate {t metadata} : Written t → Written (t.annotate metadata)
  | union {ts} : ts ≠ [] → (∀ t ∈ ts, Written t) → Written (unionOf false ts)
  | bar {t u} : Written t → Written u → Written (t.bar u)

/-- Every union among the layers has an alternative besides absence. -/
inductive Filled : TypeExpr → Prop
  | plain {t} : t.isLayer = false → Filled t
  | newType {tag base} : Filled base → Filled (.newType tag base)
  | annotated {base metadata} : Filled base → Filled (.annotated base metadata)
  | union {native ts} : (∀ t ∈ ts, Filled t) → (∃ t ∈ ts, t.isPresent = true) → Filled (.union native ts)

variable {t u : TypeExpr} {ts : List TypeExpr} {why : Unsupported} {n : Nat}

theorem Filled.asArgument (h : Filled t) : Filled t.asArgument := by
  cases t with
  | none | text s => exact .plain rfl
  | _ => exact h

theorem Filled.alternatives (h : Filled t) : t.alternatives ≠ [] ∧ ∀ x ∈ t.alternatives, Filled x := by
  cases h with
  | union hts hpresent =>
      obtain ⟨x, hx, _⟩ := hpresent
      exact ⟨List.ne_nil_of_mem hx, hts⟩
  | @plain t ht =>
      have halt : t.alternatives = [t] := by cases t <;> first | rfl | cases ht
      rw [halt]
      exact ⟨List.cons_ne_nil t [], List.forall_mem_singleton.mpr (.plain ht)⟩
  | newType hbase => exact ⟨List.cons_ne_nil _ [], List.forall_mem_singleton.mpr (.newType hbase)⟩
  | annotated hbase => exact ⟨List.cons_ne_nil _ [], List.forall_mem_singleton.mpr (.annotated hbase)⟩

theorem exists_isPresent_of_pairwise (h : ts.Pairwise fun x y => x.same y = false) (hne : ts ≠ [])
    (hseveral : ∀ t, ts ≠ [t]) : ∃ t ∈ ts, t.isPresent = true := by
  match ts, h with
  | [], _ => exact absurd rfl hne
  | [x], _ => exact absurd rfl (hseveral x)
  | x :: y :: rest, h =>
      have hxy : x.same y = false := List.rel_of_pairwise_cons h List.mem_cons_self
      cases hx : x.isNoneType with
      | false => exact ⟨x, List.mem_cons_self, isPresent_iff.mpr hx⟩
      | true =>
          rw [eq_noneType hx, noneType_same] at hxy
          exact ⟨y, List.mem_cons_of_mem x List.mem_cons_self, isPresent_iff.mpr hxy⟩

theorem filled_unionOf (native : Bool) (hne : ts ≠ []) (h : ∀ t ∈ ts, Filled t) :
    Filled (unionOf native ts) := by
  have hall : ∀ x ∈ distinct (ts.flatMap fun a => a.asArgument.alternatives), Filled x := by
    intro x hx
    obtain ⟨t, ht, hxt⟩ := List.mem_flatMap.mp ((thinned_distinct _).subset hx)
    exact (h t ht).asArgument.alternatives.2 x hxt
  have hsome : distinct (ts.flatMap fun a => a.asArgument.alternatives) ≠ [] := by
    obtain ⟨t, ht⟩ := List.exists_mem_of_ne_nil ts hne
    obtain ⟨x, hx⟩ := List.exists_mem_of_ne_nil _ (h t ht).asArgument.alternatives.1
    have hmem : x ∈ ts.flatMap fun a => a.asArgument.alternatives := List.mem_flatMap_of_mem ht hx
    obtain ⟨y, hy, _⟩ := (thinned_distinct _).kept x hmem
    exact List.ne_nil_of_mem hy
  have hapart := pairwise_distinct (ts.flatMap fun a => a.asArgument.alternatives)
  unfold unionOf
  split
  next a ha => exact hall a (ha ▸ List.mem_singleton_self a)
  next hseveral => exact .union hall (exists_isPresent_of_pairwise hapart hsome hseveral)

theorem Written.filled (h : Written t) : Filled t := by
  induction h with
  | plain ht => exact .plain ht
  | newType _ ih => exact .newType ih
  | @annotate t metadata _ ih =>
      unfold TypeExpr.annotate
      split
      next inner earlier ht =>
        have hann := ht ▸ ih.asArgument
        cases hann with
        | annotated hinner => exact .annotated hinner
        | plain hlayer => cases hlayer
      next => exact .annotated ih.asArgument
  | union hne _ ih => exact filled_unionOf false hne ih
  | bar _ _ iht ihu =>
      exact filled_unionOf _ (List.cons_ne_nil _ _)
        (List.forall_mem_cons.mpr ⟨iht, List.forall_mem_singleton.mpr ihu⟩)

theorem strip_eq_none : t.strip = .ok Option.none ↔ t.isLayer = false := by
  cases t with
  | union native ms =>
      rw [strip]
      split <;> simp [isLayer]
  | _ => simp [strip, isLayer]

theorem strip_eq_error : t.strip = .error why ↔
    ∃ native ms, t = .union native ms ∧ (ms.filter isPresent).length ≠ 1 ∧ why = .union t := by
  cases t with
  | union native ms =>
      rw [strip]
      split
      next m hm => simp [hm]
      next hm =>
        have hlen : (ms.filter isPresent).length ≠ 1 := fun h =>
          (List.length_eq_one_iff.mp h).elim hm
        simp [hlen, @eq_comm _ why]
  | _ => simp [strip]

theorem sizeOf_strip (h : t.strip = .ok (some u)) : sizeOf u < sizeOf t := by
  cases t with
  | annotated base metadata =>
      cases h
      simp only [annotated.sizeOf_spec]
      omega
  | newType tag base =>
      cases h
      simp only [newType.sizeOf_spec]
      omega
  | union native ms =>
      rw [strip] at h
      split at h
      next m hm =>
        cases h
        have hmem : u ∈ ms := List.mem_of_mem_filter (hm ▸ List.mem_singleton_self u)
        have hlt := List.sizeOf_lt_of_mem hmem
        simp only [union.sizeOf_spec]
        omega
      next => cases h
  | _ => cases h

theorem Filled.strip (h : Filled t) (hs : t.strip = .ok (some u)) : Filled u := by
  cases h with
  | plain ht =>
      rw [strip_eq_none.mpr ht] at hs
      cases hs
  | newType hbase => cases hs; exact hbase
  | annotated hbase => cases hs; exact hbase
  | union hts _ =>
      rw [TypeExpr.strip] at hs
      split at hs
      next m hm =>
        cases hs
        exact hts u (List.mem_of_mem_filter (hm ▸ List.mem_singleton_self u))
      next => cases hs

theorem Filled.meets (h : Filled t) (hm : Meets t u) : Filled u := by
  induction hm with
  | refl => exact h
  | tail _ hs ih => exact ih.strip hs

theorem strip_cases (t : TypeExpr) : (∃ u, t.strip = .ok (some u) ∧ t.unwrap = u.unwrap) ∨
    (t.strip = .ok Option.none ∧ t.unwrap = .ok t) ∨ ∃ why, t.strip = .error why ∧ t.unwrap = .error why := by
  cases t with
  | union native ms =>
      rw [strip, unwrap, unwrapSole_eq]
      cases ms.filter isPresent with
      | nil => exact Or.inr (Or.inr ⟨_, rfl, rfl⟩)
      | cons m rest =>
          cases rest with
          | nil => exact Or.inl ⟨m, rfl, rfl⟩
          | cons => exact Or.inr (Or.inr ⟨_, rfl, rfl⟩)
  | annotated base metadata => exact Or.inl ⟨base, rfl, by rw [unwrap]⟩
  | newType tag base => exact Or.inl ⟨base, rfl, by rw [unwrap]⟩
  | _ => exact Or.inr (Or.inl ⟨rfl, rfl⟩)

theorem unwrap_of_strip (h : t.strip = .ok (some u)) : t.unwrap = u.unwrap := by
  rcases strip_cases t with ⟨v, hs, hv⟩ | ⟨hs, _⟩ | ⟨_, hs, _⟩ <;> rw [hs] at h <;> cases h
  exact hv

theorem rounds_eq (h : sizeOf t < n) : rounds n t = some t.unwrap := by
  induction n generalizing t with
  | zero => cases h
  | succ n ih =>
      rcases strip_cases t with ⟨u, hs, hu⟩ | ⟨hs, ht⟩ | ⟨why, hs, ht⟩
      · rw [rounds, hs, hu]
        exact ih (Nat.lt_of_lt_of_le (sizeOf_strip hs) (Nat.le_of_lt_succ h))
      · rw [rounds, hs, ht]
      · rw [rounds, hs, ht]

theorem Meets.unwrap_eq (h : Meets t u) : t.unwrap = u.unwrap := by
  induction h with
  | refl => rfl
  | tail _ hs ih => rw [ih, unwrap_of_strip hs]

/-- The loop comes to where it cannot go on, and unwrapping tells how that is. -/
theorem exists_meets (t : TypeExpr) : ∃ u, Meets t u ∧
    (u.strip = .ok Option.none ∧ t.unwrap = .ok u ∨ ∃ why, u.strip = .error why ∧ t.unwrap = .error why) := by
  rcases strip_cases t with ⟨u, hs, hu⟩ | hlast | hlast
  · have hlt := sizeOf_strip hs
    obtain ⟨v, hv, hlast⟩ := exists_meets u
    exact ⟨v, .head hs hv, hu ▸ hlast⟩
  · exact ⟨t, .refl, Or.inl hlast⟩
  · exact ⟨t, .refl, Or.inr hlast⟩
termination_by sizeOf t

theorem unwrap_eq_ok : t.unwrap = .ok u ↔ Meets t u ∧ u.isLayer = false := by
  rw [← strip_eq_none]
  constructor
  · intro h
    obtain ⟨v, hv, ⟨hs, ht⟩ | ⟨why, _, ht⟩⟩ := exists_meets t <;> rw [ht] at h <;> cases h
    exact ⟨hv, hs⟩
  · rintro ⟨hu, hs⟩
    rcases strip_cases u with ⟨v, hs', _⟩ | ⟨hs', ht⟩ | ⟨why, hs', _⟩ <;> rw [hs] at hs' <;> cases hs'
    rw [hu.unwrap_eq, ht]

theorem unwrap_eq_error : t.unwrap = .error why ↔ ∃ u, Meets t u ∧ u.strip = .error why := by
  constructor
  · intro h
    obtain ⟨v, hv, ⟨_, ht⟩ | ⟨why', hs, ht⟩⟩ := exists_meets t <;> rw [ht] at h <;> cases h
    exact ⟨v, hv, hs⟩
  · rintro ⟨u, hu, hs⟩
    rcases strip_cases u with ⟨v, hs', _⟩ | ⟨hs', _⟩ | ⟨why', hs', ht⟩ <;> rw [hs] at hs' <;> cases hs'
    rw [hu.unwrap_eq, ht]

theorem filter_isPresent_distinct (ts : List TypeExpr) :
    (distinct ts).filter isPresent = distinct (ts.filter isPresent) := by
  induction ts with
  | nil => rfl
  | cons x ts ih =>
      cases hx : x.isPresent with
      | true =>
          rw [List.filter_cons_of_pos hx, distinct, distinct, List.filter_cons_of_pos hx, List.filter_filter,
            ← ih, List.filter_filter]
          simp only [Bool.and_comm]
      | false =>
          have hnone : x.isNoneType = true := by simpa [isPresent] using hx
          rw [List.filter_cons_of_neg (by simp [hx]), distinct, List.filter_cons_of_neg (by simp [hx]),
            List.filter_filter, ← ih]
          refine List.filter_congr fun y _ => ?_
          rw [eq_noneType hnone, noneType_same, isPresent, Bool.and_self]

theorem unwrap_unionOf (native : Bool)
    (h : (ts.flatMap fun a => a.asArgument.alternatives).filter isPresent = [u]) :
    (unionOf native ts).unwrap = u.unwrap := by
  have hdistinct : (distinct (ts.flatMap fun a => a.asArgument.alternatives)).filter isPresent = [u] := by
    rw [filter_isPresent_distinct, h]
    rfl
  unfold unionOf
  split
  next a ha =>
    rw [ha] at hdistinct
    have hmem : u ∈ [a] := List.mem_of_mem_filter (hdistinct ▸ List.mem_singleton_self u)
    rw [List.mem_singleton.mp hmem]
  next => exact unwrap_of_presents hdistinct

theorem unwrap_optional (ht : t.asArgument = t) (h : t.unwrap = .ok u) : t.optional.unwrap = .ok u := by
  cases hn : t.isNoneType with
  | true =>
      have hself : (builtin .noneType).optional = builtin .noneType := by
        simp [optional, unionOf, TypeExpr.asArgument, TypeExpr.alternatives, distinct, same]
      rw [eq_noneType hn] at h ⊢
      rw [hself, h]
  | false =>
      cases hs : t.isSole with
      | false =>
          obtain ⟨why, herror⟩ := unwrap_of_not_isSole (isPresent_iff.mpr hn) hs
          rw [herror] at h
          cases h
      | true =>
          obtain ⟨m, hm⟩ := exists_of_isSole hs
          rw [← h, unwrap_of_presents hm]
          refine unwrap_unionOf false ?_
          simp only [List.flatMap_cons, List.flatMap_nil, ht, List.append_nil, List.filter_append]
          change t.presents ++ [] = [m]
          rw [hm]
          rfl

structure Normalizes (t : TypeExpr) : Prop where
  ends : ∃ n, ∀ m, n ≤ m → rounds m t = some t.unwrap
  error_iff : ∀ why, t.unwrap = .error why ↔ ∃ native members, Meets t (.union native members) ∧
    2 ≤ (members.filter isPresent).length ∧ why = .union (.union native members)
  ok_iff : ∀ u, t.unwrap = .ok u ↔ Meets t u ∧ u.isLayer = false
  idempotent : ∀ u, t.unwrap = .ok u → u.unwrap = .ok u
  annotated : t ≠ .none → (∀ s, t ≠ .text s) → ∀ metadata, (t.annotate metadata).unwrap = t.unwrap
  newType : ∀ tag, (TypeExpr.newType tag t).unwrap = t.unwrap
  optional : t ≠ .none → (∀ s, t ≠ .text s) → ∀ u, t.unwrap = .ok u → t.optional.unwrap = .ok u

theorem asArgument_eq_self (hnone : t ≠ .none) (htext : ∀ s, t ≠ .text s) : t.asArgument = t := by
  cases t with
  | none => exact absurd rfl hnone
  | text s => exact absurd rfl (htext s)
  | _ => rfl

theorem Written.unwrap_eq_error (h : Written t) : t.unwrap = .error why ↔
    ∃ native members, Meets t (.union native members) ∧
      2 ≤ (members.filter isPresent).length ∧ why = .union (.union native members) := by
  rw [TypeExpr.unwrap_eq_error]
  constructor
  · rintro ⟨u, hu, hs⟩
    obtain ⟨native, members, rfl, hlength, rfl⟩ := strip_eq_error.mp hs
    refine ⟨native, members, hu, ?_, rfl⟩
    cases h.filled.meets hu with
    | plain hlayer => cases hlayer
    | union _ hpresent =>
        obtain ⟨m, hm, hp⟩ := hpresent
        have hpos := List.length_pos_of_mem (List.mem_filter.mpr ⟨hm, hp⟩)
        omega
  · rintro ⟨native, members, hu, hlength, rfl⟩
    exact ⟨_, hu, strip_eq_error.mpr ⟨native, members, rfl, by omega, rfl⟩⟩

/-- Whatever is written is unwrapped to the bottom of its layers, or refused for a union that stands
for several alternatives. -/
theorem Written.normalizes (h : Written t) : Normalizes t where
  ends := ⟨sizeOf t + 1, fun _ hm => rounds_eq hm⟩
  error_iff := fun _ => h.unwrap_eq_error
  ok_iff := fun _ => unwrap_eq_ok
  idempotent := fun u hu => unwrap_eq_ok.mpr ⟨.refl, (unwrap_eq_ok.mp hu).2⟩
  annotated := fun hnone htext metadata => unwrap_annotate (asArgument_eq_self hnone htext) metadata
  newType := fun tag => by rw [unwrap]
  optional := fun hnone htext _ hu => unwrap_optional (asArgument_eq_self hnone htext) hu

def taggedNumber : TypeExpr := .newType ⟨0, "m", "Id"⟩ ((builtin .int).annotate [.text "doc"])

theorem normalizes_optional_taggedNumber : Written taggedNumber.optional ∧ Normalizes taggedNumber.optional := by
  have hnumber : Written taggedNumber := .newType (.annotate (.plain rfl))
  have hmembers : ∀ t ∈ [taggedNumber, .none], Written t :=
    List.forall_mem_cons.mpr ⟨hnumber, List.forall_mem_singleton.mpr (.plain rfl)⟩
  have hoptional : Written taggedNumber.optional := .union (List.cons_ne_nil _ _) hmembers
  exact ⟨hoptional, hoptional.normalizes⟩

/-- Metadata on the absent value is put on its class, which is another thing to unwrap. -/
theorem unwrap_annotate_none :
    ¬ ∀ t : TypeExpr, Written t → ∀ metadata : List Value, (t.annotate metadata).unwrap = t.unwrap := by
  intro h
  have hnone := h .none (.plain rfl) [.text "doc"]
  cases hnone

end ClassSchema.TypeExpr
