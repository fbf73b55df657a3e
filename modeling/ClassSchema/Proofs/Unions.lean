import ClassSchema.Model.Basic
import ClassSchema.Proofs.Equality
import ClassSchema.TypeExpr.Unwrap

namespace ClassSchema.TypeExpr

def isMember : TypeExpr → Bool
  | .none | .text _ | .union .. => false
  | _ => true

def isValue : TypeExpr → Bool
  | .literal _ | .ellipsis => true
  | _ => false

def isPresent (t : TypeExpr) : Bool := !t.isNoneType

def presents (t : TypeExpr) : List TypeExpr := t.alternatives.filter isPresent

/-- Whether there is one alternative besides absence. -/
def isSole (t : TypeExpr) : Bool := t.presents.length == 1

def rebuilt (native : Bool) (members : List TypeExpr) : TypeExpr :=
  if native then bars members else unionOf false members

def joined (ts : List TypeExpr) : List TypeExpr := ts.flatMap fun a => a.asArgument.alternatives

variable {t u x y : TypeExpr} {ts us vs xs ys : List TypeExpr}

theorem isMember_of_isAlternative (h : t.isAlternative = true) : t.isMember = true := by
  cases t <;> first | rfl | cases h

theorem asArgument_of_isMember (h : t.isMember = true) : t.asArgument = t := by
  cases t <;> first | rfl | cases h

theorem alternatives_of_isMember (h : t.isMember = true) : t.alternatives = [t] := by
  cases t <;> first | rfl | cases h

theorem asArgument_of_isAlternative (h : t.isAlternative = true) : t.asArgument = t :=
  asArgument_of_isMember (isMember_of_isAlternative h)

theorem alternatives_of_isAlternative (h : t.isAlternative = true) : t.alternatives = [t] :=
  alternatives_of_isMember (isMember_of_isAlternative h)

theorem isClassVar_of_isAlternative (h : t.isAlternative = true) : t.isClassVar = false := by
  cases t with
  | bareClassVar => cases h
  | qualified q base => cases q <;> first | rfl | cases h
  | _ => rfl

theorem isPresent_iff : t.isPresent = true ↔ t.isNoneType = false := by simp [isPresent]

theorem same_noneType (t : TypeExpr) : t.same (.builtin .noneType) = t.isNoneType := by
  cases t with
  | cls c =>
      rcases c with b | i
      · cases b <;> simp [same, isNoneType]
      · simp [same, isNoneType]
  | _ => simp [same, isNoneType]

theorem noneType_same (t : TypeExpr) : same (.builtin .noneType) t = t.isNoneType := by
  cases t with
  | cls c =>
      rcases c with b | i
      · cases b <;> simp [same, isNoneType]
      · simp [same, isNoneType]
  | _ => simp [same, isNoneType]

theorem eq_noneType (h : t.isNoneType = true) : t = .builtin .noneType := by
  unfold isNoneType at h
  split at h
  next => rfl
  next => cases h

theorem unwrapSole_eq (whole : TypeExpr) (ms : List TypeExpr) :
    unwrapSole whole ms =
      match ms.filter isPresent with
      | [m] => m.unwrap
      | _ => .error (.union whole) := by
  induction ms with
  | nil => simp [unwrapSole]
  | cons m ms ih =>
      by_cases hm : m.isNoneType = true
      · simp [unwrapSole, isPresent, hm, ih]
      · cases hrest : ms.filter isPresent with
        | nil =>
            have hall : ms.all isNoneType = true := by simpa [isPresent] using hrest
            simp [unwrapSole, isPresent, hm, hall, hrest]
        | cons r rs =>
            have hall : ms.all isNoneType = false := by
              have hr : r ∈ ms.filter isPresent := by simp [hrest]
              obtain ⟨hr, hp⟩ := List.mem_filter.mp hr
              exact List.all_eq_false.mpr ⟨r, hr, by simpa [isPresent] using hp⟩
            simp [unwrapSole, isPresent, hm, hall, hrest]

theorem unwrap_of_presents (h : t.presents = [u]) : t.unwrap = u.unwrap := by
  cases t with
  | union native ms =>
      change ms.filter isPresent = [u] at h
      rw [unwrap, unwrapSole_eq, h]
  | _ =>
      simp only [presents, alternatives, List.filter_cons, List.filter_nil] at h
      split at h
      next => cases h; rfl
      next => cases h

theorem unwrap_of_not_isSole (ht : t.isPresent = true) (h : t.isSole = false) :
    ∃ why, t.unwrap = .error why := by
  cases t with
  | union native ms =>
      rw [unwrap, unwrapSole_eq]
      split
      next m hm => simp [isSole, presents, alternatives, hm] at h
      next => exact ⟨_, rfl⟩
  | _ => simp [isSole, presents, alternatives, ht] at h

theorem exists_of_isSole (h : t.isSole = true) : ∃ u, t.presents = [u] :=
  List.length_eq_one_iff.mp (beq_iff_eq.mp h)

theorem pairwise_distinct (ts : List TypeExpr) :
    (distinct ts).Pairwise (fun x y => x.same y = false) := by
  induction ts with
  | nil => exact .nil
  | cons x ts ih =>
      refine List.pairwise_cons.mpr ⟨fun y hy => ?_, ih.filter _⟩
      simpa using (List.mem_filter.mp hy).2

theorem distinct_of_pairwise (h : ts.Pairwise (fun x y => x.same y = false)) : distinct ts = ts := by
  induction h with
  | nil => rfl
  | cons hx _ ih =>
      rw [distinct, ih, List.filter_eq_self.mpr (fun y hy => by simp [hx y hy])]

/-- What two alternatives have in common of which a union keeps one. -/
structure Kindred (x y : TypeExpr) : Prop where
  present : y.isPresent = x.isPresent
  value : y.isValue = x.isValue
  stored : y.isStored = x.isStored
  classVar : y.isClassVar = x.isClassVar

theorem kindred_of_same (h : x.same y = true) : Kindred x y where
  present := by
    cases hx : x.isNoneType with
    | true =>
        rw [eq_noneType hx, noneType_same] at h
        rw [isPresent, isPresent, hx, h]
    | false =>
        cases hy : y.isNoneType with
        | true =>
            rw [eq_noneType hy, same_noneType, hx] at h
            cases h
        | false => rw [isPresent, isPresent, hx, hy]
  value := by cases x <;> cases y <;> simp_all [same, isValue]
  stored := by
    cases x with
    | qualified q base =>
        cases y with
        | qualified q' base' =>
            simp only [same, Bool.and_eq_true, beq_iff_eq] at h
            rw [h.1]
            cases q' <;> rfl
        | _ => simp [same] at h
    | _ => cases y <;> simp_all [same, isStored]
  classVar := by
    cases x with
    | qualified q base =>
        cases y with
        | qualified q' base' =>
            simp only [same, Bool.and_eq_true, beq_iff_eq] at h
            rw [h.1]
            cases q' <;> rfl
        | _ => simp [same] at h
    | _ => cases y <;> simp_all [same, isClassVar]

/-- Alternatives of which some are left out, for each of which an equal one is kept. -/
structure Thinned (us ts : List TypeExpr) : Prop where
  subset : us ⊆ ts
  first : us.find? isPresent = ts.find? isPresent
  kept : ∀ x ∈ ts, ∃ y ∈ us, y.same x = true

namespace Thinned

theorem refl (ts : List TypeExpr) : Thinned ts ts :=
  ⟨List.Subset.refl ts, rfl, fun x hx => ⟨x, hx, same_refl x⟩⟩

theorem trans (h : Thinned us vs) (h' : Thinned vs ts) : Thinned us ts where
  subset := List.Subset.trans h.subset h'.subset
  first := h.first.trans h'.first
  kept := by
    intro x hx
    obtain ⟨y, hy, hxy⟩ := h'.kept x hx
    obtain ⟨z, hz, hyz⟩ := h.kept y hy
    exact ⟨z, hz, same_trans hyz hxy⟩

theorem append (h : Thinned us ts) (h' : Thinned xs ys) : Thinned (us ++ xs) (ts ++ ys) where
  subset := List.append_subset.mpr ⟨List.subset_append_of_subset_left ys h.subset,
    List.subset_append_of_subset_right ts h'.subset⟩
  first := by rw [List.find?_append, List.find?_append, h.first, h'.first]
  kept := by
    intro y hy
    rcases List.mem_append.mp hy with hy | hy
    · obtain ⟨z, hz, hyz⟩ := h.kept y hy
      exact ⟨z, List.mem_append_left xs hz, hyz⟩
    · obtain ⟨z, hz, hyz⟩ := h'.kept y hy
      exact ⟨z, List.mem_append_right us hz, hyz⟩

theorem skip (hys : ∀ y ∈ ys, ∃ x ∈ xs, x.same y = true) (h : Thinned (xs ++ us) (xs ++ ts)) :
    Thinned (xs ++ us) (xs ++ (ys ++ ts)) where
  subset := by
    intro z hz
    rcases List.mem_append.mp (h.subset hz) with hz | hz
    · exact List.mem_append_left _ hz
    · exact List.mem_append_right _ (List.mem_append_right _ hz)
  first := by
    have hfirst := h.first
    simp only [List.find?_append] at hfirst ⊢
    cases hx : xs.find? isPresent with
    | some x => rfl
    | none =>
        have hnone : ys.find? isPresent = Option.none := by
          refine List.find?_eq_none.mpr fun y hy hp => ?_
          obtain ⟨x, hxs, hxy⟩ := hys y hy
          exact List.find?_eq_none.mp hx x hxs ((kindred_of_same hxy).present ▸ hp)
        rw [hx, Option.none_or, Option.none_or] at hfirst
        rw [hnone, Option.none_or, Option.none_or, Option.none_or, hfirst]
  kept := by
    intro z hz
    rcases List.mem_append.mp hz with hz | hz
    · exact ⟨z, List.mem_append_left _ hz, same_refl z⟩
    rcases List.mem_append.mp hz with hz | hz
    · obtain ⟨x, hx, hxz⟩ := hys z hz
      exact ⟨x, List.mem_append_left _ hx, hxz⟩
    · exact h.kept z (List.mem_append_right _ hz)

theorem keep (ys : List TypeExpr) (h : Thinned (xs ++ us) (xs ++ ts)) :
    Thinned (xs ++ (ys ++ us)) (xs ++ (ys ++ ts)) where
  subset := by
    intro z hz
    rcases List.mem_append.mp hz with hz | hz
    · exact List.mem_append_left _ hz
    rcases List.mem_append.mp hz with hz | hz
    · exact List.mem_append_right _ (List.mem_append_left _ hz)
    rcases List.mem_append.mp (h.subset (List.mem_append_right _ hz)) with hz | hz
    · exact List.mem_append_left _ hz
    · exact List.mem_append_right _ (List.mem_append_right _ hz)
  first := by
    have hfirst := h.first
    simp only [List.find?_append] at hfirst ⊢
    cases hx : xs.find? isPresent with
    | some x => rfl
    | none =>
        rw [hx, Option.none_or, Option.none_or] at hfirst
        rw [hfirst]
  kept := by
    intro z hz
    rcases List.mem_append.mp hz with hz | hz
    · exact ⟨z, List.mem_append_left _ hz, same_refl z⟩
    rcases List.mem_append.mp hz with hz | hz
    · exact ⟨z, List.mem_append_right _ (List.mem_append_left _ hz), same_refl z⟩
    · obtain ⟨w, hw, hzw⟩ := h.kept z (List.mem_append_right _ hz)
      refine ⟨w, ?_, hzw⟩
      rcases List.mem_append.mp hw with hw | hw
      · exact List.mem_append_left _ hw
      · exact List.mem_append_right _ (List.mem_append_right _ hw)

end Thinned

theorem thinned_filter_same (x : TypeExpr) (ts : List TypeExpr) :
    Thinned (x :: ts.filter (fun y => !x.same y)) (x :: ts) := by
  induction ts with
  | nil => exact .refl _
  | cons y ts ih =>
      have hrest : Thinned ([x] ++ ts.filter (fun y => !x.same y)) ([x] ++ ts) := ih
      by_cases hy : x.same y = true
      · rw [List.filter_cons_of_neg (by simp [hy])]
        exact hrest.skip (List.forall_mem_singleton.mpr ⟨x, List.mem_singleton_self x, hy⟩)
      · rw [List.filter_cons_of_pos (by simp [hy])]
        exact hrest.keep [y]

theorem thinned_distinct (ts : List TypeExpr) : Thinned (distinct ts) ts := by
  induction ts with
  | nil => exact .refl []
  | cons x ts ih => exact (thinned_filter_same x (distinct ts)).trans ((Thinned.refl [x]).append ih)

theorem distinct_concat (h : ts.Pairwise (fun x y => x.same y = false)) (t : TypeExpr) :
    distinct (ts ++ [t]) = if ts.any (fun x => x.same t) then ts else ts ++ [t] := by
  induction h with
  | nil => rfl
  | @cons x ts hx _ ih =>
      rw [List.cons_append, distinct, ih, List.any_cons]
      have hfilter : ts.filter (fun y => !x.same y) = ts :=
        List.filter_eq_self.mpr (fun y hy => by simp [hx y hy])
      by_cases ht : x.same t = true
      · cases hts : ts.any (fun x => x.same t) <;> simp [hfilter, ht]
      · cases hts : ts.any (fun x => x.same t) <;> simp [hfilter, ht]

theorem distinct_concat_noneType (h : ts.Pairwise (fun x y => x.same y = false)) :
    distinct (ts ++ [.builtin .noneType]) =
      if ts.any isNoneType then ts else ts ++ [.builtin .noneType] := by
  simp only [distinct_concat h, same_noneType]

/-- The members of a union that the language builds. -/
structure Members (native : Bool) (ts : List TypeExpr) : Prop where
  several : 2 ≤ ts.length
  apart : ts.Pairwise (fun x y => x.same y = false)
  alternative : ∀ t ∈ ts, t.isAlternative = true
  native : native = true → ∀ t ∈ ts, t.isNativeOperand = true

theorem joined_cons (t : TypeExpr) (ts : List TypeExpr) :
    joined (t :: ts) = t.asArgument.alternatives ++ joined ts := List.flatMap_cons

theorem joined_eq_self (h : ∀ x ∈ ts, x.isMember = true) : joined ts = ts := by
  induction ts with
  | nil => rfl
  | cons x ts ih =>
      obtain ⟨hx, hts⟩ := List.forall_mem_cons.mp h
      rw [joined_cons, asArgument_of_isMember hx, alternatives_of_isMember hx, ih hts]
      rfl

theorem joined_of_isAlternative (h : ∀ x ∈ ts, x.isAlternative = true) : joined ts = ts :=
  joined_eq_self fun x hx => isMember_of_isAlternative (h x hx)

theorem unionOf_of_distinct {native : Bool} (h : distinct (joined ts) = us) (hl : 2 ≤ us.length) :
    unionOf native ts = .union native us := by
  change (match distinct (joined ts) with | [a] => a | ms => .union native ms) = _
  rw [h]
  split
  next => simp at hl
  next => rfl

theorem bar_eq_union (ht : t.asArgument = t) (halt : t.alternatives = ts) (hn : t.isNativeOperand = true)
    (h : Members true (ts ++ [x])) : t.bar x = .union true (ts ++ [x]) := by
  have hx : x ∈ ts ++ [x] := List.mem_append_right _ (List.mem_singleton_self x)
  rw [bar, hn, h.native rfl x hx]
  refine unionOf_of_distinct ?_ h.several
  have hxa := h.alternative x hx
  simp only [joined, List.flatMap_cons, List.flatMap_nil, ht, halt, asArgument_of_isAlternative hxa,
    alternatives_of_isAlternative hxa, List.append_nil]
  exact distinct_of_pairwise h.apart

theorem foldl_bar_eq_union (h : Members true (ts ++ us)) (hts : 2 ≤ ts.length) :
    us.foldl bar (.union true ts) = .union true (ts ++ us) := by
  induction us generalizing ts with
  | nil => rw [List.append_nil]; rfl
  | cons x us ih =>
      rw [List.append_cons] at h ⊢
      have hmem (y : TypeExpr) (hy : y ∈ ts ++ [x]) : y ∈ ts ++ [x] ++ us := List.mem_append_left us hy
      have hfirst : Members true (ts ++ [x]) :=
        { several := Nat.le_trans hts (by simp)
          apart := (List.pairwise_append.mp h.apart).1
          alternative := fun y hy => h.alternative y (hmem y hy)
          native := fun _ y hy => h.native rfl y (hmem y hy) }
      have hbar : (TypeExpr.union true ts).bar x = .union true (ts ++ [x]) :=
        bar_eq_union rfl rfl rfl hfirst
      rw [List.foldl_cons, hbar]
      exact ih h hfirst.several

theorem Members.rebuilt {native : Bool} (h : Members native ts) :
    TypeExpr.rebuilt native ts = .union native ts := by
  cases native with
  | false =>
      refine unionOf_of_distinct ?_ h.several
      rw [joined_of_isAlternative h.alternative]
      exact distinct_of_pairwise h.apart
  | true =>
      match ts, h with
      | [], h => exact absurd h.several (by simp)
      | [_], h => exact absurd h.several (by simp)
      | x :: y :: us, h =>
          have hx := h.alternative x List.mem_cons_self
          have hfirst : Members true ([x] ++ [y]) :=
            { several := Nat.le_refl _
              apart := h.apart.sublist (by simp)
              alternative := fun z hz => h.alternative z (List.mem_append_left us hz)
              native := fun _ z hz => h.native rfl z (List.mem_append_left us hz) }
          change us.foldl bar (x.asArgument.bar y) = _
          rw [asArgument_of_isAlternative (h.alternative x List.mem_cons_self),
            bar_eq_union (asArgument_of_isAlternative hx) (alternatives_of_isAlternative hx)
            (h.native rfl x List.mem_cons_self) hfirst]
          exact foldl_bar_eq_union h (Nat.le_refl _)

structure Operand (t : TypeExpr) : Prop where
  asArgument : t.asArgument = t
  present : t.isPresent = true
  several : t.alternatives = [t] ∨ 2 ≤ t.alternatives.length
  apart : t.alternatives.Pairwise (fun x y => x.same y = false)
  alternative : ∀ x ∈ t.alternatives, x.isAlternative = true
  native : t.isNativeOperand = true → ∀ x ∈ t.alternatives, x.isNativeOperand = true

theorem operand_of_isAlternative (h : t.isAlternative = true) (hp : t.isPresent = true) : Operand t := by
  have halt := alternatives_of_isAlternative h
  refine ⟨asArgument_of_isAlternative h, hp, Or.inl halt, ?_, ?_, fun hn => ?_⟩ <;> rw [halt]
  · exact List.pairwise_singleton _ _
  · exact List.forall_mem_singleton.mpr h
  · exact List.forall_mem_singleton.mpr hn

theorem operand_union {native : Bool} (h : Members native ts) : Operand (.union native ts) where
  asArgument := rfl
  present := rfl
  several := Or.inr h.several
  apart := h.apart
  alternative := h.alternative
  native := h.native

def withNone (t : TypeExpr) : List TypeExpr := distinct (t.alternatives ++ [.builtin .noneType])

theorem mem_withNone (h : x ∈ t.withNone) : x ∈ t.alternatives ∨ x = .builtin .noneType := by
  rcases List.mem_append.mp ((thinned_distinct _).subset h) with h | h
  · exact Or.inl h
  · exact Or.inr (List.mem_singleton.mp h)

theorem Operand.members {native : Bool} (h : Operand t) (hn : native = true → t.isNativeOperand = true) :
    Members native t.withNone where
  several := by
    rw [withNone, distinct_concat_noneType h.apart]
    rcases h.several with ht | ht
    · simp [ht, isPresent_iff.mp h.present]
    · split
      next => exact ht
      next => exact Nat.le_trans ht (by simp)
  apart := pairwise_distinct _
  alternative := by
    intro x hx
    rcases mem_withNone hx with hx | rfl
    · exact h.alternative x hx
    · rfl
  native := by
    intro hnative x hx
    rcases mem_withNone hx with hx | rfl
    · exact h.native (hn hnative) x hx
    · rfl

theorem Operand.unionOf_none {native : Bool} (h : Operand t)
    (hn : native = true → t.isNativeOperand = true) :
    unionOf native [t, .none] = .union native t.withNone := by
  refine unionOf_of_distinct ?_ (h.members hn).several
  simp only [joined, List.flatMap_cons, List.flatMap_nil, h.asArgument, List.append_nil]
  rfl

theorem Operand.filter_withNone (h : Operand t) : t.withNone.filter isPresent = t.presents := by
  rw [withNone, distinct_concat_noneType h.apart]
  split
  next => rfl
  next => simp [presents, isPresent, isNoneType]

theorem optional_eq (h : t.isAlternative = true) (hp : t.isPresent = true) :
    t.optional = .union false [t, .builtin .noneType] := by
  have hone : t.withNone = [t, .builtin .noneType] := by
    rw [withNone, alternatives_of_isAlternative h]
    exact distinct_of_pairwise (by simp [same_noneType, isPresent_iff.mp hp])
  rw [← hone]
  exact (operand_of_isAlternative h hp).unionOf_none nofun

theorem isSole_optional (h : t.isAlternative = true) (hp : t.isPresent = true) :
    t.optional.isSole = true := by
  have hnone : (builtin .noneType).isPresent = false := rfl
  rw [optional_eq h hp]
  simp [isSole, presents, alternatives, hp, hnone]

/-- What is left once an expression has been built: a member, or a union of members that differ. -/
structure Built (t : TypeExpr) : Prop where
  member : ∀ x ∈ t.alternatives, x.isMember = true
  apart : t.alternatives.Pairwise fun x y => x.same y = false
  sole : ∀ x, t.alternatives = [x] → t = x

theorem built_of_isMember (h : t.isMember = true) : Built t := by
  have halt := alternatives_of_isMember h
  refine ⟨?_, ?_, fun x hx => ?_⟩
  · rw [halt]
    exact List.forall_mem_singleton.mpr h
  · rw [halt]
    exact List.pairwise_singleton _ _
  · exact List.singleton_injective (halt.symm.trans hx)

theorem Built.asArgument (h : Built t) : t.asArgument = t := by
  cases t with
  | none => cases h.member _ (List.mem_singleton_self _)
  | text s => cases h.member _ (List.mem_singleton_self _)
  | _ => rfl

/-- An expression that has been built of alternatives. -/
structure Joins (ts : List TypeExpr) (t : TypeExpr) : Prop where
  built : Built t
  thinned : Thinned t.alternatives ts

theorem Joins.trans (h : Joins us t) (hus : Thinned us ts) : Joins ts t :=
  ⟨h.built, h.thinned.trans hus⟩

theorem Built.joins (h : Built t) : Joins t.alternatives t := ⟨h, .refl _⟩

theorem joins_unionOf (native : Bool) (h : ∀ x ∈ joined ts, x.isMember = true) :
    Joins (joined ts) (unionOf native ts) := by
  have hthinned := thinned_distinct (joined ts)
  have hmember : ∀ x ∈ distinct (joined ts), x.isMember = true := fun x hx => h x (hthinned.subset hx)
  change Joins _ (match distinct (joined ts) with | [a] => a | ms => .union native ms)
  split
  next a ha =>
    have hbuilt := built_of_isMember (hmember a (ha ▸ List.mem_singleton_self a))
    have halt := alternatives_of_isMember (hmember a (ha ▸ List.mem_singleton_self a))
    exact ⟨hbuilt, halt ▸ ha ▸ hthinned⟩
  next hseveral => exact ⟨⟨hmember, pairwise_distinct _, fun x hx => absurd hx (hseveral x)⟩, hthinned⟩

theorem joins_members (native : Bool) (h : ∀ x ∈ ts, x.isAlternative = true) :
    Joins ts (unionOf native ts) := by
  have hjoined := joined_of_isAlternative h
  have hmember : ∀ x ∈ joined ts, x.isMember = true := by
    rw [hjoined]
    exact fun x hx => isMember_of_isAlternative (h x hx)
  have hjoins := joins_unionOf native hmember
  rwa [hjoined] at hjoins

theorem joined_isMember (h : ∀ t ∈ ts, t.asArgument.Built) : ∀ x ∈ joined ts, x.isMember = true := by
  intro x hx
  obtain ⟨t, ht, hx⟩ := List.mem_flatMap.mp hx
  exact (h t ht).member x hx

theorem Joins.bar (h : Joins ts t) (hx : x.asArgument.Built) :
    Joins (ts ++ x.asArgument.alternatives) (t.bar x) := by
  have hjoined : joined [t, x] = t.alternatives ++ x.asArgument.alternatives := by
    simp [joined, h.built.asArgument]
  have hpair : ∀ a ∈ [t, x], a.asArgument.Built :=
    List.forall_mem_cons.mpr ⟨h.built.asArgument.symm ▸ h.built, List.forall_mem_singleton.mpr hx⟩
  have hjoins := joins_unionOf (t.isNativeOperand && x.isNativeOperand) (joined_isMember hpair)
  rw [hjoined] at hjoins
  exact hjoins.trans (h.thinned.append (.refl _))

theorem Joins.foldl_bar (h : Joins ts t) (hus : ∀ x ∈ us, x.asArgument.Built) :
    Joins (ts ++ joined us) (us.foldl TypeExpr.bar t) := by
  induction us generalizing ts t with
  | nil => rwa [joined, List.flatMap_nil, List.append_nil]
  | cons x us ih =>
      obtain ⟨hx, hus⟩ := List.forall_mem_cons.mp hus
      rw [List.foldl_cons, joined_cons, ← List.append_assoc]
      exact ih (h.bar hx) hus

/-- A union that is made anew joins what its members bring into it. -/
theorem joins_rebuilt (native : Bool) (h : ∀ t ∈ ts, t.asArgument.Built) :
    Joins (joined ts) (rebuilt native ts) := by
  cases native with
  | false => exact joins_unionOf false (joined_isMember h)
  | true =>
      cases ts with
      | nil => exact ⟨⟨fun _ hx => absurd hx List.not_mem_nil, .nil, nofun⟩, .refl []⟩
      | cons x us =>
          obtain ⟨hx, hus⟩ := List.forall_mem_cons.mp h
          rw [joined_cons]
          exact hx.joins.foldl_bar hus

theorem sameMembers_symm {xs ys : List TypeExpr} (h : SameMembers (fun x y => x.same y = true) xs ys) :
    SameMembers (fun x y => x.same y = true) ys xs :=
  ⟨fun y hy => (h.2 y hy).imp fun _ hx => hx.imp_right same_symm,
    fun x hx => (h.1 x hx).imp fun _ hy => hy.imp_right same_symm⟩

theorem Built.sole_of_same (h : Built u) (hx : t.alternatives = [x])
    (hs : SameMembers (fun x y => x.same y = true) t.alternatives u.alternatives) : x.same u = true := by
  have hall : ∀ y ∈ u.alternatives, x.same y = true := by
    intro y hy
    obtain ⟨z, hz, hzy⟩ := hs.2 y hy
    rw [hx, List.mem_singleton] at hz
    exact hz ▸ hzy
  match halt : u.alternatives with
  | [] =>
      obtain ⟨y, hy, _⟩ := hs.1 x (hx ▸ List.mem_singleton_self x)
      exact absurd (halt ▸ hy) List.not_mem_nil
  | [y] =>
      rw [h.sole y halt]
      exact hall y (halt ▸ List.mem_singleton_self y)
  | y :: z :: rest =>
      have hyz : y.same z = true := by
        have hy := hall y (halt ▸ List.mem_cons_self)
        have hz := hall z (halt ▸ List.mem_cons_of_mem y List.mem_cons_self)
        exact same_trans (same_symm hy) hz
      have hapart : (y :: z :: rest).Pairwise fun x y => x.same y = false := halt ▸ h.apart
      have hdiffer : y.same z = false := List.rel_of_pairwise_cons hapart List.mem_cons_self
      rw [hdiffer] at hyz
      cases hyz

theorem same_of_alternatives (ht : Built t) (hu : Built u)
    (hs : SameMembers (fun x y => x.same y = true) t.alternatives u.alternatives) : t.same u = true := by
  by_cases hsole : t.alternatives = [t]
  · exact hu.sole_of_same hsole hs
  by_cases hsole' : u.alternatives = [u]
  · exact same_symm (ht.sole_of_same hsole' (sameMembers_symm hs))
  cases t with
  | union native ms =>
      cases u with
      | union native' ms' => exact same_union.mpr ⟨native', ms', rfl, hs⟩
      | _ => exact absurd rfl hsole'
  | _ => exact absurd rfl hsole

theorem Joins.same (h : Joins ts t) (h' : Joins us u)
    (hs : SameMembers (fun x y => x.same y = true) ts us) : t.same u = true := by
  refine same_of_alternatives h.built h'.built ⟨fun x hx => ?_, fun y hy => ?_⟩
  · obtain ⟨y, hy, hxy⟩ := hs.1 x (h.thinned.subset hx)
    obtain ⟨z, hz, hzy⟩ := h'.thinned.kept y hy
    exact ⟨z, hz, same_trans hxy (same_symm hzy)⟩
  · obtain ⟨x, hx, hxy⟩ := hs.2 y (h'.thinned.subset hy)
    obtain ⟨z, hz, hzx⟩ := h.thinned.kept x hx
    exact ⟨z, hz, same_trans hzx hxy⟩

variable (h : Joins ts t)
include h

theorem Joins.classVar (hc : t.isClassVar = true) : t ∈ ts ∧ ∀ x ∈ ts, x.isClassVar = true := by
  have halt : t.alternatives = [t] := by cases t <;> simp_all [isClassVar, alternatives]
  refine ⟨h.thinned.subset (halt ▸ List.mem_singleton_self t), fun x hx => ?_⟩
  obtain ⟨y, hy, hyx⟩ := h.thinned.kept x hx
  rw [halt, List.mem_singleton] at hy
  rw [(kindred_of_same hyx).classVar, hy, hc]

theorem Joins.isPresent (hx : x ∈ ts) (hp : x.isPresent = true) : t.isPresent = true := by
  rw [isPresent_iff]
  cases hc : t.isNoneType with
  | false => rfl
  | true =>
      have hfirst := h.thinned.first
      rw [eq_noneType hc] at hfirst
      have hnone : ts.find? TypeExpr.isPresent = Option.none := hfirst.symm
      exact absurd hp (List.find?_eq_none.mp hnone x hx)

theorem Joins.isValue (hx : x ∈ ts) (hl : x.isValue = false) : t.isValue = false := by
  obtain ⟨y, hy, hyx⟩ := h.thinned.kept x hx
  have hval : y.isValue = false := (kindred_of_same hyx).value.symm.trans hl
  cases t with
  | literal v =>
      rw [List.mem_singleton.mp hy] at hval
      cases hval
  | ellipsis =>
      rw [List.mem_singleton.mp hy] at hval
      cases hval
  | _ => rfl

/-- What stands for one alternative is unwrapped as the first one. -/
theorem Joins.unwrap (hs : t.isSole = true) (hu : ts.find? TypeExpr.isPresent = some u) :
    t.unwrap = u.unwrap := by
  obtain ⟨m, hm⟩ := exists_of_isSole hs
  have hfirst : t.alternatives.find? TypeExpr.isPresent = some m := by
    rw [← List.head?_filter]
    exact congrArg List.head? hm
  rw [h.thinned.first, hu] at hfirst
  cases hfirst
  exact unwrap_of_presents hm

end ClassSchema.TypeExpr
