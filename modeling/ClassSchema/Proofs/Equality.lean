import ClassSchema.TypeExpr.Equality
import Mathlib.Data.List.Forall2
import Mathlib.Data.List.Nodup

namespace ClassSchema

def SameMembers {α : Type} (R : α → α → Prop) (xs ys : List α) : Prop :=
  (∀ x ∈ xs, ∃ y ∈ ys, R x y) ∧ ∀ y ∈ ys, ∃ x ∈ xs, R x y

section

variable {α : Type} {R : α → α → Prop} {xs ys zs : List α}

theorem SameMembers.refl (h : ∀ x ∈ xs, R x x) : SameMembers R xs xs :=
  ⟨fun x hx => ⟨x, hx, h x hx⟩, fun x hx => ⟨x, hx, h x hx⟩⟩

theorem SameMembers.euclid (hy : SameMembers R xs ys) (hz : SameMembers R xs zs)
    (h : ∀ x ∈ xs, ∀ y ∈ ys, ∀ z ∈ zs, R x y → R x z → R y z) : SameMembers R ys zs := by
  constructor
  · intro y hmem
    obtain ⟨x, hx, hxy⟩ := hy.2 y hmem
    obtain ⟨z, hz, hxz⟩ := hz.1 x hx
    exact ⟨z, hz, h x hx y hmem z hz hxy hxz⟩
  · intro z hmem
    obtain ⟨x, hx, hxz⟩ := hz.2 z hmem
    obtain ⟨y, hy, hxy⟩ := hy.1 x hx
    exact ⟨y, hy, h x hx y hy z hmem hxy hxz⟩

theorem forall₂_euclid (hy : List.Forall₂ R xs ys) (hz : List.Forall₂ R xs zs)
    (h : ∀ x ∈ xs, ∀ y ∈ ys, ∀ z ∈ zs, R x y → R x z → R y z) : List.Forall₂ R ys zs := by
  induction hy generalizing zs with
  | nil =>
      cases hz
      exact .nil
  | cons hxy _ ih =>
      cases hz with
      | cons hxz hzs =>
          refine .cons (h _ List.mem_cons_self _ List.mem_cons_self _ List.mem_cons_self hxy hxz) ?_
          exact ih hzs fun x hx y hy z hz =>
            h x (List.mem_cons_of_mem _ hx) y (List.mem_cons_of_mem _ hy) z (List.mem_cons_of_mem _ hz)

end

section

variable {α : Type} {table : List (String × α)} {key : String} {value : α}

theorem mem_of_lookup (h : table.lookup key = some value) : (key, value) ∈ table := by
  obtain ⟨front, rest, rfl, _⟩ := List.lookup_eq_some_iff.mp h
  exact List.mem_append_right _ List.mem_cons_self

end

namespace Decimal

theorem scaled_add (d : Decimal) {depth : Nat} (h : (-d.exponent).toNat ≤ depth) (k : Nat) :
    d.scaled (depth + k) = d.scaled depth * Nat.pow 10 k := by
  have hexp : (d.exponent + ((depth + k : Nat) : Int)).toNat = (d.exponent + (depth : Int)).toNat + k := by
    omega
  unfold scaled
  dsimp only
  rw [hexp, Nat.pow_eq, Nat.pow_eq, Nat.pow_eq, Nat.pow_add, Int.natCast_mul, ← Int.mul_assoc]
  split
  next => exact (Int.neg_mul _ _).symm
  next => rfl

/-- Numbers may be compared at any depth that reaches the last digits of both. -/
theorem same_iff {a b : Decimal} {depth : Nat} (ha : (-a.exponent).toNat ≤ depth)
    (hb : (-b.exponent).toNat ≤ depth) : a.same b = true ↔ a.scaled depth = b.scaled depth := by
  obtain ⟨k, rfl⟩ := Nat.exists_eq_add_of_le (Nat.max_le.mpr ⟨ha, hb⟩)
  rw [scaled_add a (Nat.le_max_left _ _), scaled_add b (Nat.le_max_right _ _), same, beq_iff_eq]
  have hpos : 0 < Nat.pow 10 k := Nat.pow_pos (by decide)
  have hne : (Nat.pow 10 k : Int) ≠ 0 := by omega
  exact (Int.mul_eq_mul_right_iff hne).symm

theorem same_refl (d : Decimal) : d.same d = true := by simp [same]

theorem same_euclid {a b c : Decimal} (hb : a.same b = true) (hc : a.same c = true) :
    b.same c = true := by
  let depth := max (-a.exponent).toNat (max (-b.exponent).toNat (-c.exponent).toNat)
  have ha' : (-a.exponent).toNat ≤ depth := by omega
  have hb' : (-b.exponent).toNat ≤ depth := by omega
  have hc' : (-c.exponent).toNat ≤ depth := by omega
  rw [same_iff ha' hb'] at hb
  rw [same_iff ha' hc'] at hc
  rw [same_iff hb' hc', ← hb, hc]

end Decimal

namespace Value

def inner : Value → List Value
  | .list items | .tuple items => items
  | .record entries => entries.map Prod.snd
  | .null | .bool _ | .int _ | .decimal _ | .text _ => []

variable {v w u : Value} {vs ws : List Value} {es fs : List (String × Value)}

theorem sizeOf_inner (h : w ∈ v.inner) : sizeOf w < sizeOf v := by
  cases v with
  | list items | tuple items =>
      have hlt : sizeOf w < sizeOf items := List.sizeOf_lt_of_mem h
      simp only [list.sizeOf_spec, tuple.sizeOf_spec]
      omega
  | record entries =>
      obtain ⟨e, he, rfl⟩ := List.mem_map.mp h
      have hlt := List.sizeOf_lt_of_mem he
      have hpair : sizeOf e = 1 + sizeOf e.1 + sizeOf e.2 := by cases e; rfl
      simp only [record.sizeOf_spec]
      omega
  | _ => exact absurd h List.not_mem_nil

theorem induction {P : Value → Prop} (step : ∀ v, (∀ w ∈ v.inner, P w) → P v) (v : Value) : P v :=
  step v fun w _ => induction step w
termination_by sizeOf v
decreasing_by exact sizeOf_inner ‹_›

theorem sameList_iff : sameList vs ws = true ↔ List.Forall₂ (fun v w => v.same w = true) vs ws := by
  induction vs generalizing ws with
  | nil => cases ws <;> simp [sameList]
  | cons v vs ih => cases ws <;> simp [sameList, ih]

theorem sameEntries_iff {earlier : List String} : sameEntries earlier es fs = true ↔
    ∀ key ∉ earlier, ∀ v, es.lookup key = some v → ∃ w, fs.lookup key = some w ∧ v.same w = true := by
  induction es generalizing earlier with
  | nil => simp [sameEntries]
  | cons e es ih =>
      obtain ⟨k, u⟩ := e
      rw [sameEntries, Bool.and_eq_true, Bool.or_eq_true, Option.any_eq_true, ih, List.contains_iff_mem]
      constructor
      · rintro ⟨hk, hes⟩ key hkey v hv
        rw [List.lookup_cons] at hv
        cases hkk : key == k with
        | true =>
            obtain rfl := beq_iff_eq.mp hkk
            rw [hkk] at hv
            cases hv
            exact hk.resolve_left hkey
        | false =>
            rw [hkk] at hv
            exact hes key (List.not_mem_cons_of_ne_of_not_mem (beq_eq_false_iff_ne.mp hkk) hkey) v hv
      · intro h
        refine ⟨or_iff_not_imp_left.mpr fun hk => h k hk u (by simp), ?_⟩
        intro key hkey v hv
        obtain ⟨hne, hkey⟩ := List.ne_and_not_mem_of_not_mem_cons hkey
        refine h key hkey v ?_
        rw [List.lookup_cons, beq_eq_false_iff_ne.mpr hne]
        exact hv

theorem same_list : same (.list vs) w = true ↔
    ∃ ws, w = .list ws ∧ List.Forall₂ (fun v w => v.same w = true) vs ws := by
  cases w <;> simp [same, sameList_iff]

theorem same_tuple : same (.tuple vs) w = true ↔
    ∃ ws, w = .tuple ws ∧ List.Forall₂ (fun v w => v.same w = true) vs ws := by
  cases w <;> simp [same, sameList_iff]

def Match (es fs : List (String × Value)) : Prop :=
  ∀ key, Option.Rel (fun v w => v.same w = true) (es.lookup key) (fs.lookup key)

theorem all_any_iff : (fs.all fun f => es.any fun e => e.1 == f.1) = true ↔
    ∀ key, es.lookup key = none → fs.lookup key = none := by
  simp only [List.all_eq_true, List.any_eq_true, List.lookup_eq_none_iff]
  constructor
  · intro h key hes f hf
    obtain ⟨e, he, hef⟩ := h f hf
    obtain ⟨_, _⟩ := e
    rw [← beq_iff_eq.mp hef]
    exact hes _ he
  · intro h f hf
    by_contra hno
    refine bne_iff_ne.mp (h f.1 (fun e he => ?_) f hf) rfl
    exact bne_iff_ne.mpr fun hfe => hno ⟨e, he, beq_iff_eq.mpr hfe.symm⟩

theorem match_iff : Match es fs ↔
    (sameEntries [] es fs && fs.all fun f => es.any fun e => e.1 == f.1) = true := by
  rw [Bool.and_eq_true, sameEntries_iff, all_any_iff]
  constructor
  · intro h
    refine ⟨fun key _ v hv => ?_, fun key hkey => ?_⟩
    · have hrel := h key
      rw [hv] at hrel
      generalize fs.lookup key = found at hrel
      cases hrel with
      | some hsame => exact ⟨_, rfl, hsame⟩
    · have hrel := h key
      rw [hkey] at hrel
      generalize fs.lookup key = found at hrel
      cases hrel
      rfl
  · rintro ⟨hsome, hnone⟩ key
    cases hes : es.lookup key with
    | none =>
        rw [hnone key hes]
        exact .none
    | some v =>
        obtain ⟨w, hw, hsame⟩ := hsome key List.not_mem_nil v hes
        rw [hw]
        exact .some hsame

theorem same_record : same (.record es) w = true ↔ ∃ fs, w = .record fs ∧ Match es fs := by
  cases w <;> simp [same, match_iff]

theorem same_of_number {d : Decimal} (h : v.number? = some d) (w : Value) : v.same w = w.isNumber d := by
  cases v <;> cases h <;> simp [same]

theorem isNumber_iff {d : Decimal} : v.isNumber d = true ↔ ∃ e, v.number? = some e ∧ d.same e = true := by
  unfold isNumber
  cases v.number? <;> simp

theorem number_refl {d : Decimal} (h : v.number? = some d) : v.same v = true := by
  rw [same_of_number h, isNumber_iff]
  exact ⟨d, h, d.same_refl⟩

theorem number_euclid {d : Decimal} (h : v.number? = some d) (hw : v.same w = true) (hu : v.same u = true) :
    w.same u = true := by
  rw [same_of_number h, isNumber_iff] at hw hu
  obtain ⟨e, he, hde⟩ := hw
  obtain ⟨f, hf, hdf⟩ := hu
  rw [same_of_number he, isNumber_iff]
  exact ⟨f, hf, Decimal.same_euclid hde hdf⟩

theorem Match.refl (h : ∀ e ∈ es, e.2.same e.2 = true) : Match es es := by
  intro key
  cases hes : es.lookup key with
  | none => exact .none
  | some v => exact .some (h _ (mem_of_lookup hes))

theorem Match.euclid {gs : List (String × Value)} (hf : Match es fs) (hg : Match es gs)
    (h : ∀ e ∈ es, ∀ f ∈ fs, ∀ g ∈ gs, e.2.same f.2 = true → e.2.same g.2 = true → f.2.same g.2 = true) :
    Match fs gs := by
  intro key
  have hfkey := hf key
  have hgkey := hg key
  cases hes : es.lookup key with
  | none =>
      rw [hes] at hfkey hgkey
      generalize fs.lookup key = found, gs.lookup key = found' at hfkey hgkey
      cases hfkey
      cases hgkey
      exact .none
  | some v =>
      rw [hes] at hfkey hgkey
      cases hfs : fs.lookup key with
      | none => rw [hfs] at hfkey; cases hfkey
      | some w =>
          cases hgs : gs.lookup key with
          | none => rw [hgs] at hgkey; cases hgkey
          | some u =>
              rw [hfs] at hfkey
              rw [hgs] at hgkey
              cases hfkey with
              | some hvw =>
                  cases hgkey with
                  | some hvu =>
                      exact .some (h _ (mem_of_lookup hes) _ (mem_of_lookup hfs) _ (mem_of_lookup hgs)
                        hvw hvu)

theorem same_refl (v : Value) : v.same v = true := by
  induction v using Value.induction with
  | step v ih =>
  cases v with
  | bool | int | decimal => exact number_refl rfl
  | list items => exact same_list.mpr ⟨items, rfl, List.forall₂_same.mpr ih⟩
  | tuple items => exact same_tuple.mpr ⟨items, rfl, List.forall₂_same.mpr ih⟩
  | record entries =>
      exact same_record.mpr ⟨entries, rfl, .refl fun e he => ih e.2 (List.mem_map_of_mem he)⟩
  | null | text => simp [same]

theorem same_euclid (v : Value) {w u : Value} (hvw : v.same w = true) (hvu : v.same u = true) :
    w.same u = true := by
  induction v using Value.induction generalizing w u with
  | step v ih =>
  have hinner : ∀ x ∈ v.inner, ∀ y ∈ w.inner, ∀ z ∈ u.inner, x.same y = true → x.same z = true →
      y.same z = true := fun x hx _ _ _ _ => ih x hx
  cases v with
  | bool | int | decimal => exact number_euclid rfl hvw hvu
  | list items =>
      obtain ⟨ws, rfl, hws⟩ := same_list.mp hvw
      obtain ⟨us, rfl, hus⟩ := same_list.mp hvu
      exact same_list.mpr ⟨us, rfl, forall₂_euclid hws hus hinner⟩
  | tuple items =>
      obtain ⟨ws, rfl, hws⟩ := same_tuple.mp hvw
      obtain ⟨us, rfl, hus⟩ := same_tuple.mp hvu
      exact same_tuple.mpr ⟨us, rfl, forall₂_euclid hws hus hinner⟩
  | record entries =>
      obtain ⟨fs, rfl, hfs⟩ := same_record.mp hvw
      obtain ⟨gs, rfl, hgs⟩ := same_record.mp hvu
      exact same_record.mpr ⟨gs, rfl, hfs.euclid hgs fun e he f hf g hg =>
        hinner e.2 (List.mem_map_of_mem he) f.2 (List.mem_map_of_mem hf) g.2 (List.mem_map_of_mem hg)⟩
  | null | text => cases w <;> cases u <;> simp_all [same]

theorem same_trans (v : Value) {w u : Value} (hvw : v.same w = true) (hwu : w.same u = true) :
    v.same u = true :=
  same_euclid w (same_euclid v hvw v.same_refl) hwu

theorem identical_refl (v : Value) : v.identical v = true := by simp [identical, same_refl]

theorem identical_euclid (hvw : v.identical w = true) (hvu : v.identical u = true) :
    w.identical u = true := by
  simp only [identical, Bool.and_eq_true, beq_iff_eq] at *
  exact ⟨hvw.1.symm.trans hvu.1, same_euclid v hvw.2 hvu.2⟩

theorem identical_symm (h : v.identical w = true) : w.identical v = true :=
  identical_euclid h (identical_refl v)

end Value

namespace TypeExpr

def inner : TypeExpr → List TypeExpr
  | .subscript _ args => args
  | .union _ members => members
  | .annotated base _ => [base]
  | .callable params result => result :: params
  | .qualified q base => if q.isInitVar then [] else [base]
  | .literal _ | .choice _ | .none | .ellipsis | .cls _ | .marker _ | .newType _ _ | .alias _
  | .bareClassVar | .forward _ | .text _ | .variable _ => []

variable {x y z : TypeExpr} {xs ys : List TypeExpr}

theorem sizeOf_inner (h : y ∈ x.inner) : sizeOf y < sizeOf x := by
  cases x with
  | subscript head args =>
      have hlt : sizeOf y < sizeOf args := List.sizeOf_lt_of_mem h
      simp only [subscript.sizeOf_spec]
      omega
  | union native members =>
      have hlt : sizeOf y < sizeOf members := List.sizeOf_lt_of_mem h
      simp only [union.sizeOf_spec]
      omega
  | annotated base metadata =>
      cases List.mem_singleton.mp h
      simp only [annotated.sizeOf_spec]
      omega
  | callable params result =>
      simp only [callable.sizeOf_spec]
      rcases List.mem_cons.mp h with rfl | h
      · omega
      · have hlt := List.sizeOf_lt_of_mem h
        omega
  | qualified q base =>
      rw [inner] at h
      split at h
      next => exact absurd h List.not_mem_nil
      next =>
        cases List.mem_singleton.mp h
        simp only [qualified.sizeOf_spec]
        omega
  | _ => exact absurd h List.not_mem_nil

theorem induction {P : TypeExpr → Prop} (step : ∀ x, (∀ y ∈ x.inner, P y) → P x) (x : TypeExpr) : P x :=
  step x fun y _ => induction step y
termination_by sizeOf x
decreasing_by exact sizeOf_inner ‹_›

theorem samePairwise_iff : samePairwise xs ys = true ↔ List.Forall₂ (fun x y => x.same y = true) xs ys := by
  induction xs generalizing ys with
  | nil => cases ys <;> simp [samePairwise]
  | cons x xs ih => cases ys <;> simp [samePairwise, ih]

theorem covered_iff : covered xs ys = true ↔ ∀ x ∈ xs, ∃ y ∈ ys, x.same y = true := by
  induction xs with
  | nil => simp [covered]
  | cons x xs ih => simp [covered, ih]

theorem occurs_iff : occurs xs y = true ↔ ∃ x ∈ xs, x.same y = true := by
  induction xs with
  | nil => simp [occurs]
  | cons x xs ih => simp [occurs, ih]

theorem sameChoices_iff {vs ws : List Value} :
    sameChoices vs ws = true ↔ SameMembers (fun v w => v.identical w = true) vs ws := by
  simp only [sameChoices, SameMembers, Bool.and_eq_true, List.all_eq_true, List.any_eq_true]
  refine and_congr_right' (forall₂_congr fun w _ => exists_congr fun v => and_congr_right fun _ => ?_)
  exact ⟨Value.identical_symm, Value.identical_symm⟩

section Same

variable {head : Head} {args params : List TypeExpr} {native : Bool} {base result : TypeExpr}
  {v : Value} {vs : List Value} {q : Qualifier}

theorem same_literal : same (.literal v) y = true ↔ ∃ w, y = .literal w ∧ v.same w = true := by
  cases y <;> simp [same]

theorem same_choice : same (.choice vs) y = true ↔ ∃ ws, y = .choice ws ∧ sameChoices vs ws = true := by
  cases y <;> simp [same]

theorem same_subscript : same (.subscript head args) y = true ↔
    ∃ ys, y = .subscript head ys ∧ List.Forall₂ (fun x y => x.same y = true) args ys := by
  cases y <;> simp [same, samePairwise_iff, @eq_comm _ head]

theorem same_union : same (.union native xs) y = true ↔
    ∃ native' ys, y = .union native' ys ∧ SameMembers (fun x y => x.same y = true) xs ys := by
  cases y <;> simp [same, covered_iff, occurs_iff, SameMembers]

theorem same_annotated : same (.annotated base vs) y = true ↔ ∃ base' ws, y = .annotated base' ws ∧
    base.same base' = true ∧ List.Forall₂ (fun v w => v.same w = true) vs ws := by
  cases y <;> simp [same, Value.sameList_iff]

theorem same_callable : same (.callable params result) y = true ↔ ∃ params' result',
    y = .callable params' result' ∧ List.Forall₂ (fun x y => x.same y = true) params params' ∧
      result.same result' = true := by
  cases y <;> simp [same, samePairwise_iff]

theorem same_qualified : same (.qualified q base) y = true ↔
    ∃ base', y = .qualified q base' ∧ (q.isInitVar = true ∨ base.same base' = true) := by
  cases y <;> simp [same, @eq_comm _ q]

end Same

theorem same_refl (x : TypeExpr) : x.same x = true := by
  induction x using TypeExpr.induction with
  | step x ih =>
  cases x with
  | literal v => exact same_literal.mpr ⟨v, rfl, v.same_refl⟩
  | choice values =>
      exact same_choice.mpr ⟨values, rfl, sameChoices_iff.mpr (.refl fun v _ => v.identical_refl)⟩
  | subscript head args => exact same_subscript.mpr ⟨args, rfl, List.forall₂_same.mpr ih⟩
  | union native members => exact same_union.mpr ⟨native, members, rfl, .refl ih⟩
  | annotated base metadata =>
      exact same_annotated.mpr ⟨base, metadata, rfl, ih base (List.mem_singleton_self base),
        List.forall₂_same.mpr fun v _ => v.same_refl⟩
  | callable params result =>
      obtain ⟨hresult, hparams⟩ := List.forall_mem_cons.mp ih
      exact same_callable.mpr ⟨params, result, rfl, List.forall₂_same.mpr hparams, hresult⟩
  | qualified q base =>
      refine same_qualified.mpr ⟨base, rfl, or_iff_not_imp_left.mpr fun hq => ih base ?_⟩
      simp [inner, hq]
  | _ => simp [same]

theorem same_euclid (x : TypeExpr) {y z : TypeExpr} (hxy : x.same y = true) (hxz : x.same z = true) :
    y.same z = true := by
  induction x using TypeExpr.induction generalizing y z with
  | step x ih =>
  have hinner : ∀ a ∈ x.inner, ∀ b ∈ y.inner, ∀ c ∈ z.inner, a.same b = true → a.same c = true →
      b.same c = true := fun a ha _ _ _ _ => ih a ha
  cases x with
  | literal v =>
      obtain ⟨w, rfl, hw⟩ := same_literal.mp hxy
      obtain ⟨u, rfl, hu⟩ := same_literal.mp hxz
      exact same_literal.mpr ⟨u, rfl, v.same_euclid hw hu⟩
  | choice values =>
      obtain ⟨ws, rfl, hws⟩ := same_choice.mp hxy
      obtain ⟨us, rfl, hus⟩ := same_choice.mp hxz
      rw [sameChoices_iff] at hws hus
      refine same_choice.mpr ⟨us, rfl, sameChoices_iff.mpr (hws.euclid hus ?_)⟩
      exact fun v _ w _ u _ => Value.identical_euclid
  | subscript head args =>
      obtain ⟨ys, rfl, hys⟩ := same_subscript.mp hxy
      obtain ⟨zs, rfl, hzs⟩ := same_subscript.mp hxz
      exact same_subscript.mpr ⟨zs, rfl, forall₂_euclid hys hzs hinner⟩
  | union native members =>
      obtain ⟨_, ys, rfl, hys⟩ := same_union.mp hxy
      obtain ⟨native', zs, rfl, hzs⟩ := same_union.mp hxz
      exact same_union.mpr ⟨native', zs, rfl, hys.euclid hzs hinner⟩
  | annotated base metadata =>
      obtain ⟨b, ws, rfl, hb, hws⟩ := same_annotated.mp hxy
      obtain ⟨c, us, rfl, hc, hus⟩ := same_annotated.mp hxz
      refine same_annotated.mpr ⟨c, us, rfl, ?_, forall₂_euclid hws hus fun v _ _ _ _ _ => v.same_euclid⟩
      exact ih base (List.mem_singleton_self base) hb hc
  | callable params result =>
      obtain ⟨ps, r, rfl, hps, hr⟩ := same_callable.mp hxy
      obtain ⟨qs, t, rfl, hqs, ht⟩ := same_callable.mp hxz
      refine same_callable.mpr ⟨qs, t, rfl, forall₂_euclid hps hqs fun a ha _ _ _ _ => ?_, ?_⟩
      · exact ih a (List.mem_cons_of_mem _ ha)
      · exact ih result List.mem_cons_self hr ht
  | qualified q base =>
      obtain ⟨b, rfl, hb⟩ := same_qualified.mp hxy
      obtain ⟨c, rfl, hc⟩ := same_qualified.mp hxz
      refine same_qualified.mpr ⟨c, rfl, or_iff_not_imp_left.mpr fun hq => ?_⟩
      exact ih base (by simp [inner, hq]) (hb.resolve_left hq) (hc.resolve_left hq)
  | _ =>
      cases y <;> simp only [same, Bool.false_eq_true, beq_iff_eq] at hxy
      cases z <;> simp only [same, Bool.false_eq_true, beq_iff_eq] at hxz
      simp_all [same]

theorem same_symm (h : x.same y = true) : y.same x = true := same_euclid x h (same_refl x)

theorem same_trans (hxy : x.same y = true) (hyz : y.same z = true) : x.same z = true :=
  same_euclid y (same_symm hxy) hyz

end TypeExpr

end ClassSchema
