import ClassSchema.Proofs.Alternatives
import ClassSchema.Proofs.Restyling.Interchange

namespace ClassSchema

namespace TypeExpr

variable {t u v x y : TypeExpr} {ts us vs : List TypeExpr} {values values' : List Value}

theorem reannotate_of_not_isValue (h : t.isValue = false) (values : List Value) :
    t.reannotate values = .ok (t.annotate values) := by
  cases t <;> first | rfl | cases h

theorem reannotate_of_isValue (h : t.isValue = true) (values : List Value) :
    ∃ e, t.reannotate values = .error e := by
  cases t <;> first | exact ⟨_, rfl⟩ | cases h

theorem unwrap_agree (hp : t.isPresent = true ∧ u.isPresent = true) (h : u.presents = t.presents) :
    Agree (fun v v' => v' = v) t.unwrap u.unwrap := by
  have hsole : u.isSole = t.isSole := by rw [isSole, isSole, h]
  cases hs : t.isSole with
  | true =>
      obtain ⟨v, hv⟩ := exists_of_isSole hs
      rw [unwrap_of_presents hv, unwrap_of_presents (h.trans hv)]
      exact .of_eq rfl fun _ => rfl
  | false =>
      obtain ⟨_, ht⟩ := unwrap_of_not_isSole hp.1 hs
      obtain ⟨_, hu⟩ := unwrap_of_not_isSole hp.2 (hsole.trans hs)
      exact .of_error ht hu

theorem asArgument_same (h : x.same y = true) : x.asArgument.same y.asArgument = true := by
  cases x with
  | none => cases y <;> simp_all [same, asArgument]
  | text s => cases y <;> simp_all [same, asArgument]
  | _ => cases y <;> first | exact h | simp [same] at h

theorem alternatives_same (h : x.same y = true) :
    SameMembers (fun x y => x.same y = true) x.alternatives y.alternatives := by
  have hsingle {t : TypeExpr} (ht : ∀ native ms, t ≠ .union native ms) : t.alternatives = [t] := by
    cases t <;> first | rfl | exact absurd rfl (ht _ _)
  by_cases hx : ∃ native ms, x = .union native ms
  · obtain ⟨native, ms, rfl⟩ := hx
    obtain ⟨native', ms', rfl, hms⟩ := same_union.mp h
    exact hms
  · have hy : ∀ native ms, y ≠ .union native ms := by
      rintro native ms rfl
      obtain ⟨native', ms', rfl, _⟩ := same_union.mp (same_symm h)
      exact hx ⟨native', ms', rfl⟩
    rw [hsingle (fun native ms hms => hx ⟨native, ms, hms⟩), hsingle hy]
    exact ⟨List.forall_mem_singleton.mpr ⟨y, List.mem_singleton_self y, h⟩,
      List.forall_mem_singleton.mpr ⟨x, List.mem_singleton_self x, h⟩⟩

theorem joined_same (h : SameMembers (fun x y => x.same y = true) us vs) :
    SameMembers (fun x y => x.same y = true) (joined us) (joined vs) := by
  constructor
  · intro x hx
    obtain ⟨u, hu, hx⟩ := List.mem_flatMap.mp hx
    obtain ⟨v, hv, huv⟩ := h.1 u hu
    obtain ⟨y, hy, hxy⟩ := (alternatives_same (asArgument_same huv)).1 x hx
    exact ⟨y, List.mem_flatMap.mpr ⟨v, hv, hy⟩, hxy⟩
  · intro y hy
    obtain ⟨v, hv, hy⟩ := List.mem_flatMap.mp hy
    obtain ⟨u, hu, huv⟩ := h.2 v hv
    obtain ⟨x, hx, hxy⟩ := (alternatives_same (asArgument_same huv)).2 y hy
    exact ⟨x, List.mem_flatMap.mpr ⟨u, hu, hx⟩, hxy⟩

theorem annotate_same (h : u.same v = true)
    (hm : List.Forall₂ (fun v w => v.same w = true) values values') :
    (u.annotate values).same (v.annotate values') = true := by
  have ha := asArgument_same h
  unfold annotate
  split
  next inner earlier hu =>
    rw [hu] at ha
    obtain ⟨inner', earlier', hv, hinner, hearlier⟩ := same_annotated.mp ha
    rw [hv]
    exact same_annotated.mpr ⟨_, _, rfl, hinner, List.rel_append hearlier hm⟩
  next hu =>
    split
    next inner' earlier' hv =>
      rw [hv] at ha
      obtain ⟨inner, earlier, hself, _⟩ := same_annotated.mp (same_symm ha)
      exact absurd hself (hu inner earlier)
    next => exact same_annotated.mpr ⟨_, _, rfl, ha, hm⟩

theorem reannotate_agree (h : u.same v = true)
    (hm : List.Forall₂ (fun v w => v.same w = true) values values') :
    Agree (fun u v => u.same v = true) (u.reannotate values) (v.reannotate values') := by
  have hvalue := (kindred_of_same h).value
  cases hu : u.isValue with
  | true =>
      obtain ⟨_, hx⟩ := reannotate_of_isValue hu values
      obtain ⟨_, hy⟩ := reannotate_of_isValue (hvalue.trans hu) values'
      exact .of_error hx hy
  | false =>
      rw [reannotate_of_not_isValue hu, reannotate_of_not_isValue (hvalue.trans hu)]
      exact .ok (annotate_same h hm)

end TypeExpr

namespace Evaluator

/-- What is found for a reference, which is an expression then. -/
structure Finds (E : Evaluator) (look : Bool → String → Except Raised TypeExpr) : Prop
    extends Settles look where
  compiled : ∀ {whole s u}, look whole s = .ok u → E.compile s = .ok ()

variable {E : Evaluator} {look : Bool → String → Except Raised TypeExpr} {whole : Bool}
  {t u x y : TypeExpr} {ts us vs xs ys : List TypeExpr} {values : List Value}

theorem substituteAll_agree {R : Nat → TypeExpr → TypeExpr → Prop} {ts ts' : List TypeExpr}
    (hlength : ts'.length = ts.length)
    (h : ∀ i t t', ts[i]? = some t → ts'[i]? = some t' →
      t' = t ∨ Agree (R i) (E.substitute look false t) (E.substitute look false t')) :
    ts' = ts ∨ Agree (Changed R) (E.substituteAll look ts) (E.substituteAll look ts') := by
  induction ts generalizing ts' R with
  | nil => exact Or.inl (List.eq_nil_of_length_eq_zero hlength)
  | cons t ts ih =>
      cases ts' with
      | nil => cases hlength
      | cons t' ts' =>
          have hrest : ts' = ts ∨ Agree (Changed fun i => R (i + 1)) (E.substituteAll look ts)
              (E.substituteAll look ts') := ih (Nat.succ.inj hlength) fun i => h (i + 1)
          simp only [substituteAll]
          rcases h 0 t t' rfl rfl with rfl | hfirst
          · rcases hrest with rfl | hrest
            · exact Or.inl rfl
            · refine Or.inr (Agree.bind (R := Eq) (.of_eq rfl fun _ => rfl) ?_)
              rintro u _ rfl
              exact hrest.bind fun us vs hs => .ok (AllRelated.cons_changed (Or.inl rfl) hs)
          · refine Or.inr (hfirst.bind fun u v ho => ?_)
            exact (Agree.of_eq_or hrest AllRelated.refl fun _ _ => Changed.toAllRelated).bind fun us vs hs =>
              .ok (AllRelated.changed_cons ho hs)

theorem checkTexts_congr {ts ts' : List TypeExpr} (hlength : ts'.length = ts.length)
    (h : ∀ (i : Nat) (t t' : TypeExpr), ts[i]? = some t → ts'[i]? = some t' →
      t' = t ∨ t.asArgument = t ∧ t'.asArgument = t') : E.checkTexts ts' = E.checkTexts ts := by
  have hskip {t : TypeExpr} (ht : t.asArgument = t) (ts : List TypeExpr) :
      E.checkTexts (t :: ts) = E.checkTexts ts := by
    cases t <;> first | rfl | cases ht
  induction ts generalizing ts' with
  | nil => rw [List.eq_nil_of_length_eq_zero hlength]
  | cons t ts ih =>
      cases ts' with
      | nil => cases hlength
      | cons t' ts' =>
          have hrest := ih (Nat.succ.inj hlength) fun i => h (i + 1)
          rcases h 0 t t' rfl rfl with rfl | ⟨ht, ht'⟩
          · cases t' <;> simp only [checkTexts, hrest]
          · rw [hskip ht, hskip ht', hrest]

theorem substitute_first (hlook : Finds E look) (head : Head)
    (hts : ∀ x ∈ ts, E.substitute look false x = .ok x ∧ ∀ s, x ≠ .text s) :
    Agree (fun u v => u = .subscript head (v :: ts)) (E.substitute look whole (.subscript head (t :: ts)))
      (E.substitute look false t) := by
  have hchecked (h : E.checkTexts (t :: ts) = E.checkTexts ts) :
      Agree (fun u v => u = .subscript head (v :: ts))
        (E.substitute look whole (.subscript head (t :: ts))) (E.substitute look false t) := by
    simp only [substitute, substituteAll, h, checkTexts_plain fun x hx => (hts x hx).2,
      substituteAll_plain fun x hx => (hts x hx).1]
    cases E.substitute look false t with
    | ok v => exact .ok rfl
    | error e => exact .error
  cases t with
  | text s =>
      cases hs : E.compile s with
      | ok _ =>
          refine hchecked ?_
          rw [checkTexts, hs]
          rfl
      | error e =>
          have hfails : E.substitute look whole (.subscript head (.text s :: ts)) = .error e := by
            simp only [substitute, checkTexts, hs]
            rfl
          rw [hfails, substitute]
          cases hl : look false s with
          | ok u => rw [hlook.compiled hl] at hs; cases hs
          | error e => exact .error
  | _ => exact hchecked (by simp only [checkTexts])

theorem substitute_sequenceOf (hlook : Finds E look) (head : Head) (ht : t ≠ .none) :
    Agree (fun u v => u = .subscript head (if head.shape? = some .array then [v, .ellipsis] else [v]))
      (E.substitute look whole (.sequenceOf head t)) (E.substitute look false t) := by
  have hlooked : E.substitute look false (head.argument t) = E.substitute look false t := by
    rcases head.argument_cases ht with h | ⟨s, rfl, h⟩ <;> rw [h]
    simp only [substitute]
  rw [TypeExpr.sequenceOf_eq, ← hlooked]
  by_cases hs : head.shape? = some .array
  · simp only [hs, if_true]
    refine substitute_first hlook head ?_
    rintro x hx
    rw [List.mem_singleton.mp hx]
    exact ⟨TypeExpr.Plain.ellipsis.substitute E look false, nofun⟩
  · simp only [hs, if_false]
    exact substitute_first hlook head fun _ hx => absurd hx List.not_mem_nil

theorem checkTexts_same (h : List.Forall₂ (fun x y => x.same y = true) xs ys) :
    E.checkTexts xs = E.checkTexts ys := by
  induction h with
  | nil => rfl
  | @cons x y xs ys hxy _ ih =>
      cases x with
      | text s =>
          cases y with
          | text s' =>
              simp only [TypeExpr.same, beq_iff_eq] at hxy
              simp only [checkTexts, hxy, ih]
          | _ => simp [TypeExpr.same] at hxy
      | _ =>
          cases y with
          | text s' => simp [TypeExpr.same] at hxy
          | _ => simpa only [checkTexts] using ih

theorem substituteAll_same (h : List.Forall₂ (fun x y => x.same y = true) xs ys)
    (hall : ∀ x ∈ xs, ∀ y, x.same y = true →
      Agree (fun u v => u.same v = true) (E.substitute look false x) (E.substitute look false y)) :
    Agree (List.Forall₂ fun x y => x.same y = true) (E.substituteAll look xs) (E.substituteAll look ys) := by
  induction h with
  | nil => exact .ok .nil
  | cons hxy _ ih =>
      obtain ⟨hx, hxs⟩ := List.forall_mem_cons.mp hall
      simp only [substituteAll]
      exact (hx _ hxy).bind fun _ _ huv => (ih hxs).bind fun _ _ hs => .ok (.cons huv hs)

theorem substituteAll_isOk (h : ∀ t ∈ ts, ∃ u, E.substitute look false t = .ok u) :
    ∃ us, E.substituteAll look ts = .ok us := by
  induction ts with
  | nil => exact ⟨[], rfl⟩
  | cons t ts ih =>
      obtain ⟨⟨u, hu⟩, hts⟩ := List.forall_mem_cons.mp h
      obtain ⟨us, hus⟩ := ih hts
      exact ⟨u :: us, by simp only [substituteAll, hu, hus]; rfl⟩

theorem exists_of_substituteAll (h : E.substituteAll look ts = .ok us) :
    (∀ t ∈ ts, ∃ u ∈ us, E.substitute look false t = .ok u) ∧
      ∀ u ∈ us, ∃ t ∈ ts, E.substitute look false t = .ok u := by
  have hall := substituteAll_ok_iff.mp h
  clear h
  induction hall with
  | nil => exact ⟨fun _ ht => absurd ht List.not_mem_nil, fun _ hu => absurd hu List.not_mem_nil⟩
  | @cons t u ts us hu _ ih =>
      refine ⟨List.forall_mem_cons.mpr ⟨⟨u, List.mem_cons_self, hu⟩, fun x hx => ?_⟩,
        List.forall_mem_cons.mpr ⟨⟨t, List.mem_cons_self, hu⟩, fun v hv => ?_⟩⟩
      · obtain ⟨v, hv, hxv⟩ := ih.1 x hx
        exact ⟨v, List.mem_cons_of_mem u hv, hxv⟩
      · obtain ⟨x, hx, hxv⟩ := ih.2 v hv
        exact ⟨x, List.mem_cons_of_mem t hx, hxv⟩

theorem substituteAll_sameMembers (h : SameMembers (fun x y => x.same y = true) xs ys)
    (hall : ∀ x ∈ xs, ∀ y, x.same y = true →
      Agree (fun u v => u.same v = true) (E.substitute look false x) (E.substitute look false y)) :
    Agree (SameMembers fun x y => x.same y = true) (E.substituteAll look xs) (E.substituteAll look ys) := by
  cases hxs : E.substituteAll look xs with
  | ok us =>
      obtain ⟨hfound, hgiven⟩ := exists_of_substituteAll hxs
      obtain ⟨vs, hys⟩ : ∃ vs, E.substituteAll look ys = .ok vs := by
        refine substituteAll_isOk fun y hy => ?_
        obtain ⟨x, hx, hxy⟩ := h.2 y hy
        obtain ⟨u, _, hu⟩ := hfound x hx
        obtain ⟨v, hv, _⟩ := (hall x hx y hxy).symm.exists_ok hu
        exact ⟨v, hv⟩
      obtain ⟨hfound', hgiven'⟩ := exists_of_substituteAll hys
      rw [hys]
      refine .ok ⟨fun u hu => ?_, fun v hv => ?_⟩
      · obtain ⟨x, hx, hxu⟩ := hgiven u hu
        obtain ⟨y, hy, hxy⟩ := h.1 x hx
        obtain ⟨v, hv, hyv⟩ := hfound' y hy
        obtain ⟨w, hw, huw⟩ := (hall x hx y hxy).symm.exists_ok hxu
        cases hw.symm.trans hyv
        exact ⟨v, hv, huw⟩
      · obtain ⟨y, hy, hyv⟩ := hgiven' v hv
        obtain ⟨x, hx, hxy⟩ := h.2 y hy
        obtain ⟨u, hu, hxu⟩ := hfound x hx
        obtain ⟨w, hw, hwv⟩ := (hall x hx y hxy).exists_ok hyv
        cases hw.symm.trans hxu
        exact ⟨u, hu, hwv⟩
  | error e =>
      cases hys : E.substituteAll look ys with
      | error e' => exact .error
      | ok vs =>
          obtain ⟨hfound, _⟩ := exists_of_substituteAll hys
          obtain ⟨us, hus⟩ : ∃ us, E.substituteAll look xs = .ok us := by
            refine substituteAll_isOk fun x hx => ?_
            obtain ⟨y, hy, hxy⟩ := h.1 x hx
            obtain ⟨v, _, hv⟩ := hfound y hy
            obtain ⟨u, hu, _⟩ := (hall x hx y hxy).exists_ok hv
            exact ⟨u, hu⟩
          rw [hxs] at hus
          cases hus

theorem substitute_same (hlook : Settles look) (h : x.same y = true) :
    Agree (fun u v => u.same v = true) (E.substitute look whole x) (E.substitute look whole y) := by
  induction x using TypeExpr.induction generalizing y whole with
  | _ x ih =>
      cases x with
      | subscript head args =>
          obtain ⟨ys, rfl, hys⟩ := TypeExpr.same_subscript.mp h
          simp only [substitute, checkTexts_same hys]
          refine Agree.bind (R := fun _ _ => True) (.of_eq rfl fun _ => trivial) fun _ _ _ => ?_
          exact (substituteAll_same hys fun x hx y hxy => ih x hx hxy).bind fun _ _ hs =>
            .ok (TypeExpr.same_subscript.mpr ⟨_, rfl, hs⟩)
      | union native members =>
          obtain ⟨native', ys, rfl, hys⟩ := TypeExpr.same_union.mp h
          simp only [substitute]
          refine (substituteAll_sameMembers hys fun x hx y hxy => ih x hx hxy).with_eq.bind ?_
          rintro us vs ⟨hs, hus, hvs⟩
          exact .ok ((hlook.joins native hus).same (hlook.joins native' hvs) (TypeExpr.joined_same hs))
      | annotated base metadata =>
          obtain ⟨base', metadata', rfl, hbase, hm⟩ := TypeExpr.same_annotated.mp h
          simp only [substitute]
          exact (ih base (List.mem_singleton_self base) hbase).bind fun _ _ huv =>
            TypeExpr.reannotate_agree huv hm
      | callable params result =>
          obtain ⟨params', result', rfl, hparams, hresult⟩ := TypeExpr.same_callable.mp h
          simp only [substitute]
          refine (substituteAll_same hparams fun x hx y hxy =>
            ih x (List.mem_cons_of_mem result hx) hxy).bind fun _ _ hs => ?_
          exact (ih result List.mem_cons_self hresult).bind fun _ _ huv =>
            .ok (TypeExpr.same_callable.mpr ⟨_, _, rfl, hs, huv⟩)
      | qualified q base =>
          obtain ⟨base', rfl, hbase⟩ := TypeExpr.same_qualified.mp h
          simp only [substitute]
          by_cases hq : q.isInitVar = true
          · simp only [if_pos hq]
            exact .ok h
          · simp only [if_neg hq]
            have hmem : base ∈ (TypeExpr.qualified q base).inner := by
              rw [TypeExpr.inner, if_neg hq]
              exact List.mem_singleton_self base
            exact (ih base hmem (hbase.resolve_left hq)).bind fun _ _ huv =>
              .ok (TypeExpr.same_qualified.mpr ⟨_, rfl, Or.inr huv⟩)
      | forward s | text s =>
          cases y with
          | forward s' | text s' =>
              first
              | simp only [TypeExpr.same, beq_iff_eq] at h
                subst h
                exact .of_eq rfl TypeExpr.same_refl
              | simp [TypeExpr.same] at h
          | _ => simp [TypeExpr.same] at h
      | _ =>
          cases y <;> first
            | simp only [substitute]; exact .ok h
            | simp [TypeExpr.same] at h

theorem substitute_filter_same (hlook : Settles look) (ht : E.substitute look false t = .ok u) :
    Agree (fun us vs => TypeExpr.Thinned (u.asArgument.alternatives ++ TypeExpr.joined us)
        (u.asArgument.alternatives ++ TypeExpr.joined vs))
      (E.substituteAll look (ts.filter (fun y => !t.same y))) (E.substituteAll look ts) := by
  induction ts with
  | nil => exact .ok (.refl _)
  | cons y ts ih =>
      by_cases hsame : t.same y = true
      · rw [List.filter_cons_of_neg (by simp [hsame]), substituteAll]
        obtain ⟨v, hv, huv⟩ := (substitute_same hlook hsame).symm.exists_ok ht
        rw [hv]
        generalize E.substituteAll look ts = found, E.substituteAll look (ts.filter _) = kept at ih ⊢
        cases ih with
        | ok h =>
            refine .ok ?_
            rw [TypeExpr.joined_cons]
            exact h.skip (TypeExpr.alternatives_same (TypeExpr.asArgument_same huv)).2
        | error => exact .error
      · rw [List.filter_cons_of_pos (by simp [hsame])]
        simp only [substituteAll]
        refine Agree.bind (R := Eq) (.of_eq rfl fun _ => rfl) ?_
        rintro v _ rfl
        refine ih.bind fun _ _ h => .ok ?_
        rw [TypeExpr.joined_cons, TypeExpr.joined_cons]
        exact h.keep _

/-- What is left out of a union, being the same as what is kept, is not missed. -/
theorem substitute_distinct (hlook : Settles look) (ts : List TypeExpr) :
    Agree (fun us vs => TypeExpr.Thinned (TypeExpr.joined us) (TypeExpr.joined vs))
      (E.substituteAll look (TypeExpr.distinct ts)) (E.substituteAll look ts) := by
  induction ts with
  | nil => exact .ok (.refl [])
  | cons x ts ih =>
      simp only [TypeExpr.distinct, substituteAll]
      cases hfound : E.substitute look false x with
      | error e => exact .error
      | ok u =>
          refine ((substitute_filter_same hlook hfound).trans ih (Q := fun us vs =>
            TypeExpr.Thinned (u.asArgument.alternatives ++ TypeExpr.joined us)
              (u.asArgument.alternatives ++ TypeExpr.joined vs))
            fun _ _ _ h h' => h.trans ((TypeExpr.Thinned.refl _).append h')).bind fun _ _ h => .ok ?_
          rw [TypeExpr.joined_cons, TypeExpr.joined_cons]
          exact h

/-- Only for references does it count whether they are whole annotations. -/
theorem substitute_whole (ht : t.asArgument = t) (hf : ∀ s, t ≠ .forward s) (whole whole' : Bool) :
    E.substitute look whole t = E.substitute look whole' t := by
  cases t with
  | forward s => exact absurd rfl (hf s)
  | text s => cases ht
  | _ => simp only [substitute]

/-- A union that does not collapse to a reference joins what its members are looked up as, those that
it leaves out among them. -/
theorem substitute_unionOf (hlook : Settles look) {native : Bool} (h : Mergeable native ts)
    (hf : ∀ s, TypeExpr.unionOf native ts ≠ .forward s) :
    Agree (fun u us => TypeExpr.Joins (TypeExpr.joined us) u)
      (E.substitute look whole (.unionOf native ts)) (E.substituteAll look ts) := by
  have hkept : Agree (fun u us => TypeExpr.Joins (TypeExpr.joined us) u)
      (E.substitute look whole (.unionOf native ts)) (E.substituteAll look (TypeExpr.distinct ts)) := by
    rw [h.unionOf_eq] at hf ⊢
    split
    next a hts =>
      rw [hts] at hf
      have ha : a.isAlternative = true :=
        h.alternative a ((TypeExpr.thinned_distinct ts).subset (hts ▸ List.mem_singleton_self a))
      rw [hts]
      simp only [substituteAll]
      rw [substitute_whole (TypeExpr.asArgument_of_isAlternative ha) hf whole false]
      cases hfound : E.substitute look false a with
      | error e => exact .error
      | ok u =>
          have hu := TypeExpr.isMember_of_isAlternative (substitute_isAlternative ha hf hfound)
          refine .ok ?_
          rw [TypeExpr.joined_eq_self (List.forall_mem_singleton.mpr hu)]
          exact TypeExpr.alternatives_of_isMember hu ▸ (TypeExpr.built_of_isMember hu).joins
    next =>
      simp only [substitute]
      cases hfound : E.substituteAll look (TypeExpr.distinct ts) with
      | error e => exact .error
      | ok us => exact .ok (hlook.joins native hfound)
  exact hkept.trans (substitute_distinct hlook ts) fun _ _ _ hu hus => hu.trans hus

end Evaluator

namespace Layer

variable {layer : Layer} {t : TypeExpr}

theorem Fits.on_cases (h : layer.Fits t) :
    (∃ values base metadata, layer.on t = t.annotate values ∧ t.annotate values = .annotated base metadata) ∨
      (∃ tag, layer.on t = .newType tag t) ∨ ∃ native, layer.on t = .union native t.withNone := by
  cases layer with
  | metadata values =>
      obtain ⟨base, metadata, hb⟩ := t.annotate_eq_annotated values
      exact Or.inl ⟨values, base, metadata, rfl, hb⟩
  | newType tag => exact Or.inr (Or.inl ⟨tag, rfl⟩)
  | optional => exact Or.inr (Or.inr ⟨false, h.operand.unionOf_none (by simp)⟩)
  | bar =>
      exact Or.inr (Or.inr ⟨_, h.operand.unionOf_none fun hn => (Bool.and_eq_true_iff.mp hn).1⟩)

structure Covered (t : TypeExpr) : Prop where
  asArgument : t.asArgument = t
  present : t.isPresent = true
  stored : t.isStored = true
  classVar : t.isClassVar = false
  value : t.isValue = false

theorem Fits.covered (h : layer.Fits t) : Covered (layer.on t) := by
  rcases h.on_cases with ⟨_, _, _, hon, hb⟩ | ⟨_, hon⟩ | ⟨_, hon⟩ <;> rw [hon]
  · rw [hb]
    exact ⟨rfl, rfl, rfl, rfl, rfl⟩
  · exact ⟨rfl, rfl, rfl, rfl, rfl⟩
  · exact ⟨rfl, rfl, rfl, rfl, rfl⟩

theorem Fits.isClassVar (h : layer.Fits t) : t.isClassVar = false := by
  have hstored := h.stored
  cases t with
  | bareClassVar => cases hstored
  | qualified q base => cases q <;> first | rfl | cases hstored
  | _ => rfl

theorem Fits.unwrap_agree (h : layer.Fits t) : Agree (fun u u' => u' = u) t.unwrap (layer.on t).unwrap := by
  have ho := h.operand
  rcases h.on_cases with ⟨values, _, _, hon, _⟩ | ⟨tag, hon⟩ | ⟨native, hon⟩ <;> rw [hon]
  · exact .of_eq (TypeExpr.unwrap_annotate ho.asArgument values).symm fun _ => rfl
  · exact .of_eq (by simp only [TypeExpr.unwrap]) fun _ => rfl
  · have hpresents : (TypeExpr.union native t.withNone).presents = t.presents := ho.filter_withNone
    exact TypeExpr.unwrap_agree ⟨ho.present, rfl⟩ hpresents

end Layer

namespace Outcome

variable {place : Place} {u v : TypeExpr} {us vs : List TypeExpr}

theorem subscript {head head' : Head} (h : Reshaped (.subscript head us) (.subscript head' vs)) :
    Outcome place (.subscript head us) (.subscript head' vs) :=
  ⟨.of_reshaped ⟨rfl, rfl⟩ ⟨rfl, rfl⟩ rfl (by simp only [TypeExpr.unwrap, and_self]) h, fun _ => rfl, rfl⟩

theorem newType {tag : NewTypeTag} (h : Interchangeable u v) :
    Outcome place (.newType tag u) (.newType tag v) := by
  refine ⟨⟨⟨rfl, rfl⟩, ⟨rfl, rfl⟩, rfl, ?_⟩, fun _ => rfl, rfl⟩
  simp only [TypeExpr.unwrap]
  exact h.unwrapped

theorem of_annotated {base base' : TypeExpr} {metadata metadata' : List Value}
    (h : Agree (fun t t' => t' = t ∨ Reshaped t t') (TypeExpr.annotated base metadata).unwrap
      (TypeExpr.annotated base' metadata').unwrap) :
    Outcome place (.annotated base metadata) (.annotated base' metadata') :=
  ⟨⟨⟨rfl, rfl⟩, ⟨rfl, rfl⟩, rfl, h⟩, fun _ => rfl, rfl⟩

theorem annotated {values : List Value} (h : Interchangeable u v) :
    Outcome place (.annotated u values) (.annotated v values) := by
  refine of_annotated ?_
  simp only [TypeExpr.unwrap]
  exact h.unwrapped

theorem annotate {values : List Value} (h : Interchangeable u v) :
    Outcome place (u.annotate values) (v.annotate values) := by
  obtain ⟨base, metadata, hu⟩ := u.annotate_eq_annotated values
  obtain ⟨base', metadata', hv⟩ := v.annotate_eq_annotated values
  have hunwrapped := h.unwrapped
  rw [← TypeExpr.unwrap_annotate h.asArgument.1 values, ← TypeExpr.unwrap_annotate h.asArgument.2 values,
    hu, hv] at hunwrapped
  rw [hu, hv]
  exact of_annotated hunwrapped

theorem qualified {q : Qualifier} : Outcome place (.qualified q u) (.qualified q v) := by
  refine ⟨.of_reshaped ⟨rfl, rfl⟩ ⟨rfl, rfl⟩ ?_ (by simp only [TypeExpr.unwrap, and_self]) ?_,
    fun _ => rfl, rfl⟩
  · cases q <;> rfl
  · exact .of_unsupported rfl rfl (fun _ => ⟨_, rfl⟩) (fun _ => ⟨_, rfl⟩)

theorem callable : Outcome place (.callable us u) (.callable vs v) :=
  ⟨.of_reshaped ⟨rfl, rfl⟩ ⟨rfl, rfl⟩ rfl (by simp only [TypeExpr.unwrap, and_self])
    (.of_unsupported rfl rfl (fun _ => ⟨_, rfl⟩) (fun _ => ⟨_, rfl⟩)), fun _ => rfl, rfl⟩

theorem layer {layer : Layer} (h : Related place u v) (hf : layer.Fits v) (hplace : place.Admits v) :
    Outcome place u (layer.on v) := by
  have ho := hf.operand
  have hon := hf.covered
  have hval : place ≠ .position → u.isValue = false := by
    intro hne
    rcases h with rfl | h
    · cases place with
      | position => exact absurd rfl hne
      | further => exact hplace
      | inside => exact hplace.elim
    · exact h.left hne
  have hu : u.asArgument = u ∧ u.isPresent = true ∧ u.isClassVar = v.isClassVar := by
    rcases h with rfl | h
    · exact ⟨ho.asArgument, ho.present, rfl⟩
    · exact ⟨h.interchangeable.asArgument.1, h.interchangeable.present.1, h.interchangeable.classVar.symm⟩
  refine ⟨⟨⟨hu.1, hon.asArgument⟩, ⟨hu.2.1, hon.present⟩, ?_, ?_⟩, hval, hon.value⟩
  · rw [hon.classVar, hu.2.2, hf.isClassVar]
  · refine h.unwrapped.trans hf.unwrap_agree ?_
    rintro _ _ _ hw rfl
    exact hw

end Outcome

structure MemberOutcome (u v : TypeExpr) : Prop where
  outcome : Outcome .inside u v
  left : u.isAlternative = true
  right : v.isAlternative = true

theorem AllRelated.joined {us vs : List TypeExpr} (h : AllRelated (fun _ => MemberOutcome) us vs) :
    AllRelated (fun _ => Outcome .inside) (TypeExpr.joined us) (TypeExpr.joined vs) := by
  induction us generalizing vs with
  | nil =>
      rw [List.eq_nil_of_length_eq_zero h.length]
      exact .refl _
  | cons u us ih =>
      cases vs with
      | nil => cases h.length
      | cons v vs =>
          rw [TypeExpr.joined_cons, TypeExpr.joined_cons]
          refine .append ?_ (ih h.tail)
          rcases h.head with rfl | ho
          · exact .refl _
          · rw [TypeExpr.asArgument_of_isAlternative ho.left, TypeExpr.asArgument_of_isAlternative ho.right,
              TypeExpr.alternatives_of_isAlternative ho.left,
              TypeExpr.alternatives_of_isAlternative ho.right]
            exact .cons (Or.inr ho.outcome) (.refl [])

namespace Outcome

variable {place : Place} {u v : TypeExpr} {us vs : List TypeExpr}

theorem union (h : Changed (fun _ => MemberOutcome) us vs) (hu : TypeExpr.Joins (TypeExpr.joined us) u)
    (hv : TypeExpr.Joins (TypeExpr.joined vs) v) (hsole : u.SoleAlike v) : Outcome place u v := by
  obtain ⟨_, x, hx, y, hy, ho⟩ := h.somewhere
  have hmem {t : TypeExpr} {ts : List TypeExpr} (ht : t ∈ ts) (halt : t.isAlternative = true) :
      t ∈ TypeExpr.joined ts := by
    refine List.mem_flatMap.mpr ⟨t, ht, ?_⟩
    rw [TypeExpr.asArgument_of_isAlternative halt, TypeExpr.alternatives_of_isAlternative halt]
    exact List.mem_singleton_self t
  have hclassVar {t w : TypeExpr} {ts : List TypeExpr} (hw : TypeExpr.Joins (TypeExpr.joined ts) w)
      (ht : t ∈ ts) (halt : t.isAlternative = true) : w.isClassVar = false := by
    rw [← Bool.not_eq_true]
    intro hc
    have hall := (hw.classVar hc).2 t (hmem ht halt)
    rw [TypeExpr.isClassVar_of_isAlternative halt] at hall
    cases hall
  have hpresent := ho.outcome.interchangeable.present
  have hup := hu.isPresent (hmem hx ho.left) hpresent.1
  have hvp := hv.isPresent (hmem hy ho.right) hpresent.2
  refine ⟨⟨⟨hu.built.asArgument, hv.built.asArgument⟩, ⟨hup, hvp⟩, ?_, ?_⟩,
    fun _ => hu.isValue (hmem hx ho.left) (ho.outcome.left nofun),
    hv.isValue (hmem hy ho.right) ho.outcome.right⟩
  · rw [hclassVar hu hx ho.left, hclassVar hv hy ho.right]
  · cases hs : u.isSole with
    | false =>
        obtain ⟨_, hue⟩ := TypeExpr.unwrap_of_not_isSole hup hs
        obtain ⟨_, hve⟩ := TypeExpr.unwrap_of_not_isSole hvp (hsole.trans hs)
        exact .of_error hue hve
    | true =>
        obtain ⟨m, hm⟩ := Option.isSome_iff_exists.mp
          (List.find?_isSome.mpr ⟨x, hmem hx ho.left, hpresent.1⟩)
        obtain ⟨m', hm', hr⟩ := h.toAllRelated.joined.find? hm
        rw [hu.unwrap hs hm, hv.unwrap (hsole.trans hs) hm']
        exact hr.unwrapped

end Outcome

theorem Mergeable.asArgument {native : Bool} {members : List TypeExpr} (h : Mergeable native members) :
    (TypeExpr.unionOf native members).asArgument = .unionOf native members :=
  (TypeExpr.joins_members native h.alternative).built.asArgument

theorem Mergeable.eq_forward {native : Bool} {members : List TypeExpr} (h : Mergeable native members)
    {s : String} (hs : TypeExpr.unionOf native members = .forward s) : ∀ m ∈ members, m = .forward s := by
  intro m hm
  obtain ⟨x, hx, hxm⟩ := (TypeExpr.joins_members native h.alternative).thinned.kept m hm
  rw [hs] at hx
  rw [List.mem_singleton.mp hx] at hxm
  cases m with
  | forward s' =>
      simp only [TypeExpr.same, beq_iff_eq] at hxm
      rw [hxm]
  | _ => simp [TypeExpr.same] at hxm

theorem Counterparts.ext {native native' : Bool} {members members' : List TypeExpr}
    (h : Counterparts native native' members members')
    (heq : ∀ (i : Nat) m m', members[i]? = some m → members'[i]? = some m' → m' = m) :
    members' = members := by
  refine List.ext_getElem h.length fun i hi' hi => ?_
  exact heq i _ _ (List.getElem?_eq_getElem hi) (List.getElem?_eq_getElem hi')

theorem Counterparts.exists_forward {native native' : Bool} {members members' : List TypeExpr}
    (h : Counterparts native native' members members')
    (hs : ∃ s, TypeExpr.unionOf native members = .forward s ∨ TypeExpr.unionOf native' members' = .forward s)
    (i : Nat) (m m' : TypeExpr) (hm : members[i]? = some m) (hm' : members'[i]? = some m') :
    ∃ s, m = .forward s ∨ m' = .forward s :=
  hs.imp fun _ => Or.imp (fun hs => h.left.eq_forward hs m (List.mem_of_getElem? hm))
    fun hs => h.right.eq_forward hs m' (List.mem_of_getElem? hm')

namespace Restyled

variable {joint : TypeExpr → TypeExpr → Prop} {place : Place} {a b : TypeExpr}

theorem asArgument (h : Restyled joint place a b) : b = a ∨ a.asArgument = a ∧ b.asArgument = b := by
  induction h with
  | same => exact Or.inl rfl
  | layer _ hf _ ih =>
      refine Or.inr ⟨?_, hf.covered.asArgument⟩
      rcases ih with rfl | ih
      · exact hf.operand.asArgument
      · exact ih.1
  | head =>
      simp only [TypeExpr.sequenceOf_eq]
      exact Or.inr ⟨rfl, rfl⟩
  | union hc _ _ _ => exact Or.inr ⟨hc.left.asArgument, hc.right.asArgument⟩
  | _ => exact Or.inr ⟨rfl, rfl⟩

theorem eq_of_forward (h : Restyled joint .inside a b) (hs : ∃ s, a = .forward s ∨ b = .forward s) :
    b = a := by
  generalize hplace : Place.inside = place at h
  induction h with
  | same => rfl
  | layer _ _ hadmits _ =>
      subst hplace
      exact hadmits.elim
  | head =>
      obtain ⟨s, hs⟩ := hs
      simp only [TypeExpr.sequenceOf_eq, reduceCtorEq, or_self] at hs
  | @union _ _ native native' members members' hc _ _ ih =>
      have hequal : members' = members :=
        hc.ext fun i m m' hm hm' => ih i m m' hm hm' (hc.exists_forward hs i m m' hm hm') rfl
      rw [hequal, hc.written hequal]
  | _ =>
      obtain ⟨s, hs⟩ := hs
      simp only [reduceCtorEq, or_self] at hs

theorem related (h : Restyled joint place a b) (hjoint : ∀ t t', joint t t' → t.SoleAlike t') :
    Related place a b := by
  induction h with
  | same => exact Or.inl rfl
  | layer _ hf hplace ih => exact Or.inr (.layer (ih hjoint) hf hplace)
  | @head _ _ head head' _ _ t t' hs hseq hs' hseq' ht _ ih =>
      have hoperands : OperandsAgree (head.argument t).present? (head'.argument t').present? := by
        rcases ih hjoint with rfl | ho
        · exact head.operands_argument head' ht
        · rw [head.argument_of_asArgument ho.interchangeable.asArgument.1,
            head'.argument_of_asArgument ho.interchangeable.asArgument.2]
          exact ho.interchangeable.operands
      simp only [TypeExpr.sequenceOf_eq]
      exact Or.inr (.subscript (.of_elements hs hseq hs' hseq' hoperands))
  | subscript hlength _ ih =>
      exact Or.inr (.subscript (.of_allRelated ⟨hlength, fun i t t' ht ht' => ih i t t' ht ht' hjoint⟩))
  | newType _ ih =>
      rcases ih fun _ _ => id with rfl | ho
      · exact Or.inl rfl
      · exact Or.inr (.newType ho.interchangeable)
  | annotated _ ih =>
      rcases ih hjoint with rfl | ho
      · exact Or.inl rfl
      · exact Or.inr (.annotated ho.interchangeable)
  | qualified => exact Or.inr .qualified
  | callable => exact Or.inr .callable
  | @union _ _ native native' members members' hc _ hj ih =>
      have hall : AllRelated (fun _ => MemberOutcome) members members' := by
        refine ⟨hc.length, fun i m m' hm hm' => (ih i m m' hm hm' hjoint).imp_right fun ho => ⟨ho, ?_, ?_⟩⟩
        · exact hc.left.alternative m (List.mem_of_getElem? hm)
        · exact hc.right.alternative m' (List.mem_of_getElem? hm')
      have hjoins {native : Bool} {ms : List TypeExpr} (h : Mergeable native ms) :
          TypeExpr.Joins (TypeExpr.joined ms) (.unionOf native ms) :=
        (TypeExpr.joined_of_isAlternative h.alternative).symm ▸ TypeExpr.joins_members native h.alternative
      rcases hall.eq_or_changed with rfl | hchanged
      · rw [hc.written rfl]
        exact Or.inl rfl
      · exact Or.inr (.union hchanged (hjoins hc.left) (hjoins hc.right) (hjoint _ _ hj))

end Restyled

section

variable {joint : TypeExpr → TypeExpr → Prop} {place : Place} {a b : TypeExpr} {E : Evaluator}
  {look : Bool → String → Except Raised TypeExpr} {native native' : Bool} {members members' : List TypeExpr}

/-- Unions of members that are looked up as others, if they stand for one alternative on both sides
or on neither. -/
theorem Counterparts.agree (hlook : Evaluator.Settles look)
    (h : Counterparts native native' members members')
    (hmembers : ∀ (i : Nat) m m', members[i]? = some m → members'[i]? = some m' →
      Restyled joint .inside m m')
    (ih : ∀ (i : Nat) m m', members[i]? = some m → members'[i]? = some m' →
      m' = m ∨ Agree (Outcome .inside) (E.substitute look false m) (E.substitute look false m'))
    (hsole : ∀ u u', E.substitute look false (TypeExpr.unionOf native members) = .ok u →
      E.substitute look false (TypeExpr.unionOf native' members') = .ok u' → u.SoleAlike u')
    (whole : Bool) :
    members' = members ∨ Agree (Outcome place) (E.substitute look whole (.unionOf native members))
      (E.substitute look whole (.unionOf native' members')) := by
  -- Members that are written in another way are no references, so that none of them brings in more
  -- than one alternative.
  by_cases hequal : members' = members
  · exact Or.inl hequal
  have hall : ∀ (i : Nat) m m', members[i]? = some m → members'[i]? = some m' →
      m' = m ∨ Agree MemberOutcome (E.substitute look false m) (E.substitute look false m') := by
    intro i m m' hm hm'
    by_cases hsame : m' = m
    · exact Or.inl hsame
    refine Or.inr (((ih i m m' hm hm').resolve_left hsame).with_eq.mono ?_)
    rintro u v ⟨ho, hu, hv⟩
    have hplain (s : String) : m ≠ .forward s ∧ m' ≠ .forward s :=
      not_or.mp fun hs => hsame ((hmembers i m m' hm hm').eq_of_forward ⟨s, hs⟩)
    exact ⟨ho,
      Evaluator.substitute_isAlternative (h.left.alternative m (List.mem_of_getElem? hm))
        (fun s => (hplain s).1) hu,
      Evaluator.substitute_isAlternative (h.right.alternative m' (List.mem_of_getElem? hm'))
        (fun s => (hplain s).2) hv⟩
  have hplain (s : String) : TypeExpr.unionOf native members ≠ .forward s ∧
      TypeExpr.unionOf native' members' ≠ .forward s := by
    refine not_or.mp fun hs => hequal (h.ext fun i m m' hm hm' => ?_)
    exact (hmembers i m m' hm hm').eq_of_forward (h.exists_forward ⟨s, hs⟩ i m m' hm hm')
  rw [Evaluator.substitute_whole h.left.asArgument (fun s => (hplain s).1) false whole,
    Evaluator.substitute_whole h.right.asArgument (fun s => (hplain s).2) false whole] at hsole
  have hchanged := (Evaluator.substituteAll_agree h.length hall).resolve_left hequal
  have hleft : Agree (fun u us => TypeExpr.Joins (TypeExpr.joined us) u)
      (E.substitute look whole (.unionOf native members)) (E.substituteAll look members) :=
    Evaluator.substitute_unionOf hlook h.left fun s => (hplain s).1
  have hright : Agree (fun u us => TypeExpr.Joins (TypeExpr.joined us) u)
      (E.substitute look whole (.unionOf native' members')) (E.substituteAll look members') :=
    Evaluator.substitute_unionOf hlook h.right fun s => (hplain s).2
  have hjoined := hchanged.trans hright.with_eq.symm
    (Q := fun us v => ∃ vs, Changed (fun _ => MemberOutcome) us vs ∧ TypeExpr.Joins (TypeExpr.joined vs) v ∧
      E.substitute look whole (.unionOf native' members') = .ok v)
    fun _ vs _ hs hv => ⟨vs, hs, hv.1, hv.2.1⟩
  refine Or.inr (hleft.with_eq.trans hjoined ?_)
  rintro u us v ⟨hu, hfound, _⟩ ⟨vs, hs, hv, hfound'⟩
  exact .union hs hu hv (hsole u v hfound hfound')

namespace Restyled

/-- What is written in another way is looked up as something that can be interchanged. -/
theorem agree (hlook : E.Finds look) (h : Restyled joint place a b)
    (hjoint : ∀ t t' u u', joint t t' → t.asArgument = t → t'.asArgument = t' →
      E.substitute look false t = .ok u → E.substitute look false t' = .ok u' → u.SoleAlike u')
    (whole : Bool) :
    b = a ∨ Agree (Outcome place) (E.substitute look whole a) (E.substitute look whole b) := by
  induction h generalizing whole with
  | same => exact Or.inl rfl
  | @layer _ place layer t t' _ hf hplace ih =>
      have hlooked : Agree (Related place) (E.substitute look whole t) (E.substitute look whole t') :=
        .of_eq_or (ih hjoint whole) (fun _ => Or.inl rfl) fun _ _ => Or.inr
      rw [hf.plain.substitute] at hlooked
      rw [hf.plain_on.substitute]
      generalize E.substitute look whole t = x at hlooked
      cases hlooked with
      | ok hr => exact Or.inr (.ok (.layer hr hf hplace))
  | @head _ place head head' shape shape' t t' hs hseq hs' hseq' ht h ih =>
      have ht' : t' ≠ .none := by
        rintro rfl
        rcases h.asArgument with rfl | ⟨_, ⟨⟩⟩
        exact ht rfl
      have helements : Agree (Related .position) (E.substitute look false t) (E.substitute look false t') :=
        .of_eq_or (ih hjoint false) (fun _ => Or.inl rfl) fun _ _ => Or.inr
      have hother : Agree _ (E.substitute look whole (.sequenceOf head' t')) (E.substitute look false t') :=
        Evaluator.substitute_sequenceOf hlook head' ht'
      have hright := (helements.trans hother.symm
        (Q := fun u x => ∃ v, Related .position u v ∧
          x = .subscript head' (if head'.shape? = some .array then [v, .ellipsis] else [v]))
        fun _ v _ hr hx => ⟨v, hr, hx⟩)
      refine Or.inr ((Evaluator.substitute_sequenceOf hlook head ht).trans hright ?_)
      rintro _ u _ rfl ⟨v, hr, rfl⟩
      exact .subscript (.of_elements hs hseq hs' hseq' hr.operands)
  | @subscript _ place head args args' hlength h ih =>
      rcases Evaluator.substituteAll_agree hlength fun i t t' ht ht' => ih i t t' ht ht' hjoint false with
        rfl | hall
      · exact Or.inl rfl
      · refine Or.inr ?_
        simp only [Evaluator.substitute, Evaluator.checkTexts_congr hlength fun i t t' ht ht' =>
          (h i t t' ht ht').asArgument]
        refine Agree.bind (R := fun _ _ => True) (.of_eq rfl fun _ => trivial) fun _ _ _ => ?_
        exact hall.bind fun us vs hs => .ok (.subscript (.of_allRelated hs.toAllRelated))
  | newType h _ =>
      simp only [Evaluator.substitute]
      rcases h.related fun _ _ => id with rfl | ho
      · exact Or.inl rfl
      · exact Or.inr (.ok (.newType ho.interchangeable))
  | @annotated _ place values t t' h ih =>
      rcases ih hjoint true with rfl | hagree
      · exact Or.inl rfl
      · refine Or.inr ?_
        simp only [Evaluator.substitute]
        refine hagree.bind fun u v ho => ?_
        rw [TypeExpr.reannotate_of_not_isValue (ho.left nofun), TypeExpr.reannotate_of_not_isValue ho.right]
        exact .ok (.annotate ho.interchangeable)
  | @qualified _ place q t t' h ih =>
      rcases ih hjoint false with rfl | hagree
      · exact Or.inl rfl
      · refine Or.inr ?_
        simp only [Evaluator.substitute]
        split
        next => exact .ok .qualified
        next => exact hagree.bind fun u v _ => .ok .qualified
  | callable hlength _ _ ihp ihr =>
      have hparams :=
        Evaluator.substituteAll_agree hlength fun i p p' hp hp' => ihp i p p' hp hp' hjoint false
      simp only [Evaluator.substitute]
      refine Or.inr ((Agree.of_eq_or (S := fun _ _ => True) hparams (fun _ => trivial)
        fun _ _ _ => trivial).bind fun _ _ _ => ?_)
      exact (Agree.of_eq_or (S := fun _ _ => True) (ihr hjoint false) (fun _ => trivial)
        fun _ _ _ => trivial).bind fun _ _ _ => .ok .callable
  | @union _ place native native' members members' hc hmembers hj ih =>
      rcases hc.agree hlook.toSettles hmembers (fun i m m' hm hm' => ih i m m' hm hm' hjoint false)
        (fun u u' => hjoint _ _ u u' hj hc.left.asArgument hc.right.asArgument) whole with hequal | hagree
      · rw [hequal, hc.written hequal]
        exact Or.inl rfl
      · exact Or.inr hagree

end Restyled

end

end ClassSchema
