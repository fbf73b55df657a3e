import ClassSchema.Proofs.Lockstep.Mirrors
import ClassSchema.Proofs.Restyling.Basic

namespace ClassSchema

/-- Both sides fail, or both have results that are related. -/
inductive Agree {ε α β : Type} (R : α → β → Prop) : Except ε α → Except ε β → Prop
  | ok {a b} : R a b → Agree R (.ok a) (.ok b)
  | error {e e'} : Agree R (.error e) (.error e')

namespace Agree

variable {ε α β α' β' : Type} {R S : α → β → Prop} {R' : α' → β' → Prop} {x : Except ε α} {y : Except ε β}

theorem of_error {e e' : ε} (hx : x = .error e) (hy : y = .error e') : Agree R x y := by
  rw [hx, hy]
  exact .error

theorem of_eq {R : α → α → Prop} {x y : Except ε α} (h : x = y) (hr : ∀ a, R a a) : Agree R x y := by
  subst h
  cases x with
  | ok a => exact .ok (hr a)
  | error e => exact .error

theorem mono (h : Agree R x y) (hr : ∀ a b, R a b → S a b) : Agree S x y := by
  cases h with
  | ok hab => exact .ok (hr _ _ hab)
  | error => exact .error

theorem of_eq_or {γ : Type} {f : γ → Except ε α} {R S : α → α → Prop} {a b : γ}
    (h : b = a ∨ Agree R (f a) (f b)) (hr : ∀ u, S u u) (hrs : ∀ u v, R u v → S u v) :
    Agree S (f a) (f b) := by
  rcases h with rfl | h
  · exact .of_eq rfl hr
  · exact h.mono hrs

theorem bind {f : α → Except ε α'} {g : β → Except ε β'} (h : Agree R x y)
    (hfg : ∀ a b, R a b → Agree R' (f a) (g b)) : Agree R' (x >>= f) (y >>= g) := by
  cases h with
  | ok hab => exact hfg _ _ hab
  | error => exact .error

theorem symm (h : Agree R x y) : Agree (fun b a => R a b) y x := by
  cases h with
  | ok hab => exact .ok hab
  | error => exact .error

theorem trans {γ : Type} {z : Except ε γ} {R : α → β → Prop} {S : β → γ → Prop} {Q : α → γ → Prop}
    (h : Agree R x y) (h' : Agree S y z) (hq : ∀ a b c, R a b → S b c → Q a c) : Agree Q x z := by
  cases h with
  | ok hab =>
      cases h' with
      | ok hbc => exact .ok (hq _ _ _ hab hbc)
  | error =>
      cases h' with
      | error => exact .error

theorem with_eq (h : Agree R x y) : Agree (fun a b => R a b ∧ x = .ok a ∧ y = .ok b) x y := by
  cases h with
  | ok hab => exact .ok ⟨hab, rfl, rfl⟩
  | error => exact .error

theorem exists_ok {b : β} (h : Agree R x y) (hy : y = .ok b) : ∃ a, x = .ok a ∧ R a b := by
  cases h with
  | ok hab =>
      cases hy
      exact ⟨_, rfl, hab⟩
  | error => cases hy

end Agree

structure OperandsAgree (x x' : Option TypeExpr) : Prop where
  forth : MirrorsOperand x x'
  back : MirrorsOperand x' x

theorem OperandsAgree.refl (x : Option TypeExpr) : OperandsAgree x x := ⟨.refl x, .refl x⟩

theorem OperandsAgree.symm {x x' : Option TypeExpr} (h : OperandsAgree x x') : OperandsAgree x' x :=
  ⟨h.back, h.forth⟩

structure LayoutsAgree (l l' : Layout) : Prop where
  container : l.shape.isContainer = true
  shape : l'.shape = l.shape ∨ l.shape.isSequence = true ∧ l'.shape.isSequence = true
  key : OperandsAgree l.key l'.key
  element : OperandsAgree l.element l'.element

/-- Neither can be an element, and what they hold as containers is the same. -/
structure Reshaped (t t' : TypeExpr) : Prop where
  left : t.isElement = false
  right : t'.isElement = false
  layouts : ∀ M M' : Model, Agree LayoutsAgree (M.layoutOf t) (M'.layoutOf t')

structure Interchangeable (u v : TypeExpr) : Prop where
  asArgument : u.asArgument = u ∧ v.asArgument = v
  present : u.isPresent = true ∧ v.isPresent = true
  classVar : v.isClassVar = u.isClassVar
  unwrapped : Agree (fun t t' => t' = t ∨ Reshaped t t') u.unwrap v.unwrap

theorem LayoutsAgree.symm {l l' : Layout} (h : LayoutsAgree l l') : LayoutsAgree l' l where
  container := by
    rcases h.shape with hs | ⟨_, hs⟩
    · rw [hs]
      exact h.container
    · exact Shape.isContainer_of_isSequence hs
  shape := by
    rcases h.shape with hs | ⟨hs, hs'⟩
    · exact Or.inl hs.symm
    · exact Or.inr ⟨hs', hs⟩
  key := h.key.symm
  element := h.element.symm

theorem Reshaped.symm {t t' : TypeExpr} (h : Reshaped t t') : Reshaped t' t where
  left := h.right
  right := h.left
  layouts := fun M M' => (h.layouts M' M).symm.mono fun _ _ => LayoutsAgree.symm

namespace Interchangeable

variable {u v : TypeExpr}

theorem symm (h : Interchangeable u v) : Interchangeable v u where
  asArgument := h.asArgument.symm
  present := h.present.symm
  classVar := h.classVar.symm
  unwrapped := h.unwrapped.symm.mono fun _ _ ht => ht.imp Eq.symm Reshaped.symm

theorem of_reshaped (hu : u.asArgument = u ∧ v.asArgument = v)
    (hp : u.isPresent = true ∧ v.isPresent = true) (hc : v.isClassVar = u.isClassVar)
    (hunwrap : u.unwrap = .ok u ∧ v.unwrap = .ok v) (h : Reshaped u v) : Interchangeable u v := by
  refine ⟨hu, hp, hc, ?_⟩
  rw [hunwrap.1, hunwrap.2]
  exact .ok (Or.inr h)

theorem mirrorsOperand (h : Interchangeable u v) : MirrorsOperand (some u) (some v) where
  isSome := rfl
  unwrap := by
    rintro _ t ⟨⟩ ht hel
    obtain ⟨t', ht', hr⟩ := h.unwrapped.symm.exists_ok ht
    rcases hr with rfl | hr
    · exact ⟨v, rfl, ht'⟩
    · rw [hr.left] at hel
      cases hel

theorem operands (h : Interchangeable u v) : OperandsAgree u.present? v.present? := by
  have hne {t : TypeExpr} (ht : t.asArgument = t) : t ≠ .none := by
    rintro rfl
    cases ht
  rw [TypeExpr.present?_of_ne (hne h.asArgument.1), TypeExpr.present?_of_ne (hne h.asArgument.2)]
  exact ⟨h.mirrorsOperand, h.symm.mirrorsOperand⟩

end Interchangeable

theorem Head.operands_argument (head head' : Head) {t : TypeExpr} (ht : t ≠ .none) :
    OperandsAgree (head.argument t).present? (head'.argument t).present? := by
  have hname {u v : TypeExpr} (hu : u.isElement = false) (hself : u.unwrap = .ok u) :
      MirrorsOperand (some u) (some v) := by
    refine ⟨rfl, ?_⟩
    rintro _ w ⟨⟩ hw hel
    cases hself.symm.trans hw
    rw [hu] at hel
    cases hel
  have hagree (s : String) : OperandsAgree (some (.text s)) (some (.forward s)) :=
    ⟨hname rfl (by simp only [TypeExpr.unwrap]), hname rfl (by simp only [TypeExpr.unwrap])⟩
  rw [head.present?_argument ht, head'.present?_argument ht]
  rcases head.argument_cases ht with h | ⟨s, rfl, h⟩
  · rcases head'.argument_cases ht with h' | ⟨s, rfl, h'⟩ <;> rw [h, h']
    · exact .refl _
    · exact hagree s
  · rcases head'.argument_cases ht with h' | ⟨_, ⟨⟩, h'⟩ <;> rw [h, h']
    · exact (hagree s).symm
    · exact .refl _

theorem TypeExpr.containerLayout_array_of_ne (whole e : TypeExpr) {x : TypeExpr} (hx : x ≠ .ellipsis) :
    whole.containerLayout .array [e, x] = .error (.tupleArguments whole) := by
  cases x <;> first | rfl | exact absurd rfl hx

theorem TypeExpr.containerLayout_error (whole a b c : TypeExpr) (rest : List TypeExpr) (shape : Shape) :
    ∃ why, whole.containerLayout shape (a :: b :: c :: rest) = .error why := by
  cases shape <;> exact ⟨_, rfl⟩

structure Outcome (place : Place) (u v : TypeExpr) : Prop where
  interchangeable : Interchangeable u v
  left : place ≠ .position → u.isValue = false
  right : v.isValue = false

/-- What the two sides of a restyled annotation resolve to. -/
def Related (place : Place) (u v : TypeExpr) : Prop := v = u ∨ Outcome place u v

theorem Related.operands {place : Place} {u v : TypeExpr} (h : Related place u v) :
    OperandsAgree u.present? v.present? := by
  rcases h with rfl | h
  · exact .refl _
  · exact h.interchangeable.operands

theorem Related.unwrapped {place : Place} {u v : TypeExpr} (h : Related place u v) :
    Agree (fun t t' => t' = t ∨ Reshaped t t') u.unwrap v.unwrap := by
  rcases h with rfl | h
  · exact .of_eq rfl fun _ => Or.inl rfl
  · exact h.interchangeable.unwrapped

theorem Related.isClassVar {place : Place} {u v : TypeExpr} (h : Related place u v) :
    v.isClassVar = u.isClassVar := by
  rcases h with rfl | h
  · rfl
  · exact h.interchangeable.classVar

theorem Related.isPresent {place : Place} {u v : TypeExpr} (h : Related place u v) :
    v.isPresent = u.isPresent := by
  rcases h with rfl | h
  · rfl
  · rw [h.interchangeable.present.1, h.interchangeable.present.2]

structure AllRelated (R : Nat → TypeExpr → TypeExpr → Prop) (us vs : List TypeExpr) : Prop where
  length : vs.length = us.length
  related : ∀ i u v, us[i]? = some u → vs[i]? = some v → v = u ∨ R i u v

structure Changed (R : Nat → TypeExpr → TypeExpr → Prop) (us vs : List TypeExpr) : Prop
    extends AllRelated R us vs where
  somewhere : ∃ i, ∃ u ∈ us, ∃ v ∈ vs, R i u v

namespace AllRelated

variable {R : Nat → TypeExpr → TypeExpr → Prop} {S : TypeExpr → TypeExpr → Prop} {u v : TypeExpr}
  {us vs us' vs' : List TypeExpr}

theorem refl (us : List TypeExpr) : AllRelated R us us :=
  ⟨rfl, fun _ _ _ hu hv => Or.inl (Option.some.inj (hv.symm.trans hu))⟩

theorem head (h : AllRelated R (u :: us) (v :: vs)) : v = u ∨ R 0 u v := h.related 0 u v rfl rfl

theorem tail (h : AllRelated R (u :: us) (v :: vs)) : AllRelated (fun i => R (i + 1)) us vs :=
  ⟨Nat.succ.inj h.length, fun i => h.related (i + 1)⟩

theorem cons (h : v = u ∨ R 0 u v) (hs : AllRelated (fun i => R (i + 1)) us vs) :
    AllRelated R (u :: us) (v :: vs) := by
  refine ⟨congrArg Nat.succ hs.length, fun i => ?_⟩
  cases i with
  | zero =>
      rintro _ _ ⟨⟩ ⟨⟩
      exact h
  | succ i => exact hs.related i

theorem append (h : AllRelated (fun _ => S) us vs) (h' : AllRelated (fun _ => S) us' vs') :
    AllRelated (fun _ => S) (us ++ us') (vs ++ vs') := by
  induction us generalizing vs with
  | nil =>
      rw [List.eq_nil_of_length_eq_zero h.length]
      exact h'
  | cons u us ih =>
      cases vs with
      | nil => cases h.length
      | cons v vs => exact .cons h.head (ih h.tail)

theorem changed_cons (h : R 0 u v) (hs : AllRelated (fun i => R (i + 1)) us vs) :
    Changed R (u :: us) (v :: vs) :=
  ⟨.cons (Or.inr h) hs, 0, u, List.mem_cons_self, v, List.mem_cons_self, h⟩

theorem cons_changed (h : v = u ∨ R 0 u v) (hs : Changed (fun i => R (i + 1)) us vs) :
    Changed R (u :: us) (v :: vs) := by
  obtain ⟨i, x, hx, y, hy, ho⟩ := hs.somewhere
  exact ⟨.cons h hs.toAllRelated, i + 1, x, List.mem_cons_of_mem u hx, y, List.mem_cons_of_mem v hy, ho⟩

theorem eq_or_changed (h : AllRelated R us vs) : vs = us ∨ Changed R us vs := by
  induction us generalizing vs R with
  | nil => exact Or.inl (List.eq_nil_of_length_eq_zero h.length)
  | cons u us ih =>
      match vs, h with
      | [], h => cases h.length
      | v :: vs, h =>
          rcases ih h.tail with rfl | hs
          · rcases h.head with rfl | ho
            · exact Or.inl rfl
            · exact Or.inr (changed_cons ho h.tail)
          · exact Or.inr (cons_changed h.head hs)

theorem find? (h : AllRelated (fun _ => Outcome .inside) us vs)
    (hu : us.find? TypeExpr.isPresent = some u) :
    ∃ v, vs.find? TypeExpr.isPresent = some v ∧ Related .inside u v := by
  induction us generalizing vs with
  | nil => cases hu
  | cons x us ih =>
      match vs, h with
      | [], h => cases h.length
      | y :: vs, h =>
          have hxy : Related .inside x y := h.head
          rw [List.find?_cons] at hu ⊢
          rw [hxy.isPresent]
          cases hx : x.isPresent with
          | true =>
              rw [hx] at hu
              cases hu
              exact ⟨y, rfl, hxy⟩
          | false =>
              rw [hx] at hu
              exact ih h.tail hu

end AllRelated

abbrev ArgumentsRelated (head : Head) : List TypeExpr → List TypeExpr → Prop :=
  AllRelated fun i => Outcome (head.place i)

theorem ArgumentsRelated.head {head : Head} {u v : TypeExpr} {us vs : List TypeExpr}
    (h : ArgumentsRelated head (u :: us) (v :: vs)) : Related (head.place 0) u v := AllRelated.head h

theorem containerLayout_agree {head : Head} {shape : Shape} (hs : head.shape? = some shape)
    (whole whole' : TypeExpr) {us vs : List TypeExpr} (h : ArgumentsRelated head us vs) :
    Agree LayoutsAgree (whole.containerLayout shape us) (whole'.containerLayout shape vs) := by
  have hcont : shape.isContainer = true :=
    TypeExpr.isContainer_of_containerShape? ((TypeExpr.containerShape?_subscript head []).trans hs)
  match us, vs, h with
  | [], [], _ =>
      have hempty (whole : TypeExpr) : whole.containerLayout shape [] = .ok ⟨shape, none, none⟩ := by
        cases shape <;> rfl
      rw [hempty, hempty]
      exact .ok ⟨hcont, Or.inl rfl, .refl _, .refl _⟩
  | [u], [v], h =>
      have hu := (ArgumentsRelated.head h).operands
      cases shape with
      | list | collection => exact .ok ⟨rfl, Or.inl rfl, .refl _, hu⟩
      | map | array => exact .error
      | scalar | enum | composite => cases hcont
  | [u, x], [v, y], h =>
      have hu := (ArgumentsRelated.head h).operands
      have hx : Related (head.place 1) x y := h.tail.head
      cases shape with
      | map => exact .ok ⟨rfl, Or.inl rfl, hu, hx.operands⟩
      | array =>
          have hplace : head.place 1 ≠ .position := by simp [Head.place, hs]
          rcases hx with rfl | hx
          · by_cases hy : y = .ellipsis
            · subst hy
              exact .ok ⟨rfl, Or.inl rfl, .refl _, hu⟩
            · exact .of_error (TypeExpr.containerLayout_array_of_ne _ _ hy)
                (TypeExpr.containerLayout_array_of_ne _ _ hy)
          · refine .of_error (TypeExpr.containerLayout_array_of_ne _ _ ?_)
              (TypeExpr.containerLayout_array_of_ne _ _ ?_)
            · rintro rfl
              cases hx.left hplace
            · rintro rfl
              cases hx.right
      | list | collection => exact .error
      | scalar | enum | composite => cases hcont
  | a :: b :: c :: us, d :: e :: f :: vs, _ =>
      obtain ⟨_, hu⟩ := whole.containerLayout_error a b c us shape
      obtain ⟨_, hv⟩ := whole'.containerLayout_error d e f vs shape
      exact .of_error hu hv
  | [], _ :: _, h | [_], [], h | [_], _ :: _ :: _, h | [_, _], [], h | [_, _], [_], h
  | [_, _], _ :: _ :: _ :: _, h | _ :: _ :: _ :: _, [], h | _ :: _ :: _ :: _, [_], h
  | _ :: _ :: _ :: _, [_, _], h =>
      exact absurd h.length (by simp)

namespace Reshaped

variable {head head' : Head} {t t' : TypeExpr} {shape shape' : Shape}

theorem of_shape? {args args' : List TypeExpr} (hhead : head'.shape?.isSome = head.shape?.isSome)
    (h : ∀ shape shape', head.shape? = some shape → head'.shape? = some shape' →
      Agree LayoutsAgree ((TypeExpr.subscript head args).containerLayout shape args)
        ((TypeExpr.subscript head' args').containerLayout shape' args')) :
    Reshaped (.subscript head args) (.subscript head' args') where
  left := rfl
  right := rfl
  layouts := by
    intro M M'
    have hnone {head : Head} (args : List TypeExpr) (hs : head.shape? = none) (M : Model) :
        M.layoutOf (.subscript head args) = .error (.expression (.subscript head args)) := by
      simp [Model.layoutOf, TypeExpr.isAny, TypeExpr.isScalar, TypeExpr.keyword?, Model.isEnum,
        TypeExpr.containerShape?_subscript, hs, TypeExpr.isClass]
    cases hs : head.shape? with
    | none =>
        have hs' : head'.shape? = none := by simpa [hs] using hhead
        exact .of_error (hnone args hs M) (hnone args' hs' M')
    | some shape =>
        obtain ⟨shape', hs'⟩ := Option.isSome_iff_exists.mp (hhead.trans (by rw [hs]; rfl))
        rw [Model.layoutOf_subscript hs, Model.layoutOf_subscript hs']
        exact h shape shape' hs hs'

theorem of_allRelated {us vs : List TypeExpr} (h : ArgumentsRelated head us vs) :
    Reshaped (.subscript head us) (.subscript head vs) := by
  refine of_shape? rfl fun shape shape' hs hs' => ?_
  obtain rfl : shape = shape' := Option.some.inj (hs.symm.trans hs')
  exact containerLayout_agree hs _ _ h

theorem of_elements (hs : head.shape? = some shape) (hseq : shape.isSequence = true)
    (hs' : head'.shape? = some shape') (hseq' : shape'.isSequence = true)
    (ht : OperandsAgree t.present? t'.present?) :
    Reshaped (.subscript head (if head.shape? = some .array then [t, .ellipsis] else [t]))
      (.subscript head' (if head'.shape? = some .array then [t', .ellipsis] else [t'])) := by
  refine of_shape? (by rw [hs, hs']; rfl) fun s s' h h' => ?_
  obtain rfl : shape = s := Option.some.inj (hs.symm.trans h)
  obtain rfl : shape' = s' := Option.some.inj (hs'.symm.trans h')
  have hlayout {head : Head} {shape : Shape} {t : TypeExpr} (whole : TypeExpr)
      (hs : head.shape? = some shape) (hseq : shape.isSequence = true) :
      whole.containerLayout shape (if head.shape? = some .array then [t, .ellipsis] else [t]) =
        .ok ⟨shape, t.present?, none⟩ := by
    rw [hs]
    cases shape <;> first | rfl | cases hseq
  rw [hlayout _ hs hseq, hlayout _ hs' hseq']
  exact .ok ⟨Shape.isContainer_of_isSequence hseq, Or.inr ⟨hseq, hseq'⟩, .refl _, ht⟩

theorem of_unsupported (ht : t.isElement = false) (ht' : t'.isElement = false)
    (h : ∀ M : Model, ∃ why, M.layoutOf t = .error why) (h' : ∀ M : Model, ∃ why, M.layoutOf t' = .error why) :
    Reshaped t t' where
  left := ht
  right := ht'
  layouts := by
    intro M M'
    obtain ⟨_, hl⟩ := h M
    obtain ⟨_, hl'⟩ := h' M'
    exact .of_error hl hl'

end Reshaped

end ClassSchema
