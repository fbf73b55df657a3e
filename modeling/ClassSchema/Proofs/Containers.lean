import ClassSchema.Proofs.References

namespace ClassSchema

def Head.shape? (head : Head) : Option Shape := (TypeExpr.subscript head []).containerShape?

/-- The container of elements `t` that a head makes. A tuple goes on with its one type. -/
def TypeExpr.sequenceOf (head : Head) (t : TypeExpr) : TypeExpr :=
  subscripted head (if head.shape? = some .array then [t, .ellipsis] else [t])

def Head.argument : Head → TypeExpr → TypeExpr
  | .cls (.builtin _) => id
  | _ => TypeExpr.asArgument

theorem TypeExpr.subscripted_eq (head : Head) (args : List TypeExpr) :
    subscripted head args = .subscript head (args.map head.argument) := by
  unfold subscripted Head.argument
  split <;> simp

theorem Head.argument_cases (head : Head) {t : TypeExpr} (ht : t ≠ .none) :
    head.argument t = t ∨ ∃ s, t = .text s ∧ head.argument t = .forward s := by
  unfold argument
  split
  next => exact Or.inl rfl
  next => cases t <;> simp_all [TypeExpr.asArgument]

theorem Head.argument_ellipsis (head : Head) : head.argument .ellipsis = .ellipsis := by
  unfold argument
  split <;> rfl

theorem TypeExpr.sequenceOf_eq (head : Head) (t : TypeExpr) :
    sequenceOf head t = .subscript head
      (if head.shape? = some .array then [head.argument t, .ellipsis] else [head.argument t]) := by
  rw [sequenceOf, subscripted_eq]
  split <;> simp [head.argument_ellipsis]

theorem Head.argument_of_asArgument (head : Head) {t : TypeExpr} (ht : t.asArgument = t) :
    head.argument t = t := by
  unfold argument
  split
  next => rfl
  next => exact ht

theorem TypeExpr.present?_of_ne {t : TypeExpr} (ht : t ≠ .none) : t.present? = some t := by
  cases t <;> simp_all [present?]

theorem Head.present?_argument (head : Head) {t : TypeExpr} (ht : t ≠ .none) :
    (head.argument t).present? = some (head.argument t) := by
  refine TypeExpr.present?_of_ne ?_
  rcases head.argument_cases ht with h | ⟨s, _, h⟩ <;> simp [h, ht]

theorem TypeExpr.containerShape?_subscript (head : Head) (args : List TypeExpr) :
    (subscript head args).containerShape? = head.shape? := by
  rcases head with (_ | _) | _ <;> rfl

namespace Model

variable {M : Model} {c : ClassRef} {name : String} {t u key : TypeExpr} {head : Head} {shape : Shape}

theorem layoutOf_subscript (h : head.shape? = some shape) (args : List TypeExpr) :
    M.layoutOf (.subscript head args) = (TypeExpr.subscript head args).containerLayout shape args := by
  simp [layoutOf, TypeExpr.isAny, TypeExpr.isScalar, TypeExpr.keyword?, isEnum,
    TypeExpr.containerShape?_subscript, h, TypeExpr.arguments]

theorem describeField_eq {layout : Layout} (hu : t.unwrap = .ok u) (hl : M.layoutOf u = .ok layout) :
    M.describeField (.cls c) name t = .ok ⟨.cls c, name, u, layout⟩ := by
  simp only [describeField, hu, hl, bind, Except.bind]
  rfl

theorem describeField_unsupported {why : Unsupported}
    (h : t.unwrap = .error why ∨ ∃ u, t.unwrap = .ok u ∧ M.layoutOf u = .error why) :
    M.describeField (.cls c) name t = .error (.unsupported (M.simpleName c) name why) := by
  rcases h with h | ⟨u, hu, hl⟩
  · simp only [describeField, h, bind, Except.bind]
    rfl
  · simp only [describeField, hu, hl, bind, Except.bind]
    rfl

theorem describeField_sequence (h : head.shape? = some shape) (hs : shape.isSequence = true)
    (ht : t ≠ .none) :
    M.describeField (.cls c) name (.sequenceOf head t) =
      .ok ⟨.cls c, name, .sequenceOf head t, ⟨shape, some (head.argument t), none⟩⟩ := by
  have hunwrap : (TypeExpr.sequenceOf head t).unwrap = .ok (.sequenceOf head t) := by
    simp [TypeExpr.sequenceOf, TypeExpr.subscripted_eq, TypeExpr.unwrap]
  refine describeField_eq hunwrap ?_
  rw [TypeExpr.sequenceOf, TypeExpr.subscripted_eq, layoutOf_subscript h, h]
  cases shape <;>
    simp_all [Shape.isSequence, TypeExpr.containerLayout, head.present?_argument ht, Head.argument_ellipsis]

theorem describeField_mapOf (h : head.shape? = some .map) (ht : t ≠ .none) :
    M.describeField (.cls c) name (.subscripted head [key, t]) =
      .ok ⟨.cls c, name, .subscripted head [key, t],
        ⟨.map, some (head.argument t), (head.argument key).present?⟩⟩ := by
  have hunwrap : (TypeExpr.subscripted head [key, t]).unwrap = .ok (.subscripted head [key, t]) := by
    simp [TypeExpr.subscripted_eq, TypeExpr.unwrap]
  refine describeField_eq hunwrap ?_
  rw [TypeExpr.subscripted_eq, layoutOf_subscript h]
  simp [TypeExpr.containerLayout, head.present?_argument ht]

theorem layoutOf_error {why : Unsupported} (h : M.layoutOf t = .error why)
    (hcont : t.containerShape? = none) :
    why = .expression t ∧ t.isElement = false ∧ M.isEnum t = false := by
  unfold layoutOf at h
  split_ifs at h with hs he hc
  · simp [hcont] at h
  · rw [hcont] at h
    cases h
    simp only [Bool.or_eq_true, not_or, Bool.not_eq_true] at hs he hc
    exact ⟨rfl, by simp [TypeExpr.isElement, hs, hc], he⟩

end Model

end ClassSchema
