import ClassSchema.Proofs.Acceptance
import ClassSchema.Proofs.Containers
import ClassSchema.Proofs.Faults

namespace ClassSchema

namespace TypeExpr

mutual

theorem unwrap_unwrap : (t : TypeExpr) → ∀ u, t.unwrap = .ok u → u.unwrap = .ok u
  | .annotated base _, u, h => by
      rw [unwrap] at h
      exact unwrap_unwrap base u h
  | .newType _ base, u, h => by
      rw [unwrap] at h
      exact unwrap_unwrap base u h
  | .union native members, u, h => by
      rw [unwrap] at h
      exact unwrapSole_unwrap _ members u h
  | .none, _, h | .ellipsis, _, h | .cls _, _, h | .marker _, _, h | .alias _, _, h | .bareClassVar, _, h
  | .subscript .., _, h | .forward _, _, h | .text _, _, h | .literal _, _, h | .choice _, _, h
  | .variable _, _, h | .callable .., _, h | .qualified .., _, h => by
      cases h
      rfl

theorem unwrapSole_unwrap (whole : TypeExpr) : (ms : List TypeExpr) →
    ∀ u, unwrapSole whole ms = .ok u → u.unwrap = .ok u
  | [], _, h => by cases h
  | m :: ms, u, h => by
      rw [unwrapSole] at h
      split_ifs at h
      · exact unwrapSole_unwrap whole ms u h
      · exact unwrap_unwrap m u h

end

end TypeExpr

/-- The element and the key that a type of the shape has by its arguments. Only containers have an
element, and only maps a key. An argument that is the absent value stands for none. -/
inductive Layout.Inside : Shape → List TypeExpr → (element key : Option TypeExpr) → Prop
  | plain {s args} : s.isContainer = false → Inside s args none none
  | bare {s} : s.isContainer = true → Inside s [] none none
  | map (key value : TypeExpr) : Inside .map [key, value] value.present? key.present?
  | array (element : TypeExpr) : Inside .array [element, .ellipsis] element.present? none
  | list (element : TypeExpr) : Inside .list [element] element.present? none
  | collection (element : TypeExpr) : Inside .collection [element] element.present? none

theorem TypeExpr.containerLayout_inside {whole : TypeExpr} {s : Shape} {args : List TypeExpr} {l : Layout}
    (hs : s.isContainer = true) (h : whole.containerLayout s args = .ok l) :
    l.shape = s ∧ Layout.Inside s args l.element l.key := by
  unfold containerLayout at h
  split at h
  next => cases h; exact ⟨rfl, .bare hs⟩
  next key value => cases h; exact ⟨rfl, .map key value⟩
  next => cases h
  next element => cases h; exact ⟨rfl, .array element⟩
  next => cases h
  next element hmap harray =>
    cases h
    cases s with
    | list => exact ⟨rfl, .list element⟩
    | collection => exact ⟨rfl, .collection element⟩
    | map => exact absurd rfl hmap
    | array => exact absurd rfl harray
    | scalar | enum | composite => cases hs
  next => cases h

namespace Model

structure Classifies (M : Model) (t : TypeExpr) (l : Layout) : Prop where
  scalar : l.shape = .scalar ↔ t.isAny = true ∨ t.isScalar = true
  enum : l.shape = .enum ↔ M.isEnum t = true
  container : ∀ s : Shape, s.isContainer = true → (l.shape = s ↔ t.containerShape? = some s)
  composite : l.shape = .composite ↔ t.isClass = true ∧ ¬ (t.isAny = true ∨ t.isScalar = true) ∧
    M.isEnum t = false ∧ t.containerShape? = none
  inside : Layout.Inside l.shape t.arguments l.element l.key

variable {M : Model} {t : TypeExpr} {l : Layout}

theorem not_scalar_of_isEnum (h : M.isEnum t = true) :
    t.isAny = false ∧ t.isScalar = false ∧ t.containerShape? = none := by
  cases t with
  | cls e =>
      obtain ⟨hany, hkey, hcont⟩ := enum_facts h
      exact ⟨hany, by rw [TypeExpr.isScalar, hkey]; rfl, hcont⟩
  | _ => cases h

theorem layoutOf_inside (h : M.layoutOf t = .ok l) : Layout.Inside l.shape t.arguments l.element l.key := by
  unfold layoutOf at h
  split at h
  next => cases h; exact .plain rfl
  next =>
    split at h
    next => cases h; exact .plain rfl
    next =>
      split at h
      next shape hshape =>
        obtain ⟨hs, hin⟩ :=
          TypeExpr.containerLayout_inside (TypeExpr.isContainer_of_containerShape? hshape) h
        exact hs ▸ hin
      next =>
        split at h
        next => cases h; exact .plain rfl
        next => cases h

theorem shape_iff_of_none {shape : Shape} (hs : shape.isContainer = false) (ht : t.containerShape? = none) :
    ∀ s : Shape, s.isContainer = true → (shape = s ↔ t.containerShape? = some s) := by
  intro s hc
  rw [ht]
  refine ⟨fun h => ?_, fun h => by cases h⟩
  rw [h, hc] at hs
  cases hs

theorem layoutOf_kind (h : M.layoutOf t = .ok l) :
    (l.shape = .scalar ↔ t.isAny = true ∨ t.isScalar = true) ∧ (l.shape = .enum ↔ M.isEnum t = true) ∧
      (∀ s : Shape, s.isContainer = true → (l.shape = s ↔ t.containerShape? = some s)) ∧
      (l.shape = .composite ↔ t.isClass = true ∧ ¬ (t.isAny = true ∨ t.isScalar = true) ∧
        M.isEnum t = false ∧ t.containerShape? = none) := by
  have henum := not_scalar_of_isEnum (M := M) (t := t)
  rcases layoutOf_cases h with ⟨hs, hd⟩ | ⟨hs, e, rfl, he⟩ | ⟨hs, hd⟩ | ⟨hs, c, rfl, hc⟩
  · have hnot : M.isEnum t = false := by
      rw [Bool.eq_false_iff]
      intro he
      simp [henum he] at hd
    rw [hs]
    exact ⟨by simp [hd], by simp [hnot],
      shape_iff_of_none rfl (TypeExpr.containerShape?_of_scalar hd), by simp [hd]⟩
  · obtain ⟨hany, hscalar, hcont⟩ := henum he
    rw [hs]
    exact ⟨by simp [hany, hscalar], by simp [isEnum, he], shape_iff_of_none rfl hcont,
      by simp [isEnum, he]⟩
  · have hscalar : ¬ (t.isAny = true ∨ t.isScalar = true) := fun hd' => by
      rw [TypeExpr.containerShape?_of_scalar hd'] at hd
      cases hd
    have hnot : M.isEnum t = false := by
      rw [Bool.eq_false_iff]
      intro he
      rw [(henum he).2.2] at hd
      cases hd
    have hne : ∀ s : Shape, s.isContainer = false → l.shape ≠ s := fun s hs' he => by
      rw [he, hs'] at hs
      cases hs
    exact ⟨iff_of_false (hne _ rfl) hscalar, iff_of_false (hne _ rfl) (by simp [hnot]),
      fun s _ => by simp [hd], iff_of_false (hne _ rfl) (by simp [hd])⟩
  · obtain ⟨hany, hscalar, hnot, hcont⟩ := isComposite_iff.mp hc
    rw [hs]
    exact ⟨by simp [hany, hscalar], by simp [isEnum, hnot], shape_iff_of_none rfl hcont,
      by simp [TypeExpr.isClass, isEnum, hany, hscalar, hnot, hcont]⟩

theorem eq_of_inside {args : List TypeExpr} (hs : l.shape.isContainer = false)
    (h : Layout.Inside l.shape args l.element l.key) : l = { shape := l.shape } := by
  obtain ⟨shape, element, key⟩ := l
  dsimp only at hs h ⊢
  cases h with
  | plain | bare => rfl
  | map | array | list | collection => cases hs

theorem containerLayout_of_inside {whole : TypeExpr} {args : List TypeExpr} (hs : l.shape.isContainer = true)
    (h : Layout.Inside l.shape args l.element l.key) : whole.containerLayout l.shape args = .ok l := by
  obtain ⟨shape, element, key⟩ := l
  dsimp only at hs h ⊢
  cases h with
  | plain hplain =>
      rw [hs] at hplain
      cases hplain
  | bare | map | array | list | collection => rfl

theorem layoutOf_eq_ok_iff : M.layoutOf t = .ok l ↔ M.Classifies t l := by
  constructor
  · intro h
    obtain ⟨hscalar, henum, hcont, hcomp⟩ := layoutOf_kind h
    exact ⟨hscalar, henum, hcont, hcomp, layoutOf_inside h⟩
  · intro h
    have hplain (s : Shape) (hs : l.shape = s) (hc : s.isContainer = false) : l = { shape := s } :=
      hs ▸ eq_of_inside (hs ▸ hc) h.inside
    have hscalar : l.shape ≠ .scalar → (t.isAny || t.isScalar) = false := fun hs => by
      simpa [h.scalar] using hs
    have henum : l.shape ≠ .enum → M.isEnum t = false := fun hs => by simpa [h.enum] using hs
    unfold layoutOf
    cases hs : l.shape with
    | scalar => rw [hplain _ hs rfl, if_pos (by simpa using h.scalar.mp hs)]
    | enum =>
        rw [hplain _ hs rfl, hscalar (by simp [hs]), if_neg Bool.false_ne_true, if_pos (h.enum.mp hs)]
    | list | array | collection | map =>
        have hc : l.shape.isContainer = true := by rw [hs]; rfl
        rw [hscalar (by simp [hs]), henum (by simp [hs]), (h.container _ hc).mp rfl]
        exact containerLayout_of_inside hc h.inside
    | composite =>
        obtain ⟨hclass, -, -, hnone⟩ := h.composite.mp hs
        rw [hplain _ hs rfl, hscalar (by simp [hs]), henum (by simp [hs]), hnone, hclass]
        rfl

/-- Every annotation is described by what it is once it is unwrapped, or else refused with a message
that starts with the class and the field. -/
theorem describeField_classifies (M : Model) (c : ClassRef) (name : String) ( annotation : TypeExpr) :
    (∃ f, M.describeField (.cls c) name annotation = .ok f ∧ f.owner = .cls c ∧ f.name = name ∧
      annotation.unwrap = .ok f.declared ∧ f.declared.unwrap = .ok f.declared ∧
      M.Classifies f.declared f.layout) ∨
    ∃ fault why, M.describeField (.cls c) name annotation = .error fault ∧
      fault.family = .unsupportedShape ∧ fault.message M = M.simpleName c ++ "." ++ name ++ ": " ++ why ∧
      ∀ t l, annotation.unwrap = .ok t → ¬ M.Classifies t l := by
  cases hu : annotation.unwrap with
  | error why =>
      refine .inr ⟨_, why.message M, describeField_unsupported (.inl hu), rfl, rfl, ?_⟩
      rintro t l h
      cases h
  | ok t =>
      cases hl : M.layoutOf t with
      | error why =>
          refine .inr ⟨_, why.message M, describeField_unsupported (.inr ⟨t, hu, hl⟩), rfl, rfl, ?_⟩
          rintro _ l h hc
          cases h
          rw [layoutOf_eq_ok_iff.mpr hc] at hl
          cases hl
      | ok l =>
          exact .inl ⟨_, describeField_eq hu hl, rfl, rfl, rfl, TypeExpr.unwrap_unwrap _ _ hu,
            layoutOf_eq_ok_iff.mp hl⟩

end Model

end ClassSchema
