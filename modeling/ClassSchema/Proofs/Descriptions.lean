import ClassSchema.Description
import ClassSchema.Proofs.Tables

namespace ClassSchema

theorem bind_eq_ok {ε α β : Type} {x : Except ε α} {next : α → Except ε β} {b : β} :
    x >>= next = .ok b ↔ ∃ a, x = .ok a ∧ next a = .ok b := by
  cases x with
  | error fault => simp [bind, Except.bind]
  | ok a => simp [bind, Except.bind]

theorem exists_of_isSome {ε α : Type} {x : Except ε α} (h : x.toOption.isSome = true) :
    ∃ a, x = .ok a := by
  cases x with
  | error fault => cases h
  | ok a => exact ⟨a, rfl⟩

theorem eq_ok_of_toOption {ε α : Type} {x : Except ε α} {a : α} (h : x.toOption = some a) : x = .ok a := by
  cases x with
  | error fault => cases h
  | ok b => cases h; rfl

theorem exists_of_any {ε α : Type} {x : Except ε α} {p : α → Bool} (h : x.toOption.any p = true) :
    ∃ a, x = .ok a ∧ p a = true := by
  cases x with
  | error fault => cases h
  | ok a => exact ⟨a, rfl, h⟩

theorem Builtin.isContainer_of_shape? {b : Builtin} {s : Shape} (h : b.shape? = some s) :
    s.isContainer = true := by
  revert h
  cases b <;> simp [Builtin.shape?] <;> rintro rfl <;> rfl

theorem TypeExpr.isContainer_of_containerShape? {t : TypeExpr} {s : Shape}
    (h : t.containerShape? = some s) : s.isContainer = true := by
  obtain ⟨b, _, hb⟩ := Option.bind_eq_some_iff.mp h
  exact Builtin.isContainer_of_shape? hb

theorem TypeExpr.containerLayout_shape {whole : TypeExpr} {s : Shape} {args : List TypeExpr} {l : Layout}
    (h : whole.containerLayout s args = .ok l) : l.shape = s := by
  unfold containerLayout at h
  split at h <;> cases h <;> rfl

namespace Model

variable (M : Model)

def isComposite (c : ClassRef) : Bool :=
  !(TypeExpr.cls c).isAny && !(TypeExpr.cls c).isScalar && !M.isEnumClass c &&
    (TypeExpr.cls c).containerShape?.isNone

variable {M}

theorem layoutOf_cases {t : TypeExpr} {l : Layout} (h : M.layoutOf t = .ok l) :
    (l.shape = .scalar ∧ (t.isAny = true ∨ t.isScalar = true)) ∨
      (l.shape = .enum ∧ ∃ e, t = .cls e ∧ M.isEnumClass e = true) ∨
      (l.shape.isContainer = true ∧ t.containerShape? = some l.shape) ∨
      (l.shape = .composite ∧ ∃ c, t = .cls c ∧ M.isComposite c = true) := by
  unfold layoutOf at h
  split at h
  next hs =>
    cases h
    exact Or.inl ⟨rfl, by simpa using hs⟩
  next hs =>
    split at h
    next he =>
      cases h
      cases t with
      | cls e => exact Or.inr (Or.inl ⟨rfl, e, rfl, he⟩)
      | _ => simp [isEnum] at he
    next he =>
      split at h
      next shape hc =>
        rw [TypeExpr.containerLayout_shape h]
        exact Or.inr (Or.inr (Or.inl ⟨TypeExpr.isContainer_of_containerShape? hc, hc⟩))
      next hc =>
        cases t with
        | cls c =>
            cases h
            refine Or.inr (Or.inr (Or.inr ⟨rfl, c, rfl, ?_⟩))
            simp_all [isComposite, isEnum]
        | _ => simp [TypeExpr.isClass] at h

theorem describeField_ok {owner : TypeExpr} {name : String} {t : TypeExpr} {f : Field}
    (h : M.describeField owner name t = .ok f) :
    f.owner = owner ∧ f.name = name ∧ M.layoutOf f.declared = .ok f.layout := by
  unfold describeField at h
  split at h
  next u l hl =>
    cases h
    obtain ⟨v, _, hv⟩ := bind_eq_ok.mp hl
    obtain ⟨l', hl', hp⟩ := bind_eq_ok.mp hv
    cases hp
    exact ⟨rfl, rfl, hl'⟩
  next why _ =>
    obtain ⟨_, _, hf⟩ := bind_eq_ok.mp h
    cases hf

theorem describeFields_ok {c : ClassRef} {types : List (String × TypeExpr)} {names : List String}
    {fs : List Field} (h : M.describeFields c types names = .ok fs) :
    fs.map Field.name = names ∧
      ∀ f ∈ fs, f.owner = .cls c ∧ M.layoutOf f.declared = .ok f.layout := by
  induction names generalizing fs with
  | nil =>
      cases h
      exact ⟨rfl, fun _ hf => absurd hf List.not_mem_nil⟩
  | cons name names ih =>
      unfold describeFields at h
      split at h
      next => cases h
      next t _ =>
        obtain ⟨f, hf, h⟩ := bind_eq_ok.mp h
        obtain ⟨rest, hr, h⟩ := bind_eq_ok.mp h
        cases h
        obtain ⟨ho, hn, hl⟩ := describeField_ok hf
        obtain ⟨hns, hls⟩ := ih hr
        exact ⟨by rw [List.map_cons, hn, hns], List.forall_mem_cons.mpr ⟨⟨ho, hl⟩, hls⟩⟩

theorem describeClass_ok {c : ClassRef} {d : Description} (h : M.describeClass c = .ok d) :
    d.type = c ∧
      (M.isEnumClass c = true ∧ d.constants = M.constants c ∧ d.fields = [] ∨
        M.isEnumClass c = false ∧ ∃ types, M.resolvedFields c = .ok types ∧
          M.describeFields c types (M.fieldNames c types) = .ok d.fields) := by
  unfold describeClass at h
  split at h
  next he =>
    cases h
    exact ⟨rfl, Or.inl ⟨he, rfl, rfl⟩⟩
  next he =>
    split at h
    next => cases h
    next types ht =>
      obtain ⟨fs, hf, h⟩ := bind_eq_ok.mp h
      cases h
      exact ⟨rfl, Or.inr ⟨by simpa using he, types, ht, hf⟩⟩

theorem describeClass_enum {c : ClassRef} (h : M.isEnumClass c = true) :
    ∃ d, M.describeClass c = .ok d ∧ d.type = c ∧ d.constants = M.constants c :=
  ⟨{ type := c, isEnum := true, constants := M.constants c }, by simp [describeClass, h], rfl, rfl⟩

theorem describeClass_field {c : ClassRef} {d : Description} (h : M.describeClass c = .ok d) {f : Field}
    (hf : f ∈ d.fields) : f.owner = .cls c ∧ M.layoutOf f.declared = .ok f.layout := by
  rcases (describeClass_ok h).2 with ⟨_, _, hn⟩ | ⟨_, types, _, hfs⟩
  · rw [hn] at hf
    exact absurd hf List.not_mem_nil
  · exact (describeFields_ok hfs).2 f hf

end Model

namespace Heritage

variable {stores : ClassRef → TypeExpr → Bool}

theorem table_induction {P : Heritage → Prop} (decls : List ClassDecl)
    (step : ∀ rows, ∀ d ∈ decls, (∀ h ∈ rows, P h) → P (ofDecl stores rows d)) :
    ∀ h ∈ table stores decls, P h := by
  have hfold : ∀ ds ⊆ decls, ∀ rows, (∀ h ∈ rows, P h) →
      ∀ h ∈ ds.foldl (fun rows d => rows ++ [ofDecl stores rows d]) rows, P h := by
    intro ds hds
    induction ds with
    | nil => exact fun rows h => h
    | cons d ds ih =>
        intro rows h
        apply ih (List.subset_of_cons_subset hds)
        intro x hx
        rcases List.mem_append.mp hx with hx | hx
        · exact h x hx
        · exact List.mem_singleton.mp hx ▸ step rows d (hds List.mem_cons_self) h
  exact hfold decls (List.Subset.refl decls) [] (fun h hh => absurd hh List.not_mem_nil)

theorem length_table (stores : ClassRef → TypeExpr → Bool) (decls : List ClassDecl) :
    (table stores decls).length = decls.length := by
  have hfold : ∀ (ds : List ClassDecl) (rows : List Heritage),
      (ds.foldl (fun rows d => rows ++ [ofDecl stores rows d]) rows).length = rows.length + ds.length := by
    intro ds
    induction ds with
    | nil => exact fun rows => rfl
    | cons d ds ih =>
        intro rows
        rw [List.foldl_cons, ih]
        simp only [List.length_append, List.length_cons, List.length_nil]
        omega
  rw [table, hfold]
  exact Nat.zero_add _

theorem find_cases (rows : List Heritage) (c : ClassRef) :
    find rows c ∈ rows ∨ (find rows c).own = [] ∧ (find rows c).stored = none := by
  cases c with
  | builtin b => exact Or.inr ⟨rfl, rfl⟩
  | declared i =>
      rw [find, List.getD_eq_getElem?_getD]
      cases hx : rows[i]? with
      | none => exact Or.inr ⟨rfl, rfl⟩
      | some x => exact Or.inl (List.mem_of_getElem? hx)

theorem find_stored_nodup {rows : List Heritage}
    (h : ∀ x ∈ rows, ∀ s, x.stored = some s → (s.map Prod.fst).Nodup) (c : ClassRef)
    {s : List (String × Bool)} (hs : (find rows c).stored = some s) : (s.map Prod.fst).Nodup := by
  rcases find_cases rows c with hrow | ⟨_, hnone⟩
  · exact h _ hrow s hs
  · rw [hnone] at hs
    cases hs

theorem stored_nodup (decls : List ClassDecl) :
    ∀ h ∈ table stores decls, ∀ s, h.stored = some s → (s.map Prod.fst).Nodup := by
  refine table_induction decls ?_
  intro rows d _ hrows s hs
  unfold ofDecl at hs
  split at hs
  next exprs fields _ =>
    obtain ⟨c, _, hc⟩ := List.exists_of_findSome?_eq_some hs
    exact find_stored_nodup hrows c hc
  next exprs fields _ =>
    cases hs
    exact nodup_keys_putAll _ (nodup_keys_putAll [] List.nodup_nil _) _
  next => cases hs
  next => cases hs
  next => cases hs

end Heritage

namespace Model

variable {M : Model}

theorem heritage_builtin (b : Builtin) : M.heritage (.builtin b) = b.heritage := rfl

theorem fieldNames_nodup (c : ClassRef) {types : List (String × TypeExpr)}
    (h : (types.map Prod.fst).Nodup) : (M.fieldNames c types).Nodup := by
  unfold fieldNames
  split
  next s hs =>
    refine (Heritage.find_stored_nodup (Heritage.stored_nodup M.classes) c hs).sublist ?_
    exact List.filter_sublist.map _
  next => exact h.sublist (List.filter_sublist.map _)

theorem describeClass_nodup {c : ClassRef} {d : Description} (h : M.describeClass c = .ok d) :
    (d.fields.map Field.name).Nodup := by
  rcases (describeClass_ok h).2 with ⟨_, _, hn⟩ | ⟨_, types, ht, hfs⟩
  · rw [hn]
    exact List.nodup_nil
  · rw [(describeFields_ok hfs).1]
    obtain ⟨entries, _, he⟩ := bind_eq_ok.mp ht
    cases he
    exact fieldNames_nodup c (nodup_keys_putAll [] List.nodup_nil _)

theorem fields_eq_nil {c : ClassRef} {d : Description} (h : M.describeClass c = .ok d)
    (hd : M.declarations c = []) (hs : (M.heritage c).stored = none) : d.fields = [] := by
  rcases (describeClass_ok h).2 with ⟨_, _, hn⟩ | ⟨_, types, ht, hfs⟩
  · exact hn
  · have hnil : types = [] := by
      simp only [resolvedFields, hd, resolveEach, putAll] at ht
      cases ht
      rfl
    simp only [fieldNames, hs, hnil] at hfs
    exact List.map_eq_nil_iff.mp (describeFields_ok hfs).1

theorem heritage_undeclared {i : Nat} (hi : M.classes.length ≤ i) :
    M.heritage (.declared i) = ⟨[.declared i], [], none⟩ := by
  rw [← Heritage.length_table M.stores] at hi
  simp [heritage, Heritage.find, List.getElem?_eq_none hi]

theorem declared_of_field {c : ClassRef} {d : Description} (h : M.describeClass c = .ok d) {f : Field}
    (hf : f ∈ d.fields) : ∃ i < M.classes.length, c = .declared i := by
  cases c with
  | builtin b =>
      have hd : M.declarations (.builtin b) = [] := by
        simp [declarations, heritage_builtin, Builtin.heritage]
      rw [fields_eq_nil h hd rfl] at hf
      exact absurd hf List.not_mem_nil
  | declared i =>
      by_cases hi : i < M.classes.length
      · exact ⟨i, hi, rfl⟩
      · have hh : M.heritage (.declared i) = ⟨[.declared i], [], none⟩ :=
          heritage_undeclared (Nat.le_of_not_lt hi)
        rw [fields_eq_nil h (by simp [declarations, hh]) (by rw [hh])] at hf
        exact absurd hf List.not_mem_nil

end Model

end ClassSchema
