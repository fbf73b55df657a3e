import ClassSchema.Proofs.Alternatives
import ClassSchema.Proofs.Tables

namespace ClassSchema

namespace Model

/-- The names of a class, with a flag for those that are fields. -/
def nameTable (M : Model) (c : ClassRef) : List (String × Bool) :=
  match (M.heritage c).stored with
  | some s => s
  | none => ((M.resolvedFields c).toOption.getD []).map fun f => (f.1, !f.2.isClassVar)

variable {M : Model} {c : ClassRef} {types : List (String × TypeExpr)}
  {ds ds' : List (ClassRef × String × TypeExpr)}

theorem nameTable_stored {s : List (String × Bool)} (h : (M.heritage c).stored = some s) :
    M.nameTable c = s := by
  rw [nameTable, h]

theorem nameTable_resolved (h : (M.heritage c).stored = none) (ht : M.resolvedFields c = .ok types) :
    M.nameTable c = types.map fun f => (f.1, !f.2.isClassVar) := by
  rw [nameTable, h, ht]
  rfl

theorem nameTable_nodup (c : ClassRef) : ((M.nameTable c).map Prod.fst).Nodup := by
  unfold nameTable
  split
  next s hs => exact Heritage.find_stored_nodup (Heritage.stored_nodup M.classes) c hs
  next =>
    rw [List.map_map]
    cases ht : M.resolvedFields c with
    | error e => exact List.nodup_nil
    | ok types =>
        obtain ⟨entries, _, htypes⟩ := bind_eq_ok.mp ht
        cases htypes
        exact nodup_keys_putAll [] List.nodup_nil _

theorem fieldNames_eq (h : M.resolvedFields c = .ok types) :
    M.fieldNames c types = ((M.nameTable c).filter (·.2)).map Prod.fst := by
  unfold fieldNames
  cases hs : (M.heritage c).stored with
  | some s => rw [nameTable_stored hs]
  | none =>
      rw [nameTable_resolved hs h, List.filter_map, List.map_map]
      rfl

theorem resolveEach_append : M.resolveEach (ds ++ ds') = .ok types ↔
    ∃ us vs, M.resolveEach ds = .ok us ∧ M.resolveEach ds' = .ok vs ∧ types = us ++ vs := by
  induction ds generalizing types with
  | nil => simp [resolveEach]
  | cons d ds ih =>
      simp only [List.cons_append, resolveEach, bind_eq_ok, ih]
      constructor
      · rintro ⟨u, hu, _, ⟨us, vs, hus, hvs, rfl⟩, ⟨⟩⟩
        exact ⟨(d.2.1, u) :: us, vs, ⟨u, hu, us, hus, rfl⟩, hvs, rfl⟩
      · rintro ⟨_, vs, ⟨u, hu, us, hus, ⟨⟩⟩, hvs, rfl⟩
        exact ⟨u, hu, us ++ vs, ⟨us, vs, hus, hvs, rfl⟩, rfl⟩

def isFieldType (M : Model) (c : ClassRef) (t : TypeExpr) : Bool :=
  match M.resolve c t with
  | .ok u => !u.isClassVar
  | .error _ => !t.isClassVar

theorem resolveEach_flags {fields : List (String × TypeExpr)}
    (h : M.resolveEach (fields.map fun f => (c, f)) = .ok types) :
    types.map (fun f => (f.1, !f.2.isClassVar)) = fields.map fun f => (f.1, M.isFieldType c f.2) := by
  induction fields generalizing types with
  | nil =>
      cases h
      rfl
  | cons f fields ih =>
      obtain ⟨u, hu, h⟩ := bind_eq_ok.mp h
      obtain ⟨rest, hrest, h⟩ := bind_eq_ok.mp h
      cases h
      have hflag : M.isFieldType c f.2 = !u.isClassVar := by rw [isFieldType, hu]
      rw [List.map_cons, List.map_cons, ih hrest, hflag]

theorem isFieldType_of_isMade {t : TypeExpr} (ht : t.isMade = true) (htext : t.isText = false) :
    M.isFieldType c t = !t.isClassVar := by
  unfold isFieldType
  split
  next h => rw [resolve_isClassVar ht htext h]
  next => rfl

end Model

end ClassSchema
