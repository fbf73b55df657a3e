import ClassSchema.Fault

namespace ClassSchema

structure RegistryEntry where
  path : String
  name : String
  deriving DecidableEq, Repr

structure Registry where
  entries : List (TypeExpr × RegistryEntry) := []

namespace Registry

def size (r : Registry) : Nat := r.entries.length

def get? (r : Registry) (t : TypeExpr) : Option RegistryEntry :=
  (r.entries.find? (fun e => e.1.same t)).map (·.2)

def contains (r : Registry) (t : TypeExpr) : Bool := t.isKey && (r.get? t).isSome

def register (r : Registry) (t : TypeExpr) (path name : String) : Except Fault Registry :=
  match t.unkeyable? with
  | some kind => .error (.unkeyable kind)
  | none =>
    match r.get? t with
    | some e => .error (.alreadyRegistered t e.path)
    | none => .ok ⟨(t, ⟨path, name⟩) :: r.entries⟩

def entry (r : Registry) (t : TypeExpr) : Except Fault RegistryEntry :=
  match t.unkeyable? with
  | some kind => .error (.unkeyable kind)
  | none =>
    match r.get? t with
    | some e => .ok e
    | none => .error (.unregistered t)

def pathOf (r : Registry) (t : TypeExpr) : Except Fault String := do return (← r.entry t).path

def nameOf (r : Registry) (t : TypeExpr) : Except Fault String := do return (← r.entry t).name

end Registry

end ClassSchema
