import ClassSchema.Field

namespace ClassSchema

structure Description where
  type : ClassRef
  isEnum : Bool
  fields : List Field := []
  constants : List String := []

namespace Model

variable (M : Model)

def declarations (c : ClassRef) : List (ClassRef × String × TypeExpr) :=
  (M.heritage c).lineage.reverse.flatMap (fun d => (M.heritage d).own.map (fun f => (d, f)))

def resolveEach :
    List (ClassRef × String × TypeExpr) → Except Raised (List (String × TypeExpr))
  | [] => .ok []
  | (declarer, name, t) :: rest => do
    let u ← M.resolve declarer t
    return (name, u) :: (← resolveEach rest)

/-- The resolved type of every declared name. The last declaration of a name gives its type, and
the first one its place. -/
def resolvedFields (c : ClassRef) : Except Raised (List (String × TypeExpr)) := do
  return putAll [] (← M.resolveEach (M.declarations c))

/-- The names that are fields: those that the nearest dataclass stores, or else all that are not
class variables. -/
def fieldNames (c : ClassRef) (types : List (String × TypeExpr)) : List String :=
  match (M.heritage c).stored with
  | some stored => (stored.filter (·.2)).map (·.1)
  | none => (types.filter (!·.2.isClassVar)).map (·.1)

def describeFields (c : ClassRef) (types : List (String × TypeExpr)) :
    List String → Except Fault (List Field)
  | [] => .ok []
  | name :: rest =>
    match types.lookup name with
    | none => .error (.unknownField name)
    | some t => do
      let f ← M.describeField (.cls c) name t
      return f :: (← describeFields c types rest)

/-- Tells an exception of a name or of a type as a fault of the class. Any other goes on. -/
def unresolvedFault (c : ClassRef) (e : Raised) : Fault :=
  if e.isA "NameError" || e.isA "TypeError" then .unresolved c e else .raised e

def describeClass (c : ClassRef) : Except Fault Description :=
  if M.isEnumClass c then
    .ok { type := c, isEnum := true, constants := M.constants c }
  else
    match M.resolvedFields c with
    | .error e => .error (unresolvedFault c e)
    | .ok types => do
      return { type := c, isEnum := false, fields := ← M.describeFields c types (M.fieldNames c types) }

def describe : TypeExpr → Except Fault Description
  | .cls c => M.describeClass c
  | t => .error (.notClass t)

end Model

end ClassSchema
