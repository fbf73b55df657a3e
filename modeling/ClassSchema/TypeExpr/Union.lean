import ClassSchema.TypeExpr.Equality

namespace ClassSchema.TypeExpr

def distinct : List TypeExpr → List TypeExpr
  | [] => []
  | x :: xs => x :: (distinct xs).filter (fun y => !x.same y)

def alternatives : TypeExpr → List TypeExpr
  | .union _ members => members
  | a => [a]

def unionOf (native : Bool) (members : List TypeExpr) : TypeExpr :=
  match distinct (members.flatMap (fun a => a.asArgument.alternatives)) with
  | [a] => a
  | ms => .union native ms

def optional (a : TypeExpr) : TypeExpr := unionOf false [a, .none]

def isNativeOperand : TypeExpr → Bool
  | .none | .cls _ | .subscript (.cls (.builtin _)) _ => true
  | .union native _ => native
  | _ => false

def bar (a b : TypeExpr) : TypeExpr :=
  unionOf (a.isNativeOperand && b.isNativeOperand) [a, b]

def bars : List TypeExpr → TypeExpr
  | [] => .union true []
  | x :: xs => xs.foldl bar x.asArgument

/-- What can stand in a union as it is. Unions dissolve in unions, and the rest is converted or
refused. -/
def isAlternative : TypeExpr → Bool
  | .none | .text _ | .union .. | .bareClassVar | .qualified .classVar _ => false
  | _ => true

/-- Whether a union has been made of what can stand in one. -/
def isMade : TypeExpr → Bool
  | .union _ members => members.all isAlternative
  | _ => true

/-- Metadata on metadata is joined, the inner first. -/
def annotate (base : TypeExpr) (metadata : List Value) : TypeExpr :=
  match base.asArgument with
  | .annotated inner earlier => .annotated inner (earlier ++ metadata)
  | b => .annotated b metadata

/-- Generic aliases and the subscripts of declared classes take their arguments as such. -/
def subscripted (head : Head) (args : List TypeExpr) : TypeExpr :=
  match head with
  | .cls (.builtin _) => .subscript head args
  | _ => .subscript head (args.map asArgument)

def oneOf (values : List Value) : TypeExpr := .choice (Value.distinct values)

end ClassSchema.TypeExpr
