import ClassSchema.TypeExpr.Union

namespace ClassSchema

inductive Unsupported where
  | union (whole : TypeExpr)
  | mapArguments (whole : TypeExpr)
  | tupleArguments (whole : TypeExpr)
  | severalArguments (whole : TypeExpr)
  | expression (whole : TypeExpr)

namespace TypeExpr

mutual

def unwrap : TypeExpr → Except Unsupported TypeExpr
  | .annotated base _ => unwrap base
  | .newType _ base => unwrap base
  | .union native members => unwrapSole (.union native members) members
  | a => .ok a

def unwrapSole (whole : TypeExpr) : List TypeExpr → Except Unsupported TypeExpr
  | [] => .error (.union whole)
  | m :: ms =>
    if m.isNoneType then unwrapSole whole ms
    else if ms.all isNoneType then unwrap m
    else .error (.union whole)

end

def present? : TypeExpr → Option TypeExpr
  | .none => Option.none
  | a => some a

end TypeExpr

end ClassSchema
