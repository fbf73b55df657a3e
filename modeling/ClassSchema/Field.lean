import ClassSchema.Fault

namespace ClassSchema

/-- What a declared type is made of. Only containers have an element, and only maps a key. -/
structure Layout where
  shape : Shape
  element : Option TypeExpr := none
  key : Option TypeExpr := none

structure Field where
  owner : TypeExpr
  name : String
  declared : TypeExpr
  layout : Layout

namespace Field

abbrev shape (f : Field) : Shape := f.layout.shape

abbrev element (f : Field) : Option TypeExpr := f.layout.element

abbrev key (f : Field) : Option TypeExpr := f.layout.key

end Field

namespace TypeExpr

def containerLayout (whole : TypeExpr) (shape : Shape) (args : List TypeExpr) :
    Except Unsupported Layout :=
  match shape, args with
  | _, [] => .ok { shape }
  | .map, [key, value] => .ok { shape, element := value.present?, key := key.present? }
  | .map, _ => .error (.mapArguments whole)
  | .array, [element, .ellipsis] => .ok { shape, element := element.present? }
  | .array, _ => .error (.tupleArguments whole)
  | _, [element] => .ok { shape, element := element.present? }
  | _, _ => .error (.severalArguments whole)

end TypeExpr

namespace Model

variable (M : Model)

def layoutOf (t : TypeExpr) : Except Unsupported Layout :=
  if t.isAny || t.isScalar then .ok { shape := .scalar }
  else if M.isEnum t then .ok { shape := .enum }
  else
    match t.containerShape? with
    | some shape => t.containerLayout shape t.arguments
    | none => if t.isClass then .ok { shape := .composite } else .error (.expression t)

def describeField (owner : TypeExpr) (name : String) (declared : TypeExpr) : Except Fault Field :=
  match (do let t ← declared.unwrap; return (t, ← M.layoutOf t) : Except Unsupported _) with
  | .ok (t, layout) => .ok { owner, name, declared := t, layout }
  | .error why => do throw (.unsupported (← M.requireName owner) name why)

end Model

end ClassSchema
