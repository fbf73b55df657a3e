import ClassSchema.TypeExpr.Builtin
import ClassSchema.Value

namespace ClassSchema

inductive ClassRef where
  | builtin (b : Builtin)
  | declared (index : Nat)
  deriving DecidableEq, Repr

/-- The identity of a declared new type, with the names that it is shown by. -/
structure NewTypeTag where
  index : Nat
  home : String
  name : String
  deriving DecidableEq, Repr

inductive Head where
  | cls (c : ClassRef)
  | alias (a : Alias)
  deriving DecidableEq, Repr

inductive Qualifier where
  /-- The number tells the form from the others that are written the same. -/
  | initVar (index : Nat)
  | classVar | final | required | notRequired
  deriving DecidableEq, Repr

def Qualifier.isInitVar : Qualifier → Bool
  | .initVar _ => true
  | .classVar | .final | .required | .notRequired => false

inductive TypeExpr where
  /-- The absent value, which is not its own class. -/
  | none
  | ellipsis
  | cls (c : ClassRef)
  | marker (m : Marker)
  | newType (tag : NewTypeTag) (base : TypeExpr)
  | alias (a : Alias)
  | bareClassVar
  | subscript (head : Head) (args : List TypeExpr)
  /-- A native union is written with bars. -/
  | union (native : Bool) (members : List TypeExpr)
  | annotated (base : TypeExpr) (metadata : List Value)
  | forward (name : String)
  /-- A text that has not been taken as a forward reference. -/
  | text (s : String)
  | literal (v : Value)
  | choice (values : List Value)
  | variable (name : String)
  | callable (params : List TypeExpr) (result : TypeExpr)
  | qualified (q : Qualifier) (base : TypeExpr)

namespace TypeExpr

instance : Inhabited TypeExpr := ⟨none⟩

abbrev builtin (b : Builtin) : TypeExpr := .cls (.builtin b)

def isNoneType : TypeExpr → Bool
  | .cls (.builtin .noneType) => true
  | _ => false

def isAny : TypeExpr → Bool
  | .cls (.builtin .any) => true
  | _ => false

def isClass : TypeExpr → Bool
  | .cls _ => true
  | _ => false

def ofValue : Value → TypeExpr
  | .null => .none
  | .text s => .text s
  | v => .literal v

/-- What an expression becomes as an argument of a generic alias or a special form. -/
def asArgument : TypeExpr → TypeExpr
  | .none => .builtin .noneType
  | .text s => .forward s
  | a => a

def keyword? : TypeExpr → Option String
  | .cls (.builtin b) => b.keyword?
  | .marker m => some m.keyword
  | _ => Option.none

def isScalar (a : TypeExpr) : Bool := a.keyword?.isSome

def origin? : TypeExpr → Option Builtin
  | .cls (.builtin b) => some b
  | .alias a => some a.origin
  | .subscript (.cls (.builtin b)) _ => some b
  | .subscript (.alias a) _ => some a.origin
  | _ => Option.none

def containerShape? (a : TypeExpr) : Option Shape := a.origin? >>= Builtin.shape?

def arguments : TypeExpr → List TypeExpr
  | .subscript _ args => args
  | _ => []

def kindName : TypeExpr → String
  | .none => "NoneType"
  | .ellipsis => "ellipsis"
  | .cls _ => "type"
  | .marker _ | .newType .. => "NewType"
  | .union true _ => "types.UnionType"
  | .forward _ => "ForwardRef"
  | .text _ => "str"
  | .literal v => v.kindName
  | .qualified (.initVar _) _ => "InitVar"
  | _ => "typing"

end TypeExpr

end ClassSchema
