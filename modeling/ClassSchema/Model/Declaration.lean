import ClassSchema.TypeExpr.Union

namespace ClassSchema

inductive RecordStyle where
  | plain | dataclass | namedTuple | typedDict
  deriving DecidableEq, Repr

inductive EnumStyle where
  | distinct
  | flags
  deriving DecidableEq, Repr

inductive ClassBody where
  | record (style : RecordStyle) (bases : List TypeExpr) (fields : List (String × TypeExpr))
  | enumeration (style : EnumStyle) (members : List (String × Value))

inductive Binding where
  | cls (c : ClassRef)
  | newType (tag : NewTypeTag) (base : TypeExpr)
  | value (v : Value)

def Binding.expr : Binding → TypeExpr
  | .cls c => .cls c
  | .newType tag base => .newType tag base
  | .value v => .ofValue v

/-- A class of a model. Its encloser, its bases and its module are given by their positions, and
its bindings are the names declared inside it. -/
structure ClassDecl where
  name : String := ""
  encloser : Option Nat := none
  home : Nat := 0
  body : ClassBody := .record .plain [] []
  bindings : List (String × Binding) := []

structure Module where
  name : String := ""
  bindings : List (String × Binding) := []

instance : Inhabited ClassDecl := ⟨{}⟩
instance : Inhabited Module := ⟨{}⟩

/-- A name is bound to what it was given last. -/
def binding? (bindings : List (String × Binding)) (name : String) : Option Binding :=
  bindings.reverse.lookup name

def Value.isSingleBit (v : Value) : Bool :=
  match v with
  | .bool b => b
  | .int n => 0 < n && n.toNat &&& (n.toNat - 1) == 0
  | _ => false

/-- Keeps the first of the members with equal values. The others are aliases. -/
def withoutAliases : List (String × Value) → List (String × Value)
  | [] => []
  | m :: ms => m :: (withoutAliases ms).filter (fun n => !m.2.same n.2)

/-- The members that count as constants, in the order of their definition. Among flags, only the
single bits do. -/
def EnumStyle.canonical : EnumStyle → List (String × Value) → List (String × Value)
  | .distinct, members => withoutAliases members
  | .flags, members => withoutAliases (members.filter (·.2.isSingleBit))

end ClassSchema
