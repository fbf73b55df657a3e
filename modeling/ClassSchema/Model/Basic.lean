import ClassSchema.Model.Names

namespace ClassSchema

/-- Modules, the classes that they declare, and what texts in annotations stand for. These are names,
if nothing else is said. -/
structure Model where
  modules : List Module := []
  classes : List ClassDecl := []
  evaluator : Evaluator := Names.evaluator ⟨modules, classes⟩

namespace Model

variable (M : Model)

def decl (i : Nat) : ClassDecl := M.classes.getD i default

def moduleAt (i : Nat) : Module := M.modules.getD i default

def enclosing : (depth : Nat) → Nat → List String
  | 0, _ => []
  | depth + 1, i =>
    match (M.decl i).encloser with
    | none => [(M.decl i).name]
    | some e => enclosing depth e ++ [(M.decl i).name]

/-- A class is declared after its encloser, so the enclosers are at most as many as the position
says. -/
def namePath (i : Nat) : List String := M.enclosing (i + 1) i

def homeOf : ClassRef → String
  | .builtin b => b.home
  | .declared i => (M.moduleAt (M.decl i).home).name

def simpleName : ClassRef → String
  | .builtin b => b.name
  | .declared i => (M.decl i).name

def localName : ClassRef → String
  | .builtin b => b.name
  | .declared i => ".".intercalate (M.namePath i)

def qualifiedName (c : ClassRef) : String := M.homeOf c ++ "." ++ M.localName c

def isEnumClass : ClassRef → Bool
  | .builtin b => b == .enum
  | .declared i => match (M.decl i).body with | .enumeration .. => true | .record .. => false

def isFlagClass : ClassRef → Bool
  | .builtin _ => false
  | .declared i => match (M.decl i).body with | .enumeration .flags _ => true | _ => false

def isEnum : TypeExpr → Bool
  | .cls c => M.isEnumClass c
  | _ => false

def constants : ClassRef → List String
  | .builtin _ => []
  | .declared i =>
    match (M.decl i).body with
    | .enumeration style members => (style.canonical members).map (·.1)
    | .record .. => []

def stores (c : ClassRef) : TypeExpr → Bool
  | .text s => M.evaluator.isStored c s
  | t => t.isStored

def heritage (c : ClassRef) : Heritage := Heritage.find (Heritage.table M.stores M.classes) c

def classAttribute? (c : ClassRef) (name : String) : Option Binding :=
  boundAlong? M.classes (M.heritage c).lineage name

def resolve (declarer : ClassRef) (t : TypeExpr) : Except Raised TypeExpr :=
  M.evaluator.resolve declarer t

end Model

end ClassSchema
