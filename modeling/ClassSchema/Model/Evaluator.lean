import ClassSchema.TypeExpr.Union

namespace ClassSchema

/-- What ends the resolution of a type that does not resolve. -/
inductive Raised where
  /-- An exception of the evaluation: the names of its class and of those that this derives from, and
  its text. -/
  | exception (lineage : List String) (text : String)
  | notType (items : List Value)
  | notArgument (t : TypeExpr)
  | plainForm (t : TypeExpr)
  | noModule (t : TypeExpr)
  | tooDeep

namespace Raised

def lineage : Raised → List String
  | exception lineage _ => lineage
  | notType _ | notArgument _ | plainForm _ => ["TypeError"]
  | noModule _ => ["AttributeError"]
  | tooDeep => ["RecursionError", "RuntimeError"]

def kind (e : Raised) : String := e.lineage.headD "Exception"

def isA (e : Raised) (kind : String) : Bool := e.lineage.contains kind

end Raised

/-- How texts are taken for expressions. That is up to the language, and to what the modules hold. -/
structure Evaluator where
  /-- Fails for a text that is no expression. -/
  compile : String → Except Raised Unit
  /-- What an expression is in the body of a class. -/
  value : ClassRef → String → Except Raised TypeExpr
  /-- Whether a dataclass stores what it declares with a text for the type. -/
  isStored : ClassRef → String → Bool
  /-- How many references the language follows from one to the next. -/
  depth : Nat
  /-- Unions are values only as they have been made. -/
  made : ∀ {c s t}, value c s = .ok t → t.isMade = true

namespace TypeExpr

/-- Forms that are no types themselves. A whole annotation may be one of a class variable or of a
constant. -/
def isForm (whole : Bool) : TypeExpr → Bool
  | .subscript (.cls (.builtin .generic)) _ => true
  | .qualified .classVar _ | .qualified .final _ => !whole
  | _ => false

def isPlainForm (whole : Bool) : TypeExpr → Bool
  | .cls (.builtin .generic) => true
  | .bareClassVar => !whole
  | _ => false

def checked (whole : Bool) (t : TypeExpr) : Except Raised TypeExpr :=
  match t.asArgument with
  | .literal (.tuple items) => .error (.notType items)
  | u =>
    if u.isForm whole then .error (.notArgument u)
    else if u.isPlainForm whole then .error (.plainForm u)
    else .ok u

/-- Metadata can be put on everything but plain values, which belong to no module. -/
def reannotate (metadata : List Value) : TypeExpr → Except Raised TypeExpr
  | .literal v => .error (.noModule (.literal v))
  | .ellipsis => .error (.noModule .ellipsis)
  | t => .ok (annotate t metadata)

def isText : TypeExpr → Bool
  | .text _ => true
  | _ => false

end TypeExpr

namespace Evaluator

variable (E : Evaluator)

def checkTexts : List TypeExpr → Except Raised Unit
  | [] => .ok ()
  | .text s :: rest => do
    E.compile s
    checkTexts rest
  | _ :: rest => checkTexts rest

mutual

/-- Replaces every reference by what `look` finds, and builds the form around it anew, which may
make a union collapse. It counts whether a reference is a whole annotation, or all that metadata is
put on. -/
def substitute (look : Bool → String → Except Raised TypeExpr) (whole : Bool) :
    TypeExpr → Except Raised TypeExpr
  | .forward s => look whole s
  | .text s => look whole s
  | .subscript head args => do
    E.checkTexts args
    return .subscript head (← substituteAll look args)
  | .union native members => do
    let ms ← substituteAll look members
    return if native then .bars ms else .unionOf false ms
  | .annotated base metadata => do TypeExpr.reannotate metadata (← substitute look true base)
  | .callable params result => do
    let ps ← substituteAll look params
    return .callable ps (← substitute look false result)
  | .qualified q base =>
    if q.isInitVar then .ok (.qualified q base) else do
      return .qualified q (← substitute look false base)
  | .none => .ok .none
  | .ellipsis => .ok .ellipsis
  | .cls c => .ok (.cls c)
  | .marker m => .ok (.marker m)
  | .newType tag base => .ok (.newType tag base)
  | .alias a => .ok (.alias a)
  | .bareClassVar => .ok .bareClassVar
  | .literal v => .ok (.literal v)
  | .choice values => .ok (.choice values)
  | .variable name => .ok (.variable name)

def substituteAll (look : Bool → String → Except Raised TypeExpr) :
    List TypeExpr → Except Raised (List TypeExpr)
  | [] => .ok []
  | a :: as => do
    let b ← substitute look false a
    return b :: (← substituteAll look as)

end

/-- Resolves a reference through those that it leads to. One that leads back to itself stays. -/
def lookUp (declarer : ClassRef) :
    (room : Nat) → (seen : List String) → (whole : Bool) → String → Except Raised TypeExpr
  | 0, _, _, _ => .error .tooDeep
  | room + 1, seen, whole, text =>
    if text ∈ seen then .ok (.forward text)
    else do
      E.compile text
      let t ← (← E.value declarer text).checked whole
      E.substitute (lookUp declarer room (text :: seen)) whole t

def resolve (declarer : ClassRef) (t : TypeExpr) : Except Raised TypeExpr :=
  E.substitute (E.lookUp declarer E.depth []) t.isText t.asArgument

end Evaluator

end ClassSchema
