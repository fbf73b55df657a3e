import ClassSchema.Model.Basic

namespace ClassSchema

def Qualifier.word : Qualifier → String
  | .initVar _ => "InitVar"
  | .classVar => "ClassVar"
  | .final => "Final"
  | .required => "Required"
  | .notRequired => "NotRequired"

namespace Model

variable (M : Model)

/-- A class inside a larger expression. The builtin ones need no module. -/
def classArgument (c : ClassRef) : String :=
  if M.homeOf c = "builtins" then M.localName c else M.qualifiedName c

def classAlone (c : ClassRef) : String :=
  if c = .builtin .any then "typing.Any"
  else if M.isFlagClass c then "<flag " ++ Text.quoted (M.simpleName c) ++ ">"
  else if M.isEnumClass c then "<enum " ++ Text.quoted (M.simpleName c) ++ ">"
  else "<class '" ++ M.classArgument c ++ "'>"

def headShown : Head → String
  | .cls c => M.classArgument c
  | .alias a => "typing." ++ a.name

def bracketed (head : String) (args : List String) : String :=
  head ++ "[" ++ (if args.isEmpty then "()" else ", ".intercalate args) ++ "]"

/-- A union of two members of which one is the class of the absent value is shown by the other. -/
def unionShown (members : List TypeExpr) (args : List String) : String :=
  match members, args with
  | [a, b], [s, t] =>
    if a.isNoneType then bracketed "typing.Optional" [t]
    else if b.isNoneType then bracketed "typing.Optional" [s]
    else bracketed "typing.Union" args
  | _, _ => bracketed "typing.Union" args

/-- Any parameters at all are written as three dots without brackets. -/
def callableShown (params : List TypeExpr) (args : List String) (result : String) : String :=
  let shownParams :=
    match params with
    | [.ellipsis] => "..."
    | _ => "[" ++ ", ".intercalate args ++ "]"
  bracketed "typing.Callable" [shownParams, result]

def initVarShown (base : TypeExpr) (text : String) : String :=
  match base with
  | .cls c => bracketed "dataclasses.InitVar" [M.simpleName c]
  | _ => bracketed "dataclasses.InitVar" [text]

mutual

/-- The printed form of an expression, alone or inside another. -/
def printed (alone : Bool) : TypeExpr → String
  | .none => "None"
  | .ellipsis => if alone then "Ellipsis" else "..."
  | .cls c => if alone then M.classAlone c else M.classArgument c
  | .marker m => Marker.home ++ "." ++ m.name
  | .newType tag _ => tag.home ++ "." ++ tag.name
  | .alias a => "typing." ++ a.name
  | .bareClassVar => "typing.ClassVar"
  | .subscript head args => bracketed (M.headShown head) (printedAll args)
  | .union native members =>
    if native then " | ".intercalate (printedAlternatives members)
    else unionShown members (printedAll members)
  | .annotated base metadata =>
    bracketed "typing.Annotated" (printed false base :: Value.shownList metadata)
  | .forward name => "ForwardRef(" ++ Text.quoted name ++ ")"
  | .text s => Text.quoted s
  | .literal v => v.shown
  | .choice values => bracketed "typing.Literal" (Value.shownList values)
  | .variable name => "~" ++ name
  | .callable params result => callableShown params (printedAll params) (printed false result)
  | .qualified q base =>
    if q.isInitVar then M.initVarShown base (printed true base)
    else bracketed ("typing." ++ q.word) [printed false base]

def printedAll : List TypeExpr → List String
  | [] => []
  | a :: as => printed false a :: printedAll as

def printedAlternatives : List TypeExpr → List String
  | [] => []
  | a :: as => (if a.isNoneType then "None" else printed false a) :: printedAlternatives as

end

def shown (a : TypeExpr) : String := M.printed true a

/-- The name of a type: qualified for a class, bare for a new type, and else the printed form. The
absent value has none. -/
def typeName? : TypeExpr → Option String
  | .none => none
  | .cls c => some (M.qualifiedName c)
  | .marker m => some m.name
  | .newType tag _ => some tag.name
  | a => some (M.shown a)

def typeName (a : TypeExpr) : String := (M.typeName? a).getD "None"

def nameOf? : TypeExpr → Option String
  | .cls c => some (M.simpleName c)
  | .marker m => some m.name
  | .newType tag _ => some tag.name
  | .alias a => some a.name
  | .bareClassVar => some "ClassVar"
  | .subscript (.cls c) _ => some (M.simpleName c)
  | .subscript (.alias a) _ => some a.name
  | .union false [a, b] => some (if a.isNoneType || b.isNoneType then "Optional" else "Union")
  | .union false _ => some "Union"
  | .annotated .. => some "Annotated"
  | .choice _ => some "Literal"
  | .variable name => some name
  | .callable .. => some "Callable"
  | .qualified (.initVar _) _ => none
  | .qualified q _ => some q.word
  | .none | .ellipsis | .union true _ | .forward _ | .text _ | .literal _ => none

end Model

end ClassSchema
