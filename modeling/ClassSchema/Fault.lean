import ClassSchema.Model.Shown
import ClassSchema.TypeExpr.Unwrap

namespace ClassSchema

/-- What a block of a document is. An entry is written as a message but keeps its name to
itself. -/
inductive BlockKind where
  | message | entry | enum
  deriving DecidableEq, Repr

def BlockKind.word : BlockKind → String
  | .message => "message"
  | .entry => "entry"
  | .enum => "enum"

/-- The first constructors are faults of the input. From `outsideMessage` on, they are breaches
of how the parts of the compiler are to be used, or exceptions that nothing handles. -/
inductive Fault where
  | invalidAffix (affix : String)
  | invalidPackage (package : String)
  | emptyVersion
  | noRoot
  | notComposite (root : TypeExpr)
  | notClass (t : TypeExpr)
  | unresolved (c : ClassRef) (e : Raised)
  | illegalFieldName (name : String)
  | unsupported (owner field : String) (why : Unsupported)
  | noElementType (owner field : String)
  | noMapTypes (owner field : String)
  | unsupportedElement (owner field : String) (element : TypeExpr)
  | emptyEnum (name : String)
  | nestedContainer (owner field : String) (declared : TypeExpr)
  | cycle (owner field : String) (target : TypeExpr) (chain : List TypeExpr)
  | alreadyRegistered (t : TypeExpr) (path : String)
  | nameClash (kind : BlockKind) (name : String) (earlier : BlockKind)
  | outsideMessage (field : String)
  | nothingOpen
  | unregistered (t : TypeExpr)
  | unknownField (name : String)
  | notOnTrail (t : TypeExpr)
  | unkeyable (kind : String)
  | noAttribute (of : TypeExpr) (wanted : String)
  | raised (e : Raised)
  | outOfRoom

variable (M : Model)

def Unsupported.message : Unsupported → String
  | .union whole => "Union types are not supported: " ++ M.shown whole
  | .mapArguments whole => "Mapping needs a key and a value type: " ++ M.shown whole
  | .tupleArguments whole =>
    "Fixed-length tuples are not supported, use tuple[X, ...]: " ++ M.shown whole
  | .severalArguments whole => "Container has more than one type parameter: " ++ M.shown whole
  | .expression whole => "Unsupported annotation: " ++ M.shown whole

def Raised.message : Raised → String
  | .exception _ text => text
  | .notType items =>
    "Forward references must evaluate to types. Got "
      ++ String.ofList ((Value.tuple items).shown.toList.take 100) ++ "."
  | .notArgument t => M.shown t ++ " is not valid as type argument"
  | .plainForm t => "Plain " ++ M.shown t ++ " is not valid as type argument"
  | .noModule t => "'" ++ t.kindName ++ "' object has no attribute '__module__'"
  | .tooDeep => "maximum recursion depth exceeded"

namespace Fault

def attributeMessage (of : TypeExpr) (wanted : String) : String :=
  match of with
  | .cls c => "type object '" ++ M.simpleName c ++ "' has no attribute '" ++ wanted ++ "'"
  | _ => "'" ++ of.kindName ++ "' object has no attribute '" ++ wanted ++ "'"

def nameIn (t : TypeExpr) : String := (M.nameOf? t).getD ""

def message : Fault → String
  | invalidAffix affix => "Prefix " ++ Text.quoted affix ++ " is not a valid identifier"
  | invalidPackage package => "Package " ++ Text.quoted package ++ " is not a valid package name"
  | emptyVersion => "Syntax must not be empty"
  | noRoot => "No type given to compile"
  | notComposite root => M.typeName root ++ " is not a composite type"
  | notClass t => "Expected a class, got " ++ M.typeName t
  | unresolved c e => "Cannot resolve annotations of " ++ M.qualifiedName c ++ ": " ++ e.message M
  | illegalFieldName name =>
    "Field name " ++ Text.quoted name ++ " has no characters legal in a schema"
  | unsupported owner field why => owner ++ "." ++ field ++ ": " ++ why.message M
  | noElementType owner field =>
    owner ++ "." ++ field ++ ": container has no element type, declare it as e.g. list[int]"
  | noMapTypes owner field =>
    owner ++ "." ++ field
      ++ ": mapping has no key and value types, declare it as e.g. dict[str, int]"
  | unsupportedElement owner field element =>
    owner ++ "." ++ field ++ ": unsupported element type " ++ M.typeName element
  | emptyEnum name => "Enum " ++ name ++ " has no members"
  | nestedContainer owner field declared =>
    owner ++ "." ++ field ++ ": nested containers are not supported (" ++ M.typeName declared
      ++ ")"
  | cycle owner field target chain =>
    owner ++ "." ++ field ++ " refers back to " ++ nameIn M target ++ " ("
      ++ " -> ".intercalate (chain.map (nameIn M)) ++ ")"
  | alreadyRegistered t path => M.typeName t ++ " is already registered as " ++ path
  | nameClash kind name earlier =>
    kind.word ++ " " ++ name ++ " clashes with an earlier " ++ earlier.word ++ " of the same name"
  | outsideMessage field => "Field " ++ field ++ " emitted outside of a message"
  | nothingOpen => "pop from empty list"
  | unregistered t => M.shown t
  | unknownField name => Text.quoted name
  | notOnTrail t => M.shown t ++ " is not in list"
  | unkeyable kind => "unhashable type: '" ++ kind ++ "'"
  | noAttribute of wanted => attributeMessage M of wanted
  | raised e => e.message M
  | outOfRoom => "out of room"

/-- Whether the fault is one of the input, which a command reports without failing itself. -/
def isReported : Fault → Bool
  | invalidAffix _ | invalidPackage _ | emptyVersion | noRoot | notComposite _ | notClass _
  | unresolved .. | illegalFieldName _ | unsupported .. | noElementType .. | noMapTypes ..
  | unsupportedElement .. | emptyEnum _ | nestedContainer .. | cycle .. | alreadyRegistered ..
  | nameClash .. => true
  | outsideMessage _ | nothingOpen | unregistered _ | unknownField _ | notOnTrail _ | unkeyable _
  | noAttribute .. | raised _ | outOfRoom => false

end Fault

def Model.requireName (t : TypeExpr) : Except Fault String :=
  match M.nameOf? t with
  | some name => .ok name
  | none => .error (.noAttribute t "__name__")

end ClassSchema
