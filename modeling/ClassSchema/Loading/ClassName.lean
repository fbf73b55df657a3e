import ClassSchema.Loading.Session

namespace ClassSchema

/-- Why a name does not lead to a class. The last two constructors are faults of the session and
not of the name. -/
inductive LoadFault where
  | badForm (name : String)
  | notImported (module : String) (why : ImportFault)
  | noType (module path : String)
  | notClass (name : String)
  | relative (module : String)
  | failed (kind message : String)

abbrev Loading := EStateM LoadFault Session

def failureText (kind message : String) : String :=
  if kind = "KeyError" then Text.quoted message else message

def ImportFault.message : ImportFault → String
  | .missing name => "No module named " ++ Text.quoted name
  | .notPackage name parent =>
    "No module named " ++ Text.quoted name ++ "; " ++ Text.quoted parent ++ " is not a package"
  | .failed kind message => failureText kind message

def LoadFault.message : LoadFault → String
  | .badForm name => "Expected 'module:Class' or 'module.Class', got " ++ Text.quoted name
  | .notImported module why =>
    "Could not import module " ++ Text.quoted module ++ ": " ++ why.message
  | .noType module path => module ++ " has no type named " ++ Text.quoted path
  | .notClass name => name ++ " is not a class"
  | .relative module =>
    "the 'package' argument is required to perform a relative import for " ++ Text.quoted module
  | .failed kind message => failureText kind message

def LoadFault.isReported : LoadFault → Bool
  | .badForm _ | .notImported .. | .noType .. | .notClass _ => true
  | .relative _ | .failed .. => false

def importKinds : List String := ["ImportError", "ModuleNotFoundError"]

namespace ClassName

def split (name : String) : Except LoadFault (String × String) :=
  let cs := name.toList
  let (module, path) := if ':' ∈ cs then Text.splitFirst ':' cs else Text.splitLast '.' cs
  if module.isEmpty || path.isEmpty then .error (.badForm name)
  else .ok (String.ofList module, String.ofList path)

def added (path search : List String) : List String := search.filter (· ∉ path)

/-- Takes entries off again, each by its first occurrence. -/
def removed (path entries : List String) : List String := entries.foldl List.erase path

/-- Imports a module with the search path in front of the session's own path. -/
def importWith (module : String) (search : List String) : Loading LoadedModule := fun s =>
  let entries := added s.path search
  let restored (t : Session) : Session := { t with path := removed t.path entries }
  if module.toList.head? = some '.' then .error (.relative module) s
  else
    match Session.importModule module { s with path := entries ++ s.path } with
    | .ok m t => .ok m (restored t)
    | .error (.failed kind message) t =>
      if kind ∈ importKinds then .error (.notImported module (.failed kind message)) (restored t)
      else .error (.failed kind message) (restored t)
    | .error why t => .error (.notImported module why) (restored t)

inductive Entity where
  | module (m : LoadedModule)
  | binding (b : Binding)
  | member
  | other

variable (M : Model)

/-- Whether the class has an attribute for a field, as the classes of named tuples do. -/
def hasFieldAttribute (c : ClassRef) (name : String) : Bool :=
  (M.heritage c).lineage.any fun
    | .builtin _ => false
    | .declared i =>
      match (M.decl i).body with
      | .record .namedTuple _ fields => fields.any (·.1 == name)
      | _ => false

def hasMember : ClassRef → String → Bool
  | .builtin _, _ => false
  | .declared i, name =>
    match (M.decl i).body with
    | .enumeration _ members => members.any (·.1 == name)
    | .record .. => false

def moduleAttribute? (s : Session) (m : LoadedModule) (name : String) : Option Entity :=
  match (if name ∈ m.submodules then s.find? (m.name ++ "." ++ name) else none) with
  | some inner => some (.module inner)
  | none =>
    match m.index.bind (fun i => binding? (M.moduleAt i).bindings name) with
    | some b => some (.binding b)
    | none => if name = "__name__" then some .other else none

def classAttribute? (c : ClassRef) (name : String) : Option Entity :=
  match M.classAttribute? c name with
  | some b => some (.binding b)
  | none =>
    if hasMember M c name then some .member
    else if hasFieldAttribute M c name || name = "__name__" then some .other
    else none

def attribute? (s : Session) : Entity → String → Option Entity
  | .module m, name => moduleAttribute? M s m name
  | .binding (.cls c), name => classAttribute? M c name
  | .binding (.newType ..), name => if name = "__name__" then some .other else none
  | .member, name => if name = "name" ∨ name = "value" then some .other else none
  | .binding (.value _), _ | .other, _ => none

def follow (s : Session) : Entity → List String → Option Entity
  | e, [] => some e
  | e, name :: rest => (attribute? M s e name).bind (fun e => follow s e rest)

def load (name : String) (search : List String) : Loading ClassRef := do
  match split name with
  | .error fault => throw fault
  | .ok (module, path) =>
    let m ← importWith module search
    match follow M (← get) (.module m) (Name.dotted path) with
    | none => throw (.noType module path)
    | some (.binding (.cls c)) => return c
    | some _ => throw (.notClass name)

end ClassName

end ClassSchema
