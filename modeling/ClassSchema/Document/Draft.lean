import ClassSchema.Document.Block
import ClassSchema.Name

namespace ClassSchema

structure OpenMessage where
  name : String
  /-- Whether a message that collects a list of this one follows it. -/
  wrapped : Bool
  isEntry : Bool := false
  lines : List Line := []

namespace OpenMessage

def kind (m : OpenMessage) : BlockKind := if m.isEntry then .entry else .message

def block (m : OpenMessage) : Block :=
  if m.isEntry then .entry m.name m.lines else .message m.name m.lines

end OpenMessage

structure Draft where
  blocks : List Block := []
  /-- The open messages, the innermost first. -/
  pending : List OpenMessage := []
  /-- The names that blocks have taken, with the kind of the first to take each. -/
  claims : List (String × BlockKind) := []
  messages : List String := []
  enums : List String := []
  imports : List String := []

def defaultType : String := "string"

def wellKnownFile? (type : String) : Option String :=
  if type = timestamp then some "google/protobuf/timestamp.proto" else none

abbrev Drafting := EStateM Fault Draft

namespace Draft

def depth (d : Draft) : Nat := d.pending.length

def text (indent : String) (d : Draft) : String := String.join (d.blocks.map (Block.text indent))

/-- Messages may share a name with each other. An enum or an entry shares its name with no other
block. -/
def claim (name : String) (kind : BlockKind) : Drafting Unit := do
  match (← get).claims.lookup name with
  | none => modify fun d => { d with claims := (name, kind) :: d.claims }
  | some earlier =>
    if earlier = .message ∧ kind = .message then return ()
    else throw (.nameClash kind name earlier)

def noteImport (type : String) : Drafting Unit :=
  match wellKnownFile? type with
  | none => return ()
  | some file =>
    modify fun d => if file ∈ d.imports then d else { d with imports := d.imports ++ [file] }

def fieldLine (multiplicity : String) (type : Option String) (name : String) (ordinal : Int) :
    Drafting Line := do
  let type := type.getD defaultType
  noteImport type
  let legal := Name.sanitize name
  if legal = "" then throw (.illegalFieldName name)
  else return ⟨multiplicity, type, legal, ordinal⟩

def write (b : Block) : Drafting Unit :=
  modify fun d =>
    match b.kind with
    | .enum => { d with blocks := d.blocks ++ [b], enums := d.enums ++ [b.name] }
    | .message | .entry => { d with blocks := d.blocks ++ [b], messages := d.messages ++ [b.name] }

def beginMessage (name : String) (wrapped : Bool) : Drafting Unit :=
  modify fun d => { d with pending := { name, wrapped } :: d.pending }

def writeWrapper (message : String) : Drafting Unit := do
  let name := Name.wrapperName message
  claim name .message
  let line ← fieldLine Multiplicity.repeated (some message) (Name.lowerFirst message) 1
  write (.message name [line])

def takeMessage : Drafting OpenMessage := do
  match (← get).pending with
  | [] => throw .nothingOpen
  | m :: rest =>
    modify fun d => { d with pending := rest }
    return m

def endMessage : Drafting String := do
  let m ← takeMessage
  claim m.name m.kind
  write m.block
  if m.wrapped then writeWrapper m.name
  return m.name

def addLine (line : Line) : Drafting Unit :=
  modify fun d =>
    match d.pending with
    | [] => d
    | m :: rest => { d with pending := { m with lines := m.lines ++ [line] } :: rest }

def emitField (multiplicity : String) (type : Option String) (name : String) (ordinal : Int) :
    Drafting Unit := do
  if (← get).pending.isEmpty then throw (.outsideMessage name)
  else addLine (← fieldLine multiplicity type name ordinal)

def emitEnum (name : String) (constants : List String) : Drafting Unit := do
  if constants.isEmpty then throw (.emptyEnum name)
  claim name .enum
  write (.enum name constants)

def emitEntry (name : String) (key value : Option String) : Drafting Unit := do
  modify fun d => { d with pending := { name, wrapped := false, isEntry := true } :: d.pending }
  emitField Multiplicity.required key "key" 1
  emitField Multiplicity.required value "value" 2
  discard endMessage

end Draft

end ClassSchema
