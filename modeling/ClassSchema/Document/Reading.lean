import ClassSchema.Document.Block

namespace ClassSchema

/-- A block as its text shows it. An entry cannot be told from a message there. -/
inductive Passage where
  | message (name : String) (lines : List Line)
  | enum (name : String) (constants : List (String × Int))
  deriving DecidableEq, Repr

def Block.passage : Block → Passage
  | message name lines | entry name lines => .message name lines
  | enum name constants => .enum name (constants.zipIdx.map fun c => (c.1, c.2))

structure Reading where
  version : Option String := none
  package : Option String := none
  imports : List String := []
  passages : List Passage
  deriving DecidableEq, Repr

namespace Reading

def messages (r : Reading) : List String :=
  r.passages.filterMap fun | .message name _ => some name | .enum .. => none

def enums (r : Reading) : List String :=
  r.passages.filterMap fun | .message .. => none | .enum name _ => some name

def splitAt (c : Char) (s : String) : List String := (s.toList.splitOn c).map String.ofList

def paragraphs (text : String) : List (List String) :=
  ((splitAt '\n' text).splitOn "").filter (· ≠ [])

def between? (before after whole : String) : Option String := do
  let rest ← before.toList.isPrefixOf? whole.toList
  let inside ← after.toList.isSuffixOf? rest
  return String.ofList inside

def ordinal? (word : String) : Option Int := do (← between? "" ";" word).toInt?

def words (line : String) : List String :=
  splitAt ' ' (String.ofList (line.toList.dropWhile (fun c => c = ' ' ∨ c = '\t')))

def line? (line : String) : Option Line :=
  match words line with
  | [multiplicity, type, name, "=", ordinal] => do
    return ⟨multiplicity, type, name, ← ordinal? ordinal⟩
  | _ => none

def constant? (line : String) : Option (String × Int) :=
  match words line with
  | [constant, "=", ordinal] => do return (constant, ← ordinal? ordinal)
  | _ => none

def body? {α : Type} (item? : String → Option α) (lines : List String) : Option (List α) :=
  if lines.getLast? = some "\x7d" then lines.dropLast.mapM item? else none

def passage? : List String → Option Passage
  | [] => none
  | head :: lines =>
    match splitAt ' ' head with
    | ["message", name, "\x7b"] => do return .message name (← body? line? lines)
    | ["enum", name, "\x7b"] => do return .enum name (← body? constant? lines)
    | _ => none

def version? : List String → Option String
  | [line] => between? "syntax = \"" "\";" line
  | _ => none

def package? : List String → Option String
  | [line] => between? "package " ";" line
  | _ => none

def imports? (lines : List String) : Option (List String) := lines.mapM (between? "import \"" "\";")

def taking {α : Type} (item? : List String → Option α) :
    List (List String) → Option α × List (List String)
  | [] => (none, [])
  | p :: ps =>
    match item? p with
    | some a => (some a, ps)
    | none => (none, p :: ps)

def ofText? (text : String) : Option Reading := do
  let (version, rest) := taking version? (paragraphs text)
  let (package, rest) := taking package? rest
  let (imports, rest) := taking imports? rest
  return { version, package, imports := imports.getD [], passages := ← rest.mapM passage? }

end Reading

end ClassSchema
