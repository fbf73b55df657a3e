import ClassSchema.Text.Case
import ClassSchema.Text.Pieces

namespace ClassSchema.Name

def isWordChar (c : Char) : Bool := c.isAlphanum || c == '_'

def isSeparator (c : Char) : Bool := c == '_' || c == '-'

def isLegal (c : Char) : Bool := c.isAlphanum || isSeparator c

def sanitize (s : String) : String := String.ofList (s.toList.filter isLegal)

def lowerFirst (s : String) : String :=
  match s.toList with
  | [] => ""
  | c :: cs => String.ofList (Text.lower c ++ cs)

/-- Drops the separators and raises the first character of every part between them. The flag says
whether a part is about to begin. -/
def raiseParts : Bool → List Char → List Char
  | _, [] => []
  | start, c :: cs =>
    if isSeparator c then raiseParts true cs
    else (if start then Text.upper c else [c]) ++ raiseParts false cs

def pascalCase (s : String) : String := String.ofList (raiseParts true s.toList)

def isIdentifierChars : List Char → Bool
  | [] => false
  | c :: cs => (c.isAlpha || c == '_') && cs.all isWordChar

def isIdentifier (s : String) : Bool := isIdentifierChars s.toList

def dotted (s : String) : List String := (Text.pieces '.' s.toList).map String.ofList

def isPackage (s : String) : Bool := (Text.pieces '.' s.toList).all isIdentifierChars

/-- How a message gets its name. Only the root carries the configured prefix. -/
inductive Policy where
  | root
  | nested
  deriving DecidableEq, Repr

def Policy.messageName : Policy → (simple affix : String) → String
  | .root, simple, affix => affix ++ simple
  | .nested, simple, _ => simple

def enumName (simple affix : String) : String := affix ++ simple

def wrapperName (message : String) : String := message ++ "s"

def entryName (owner field : String) : String :=
  owner ++ pascalCase (sanitize field) ++ "Entry"

example : pascalCase "stock_levels-byDay" = "StockLevelsByDay" := by decide

end ClassSchema.Name
