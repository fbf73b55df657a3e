namespace ClassSchema

structure Column where
  heading : String
  rightAligned : Bool := false

/-- What prints text in markup, where tags in brackets set the style. -/
structure Console where
  /-- Writes a text so that nothing in it is taken for markup. -/
  escape : String → String
  /-- What is shown of a text in markup, or why nothing is. -/
  shown : String → Except String String
  /-- A text on lines of its own, broken at the width of the console or not. -/
  lines : (broken : Bool) → String → String
  table : List Column → List (List String) → String

namespace Console

inductive Style where
  | title | alarm

def Style.name : Style → String
  | title => "bold cyan"
  | alarm => "bold red"

def Style.mark (style : Style) (markup : String) : String :=
  "[" ++ style.name ++ "]" ++ markup ++ "[/" ++ style.name ++ "]"

variable (C : Console)

def print (broken : Bool) (markup : String) : Except String String :=
  (C.lines broken) <$> C.shown markup

def printTable (columns : List Column) (rows : List (List String)) : Except String String :=
  C.table columns <$> rows.mapM (·.mapM C.shown)

end Console

end ClassSchema
