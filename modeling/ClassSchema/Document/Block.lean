import ClassSchema.Fault

namespace ClassSchema

namespace Multiplicity

def optional : String := "optional"

def required : String := "required"

def repeated : String := "repeated"

end Multiplicity

structure Line where
  multiplicity : String
  type : String
  name : String
  ordinal : Int
  deriving DecidableEq, Repr

inductive Block where
  | message (name : String) (lines : List Line)
  | entry (name : String) (lines : List Line)
  | enum (name : String) (constants : List String)
  deriving DecidableEq, Repr

def Line.text (indent : String) (l : Line) : String :=
  indent ++ l.multiplicity ++ " " ++ l.type ++ " " ++ l.name ++ " = " ++ toString l.ordinal ++ ";\n"

namespace Block

def kind : Block → BlockKind
  | message .. => .message
  | entry .. => .entry
  | enum .. => .enum

def name : Block → String
  | message name _ | entry name _ | enum name _ => name

def lines : Block → List Line
  | message _ lines | entry _ lines => lines
  | enum .. => []

def keyword : Block → String
  | message .. | entry .. => "message"
  | enum .. => "enum"

def constantLines (indent : String) : (start : Nat) → List String → List String
  | _, [] => []
  | i, c :: cs =>
    (indent ++ c ++ " = " ++ toString i ++ ";\n") :: constantLines indent (i + 1) cs

def body (indent : String) : Block → List String
  | message _ lines | entry _ lines => lines.map (Line.text indent)
  | enum _ constants => constantLines indent 0 constants

def text (indent : String) (b : Block) : String :=
  b.keyword ++ " " ++ b.name ++ " \x7b\n" ++ String.join (b.body indent) ++ "\x7d\n\n"

end Block

end ClassSchema
