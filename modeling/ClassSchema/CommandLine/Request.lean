import ClassSchema.CommandLine.Workspace
import ClassSchema.Compiler.Options

namespace ClassSchema.CommandLine

structure Target where
  name : String
  search : List String

structure Flags where
  affix : String := "Grpc"
  package : Option String := none
  /-- How many blanks indent a line. -/
  indent : Option Nat := none
  noHeading : Bool := false

def Flags.settings (f : Flags) : Settings where
  affix := f.affix
  package := f.package
  indent :=
    match f.indent with
    | none | some 0 => "\t"
    | some n => String.ofList (List.replicate n ' ')
  heading := !f.noHeading

inductive Request where
  /-- The schema of a class, on the standard output or in a file. -/
  | schema (target : Target) (flags : Flags) (output : Option String)
  /-- The fields of a class and the blocks of its schema, as tables or as JSON. -/
  | summary (target : Target) (json : Bool)

/-- The end of a run that requests nothing: help, or a misuse. -/
structure Ending where
  out : String := ""
  err : String := ""
  exit : Nat := 0

/-- Reads the arguments of a command line, which may name files of the workspace. -/
abbrev Reader := Workspace → List String → Except Ending Request

end ClassSchema.CommandLine
