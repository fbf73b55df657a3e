import ClassSchema.CommandLine.Parameter
import ClassSchema.Text.Quoted

namespace ClassSchema.CommandLine

inductive MisuseKind where
  | noSuchOption (name : String)
  | noArgument (name : String)
  | unwantedArgument (name : String)
  | noSuchCommand (name : String)
  | noCommand
  | missing (p : Parameter)
  | notInteger (p : Parameter) (text : String)
  | notPositive (p : Parameter) (n : Int)
  | notDirectory (p : Parameter) (path : String)
  | extra (arguments : List String)
  deriving DecidableEq, Repr

structure Misuse where
  command : Option Command
  kind : MisuseKind
  deriving DecidableEq, Repr

def Parameter.hint (p : Parameter) : String := " / ".intercalate (p.names.map Text.quoted)

def invalidValue (p : Parameter) (why : String) : String :=
  "Invalid value for " ++ p.hint ++ ": " ++ why

def MisuseKind.message : MisuseKind → String
  | noSuchOption name => "No such option " ++ Text.quoted name ++ "."
  | noArgument name => "Option " ++ Text.quoted name ++ " requires an argument."
  | unwantedArgument name => "Option " ++ Text.quoted name ++ " does not take a value."
  | noSuchCommand name => "No such command " ++ Text.quoted name ++ "."
  | noCommand => "Missing command."
  | missing p => "Missing option " ++ p.hint ++ "."
  | notInteger p text => invalidValue p (Text.quoted text ++ " is not a valid integer range.")
  | notPositive p n => invalidValue p (toString n ++ " is not in the range x>=1.")
  | notDirectory p path => invalidValue p ("Directory " ++ Text.quoted path ++ " is a file.")
  | extra arguments =>
    "Got unexpected extra argument" ++ (if arguments.length = 1 then "" else "s") ++ " ("
      ++ " ".intercalate arguments ++ ")"

def MisuseKind.showsUsage : MisuseKind → Bool
  | noArgument _ | unwantedArgument _ => false
  | _ => true

def callOf : Option Command → String
  | none => "typeproto"
  | some c => "typeproto " ++ c.name

def usage (c : Option Command) : String :=
  "Usage: " ++ callOf c ++ (if c.isSome then " [OPTIONS]\n" else " [OPTIONS] COMMAND [ARGS]...\n")

def Misuse.message (m : Misuse) : String :=
  let hint := "Try '" ++ callOf m.command ++ " --help' for help.\n\n"
  (if m.kind.showsUsage then usage m.command ++ hint else "") ++ "Error: " ++ m.kind.message ++ "\n"

end ClassSchema.CommandLine
