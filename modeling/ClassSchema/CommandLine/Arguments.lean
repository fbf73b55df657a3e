import ClassSchema.CommandLine.Misuse
import ClassSchema.Text.Pieces

namespace ClassSchema.CommandLine

/-- The parameters that are given, in order, each with its value. One that takes no value goes
with an empty text. -/
structure Arguments where
  given : List (Parameter × String) := []
  rest : List String := []

namespace Arguments

def isGiven (a : Arguments) (p : Parameter) : Bool := a.given.any (·.1 == p)

def values (a : Arguments) (p : Parameter) : List String :=
  (a.given.filter (·.1 == p)).map (·.2)

def value? (a : Arguments) (p : Parameter) : Option String := (a.values p).getLast?

def isOption (argument : String) : Bool :=
  match argument.toList with
  | '-' :: _ :: _ => true
  | _ => false

structure Waiting where
  name : String
  parameter : Parameter

abbrev Step := List (Parameter × String) × Option Waiting

variable (accepted : List Parameter)

def find? (name : String) : Option Parameter := accepted.find? (name ∈ ·.names)

def readLong (cs : List Char) : Except MisuseKind Step :=
  let (before, after) := Text.splitFirst '=' cs
  let name := String.ofList before
  match find? accepted name with
  | none => .error (.noSuchOption name)
  | some p =>
    match p.takesValue, decide ('=' ∈ cs) with
    | true, true => .ok ([(p, String.ofList after)], none)
    | true, false => .ok ([], some ⟨name, p⟩)
    | false, true => .error (.unwantedArgument name)
    | false, false => .ok ([(p, "")], none)

/-- Reads short names that follow each other. What follows a name that takes a value is the
value. -/
def readShort : List Char → Except MisuseKind Step
  | [] => .ok ([], none)
  | c :: cs =>
    let name := String.ofList ['-', c]
    match find? accepted name with
    | none => .error (.noSuchOption name)
    | some p =>
      if !p.takesValue then do
        let (given, waiting) ← readShort cs
        return ((p, "") :: given, waiting)
      else if cs.isEmpty then .ok ([], some ⟨name, p⟩)
      else .ok ([(p, String.ofList cs)], none)

def readOption (argument : String) : Except MisuseKind Step :=
  match argument.toList with
  | '-' :: '-' :: cs => readLong accepted ('-' :: '-' :: cs)
  | cs => readShort accepted (cs.drop 1)

def read : List String → Except MisuseKind Arguments
  | [] => .ok {}
  | argument :: rest =>
    if argument = "--" then .ok { rest }
    else if isOption argument then
      match readOption accepted argument, rest with
      | .error misuse, _ => .error misuse
      | .ok (given, none), rest => do
        let a ← read rest
        return { a with given := given ++ a.given }
      | .ok (given, some w), value :: rest => do
        let a ← read rest
        return { a with given := given ++ (w.parameter, value) :: a.given }
      | .ok (_, some w), [] => .error (.noArgument w.name)
    else do
      let a ← read rest
      return { a with rest := argument :: a.rest }

def readFront : List String → Except MisuseKind (Bool × List String)
  | [] => .ok (false, [])
  | argument :: rest =>
    if argument = "--" then .ok (false, rest)
    else if isOption argument then do
      discard (readOption [.help] argument)
      return (true, (← readFront rest).2)
    else .ok (false, argument :: rest)

end Arguments

end ClassSchema.CommandLine
