import ClassSchema.CommandLine.Invocation
import ClassSchema.CommandLine.Plain.Console
import ClassSchema.CommandLine.Run
import ClassSchema.Json.Reader

open ClassSchema

def deliverOutcome (w : Workspace) (o : CommandLine.Outcome) : IO UInt32 := do
  IO.print o.out
  IO.eprint o.err
  match o.written with
  | some (path, content) => IO.FS.writeFile path content
  | none => pure ()
  match o.failure with
  | some trouble => IO.eprintln (trouble.message w.model)
  | none => pure ()
  return o.exit.toUInt32

/-- Runs the program in the workspace that a line of JSON on the standard input describes. -/
def main (arguments : List String) : IO UInt32 := do
  let line ← (← IO.getStdin).getLine
  match (Json.read? line).bind Workspace.ofValue? with
  | some w => deliverOutcome w (CommandLine.run .plain w CommandLine.Request.ofCommandLine arguments)
  | none =>
    IO.eprintln "The workspace cannot be read."
    return 1
