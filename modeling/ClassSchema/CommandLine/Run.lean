import ClassSchema.CommandLine.Request
import ClassSchema.CommandLine.Summary
import ClassSchema.Loading.ClassName

namespace ClassSchema.CommandLine

inductive Trouble where
  | load (fault : LoadFault)
  | schema (fault : Fault)
  | markup (message : String)
  | write (fault : WriteFault)

def Trouble.message (M : Model) : Trouble → String
  | load fault => fault.message
  | schema fault => fault.message M
  | markup message => message
  | write fault => fault.message

/-- Whether the trouble is reported. Otherwise the run itself fails. -/
def Trouble.isReported : Trouble → Bool
  | load fault => fault.isReported
  | schema fault => fault.isReported
  | markup _ | write _ => false

structure Output where
  out : String := ""
  err : String := ""
  written : Option (String × String) := none

def Output.note (o : Output) (s : String) : Output := { o with err := o.err ++ s }

abbrev Running := EStateM Trouble Output

namespace Running

variable {α : Type}

def lift {ε : Type} (trouble : ε → Trouble) : Except ε α → Running α
  | .ok a => return a
  | .error fault => throw (trouble fault)

def print (s : String) : Running Unit := modify fun o => { o with out := o.out ++ s }

def note (s : String) : Running Unit := modify (·.note s)

def write (path content : String) : Running Unit :=
  modify fun o => { o with written := some (path, content) }

end Running

open Running

variable (C : Console) (w : Workspace)

def loadTarget (t : Target) : Except Trouble ClassRef :=
  match ClassName.load w.model t.name t.search w.session with
  | .ok c _ => .ok c
  | .error fault _ => .error (.load fault)

def compileWith (o : Options) (c : ClassRef) : Except Trouble Document :=
  (Compiler.compile w.model o (.cls c)).mapError .schema

/-- The schema that is asked for. The settings are checked before the class is loaded. -/
def schemaOf (t : Target) (settings : Settings) : Except Trouble Document := do
  let o ← (Options.ofSettings settings).mapError .schema
  compileWith w o (← loadTarget w t)

def summaryOf (t : Target) : Except Trouble Summary := do
  let c ← loadTarget w t
  let description ← (w.model.describe (.cls c)).mapError .schema
  return { description, document := ← compileWith w default c }

def writtenNote (d : Document) (path : String) : String :=
  "Wrote " ++ toString d.messages.length ++ " messages and " ++ toString d.enums.length
    ++ " enums to " ++ C.escape path

/-- Nothing is printed or written before the document is complete. -/
def deliver (d : Document) : Option String → Running Unit
  | none => print d.text
  | some path =>
    match w.writeFault? path with
    | some fault => throw (.write fault)
    | none => do
      write path d.text
      note (← lift .markup (C.print false (writtenNote C d path)))

def printTables (s : Summary) : Running Unit := do
  print (← lift .markup (C.print true (s.title w.model C)))
  print (← lift .markup (C.printTable Summary.fieldColumns (s.fieldRows w.model C)))
  print "\n"
  print (← lift .markup (C.print true (Console.Style.title.mark "Blocks")))
  print (← lift .markup (C.printTable Summary.blockColumns s.blockRows))

def perform : Request → Running Unit
  | .schema t flags output => do deliver C w (← lift id (schemaOf w t flags.settings)) output
  | .summary t json => do
    let s ← lift id (summaryOf w t)
    if json then print (Json.print 0 (s.toValue w.model) ++ "\n") else printTables C w s

/-- How a run ends. A run that fails does so with a trouble that is not reported. -/
structure Outcome extends Output where
  exit : Nat
  failure : Option Trouble := none

def report (message : String) : String := Console.Style.alarm.mark "Error:" ++ " " ++ C.escape message

def finish : EStateM.Result Trouble Output Unit → Outcome
  | .ok _ o => { o with exit := 0 }
  | .error t o =>
    if t.isReported then
      match C.print false (report C (t.message w.model)) with
      | .ok s => { o.note s with exit := 1 }
      | .error message => { o with exit := 1, failure := some (.markup message) }
    else { o with exit := 1, failure := some t }

def run (read : Reader) (arguments : List String) : Outcome :=
  match read w arguments with
  | .ok request => finish C w (perform C w request {})
  | .error ending => { out := ending.out, err := ending.err, exit := ending.exit }

end ClassSchema.CommandLine
