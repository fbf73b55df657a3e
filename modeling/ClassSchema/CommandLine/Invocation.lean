import ClassSchema.CommandLine.Arguments
import ClassSchema.CommandLine.Request
import ClassSchema.Text.Integer

namespace ClassSchema.CommandLine.Request

def readWidth (p : Parameter) (text : String) : Except MisuseKind Nat :=
  match Text.int? text with
  | none => .error (.notInteger p text)
  | some n => if n < 1 then .error (.notPositive p n) else .ok n.toNat

def readWidth? (a : Arguments) (p : Parameter) : Except MisuseKind (Option Nat) :=
  match a.value? p with
  | none => .ok none
  | some text => (readWidth p text).map some

def check (w : Workspace) (a : Arguments) : Parameter → Except MisuseKind Unit
  | .type => if a.isGiven .type then .ok () else .error (.missing .type)
  | .path =>
    match (a.values .path).find? w.isFile with
    | some path => .error (.notDirectory .path path)
    | none => .ok ()
  | .indent => (readWidth? a .indent).map (fun _ => ())
  | .output | .affix | .package | .noHeading | .json | .help => .ok ()

def checkOrder (c : Command) (a : Arguments) : List Parameter :=
  (a.given.map (·.1)).eraseDups ++ c.parameters.filter (!a.isGiven ·)

def targetOf (a : Arguments) : Target where
  name := (a.value? .type).getD ""
  search := a.values .path

def flagsOf (a : Arguments) (indent : Option Nat) : Flags :=
  let f : Flags := {}
  { affix := (a.value? .affix).getD f.affix
    package := a.value? .package
    indent
    noHeading := a.isGiven .noHeading }

def ofArguments (w : Workspace) (c : Command) (a : Arguments) : Except MisuseKind (Option Request) := do
  if a.isGiven .help then return none
  (checkOrder c a).forM (check w a)
  if !a.rest.isEmpty then throw (.extra a.rest)
  match c with
  | .gen => return some (.schema (targetOf a) (flagsOf a (← readWidth? a .indent)) (a.value? .output))
  | .info => return some (.summary (targetOf a) (a.isGiven .json))

def help (c : Option Command) : Ending := { out := usage c }

def misuse (c : Option Command) (kind : MisuseKind) : Ending :=
  { err := Misuse.message ⟨c, kind⟩, exit := 2 }

def about {α : Type} (c : Option Command) (r : Except MisuseKind α) : Except Ending α :=
  r.mapError (misuse c)

def ofCommand (w : Workspace) (c : Command) (arguments : List String) : Except Ending Request := do
  let a ← about (some c) (Arguments.read c.parameters arguments)
  match ← about (some c) (ofArguments w c a) with
  | some request => return request
  | none => throw (help (some c))

/-- Reads a command line in which a parameter may be given wherever it likes. Without arguments, it
asks for help. A command that is not known is read again as a parameter if it looks like one. -/
def ofCommandLine : Reader := fun w arguments => do
  let (asked, rest) ← about none (Arguments.readFront arguments)
  if asked || arguments.isEmpty then throw (help none)
  match rest with
  | [] => throw (misuse none .noCommand)
  | name :: rest =>
    match Command.ofName? name with
    | some c => ofCommand w c rest
    | none =>
      let (asked, _) ← about none (Arguments.readFront (name :: rest))
      if asked then throw (help none)
      throw (misuse none (.noSuchCommand name))

end ClassSchema.CommandLine.Request
