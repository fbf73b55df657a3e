import ClassSchema.Model.Basic

namespace ClassSchema

abbrev Directory := List String

inductive Content where
  | module (index : Nat)
  | failure (kind message : String)

structure ModuleFile where
  location : List String
  isPackage : Bool
  content : Content

structure LoadedModule where
  name : String
  index : Option Nat
  /-- Where the modules inside a package are. -/
  directories : Option (List Directory)
  submodules : List String := []

structure Session where
  /-- The directories that modules are searched in, as they are written. -/
  path : List String := []
  files : List ModuleFile := []
  loaded : List LoadedModule := []

inductive ImportFault where
  | missing (name : String)
  | notPackage (name parent : String)
  | failed (kind message : String)

abbrev Importing := EStateM ImportFault Session

def directoryOf (path : String) : Directory :=
  let names := ((Text.pieces '/' path.toList).map String.ofList).filter (fun n => n ≠ "" ∧ n ≠ ".")
  if path.toList.head? = some '/' then "/" :: names else names

namespace Session

def find? (s : Session) (name : String) : Option LoadedModule :=
  s.loaded.find? (·.name == name)

/-- The file of a module in a directory. A package goes before a plain module, and a file that was
written later before an earlier one. -/
def fileIn? (s : Session) (name : String) (d : Directory) : Option ModuleFile :=
  let candidates := (s.files.filter (·.location == d ++ [name])).reverse
  (candidates.find? (·.isPackage)).or candidates.head?

def isDirectory (s : Session) (d : Directory) : Bool :=
  s.files.any (fun f => d.isPrefixOf f.location && d != f.location)

inductive Place where
  | file (f : ModuleFile)
  | directories (ds : List Directory)
  | nowhere

/-- Looks for a module by the last part of its name. The first directory that has a file for it
wins, and the directories of its name count only if none has. -/
def place (s : Session) (last : String) (within : List Directory) : Place :=
  match within.findSome? (s.fileIn? last) with
  | some f => .file f
  | none =>
    match (within.map (· ++ [last])).filter s.isDirectory with
    | [] => .nowhere
    | ds => .directories ds

def keep (m : LoadedModule) : Importing LoadedModule := do
  modify fun s => { s with loaded := s.loaded ++ [m] }
  return m

/-- Loads a module from the place where it is. A module whose file fails is not kept. -/
def loadFrom (name : String) : Place → Importing LoadedModule
  | .nowhere => throw (.missing name)
  | .directories ds => keep { name, index := none, directories := some ds }
  | .file f =>
    match f.content with
    | .failure kind message => throw (.failed kind message)
    | .module index =>
      keep { name, index := some index, directories := if f.isPackage then some [f.location] else none }

def update (name : String) (change : LoadedModule → LoadedModule) : Importing Unit :=
  modify fun s => { s with loaded := s.loaded.map fun m => if m.name = name then change m else m }

def joined (parts : List String) : String := ".".intercalate parts.reverse

/-- Where the modules inside a package are searched, or all modules for no package. The parts of
the package's name are given, the last part first. A package without a file is looked for anew,
and stays where it was if that does not lead to directories. -/
def searched : List String → Importing (Option (List Directory))
  | [] => return some ((← get).path.map directoryOf)
  | last :: front => do
    match (← get).find? (joined (last :: front)) with
    | none => return none
    | some m =>
      if m.index.isSome then return m.directories
      else
        match (← searched front).map ((← get).place last) with
        | some (.directories ds) =>
          update m.name fun m => { m with directories := some ds }
          return some ds
        | _ => return m.directories

def bindSubmodule (last : String) : (front : List String) → Importing Unit
  | [] => return ()
  | front => update (joined front) fun p => { p with submodules := last :: p.submodules }

/-- Imports the module whose name has the given parts, the last part first. Packages are imported
before what is in them. -/
def importParts : List String → Importing LoadedModule
  | [] => throw (.missing "")
  | last :: front => do
    let name := joined (last :: front)
    match (← get).find? name with
    | some m => return m
    | none =>
      if !front.isEmpty then discard (importParts front)
      match ← searched front with
      | none => throw (.notPackage name (joined front))
      | some within =>
        let m ← loadFrom name ((← get).place last within)
        bindSubmodule last front
        return m

def importModule (name : String) : Importing LoadedModule :=
  importParts (Name.dotted name).reverse

end Session

end ClassSchema
