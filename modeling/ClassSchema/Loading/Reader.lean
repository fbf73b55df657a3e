import ClassSchema.Loading.Session
import ClassSchema.Model.Reader

namespace ClassSchema.Session

def readLocation (entry : Value) : Option (List String) := do
  let dir ← (entry.field? "dir").bind Value.string?
  let name ← (entry.field? "module").bind Value.string?
  return directoryOf dir ++ Name.dotted name

def readIsPackage (entry : Value) : Bool :=
  match entry.field? "package" with
  | some (.bool b) => b
  | _ => false

def readContent (M : Model) (entry : Value) : Counting (Model × Content) := do
  match entry.field? "raise" with
  | some (.list [.text kind, .text message]) => return (M, .failure kind message)
  | _ =>
    let name ← (entry.field? "module").bind Value.string?
    let r ← Model.readModule { model := M } name entry
    return (r.model, .module M.modules.length)

def readFile (M : Model) (entry : Value) : Counting (Model × ModuleFile) := do
  let (M, content) ← readContent M entry
  return (M, { location := ← readLocation entry, isPackage := readIsPackage entry, content })

def readFiles (M : Model) : List Value → Counting (Model × List ModuleFile)
  | [] => return (M, [])
  | entry :: entries => do
    let (M, f) ← readFile M entry
    let (M, fs) ← readFiles M entries
    return (M, f :: fs)

def start (M : Model) (files : List ModuleFile) : Session where
  files := files
  loaded := (M.modules.head?.map fun m =>
    { name := m.name, index := some 0, directories := none }).toList

end ClassSchema.Session
