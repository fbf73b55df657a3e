import ClassSchema.Loading.Reader

namespace ClassSchema

structure Workspace where
  model : Model := {}
  session : Session := {}
  /-- The paths of the files that are no modules. -/
  files : List String := []

inductive WriteFault where
  | missing (path : String)
  | notDirectory (path : String)
  | isDirectory (path : String)
  deriving DecidableEq, Repr

def WriteFault.message : WriteFault → String
  | .missing path => "[Errno 2] No such file or directory: " ++ Text.quoted path
  | .notDirectory path => "[Errno 20] Not a directory: " ++ Text.quoted path
  | .isDirectory path => "[Errno 21] Is a directory: " ++ Text.quoted path

namespace Workspace

def endsInName (path : String) : Bool :=
  match (Text.pieces '/' path.toList).getLast? with
  | some last => last ≠ [] && last ≠ ['.']
  | none => false

def hasFile (w : Workspace) (names : List String) : Bool :=
  w.files.any (fun f => directoryOf f == names)

def isFile (w : Workspace) (path : String) : Bool := endsInName path && w.hasFile (directoryOf path)

def isDirectory (w : Workspace) (d : Directory) : Bool :=
  d.isEmpty || w.session.isDirectory d
    || w.session.files.any (fun f => f.isPackage && d == f.location)
    || w.files.any (fun f => d.isPrefixOf (directoryOf f) && d != directoryOf f)

/-- A file can be written in a directory that is there, unless a directory has its name. -/
def writeFault? (w : Workspace) (path : String) : Option WriteFault :=
  let names := directoryOf path
  if path = "" then some (.missing path)
  else if w.isDirectory names then some (.isDirectory path)
  else if !w.isDirectory names.dropLast then
    if w.files.any (fun f => (directoryOf f).isPrefixOf names.dropLast) then
      some (.notDirectory path)
    else some (.missing path)
  else if !endsInName path then
    if w.hasFile names then some (.notDirectory path) else some (.isDirectory path)
  else none

def moduleName (v : Value) : String := ((v.field? "module").bind Value.string?).getD "m"

/-- Reads a workspace: a module, the module files under `disk`, and the other files under
`touch`. -/
def read (v : Value) : Counting Workspace := do
  let r ← Model.readModule {} (moduleName v) v
  let (M, files) ← Session.readFiles r.model (v.itemsAt "disk")
  return {
    model := M
    session := Session.start M files
    files := (v.itemsAt "touch").filterMap Value.string? }

def ofValue? (v : Value) : Option Workspace := (read v).run' 0

end Workspace

end ClassSchema
