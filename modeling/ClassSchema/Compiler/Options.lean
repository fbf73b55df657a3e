import ClassSchema.Fault
import ClassSchema.Name

namespace ClassSchema

structure Settings where
  /-- Stands before the name of the root message and before the name of every enum. -/
  affix : String := "Grpc"
  version : String := "proto2"
  package : Option String := none
  indent : String := "\t"
  heading : Bool := true

def Settings.fault? (s : Settings) : Option Fault :=
  if s.affix ≠ "" ∧ !Name.isIdentifier s.affix then some (.invalidAffix s.affix)
  else
    match s.package with
    | some package =>
      if Name.isPackage package then if s.version = "" then some .emptyVersion else none
      else some (.invalidPackage package)
    | none => if s.version = "" then some .emptyVersion else none

structure Options extends Settings where
  accepted : toSettings.fault? = none

namespace Options

def ofSettings (s : Settings) : Except Fault Options :=
  match h : s.fault? with
  | none => .ok { toSettings := s, accepted := h }
  | some fault => .error fault

instance : Inhabited Options := ⟨{ accepted := rfl }⟩

end Options

end ClassSchema
