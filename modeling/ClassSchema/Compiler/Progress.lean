import ClassSchema.Compiler.Options
import ClassSchema.Document.Draft
import ClassSchema.Registry
import ClassSchema.Trail

namespace ClassSchema

structure Progress where
  registry : Registry := {}
  trail : Trail := {}
  draft : Draft := {}

abbrev Compiling := EStateM Fault Progress

namespace Compiling

variable {α : Type}

def fromResult : Except Fault α → Compiling α
  | .ok a => return a
  | .error fault => throw fault

def onDraft (step : Drafting α) : Compiling α := fun s =>
  match step s.draft with
  | .ok a d => .ok a { s with draft := d }
  | .error fault d => .error fault { s with draft := d }

def onTrail (step : Trailing α) : Compiling α := fun s =>
  match step s.trail with
  | .ok a p => .ok a { s with trail := p }
  | .error fault p => .error fault { s with trail := p }

def register (t : TypeExpr) (path name : String) : Compiling Unit := do
  let r ← fromResult ((← get).registry.register t path name)
  modify fun s => { s with registry := r }

def isRegistered (t : TypeExpr) : Compiling Bool := return (← get).registry.contains t

def registeredName (t : TypeExpr) : Compiling String := do
  fromResult ((← get).registry.nameOf t)

def thenLeave (step : Compiling α) : Compiling α := fun s =>
  match step s with
  | .ok a s => (onTrail Trail.pop *> pure a) s
  | .error fault s => (onTrail Trail.pop *> throw fault) s

def within (t : TypeExpr) (step : Compiling α) : Compiling α := do
  onTrail (Trail.push t)
  thenLeave step

end Compiling

end ClassSchema
