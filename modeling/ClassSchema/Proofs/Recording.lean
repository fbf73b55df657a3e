import ClassSchema.Compiler.Schema

namespace ClassSchema

structure Record where
  /-- The classes whose compilation has begun and not ended, at each beginning. The innermost comes
  first. -/
  calls : List (List TypeExpr) := []
  /-- The stack, after each of its changes. -/
  trails : List (List TypeExpr) := []

abbrev Recording := EStateM Fault (Progress × Record)

namespace Recording

open Compiling

variable {α : Type}

/-- A step of the compiler in which nothing is written down. -/
def plainly (step : Compiling α) : Recording α := fun s =>
  match step s.1 with
  | .ok a p => .ok a (p, s.2)
  | .error fault p => .error fault (p, s.2)

instance : MonadLift Compiling Recording := ⟨plainly⟩

def noteCall (calls : List TypeExpr) : Recording Unit :=
  modify fun s => (s.1, { s.2 with calls := calls :: s.2.calls })

def noteTrail : Recording Unit :=
  modify fun s => (s.1, { s.2 with trails := s.1.trail.stack :: s.2.trails })

def leave : Recording Unit := do
  discard (plainly (onTrail Trail.pop))
  noteTrail

def thenLeave (step : Recording α) : Recording α := fun s =>
  match step s with
  | .ok a s => (leave *> pure a) s
  | .error fault s => (leave *> throw fault) s

def within (t : TypeExpr) (step : Recording α) : Recording α := do
  plainly (onTrail (Trail.push t))
  noteTrail
  thenLeave step

variable (M : Model) (o : Options)

def ensureEnum (t : TypeExpr) : Recording String := do
  if ← isRegistered t then registeredName t
  else
    let d ← fromResult (M.describe t)
    let name := Name.enumName (M.simpleName d.type) o.affix
    within t (plainly (Compiler.registerHere M t name))
    onDraft (Draft.emitEnum name d.constants)
    return name

variable (nested : TypeExpr → Recording String)

def elementName (f : Field) (t : TypeExpr) : Recording (Option String) := do
  if t.containerShape?.isSome then
    Compiler.failField M f (fun owner field => .nestedContainer owner field f.declared)
  else if t.isAny then return none
  else
    match t.keyword? with
    | some keyword => return some keyword
    | none =>
      if M.isEnum t then return some (← ensureEnum M o t)
      else if !t.isClass then
        Compiler.failField M f (fun owner field => .unsupportedElement owner field t)
      else
        Compiler.checkCycle M f t
        if !(← isRegistered t) then discard (nested t)
        return some (← registeredName t)

def resolveElement (f : Field) : Option TypeExpr → Recording (Option String)
  | none => Compiler.failField M f .noElementType
  | some element =>
    match element.unwrap with
    | .error why => Compiler.failField M f (fun owner field => .unsupported owner field why)
    | .ok t => elementName M o nested f t

def buildEntry (f : Field) : Recording String := do
  if f.key.isNone then Compiler.failField M f .noMapTypes
  else
    let key ← resolveElement M o nested f f.key
    let value ← resolveElement M o nested f f.element
    let name := Name.entryName (← registeredName f.owner) f.name
    onDraft (Draft.emitEntry name key value)
    return name

def classifyField (f : Field) (ordinal : Int) : Recording Unit := do
  if f.shape = .composite then Compiler.checkCycle M f f.declared
  if f.shape = .scalar || (← isRegistered f.declared) then
    onDraft (Draft.emitField Multiplicity.optional (← Compiler.knownName? f.declared) f.name ordinal)
  else
    match f.shape with
    | .enum =>
      let name ← ensureEnum M o f.declared
      onDraft (Draft.emitField Multiplicity.optional (some name) f.name ordinal)
    | .list | .array | .collection =>
      let name? ← resolveElement M o nested f f.element
      onDraft (Draft.emitField Multiplicity.repeated name? f.name ordinal)
    | .map =>
      let name ← buildEntry M o nested f
      onDraft (Draft.emitField Multiplicity.repeated (some name) f.name ordinal)
    | .scalar | .composite =>
      discard (nested f.declared)
      let name ← fromResult (M.requireName f.declared)
      onDraft (Draft.emitField Multiplicity.repeated (some name) f.name ordinal)

def classifyFields : (ordinal : Int) → List Field → Recording Unit
  | _, [] => return ()
  | ordinal, f :: fs => do
    classifyField M o nested f ordinal
    classifyFields (ordinal + 1) fs

def buildMessage : (levels : Nat) → (outer : List TypeExpr) → TypeExpr → Name.Policy → Recording String
  | 0, outer, t, _ => do
    noteCall (t :: outer)
    throw .outOfRoom
  | levels + 1, outer, t, policy => do
    noteCall (t :: outer)
    let d ← fromResult (M.describe t)
    let name := policy.messageName (M.simpleName d.type) o.affix
    within t do
      Compiler.registerHere M t name
      onDraft (Draft.beginMessage name true)
      classifyFields M o (fun u => buildMessage levels (t :: outer) u .nested) 1 d.fields
      discard (onDraft Draft.endMessage)
    return name

/-- A compilation over at most `levels` classes inside each other, with its record. A root that is
refused is never compiled. -/
def compile (levels : Nat) (root : TypeExpr) : Except Fault Document × Record :=
  match Compiler.checkRoot M root with
  | .error fault => (.error fault, {})
  | .ok () =>
    match buildMessage M o levels [] root .root ({}, {}) with
    | .ok _ s => (.ok (Compiler.documentOf o s.1), s.2)
    | .error fault s => (.error fault, s.2)

end Recording

end ClassSchema
