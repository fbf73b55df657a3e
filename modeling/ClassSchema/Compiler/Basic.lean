import ClassSchema.Compiler.Progress
import ClassSchema.Description

namespace ClassSchema.Compiler

open Compiling

variable (M : Model) (o : Options)

/-- A class on the trail may not be referred to, since its block is still open. -/
def checkCycle (f : Field) (t : TypeExpr) : Compiling Unit := do
  let trail := (← get).trail
  if trail.contains t then
    let owner ← fromResult (M.requireName f.owner)
    discard (fromResult (M.requireName t))
    discard (fromResult (trail.chainText M t))
    throw (.cycle owner f.name t (← fromResult (trail.chain t)))

def knownName? (t : TypeExpr) : Compiling (Option String) := do
  if ← isRegistered t then return some (← registeredName t)
  else return t.keyword?

def registerHere (t : TypeExpr) (name : String) : Compiling Unit := do
  register t (← fromResult ((← get).trail.path M)) name

def ensureEnum (t : TypeExpr) : Compiling String := do
  if ← isRegistered t then registeredName t
  else
    let d ← fromResult (M.describe t)
    let name := Name.enumName (M.simpleName d.type) o.affix
    within t (registerHere M t name)
    onDraft (Draft.emitEnum name d.constants)
    return name

def failField {α : Type} (f : Field) (fault : String → String → Fault) : Compiling α := do
  throw (fault (← fromResult (M.requireName f.owner)) f.name)

variable (nested : TypeExpr → Compiling String)

def elementName (f : Field) (t : TypeExpr) : Compiling (Option String) := do
  if t.containerShape?.isSome then
    failField M f (fun owner field => .nestedContainer owner field f.declared)
  else if t.isAny then return none
  else
    match t.keyword? with
    | some keyword => return some keyword
    | none =>
      if M.isEnum t then return some (← ensureEnum M o t)
      else if !t.isClass then
        failField M f (fun owner field => .unsupportedElement owner field t)
      else
        checkCycle M f t
        if !(← isRegistered t) then discard (nested t)
        return some (← registeredName t)

def resolveElement (f : Field) : Option TypeExpr → Compiling (Option String)
  | none => failField M f .noElementType
  | some element =>
    match element.unwrap with
    | .error why => failField M f (fun owner field => .unsupported owner field why)
    | .ok t => elementName M o nested f t

def buildEntry (f : Field) : Compiling String := do
  if f.key.isNone then failField M f .noMapTypes
  else
    let key ← resolveElement M o nested f f.key
    let value ← resolveElement M o nested f f.element
    let name := Name.entryName (← registeredName f.owner) f.name
    onDraft (Draft.emitEntry name key value)
    return name

/-- Writes one field of the innermost message. A composite class is repeated where it is first met
and optional where it is met again. -/
def classifyField (f : Field) (ordinal : Int) : Compiling Unit := do
  if f.shape = .composite then checkCycle M f f.declared
  if f.shape = .scalar || (← isRegistered f.declared) then
    onDraft (Draft.emitField Multiplicity.optional (← knownName? f.declared) f.name ordinal)
  else
    match f.shape with
    | .enum =>
      let name ← ensureEnum M o f.declared
      onDraft (Draft.emitField Multiplicity.optional (some name) f.name ordinal)
    | .list | .array | .collection =>
      let name? ← resolveElement M o nested f f.element
      onDraft (Draft.emitField Multiplicity.repeated name? f.name ordinal)
    | .map =>
      let name ← buildEntry M o nested f
      onDraft (Draft.emitField Multiplicity.repeated (some name) f.name ordinal)
    | .scalar | .composite =>
      discard (nested f.declared)
      let name ← fromResult (M.requireName f.declared)
      onDraft (Draft.emitField Multiplicity.repeated (some name) f.name ordinal)

def classifyFields : (ordinal : Int) → List Field → Compiling Unit
  | _, [] => return ()
  | ordinal, f :: fs => do
    classifyField M o nested f ordinal
    classifyFields (ordinal + 1) fs

/-- Writes the message of a composite class and the message that collects a list of it, over at
most `levels` classes inside each other. -/
def buildMessage : (levels : Nat) → TypeExpr → Name.Policy → Compiling String
  | 0, _, _ => throw .outOfRoom
  | levels + 1, t, policy => do
    let d ← fromResult (M.describe t)
    let name := policy.messageName (M.simpleName d.type) o.affix
    within t do
      registerHere M t name
      onDraft (Draft.beginMessage name true)
      classifyFields M o (fun u => buildMessage levels u .nested) 1 d.fields
      discard (onDraft Draft.endMessage)
    return name

/-- Every class on the way inwards but the last is declared, and none is met twice. -/
def levels : Nat := M.classes.length + 1

def compileNested (t : TypeExpr) : Compiling String := buildMessage M o (levels M) t .nested

end ClassSchema.Compiler
