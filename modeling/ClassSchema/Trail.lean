import ClassSchema.Fault

namespace ClassSchema

structure Trail where
  /-- The innermost last. -/
  stack : List TypeExpr := []
  active : List TypeExpr := []

abbrev Trailing := EStateM Fault Trail

namespace Trail

variable (M : Model)

def holds (types : List TypeExpr) (t : TypeExpr) : Bool := types.any (fun s => s.same t)

def contains (p : Trail) (t : TypeExpr) : Bool := t.isKey && holds p.active t

def activate (t : TypeExpr) : Trailing Unit :=
  match t.unkeyable? with
  | some kind => throw (.unkeyable kind)
  | none => modify fun p => if holds p.active t then p else { p with active := p.active ++ [t] }

def deactivate (t : TypeExpr) : Trailing Unit :=
  match t.unkeyable? with
  | some kind => throw (.unkeyable kind)
  | none => modify fun p => { p with active := p.active.filter (fun s => !s.same t) }

def push (t : TypeExpr) : Trailing Unit := do
  modify fun p => { p with stack := p.stack ++ [t] }
  activate t

/-- A type that was pushed more than once stays in the set until its last occurrence goes. -/
def pop : Trailing TypeExpr := do
  match (← get).stack.getLast? with
  | none => throw .nothingOpen
  | some t =>
    modify fun p => { p with stack := p.stack.dropLast }
    if holds (← get).stack t then return t
    deactivate t
    return t

def current? (p : Trail) : Option TypeExpr := p.stack.getLast?

/-- The simple names from the root to the innermost type. -/
def path (p : Trail) : Except Fault String := do
  return ".".intercalate (← p.stack.mapM M.requireName)

/-- The trail from the first occurrence of a type, and the type again. -/
def chain (p : Trail) (t : TypeExpr) : Except Fault (List TypeExpr) :=
  match p.stack.dropWhile (fun s => !s.same t) with
  | [] => .error (.notOnTrail t)
  | rest => .ok (rest ++ [t])

def chainText (p : Trail) (t : TypeExpr) : Except Fault String := do
  return " -> ".intercalate (← (← p.chain t).mapM M.requireName)

end Trail

end ClassSchema
