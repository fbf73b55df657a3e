import ClassSchema.Document.Draft

namespace ClassSchema.Draft

inductive Call where
  | beginMessage (name : String) (wrapped : Bool)
  | endMessage
  | emitField (multiplicity : String) (type : Option String) (name : String) (ordinal : Int)
  | emitEnum (name : String) (constants : List String)
  | emitEntry (name : String) (key value : Option String)
  deriving DecidableEq, Repr

namespace Call

def perform : Call → Drafting Unit
  | beginMessage name wrapped => Draft.beginMessage name wrapped
  | endMessage => discard Draft.endMessage
  | emitField multiplicity type name ordinal => Draft.emitField multiplicity type name ordinal
  | emitEnum name constants => Draft.emitEnum name constants
  | emitEntry name key value => Draft.emitEntry name key value

/-- The draft that a call leaves, whether it returns or fails. -/
def leaves (c : Call) (d : Draft) : Draft :=
  match c.perform d with
  | .ok _ e | .error _ e => e

def returns (c : Call) (d : Draft) : Bool :=
  match c.perform d with
  | .ok _ _ => true
  | .error _ _ => false

end Call

def run (calls : List Call) : Draft := calls.foldl (fun d c => c.leaves d) {}

theorem run_concat (calls : List Call) (c : Call) : run (calls ++ [c]) = c.leaves (run calls) := by
  rw [run, List.foldl_append]
  rfl

end ClassSchema.Draft
