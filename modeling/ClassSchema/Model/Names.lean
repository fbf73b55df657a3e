import ClassSchema.Model.Evaluator
import ClassSchema.Model.Heritage
import ClassSchema.Name

namespace ClassSchema

def reservedWords : List String := [
  "and", "as", "assert", "async", "await", "break", "class", "continue", "def", "del", "elif",
  "else", "except", "finally", "for", "from", "global", "if", "import", "in", "is", "lambda",
  "nonlocal", "not", "or", "pass", "raise", "return", "try", "while", "with", "yield"]

def wordValue? : String → Option Value
  | "None" => some .null
  | "True" => some (.bool true)
  | "False" => some (.bool false)
  | _ => none

/-- A name in a reference. Characters beyond ASCII count as letters. -/
def isNameChars : List Char → Bool
  | [] => false
  | c :: cs =>
    (c.isAlpha || c == '_' || 0x80 ≤ c.toNat)
      && cs.all (fun c => Name.isWordChar c || 0x80 ≤ c.toNat)

structure Reference where
  head : String
  rest : List String

def Reference.parse? (text : String) : Option Reference :=
  let parts := Text.pieces '.' text.toList
  match parts.map String.ofList with
  | [] => none
  | head :: rest =>
    if parts.all isNameChars && !(head :: rest).any reservedWords.contains
        && rest.all (fun w => (wordValue? w).isNone) then
      some { head, rest }
    else none

/-- Where names are looked up: in the module first, and then in the class. -/
structure Scope where
  module : List (String × Binding)
  cls : List (String × Binding)

def Scope.lookup? (scope : Scope) (name : String) : Option TypeExpr :=
  match wordValue? name with
  | some v => some (.ofValue v)
  | none =>
    match (binding? scope.module name).or (binding? scope.cls name) with
    | some b => some b.expr
    | none => (Builtin.all.find? (fun b => b.isGlobal && b.name == name)).map .builtin

theorem Value.ofValue_made (v : Value) : (TypeExpr.ofValue v).isMade = true := by
  cases v <;> rfl

theorem Binding.expr_made (b : Binding) : b.expr.isMade = true := by
  cases b with
  | value v => exact v.ofValue_made
  | _ => rfl

structure Names where
  modules : List Module
  classes : List ClassDecl

namespace Names

variable (N : Names)

def decl (i : Nat) : ClassDecl := N.classes.getD i default

def scopeOf : ClassRef → Scope
  | .builtin _ => { module := [], cls := [] }
  | .declared i =>
    { module := (N.modules.getD (N.decl i).home default).bindings, cls := (N.decl i).bindings }

def lineage (c : ClassRef) : List ClassRef :=
  (Heritage.find (Heritage.table (fun _ => TypeExpr.isStored) N.classes) c).lineage

def attribute? (t : TypeExpr) (name : String) : Option TypeExpr :=
  match t with
  | .cls c => (boundAlong? N.classes (N.lineage c) name).map Binding.expr
  | _ => none

def simpleName : ClassRef → String
  | .builtin b => b.name
  | .declared i => (N.decl i).name

def noAttribute (of : TypeExpr) (wanted : String) : Raised :=
  let owner := match of with
    | .cls c => "type object '" ++ N.simpleName c ++ "'"
    | t => "'" ++ t.kindName ++ "' object"
  .exception ["AttributeError"] (owner ++ " has no attribute '" ++ wanted ++ "'")

def follow (t : TypeExpr) : List String → Except Raised TypeExpr
  | [] => .ok t
  | name :: rest =>
    match N.attribute? t name with
    | some u => follow u rest
    | none => .error (N.noAttribute t name)

def malformed (text : String) : Raised :=
  .exception ["SyntaxError"] ("Forward reference must be an expression -- got " ++ Text.quoted text)

def undefined (name : String) : Raised :=
  .exception ["NameError"] ("name '" ++ name ++ "' is not defined")

def value (declarer : ClassRef) (text : String) : Except Raised TypeExpr :=
  match Reference.parse? text with
  | none => .error (malformed text)
  | some r =>
    match (N.scopeOf declarer).lookup? r.head with
    | none => .error (undefined r.head)
    | some t => N.follow t r.rest

theorem lookup?_made {scope : Scope} {name : String} {t : TypeExpr} (h : scope.lookup? name = some t) :
    t.isMade = true := by
  unfold Scope.lookup? at h
  split at h
  next v _ =>
    cases h
    exact v.ofValue_made
  next =>
    split at h
    next b _ =>
      cases h
      exact b.expr_made
    next =>
      obtain ⟨b, _, rfl⟩ := Option.map_eq_some_iff.mp h
      rfl

theorem follow_made {t u : TypeExpr} {names : List String} (ht : t.isMade = true)
    (h : N.follow t names = .ok u) : u.isMade = true := by
  induction names generalizing t with
  | nil =>
      cases h
      exact ht
  | cons name names ih =>
      unfold follow at h
      split at h
      next v hv =>
        refine ih ?_ h
        cases t with
        | cls c =>
            obtain ⟨b, _, rfl⟩ := Option.map_eq_some_iff.mp hv
            exact b.expr_made
        | _ => cases hv
      next => cases h

theorem value_made {declarer : ClassRef} {text : String} {t : TypeExpr}
    (h : N.value declarer text = .ok t) : t.isMade = true := by
  unfold value at h
  split at h
  next => cases h
  next =>
    split at h
    next => cases h
    next u hu => exact N.follow_made (lookup?_made hu) h

def bindingCount : Nat :=
  (N.modules.map (fun m => m.bindings.length)).foldr (· + ·) 0
    + (N.classes.map (fun d => d.bindings.length)).foldr (· + ·) 0

/-- Takes every text for a name with attributes. Every name but the first on the way comes from a
binding, so there is room for all. -/
def evaluator : Evaluator where
  compile text := if (Reference.parse? text).isSome then .ok () else .error (malformed text)
  value := N.value
  isStored _ _ := true
  depth := N.bindingCount + 2
  made := N.value_made

end Names

end ClassSchema
