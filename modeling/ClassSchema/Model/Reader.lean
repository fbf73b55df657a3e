import ClassSchema.Model.Basic
import ClassSchema.Text.Integer

namespace ClassSchema

def Value.itemsAt (v : Value) (key : String) : List Value :=
  ((v.field? key).bind Value.items?).getD []

mutual

def Value.depth : Value → Nat
  | .list items => depths items + 1
  | .tuple items => depths items + 1
  | .record entries => entryDepths entries + 1
  | .null | .bool _ | .int _ | .decimal _ | .text _ => 1

def Value.depths : List Value → Nat
  | [] => 0
  | v :: vs => max (Value.depth v) (Value.depths vs)

def Value.entryDepths : List (String × Value) → Nat
  | [] => 0
  | (_, v) :: es => max (Value.depth v) (Value.entryDepths es)

end

def Builtin.spelling (b : Builtin) : String :=
  match b.home with
  | "collections" => "collections." ++ b.name
  | "collections.abc" => "abc." ++ b.name
  | _ => b.name

def Builtin.ofSpelling? (s : String) : Option Builtin :=
  all.find? (fun b => b.spelling == s && b != .generic)

def Alias.ofSpelling? (s : String) : Option Alias := all.find? (fun a => "typing." ++ a.name == s)

def Marker.ofName? (s : String) : Option Marker := all.find? (·.name == s)

/-- Reading counts the forms that are told from others by a number alone. -/
abbrev Counting := StateT Nat Option

namespace TypeExpr

def ofWord? (s : String) : Option TypeExpr :=
  match s with
  | "None" => some .none
  | "..." => some .ellipsis
  | "ClassVar" => some .bareClassVar
  | _ =>
    ((Builtin.ofSpelling? s).map .builtin).or
      (((Marker.ofName? s).map .marker).or ((Alias.ofSpelling? s).map .alias))

def headOf? (s : String) : Option Head :=
  ((Builtin.ofSpelling? s).map (fun b => .cls (.builtin b))).or ((Alias.ofSpelling? s).map .alias)

def headAt? (named : List (String × TypeExpr)) (v : Value) : Option Head :=
  match v.field? "g", v.field? "ref" with
  | some (.text g), _ => headOf? g
  | _, some (.text key) => do
    match ← named.lookup key with
    | .cls c => some (.cls c)
    | _ => Option.none
  | _, _ => Option.none

def wrapped (key : String) (t : TypeExpr) : Counting TypeExpr :=
  match key with
  | "optional" => return optional t
  | "initvar" => do return .qualified (.initVar (← getModify (· + 1))) t
  | "classvar" => return .qualified .classVar t.asArgument
  | "final" => return .qualified .final t.asArgument
  | "required" => return .qualified .required t.asArgument
  | "notrequired" => return .qualified .notRequired t.asArgument
  | _ => failure

/-- Reads an expression of at most `depth` levels, where `named` has the classes by their keys. -/
def read (named : List (String × TypeExpr)) : (depth : Nat) → Value → Counting TypeExpr
  | 0, _ => failure
  | depth + 1, v =>
    match v with
    | .null => return .none
    | .text s => liftM (ofWord? s)
    | .record [("ref", .text key)] => liftM (named.lookup key)
    | .record [("fwd", .text s)] => return .text s
    | .record [("lit", v)] => return ofValue v
    | .record [("literal", .list values)] => return oneOf values
    | .record [("typevar", .text name)] => return .variable name
    | .record [("union", .list members)] => do
      return unionOf false (← members.mapM (read named depth))
    | .record [("or", .list members)] => do return bars (← members.mapM (read named depth))
    | .record [("callable", .list [.list params, result])] => do
      let ps ← params.mapM (read named depth)
      return .callable (ps.map asArgument) (← read named depth result).asArgument
    | .record [(key, operand)] => do wrapped key (← read named depth operand)
    | v =>
      match v.field? "args", v.field? "annotated" with
      | some (.list args), _ => do
        let head ← headAt? named v
        return subscripted head (← args.mapM (read named depth))
      | _, some base => do return annotate (← read named depth base) (v.itemsAt "meta")
      | _, _ => failure

def readWhole (named : List (String × TypeExpr)) (v : Value) : Counting TypeExpr :=
  read named (v.depth + 1) v

end TypeExpr

namespace Model

/-- Where the reading of a model stands: the model so far, and the names by which the classes of
the module at hand are known. -/
structure Reading where
  model : Model := {}
  named : List (String × TypeExpr) := []

def nameAt (spec : Value) : Option String := (spec.field? "name").bind Value.string?

def keyAt (spec : Value) : Option String := ((spec.field? "key").bind Value.string?).or (nameAt spec)

def isNewType (spec : Value) : Bool :=
  match spec.field? "kind" with
  | some (.text kind) => kind == "newtype"
  | _ => false

/-- Names every class and new type, in the order of declaration. A new type refers to what is
declared before it. Classes take positions from `next` on. -/
def nameAll (home : String) : (next : Nat) → List (String × TypeExpr) → List Value →
    Counting (List (String × TypeExpr))
  | _, named, [] => return named
  | next, named, spec :: specs => do
    let key ← keyAt spec
    if isNewType spec then
      let base ← TypeExpr.readWhole named (← spec.field? "of")
      let tag := ⟨next + named.length, home, ← nameAt spec⟩
      nameAll home next ((key, .newType tag base) :: named) specs
    else nameAll home (next + 1) ((key, .cls (.declared next)) :: named) specs

def readField (named : List (String × TypeExpr)) : Value → Counting (String × TypeExpr)
  | .list [.text name, t] => do return (name, ← TypeExpr.readWhole named t)
  | _ => failure

def asWhole? : Value → Option Value
  | .bool b => some (.int (if b then 1 else 0))
  | .int n => some (.int n)
  | .decimal d => some (.int d.truncated)
  | .text s => (Text.int? s).map .int
  | _ => none

def asText? : Value → Option Value
  | .text s => some (.text s)
  | _ => none

def readMember (convert : Value → Option Value) : Value → Option (String × Value)
  | .list [.text name, v] => (convert v).map (name, ·)
  | _ => none

def readBase (named : List (String × TypeExpr)) (v : Value) : Counting TypeExpr :=
  match v.field? "generic" with
  | some _ => return .builtin .generic
  | none => TypeExpr.readWhole named v

def readRecord (named : List (String × TypeExpr)) (style : RecordStyle) (spec : Value) :
    Counting ClassBody := do
  return .record style (← (spec.itemsAt "bases").mapM (readBase named))
    (← (spec.itemsAt "fields").mapM (readField named))

def readEnum (style : EnumStyle) (convert : Value → Option Value) (spec : Value) : Option ClassBody := do
  return .enumeration style (← (spec.itemsAt "members").mapM (readMember convert))

def readBody (named : List (String × TypeExpr)) (spec : Value) : Counting ClassBody := do
  match ← (spec.field? "kind").bind Value.string? with
  | "plain" => readRecord named .plain spec
  | "dataclass" => readRecord named .dataclass spec
  | "namedtuple" => readRecord named .namedTuple spec
  | "typeddict" => readRecord named .typedDict spec
  | "enum" => liftM (readEnum .distinct some spec)
  | "intenum" => liftM (readEnum .distinct asWhole? spec)
  | "strenum" => liftM (readEnum .distinct asText? spec)
  | "flag" => liftM (readEnum .flags some spec)
  | "intflag" => liftM (readEnum .flags asWhole? spec)
  | _ => failure

def encloserKey? (spec : Value) : Option String := (spec.field? "in").bind Value.string?

def readBinding (named : List (String × TypeExpr)) (spec : Value) : Option (String × Binding) := do
  let name ← nameAt spec
  match ← named.lookup (← keyAt spec) with
  | .cls c => some (name, .cls c)
  | .newType tag base => some (name, .newType tag base)
  | _ => none

def readBindings (named : List (String × TypeExpr)) (specs : List Value) (encloser : Option String) :
    Option (List (String × Binding)) :=
  (specs.filter (fun spec => encloserKey? spec == encloser)).mapM (readBinding named)

def readEncloser (named : List (String × TypeExpr)) (spec : Value) : Option (Option Nat) := do
  match encloserKey? spec with
  | none => return none
  | some key =>
    match ← named.lookup key with
    | .cls (.declared i) => return some i
    | _ => none

def readClass (named : List (String × TypeExpr)) (specs : List Value) (home : Nat) (spec : Value) :
    Counting ClassDecl := do
  return {
    name := ← nameAt spec
    encloser := ← readEncloser named spec
    home
    body := ← readBody named spec
    bindings := ← readBindings named specs (← keyAt spec) }

def readAttribute (v : Value) : Value :=
  match v with
  | .record [("tuple", .list items)] => .tuple items
  | v => v

def attributes (spec : Value) : List (String × Binding) :=
  match spec.field? "attrs" with
  | some (.record entries) => entries.map (fun e => (e.1, .value (readAttribute e.2)))
  | _ => []

def readModule (r : Reading) (name : String) (spec : Value) : Counting Reading := do
  let specs := spec.itemsAt "classes"
  let named ← nameAll name r.model.classes.length [] specs
  let classes ←
    (specs.filter (fun s => !isNewType s)).mapM (readClass named specs r.model.modules.length)
  let bindings ← readBindings named specs none
  return {
    model := {
      modules := r.model.modules ++ [{ name, bindings := bindings ++ attributes spec }]
      classes := r.model.classes ++ classes }
    named }

end Model

end ClassSchema
