import ClassSchema.Decimal
import ClassSchema.Text.Quoted

namespace ClassSchema

inductive Value where
  | null
  | bool (b : Bool)
  | int (n : Int)
  | decimal (d : Decimal)
  | text (s : String)
  | list (items : List Value)
  | tuple (items : List Value)
  | record (entries : List (String × Value))

namespace Value

instance : Inhabited Value := ⟨null⟩

def number? : Value → Option Decimal
  | .bool b => some (.ofInt (if b then 1 else 0))
  | .int n => some (.ofInt n)
  | .decimal d => some d
  | _ => none

def isNumber (d : Decimal) (v : Value) : Bool :=
  match v.number? with
  | some e => d.same e
  | none => false

def field? (v : Value) (key : String) : Option Value :=
  match v with
  | .record entries => entries.lookup key
  | _ => none

def string? : Value → Option String
  | .text s => some s
  | _ => none

def items? : Value → Option (List Value)
  | .list items => some items
  | _ => none

mutual

/-- Equality of values. Numbers are equal across kinds. Records are equal if they have equal values
under the same keys, whatever their order. -/
def same : Value → Value → Bool
  | .null, w => match w with | .null => true | _ => false
  | .bool b, w => w.isNumber (.ofInt (if b then 1 else 0))
  | .int n, w => w.isNumber (.ofInt n)
  | .decimal d, w => w.isNumber d
  | .text s, w => match w with | .text t => s == t | _ => false
  | .list xs, w => match w with | .list ys => sameList xs ys | _ => false
  | .tuple xs, w => match w with | .tuple ys => sameList xs ys | _ => false
  | .record es, w =>
    match w with
    | .record fs => sameEntries [] es fs && fs.all (fun f => es.any (fun e => e.1 == f.1))
    | _ => false

def sameList : List Value → List Value → Bool
  | [], ys => ys.isEmpty
  | x :: xs, ys =>
    match ys with
    | y :: ys => same x y && sameList xs ys
    | [] => false

def sameEntries (earlier : List String) : List (String × Value) → List (String × Value) → Bool
  | [], _ => true
  | (k, v) :: es, fs =>
    (earlier.contains k || (fs.lookup k).any (fun w => same v w)) && sameEntries (k :: earlier) es fs

end

mutual

/-- The kind of the first part of a value that cannot be a key: a list or a record, also inside
tuples. -/
def unkeyable? : Value → Option String
  | .list _ => some "list"
  | .record _ => some "dict"
  | .tuple items => firstUnkeyable? items
  | _ => none

def firstUnkeyable? : List Value → Option String
  | [] => none
  | v :: vs =>
    match unkeyable? v with
    | some kind => some kind
    | none => firstUnkeyable? vs

end

def kindName : Value → String
  | .null => "NoneType"
  | .bool _ => "bool"
  | .int _ => "int"
  | .decimal _ => "float"
  | .text _ => "str"
  | .list _ => "list"
  | .tuple _ => "tuple"
  | .record _ => "dict"

/-- Equality that tells kinds apart, so that one and true differ. -/
def identical (v w : Value) : Bool := v.kindName == w.kindName && v.same w

def distinct : List Value → List Value
  | [] => []
  | v :: vs => v :: (distinct vs).filter (fun w => !v.identical w)

mutual

def shown : Value → String
  | .null => "None"
  | .bool true => "True"
  | .bool false => "False"
  | .int n => toString n
  | .decimal d => d.text
  | .text s => Text.quoted s
  | .list items => "[" ++ ", ".intercalate (shownList items) ++ "]"
  | .tuple [item] => "(" ++ shown item ++ ",)"
  | .tuple items => "(" ++ ", ".intercalate (shownList items) ++ ")"
  | .record entries => "\x7b" ++ ", ".intercalate (shownEntries entries) ++ "\x7d"

def shownList : List Value → List String
  | [] => []
  | v :: vs => shown v :: shownList vs

def shownEntries : List (String × Value) → List String
  | [] => []
  | (k, v) :: es => (Text.quoted k ++ ": " ++ shown v) :: shownEntries es

end

end Value

end ClassSchema
