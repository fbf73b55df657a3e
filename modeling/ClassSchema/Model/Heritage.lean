import ClassSchema.Model.Declaration

namespace ClassSchema

/-- Writes an entry of an ordered table. A key that is already there keeps its place. -/
def put {α : Type} (table : List (String × α)) (key : String) (value : α) : List (String × α) :=
  match table with
  | [] => [(key, value)]
  | (k, v) :: rest => if k = key then (k, value) :: rest else (k, v) :: put rest key value

def putAll {α : Type} (table entries : List (String × α)) : List (String × α) :=
  entries.foldl (fun t e => put t e.1 e.2) table

def nextInRows (rows : List (List ClassRef)) : Option ClassRef :=
  (rows.filterMap List.head?).find? (fun c => rows.all (fun row => !row.tail.contains c))

/-- Merges rows into one that keeps the order of each, for at most `room` steps. It stops early
where the rows contradict each other. -/
def mergeRows : (room : Nat) → List (List ClassRef) → List ClassRef
  | 0, _ => []
  | room + 1, rows =>
    match nextInRows rows with
    | none => []
    | some c =>
      c :: mergeRows room (rows.map (fun row => if row.head? = some c then row.tail else row))

def mergeAll (rows : List (List ClassRef)) : List ClassRef :=
  mergeRows ((rows.map List.length).foldr (· + ·) 0) rows

def boundAlong? (decls : List ClassDecl) (lineage : List ClassRef) (name : String) : Option Binding :=
  lineage.findSome? fun
    | .builtin _ => none
    | .declared i => binding? (decls.getD i default).bindings name

structure Heritage where
  /-- The class and its ancestors, in the order of lookup. -/
  lineage : List ClassRef
  own : List (String × TypeExpr)
  /-- The table of the nearest dataclass, with a flag for the names that are fields. The other
  names once were, or are only arguments of the constructor, and keep their place. -/
  stored : Option (List (String × Bool))

instance : Inhabited Heritage := ⟨[], [], none⟩

def TypeExpr.isStored : TypeExpr → Bool
  | .bareClassVar | .qualified .classVar _ | .qualified (.initVar _) _ => false
  | _ => true

def TypeExpr.isClassVar : TypeExpr → Bool
  | .bareClassVar | .qualified .classVar _ => true
  | _ => false

namespace TypeExpr

/-- The class that an expression names as a base. -/
def baseClass? : TypeExpr → Option ClassRef
  | .cls c => some c
  | .subscript (.cls c) _ => some c
  | _ => Option.none

/-- Whether a base is an alias with parameters, of a declared class or of the typing module. Among
bases the generic class always has parameters, whether they are kept or not. -/
def isAliasBase : TypeExpr → Bool
  | .cls (.builtin .generic) | .subscript (.cls (.builtin .generic)) _
  | .alias _ | .subscript (.alias _) _ | .subscript (.cls (.declared _)) _ => true
  | _ => false

def isClassBase (c : ClassRef) : TypeExpr → Bool
  | .cls d => c == d
  | _ => false

def isGenericBase (isGeneric : ClassRef → Bool) : TypeExpr → Bool
  | .cls c => isGeneric c
  | t => t.isAliasBase

/-- The classes that a base stands for, where `later` are the bases after it. The generic class is
left out where a later base brings it. -/
def mroEntries (isGeneric : ClassRef → Bool) (bases later : List TypeExpr) : TypeExpr → List ClassRef
  | .cls (.builtin .generic) | .subscript (.cls (.builtin .generic)) _ =>
    if later.any isAliasBase then [] else [.builtin .generic]
  | .cls c | .subscript (.cls c) _ => [c]
  | .alias a | .subscript (.alias a) _ =>
    (if bases.any (isClassBase (.builtin a.origin)) then [] else [.builtin a.origin])
      ++ if later.any (isGenericBase isGeneric) then [] else [.builtin .generic]
  | _ => []

def allMroEntries (isGeneric : ClassRef → Bool) (bases : List TypeExpr) : List TypeExpr → List ClassRef
  | [] => []
  | b :: later => b.mroEntries isGeneric bases later ++ allMroEntries isGeneric bases later

end TypeExpr

def Builtin.heritage (b : Builtin) : Heritage :=
  ⟨(b :: b.ancestors).map .builtin, [], none⟩

namespace Heritage

def arguments (fields : List (String × TypeExpr)) : List (String × TypeExpr) :=
  fields.map (fun f => (f.1, f.2.asArgument))

def find (rows : List Heritage) : ClassRef → Heritage
  | .builtin b => b.heritage
  | .declared i => rows.getD i ⟨[.declared i], [], none⟩

/-- The bases that a class starts from. -/
def bases (isGeneric : ClassRef → Bool) (exprs : List TypeExpr) : List ClassRef :=
  match TypeExpr.allMroEntries isGeneric exprs exprs with
  | [] => [.builtin .object]
  | cs => cs

def ancestors (rows : List Heritage) (bs : List ClassRef) : List ClassRef :=
  mergeAll (bs.map (fun b => (find rows b).lineage) ++ [bs])

/-- The table of the nearest ancestor that has one. -/
def inherited (rows : List Heritage) (cs : List ClassRef) : Option (List (String × Bool)) :=
  cs.findSome? (fun c => (find rows c).stored)

/-- The tables of the ancestors, the farthest first, and then the names that the dataclass
declares. -/
def storedTable (stores : TypeExpr → Bool) (rows : List Heritage) (cs : List ClassRef)
    (own : List (String × TypeExpr)) : List (String × Bool) :=
  putAll (putAll [] (cs.reverse.flatMap (fun c => (find rows c).stored.getD [])))
    (own.map (fun f => (f.1, stores f.2)))

def isGeneric (rows : List Heritage) (c : ClassRef) : Bool :=
  (find rows c).lineage.contains (.builtin .generic)

def ofDecl (stores : ClassRef → TypeExpr → Bool) (rows : List Heritage) (d : ClassDecl) : Heritage :=
  let self := ClassRef.declared rows.length
  match d.body with
  | .record .plain exprs fields =>
    let cs := ancestors rows (bases (isGeneric rows) exprs)
    ⟨self :: cs, putAll [] fields, inherited rows cs⟩
  | .record .dataclass exprs fields =>
    let cs := ancestors rows (bases (isGeneric rows) exprs)
    let own := putAll [] fields
    ⟨self :: cs, own, some (storedTable (stores self) rows cs own)⟩
  | .record .namedTuple _ fields =>
    ⟨[self, .builtin .tuple, .builtin .object], putAll [] (arguments fields), none⟩
  | .record .typedDict exprs fields =>
    let earlier := (exprs.filterMap TypeExpr.baseClass?).flatMap (fun c => (find rows c).own)
    ⟨[self, .builtin .dict, .builtin .object], putAll [] (arguments (earlier ++ fields)), none⟩
  | .enumeration .. => ⟨[self, .builtin .enum, .builtin .object], [], none⟩

def table (stores : ClassRef → TypeExpr → Bool) (decls : List ClassDecl) : List Heritage :=
  decls.foldl (fun rows d => rows ++ [ofDecl stores rows d]) []

end Heritage

end ClassSchema
