import ClassSchema.TypeExpr.Basic

namespace ClassSchema.TypeExpr

/-- Choices are compared as sets of identical values. -/
def sameChoices (vs ws : List Value) : Bool :=
  vs.all (fun v => ws.any v.identical) && ws.all (fun w => vs.any w.identical)

mutual

def same : TypeExpr → TypeExpr → Bool
  | .none, b => match b with | .none => true | _ => false
  | .ellipsis, b => match b with | .ellipsis => true | _ => false
  | .cls c, b => match b with | .cls d => c == d | _ => false
  | .marker m, b => match b with | .marker n => m == n | _ => false
  | .newType t _, b => match b with | .newType u _ => t == u | _ => false
  | .alias s, b => match b with | .alias t => s == t | _ => false
  | .bareClassVar, b => match b with | .bareClassVar => true | _ => false
  | .subscript h xs, b =>
    match b with
    | .subscript k ys => h == k && samePairwise xs ys
    | _ => false
  | .union _ xs, b =>
    match b with
    | .union _ ys => covered xs ys && ys.all (fun y => occurs xs y)
    | _ => false
  | .annotated x m, b =>
    match b with
    | .annotated y n => same x y && Value.sameList m n
    | _ => false
  | .forward s, b => match b with | .forward t => s == t | _ => false
  | .text s, b => match b with | .text t => s == t | _ => false
  | .literal v, b => match b with | .literal w => v.same w | _ => false
  | .choice vs, b => match b with | .choice ws => sameChoices vs ws | _ => false
  | .variable s, b => match b with | .variable t => s == t | _ => false
  | .callable ps r, b =>
    match b with
    | .callable qs s => samePairwise ps qs && same r s
    | _ => false
  | .qualified q x, b =>
    match b with
    | .qualified p y => q == p && (q.isInitVar || same x y)
    | _ => false

def samePairwise : List TypeExpr → List TypeExpr → Bool
  | [], ys => ys.isEmpty
  | x :: xs, ys =>
    match ys with
    | y :: ys => same x y && samePairwise xs ys
    | [] => false

def covered : List TypeExpr → List TypeExpr → Bool
  | [], _ => true
  | x :: xs, ys => ys.any (fun y => same x y) && covered xs ys

def occurs : List TypeExpr → TypeExpr → Bool
  | [], _ => false
  | x :: xs, y => same x y || occurs xs y

end

mutual

/-- The kind of the first part that keeps an expression from being a key. -/
def unkeyable? : TypeExpr → Option String
  | .literal v => v.unkeyable?
  | .choice vs => Value.firstUnkeyable? vs
  | .subscript _ args => firstUnkeyable? args
  | .union _ members => firstUnkeyable? members
  | .annotated base metadata => (unkeyable? base).or (Value.firstUnkeyable? metadata)
  | .callable params result => (firstUnkeyable? params).or (unkeyable? result)
  | .qualified q base => if q.isInitVar then Option.none else unkeyable? base
  | .none | .ellipsis | .cls _ | .marker _ | .newType _ _ | .alias _ | .bareClassVar
  | .forward _ | .text _ | .variable _ => Option.none

def firstUnkeyable? : List TypeExpr → Option String
  | [] => Option.none
  | x :: xs => (unkeyable? x).or (firstUnkeyable? xs)

end

def isKey (a : TypeExpr) : Bool := a.unkeyable?.isNone

end ClassSchema.TypeExpr
