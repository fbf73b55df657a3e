namespace ClassSchema

/-- The number `± coefficient · 10 ^ exponent`. Zero keeps its sign. -/
structure Decimal where
  negative : Bool
  coefficient : Nat
  exponent : Int
  deriving DecidableEq, Repr

namespace Decimal

/-- The numerator over `10 ^ depth`, for a depth of at least `-exponent`. -/
def scaled (d : Decimal) (depth : Nat) : Int :=
  let n : Int := d.coefficient * Nat.pow 10 (d.exponent + depth).toNat
  if d.negative then -n else n

def ofInt (n : Int) : Decimal := ⟨n < 0, n.natAbs, 0⟩

def same (a b : Decimal) : Bool :=
  let depth := max (-a.exponent).toNat (-b.exponent).toNat
  a.scaled depth == b.scaled depth

def truncated (d : Decimal) : Int :=
  let whole := d.coefficient * Nat.pow 10 d.exponent.toNat / Nat.pow 10 (-d.exponent).toNat
  if d.negative then -whole else whole

def trimZeros : List Char → List Char × Nat
  | [] => ([], 0)
  | c :: cs =>
    match trimZeros cs with
    | ([], n) => if c = '0' then ([], n + 1) else ([c], n)
    | (ds, n) => (c :: ds, n)

def exponentText (e : Int) : List Char :=
  let digits := Nat.toDigits 10 e.natAbs
  'e' :: (if e < 0 then '-' else '+') :: (if digits.length < 2 then '0' :: digits else digits)

/-- Positional from `10 ^ -4` up to `10 ^ 16`, with at least one digit on either side of the
point, and with an exponent otherwise. -/
def digitsText (digits : List Char) (point : Int) : List Char :=
  if -4 < point ∧ point ≤ 16 then
    if point ≤ 0 then '0' :: '.' :: List.replicate (-point).toNat '0' ++ digits
    else
      let whole := point.toNat
      if digits.length ≤ whole then
        digits ++ List.replicate (whole - digits.length) '0' ++ ['.', '0']
      else digits.take whole ++ '.' :: digits.drop whole
  else
    match digits with
    | [] => exponentText (point - 1)
    | [d] => d :: exponentText (point - 1)
    | d :: ds => d :: '.' :: ds ++ exponentText (point - 1)

def text (d : Decimal) : String :=
  let (digits, zeros) := trimZeros (Nat.toDigits 10 d.coefficient)
  let body :=
    if d.coefficient = 0 then ['0', '.', '0']
    else digitsText digits (digits.length + zeros + d.exponent)
  String.ofList (if d.negative then '-' :: body else body)

example : text ⟨false, 25, -1⟩ = "2.5" ∧ text ⟨true, 1, 22⟩ = "-1e+22" := by decide

end Decimal

end ClassSchema
