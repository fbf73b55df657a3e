import ClassSchema.Value

namespace ClassSchema.Json

def skipBlank : List Char → List Char
  | ' ' :: cs | '\t' :: cs | '\n' :: cs | '\r' :: cs => skipBlank cs
  | cs => cs

def hexValue? (c : Char) : Option Nat :=
  if c.isDigit then some (c.toNat - '0'.toNat)
  else if 'a' ≤ c ∧ c ≤ 'f' then some (c.toNat - 'a'.toNat + 10)
  else if 'A' ≤ c ∧ c ≤ 'F' then some (c.toNat - 'A'.toNat + 10)
  else none

def unit? (a b c d : Char) : Option Nat := do
  return ((← hexValue? a) * 16 + (← hexValue? b)) * 256 + (← hexValue? c) * 16 + (← hexValue? d)

def escaped? : Char → Option Char
  | '"' => some '"'
  | '\\' => some '\\'
  | '/' => some '/'
  | 'b' => some '\x08'
  | 'f' => some '\x0c'
  | 'n' => some '\n'
  | 'r' => some '\r'
  | 't' => some '\t'
  | _ => none

def readUnits : List Char → Option (List Nat × List Char)
  | [] => none
  | '"' :: rest => some ([], rest)
  | '\\' :: 'u' :: a :: b :: c :: d :: rest => do
    let unit ← unit? a b c d
    let (units, rest) ← readUnits rest
    return (unit :: units, rest)
  | '\\' :: c :: rest => do
    let c ← escaped? c
    let (units, rest) ← readUnits rest
    return (c.toNat :: units, rest)
  | c :: rest => do
    let (units, rest) ← readUnits rest
    return (c.toNat :: units, rest)

def joinUnits : List Nat → List Char
  | high :: low :: rest =>
    if 0xD800 ≤ high ∧ high < 0xDC00 ∧ 0xDC00 ≤ low ∧ low < 0xE000 then
      Char.ofNat (0x10000 + (high - 0xD800) * 0x400 + (low - 0xDC00)) :: joinUnits rest
    else Char.ofNat high :: joinUnits (low :: rest)
  | [n] => [Char.ofNat n]
  | [] => []

def readString (cs : List Char) : Option (String × List Char) :=
  (readUnits cs).map (fun r => (String.ofList (joinUnits r.1), r.2))

def digitsValue (cs : List Char) : Nat :=
  cs.foldl (fun n c => n * 10 + (c.toNat - '0'.toNat)) 0

def readExponent : List Char → Option Int × List Char
  | 'e' :: '-' :: cs | 'E' :: '-' :: cs =>
    (some (-(digitsValue (cs.takeWhile Char.isDigit) : Int)), cs.dropWhile Char.isDigit)
  | 'e' :: '+' :: cs | 'E' :: '+' :: cs | 'e' :: cs | 'E' :: cs =>
    (some (digitsValue (cs.takeWhile Char.isDigit)), cs.dropWhile Char.isDigit)
  | cs => (none, cs)

def readUnsigned (negative : Bool) (cs : List Char) : Option (Value × List Char) :=
  let whole := cs.takeWhile Char.isDigit
  let rest := cs.dropWhile Char.isDigit
  if whole.isEmpty then none
  else
    let (fraction, rest) :=
      match rest with
      | '.' :: cs => (some (cs.takeWhile Char.isDigit), cs.dropWhile Char.isDigit)
      | cs => (none, cs)
    let (exponent, rest) := readExponent rest
    match fraction, exponent with
    | none, none =>
      let n : Int := digitsValue whole
      some (.int (if negative then -n else n), rest)
    | _, _ =>
      let digits := fraction.getD []
      some (.decimal ⟨negative, digitsValue (whole ++ digits), exponent.getD 0 - digits.length⟩, rest)

def readWord (word : String) (v : Value) (cs : List Char) : Option (Value × List Char) :=
  if word.toList.isPrefixOf cs then some (v, cs.drop word.length) else none

mutual

/-- Reads a value, with at most `room` steps into the text. -/
def readValue : (room : Nat) → List Char → Option (Value × List Char)
  | 0, _ => none
  | room + 1, cs =>
    match skipBlank cs with
    | '"' :: rest => (readString rest).map (fun r => (.text r.1, r.2))
    | '[' :: rest =>
      match skipBlank rest with
      | ']' :: rest => some (.list [], rest)
      | rest => (readItems room rest).map (fun r => (.list r.1, r.2))
    | '\x7b' :: rest =>
      match skipBlank rest with
      | '\x7d' :: rest => some (.record [], rest)
      | rest => (readEntries room rest).map (fun r => (.record r.1, r.2))
    | '-' :: rest => readUnsigned true rest
    | 't' :: rest => readWord "true" (.bool true) ('t' :: rest)
    | 'f' :: rest => readWord "false" (.bool false) ('f' :: rest)
    | 'n' :: rest => readWord "null" .null ('n' :: rest)
    | rest => readUnsigned false rest

def readItems : (room : Nat) → List Char → Option (List Value × List Char)
  | 0, _ => none
  | room + 1, cs => do
    let (v, rest) ← readValue room cs
    match skipBlank rest with
    | ',' :: rest =>
      let (vs, rest) ← readItems room rest
      return (v :: vs, rest)
    | ']' :: rest => return ([v], rest)
    | _ => none

def readEntries : (room : Nat) → List Char → Option (List (String × Value) × List Char)
  | 0, _ => none
  | room + 1, cs =>
    match skipBlank cs with
    | '"' :: rest => do
      let (key, rest) ← readString rest
      match skipBlank rest with
      | ':' :: rest =>
        let (v, rest) ← readValue room rest
        match skipBlank rest with
        | ',' :: rest =>
          let (es, rest) ← readEntries room rest
          return ((key, v) :: es, rest)
        | '\x7d' :: rest => return ([(key, v)], rest)
        | _ => none
      | _ => none
    | _ => none

end

def read? (text : String) : Option Value :=
  let cs := text.toList
  match readValue (2 * cs.length + 2) cs with
  | some (v, rest) => if (skipBlank rest).isEmpty then some v else none
  | none => none

end ClassSchema.Json
