import ClassSchema.Value

namespace ClassSchema.Json

def unitText (n : Nat) : List Char := '\\' :: 'u' :: Text.hexDigits 4 n

def escapeChar (c : Char) : List Char :=
  if c = '"' then ['\\', '"']
  else if c = '\\' then ['\\', '\\']
  else if c = '\n' then ['\\', 'n']
  else if c = '\r' then ['\\', 'r']
  else if c = '\t' then ['\\', 't']
  else if c = '\x08' then ['\\', 'b']
  else if c = '\x0c' then ['\\', 'f']
  else if 0x20 ≤ c.toNat ∧ c.toNat < 0x7F then [c]
  else if c.toNat < 0x10000 then unitText c.toNat
  else
    let n := c.toNat - 0x10000
    unitText (0xD800 + n / 0x400) ++ unitText (0xDC00 + n % 0x400)

def quoted (s : String) : String := String.ofList ('"' :: s.toList.flatMap escapeChar ++ ['"'])

def newLine (level : Nat) : String := String.ofList ('\n' :: List.replicate (2 * level) ' ')

def enclosed (opening closing : String) (level : Nat) (items : List String) : String :=
  if items.isEmpty then opening ++ closing
  else
    opening ++ newLine (level + 1) ++ (("," ++ newLine (level + 1)).intercalate items)
      ++ newLine level ++ closing

mutual

def print (level : Nat) : Value → String
  | .null => "null"
  | .bool b => if b then "true" else "false"
  | .int n => toString n
  | .decimal d => d.text
  | .text s => quoted s
  | .list items => enclosed "[" "]" level (printItems (level + 1) items)
  | .tuple items => enclosed "[" "]" level (printItems (level + 1) items)
  | .record entries => enclosed "\x7b" "\x7d" level (printEntries (level + 1) entries)

def printItems (level : Nat) : List Value → List String
  | [] => []
  | v :: vs => print level v :: printItems level vs

def printEntries (level : Nat) : List (String × Value) → List String
  | [] => []
  | (key, v) :: es => (quoted key ++ ": " ++ print level v) :: printEntries level es

end

end ClassSchema.Json
