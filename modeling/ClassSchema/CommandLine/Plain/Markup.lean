import ClassSchema.Text.Case
import ClassSchema.Text.Integer

namespace ClassSchema

inductive MarkupFault where
  | nothingToClose (position : Nat)
  | unmatched (tag : String) (position : Nat)
  deriving DecidableEq, Repr

def MarkupFault.message : MarkupFault → String
  | .nothingToClose position =>
    "closing tag '[/]' at position " ++ toString position ++ " has nothing to close"
  | .unmatched tag position =>
    "closing tag '[" ++ tag ++ "]' at position " ++ toString position
      ++ " doesn't match any open tag"

namespace Markup

def opensTag (c : Char) : Bool := ('a' ≤ c && c ≤ 'z') || c == '#' || c == '/' || c == '@'

def tag? : List Char → Option (List Char × List Char)
  | [] => none
  | c :: cs =>
    if opensTag c && ']' ∈ cs then
      let (body, rest) := Text.splitFirst ']' cs
      some (c :: body, rest)
    else none

inductive Part where
  | text (cs : List Char)
  | tag (position : Nat) (cs : List Char)

def trailing (cs : List Char) : Nat := (cs.reverse.takeWhile (· = '\\')).length

def unescaped : List Char → List Char
  | '\\' :: '[' :: cs => '[' :: unescaped cs
  | c :: cs => c :: unescaped cs
  | [] => []

/-- The parts of a text, which is given by its pieces between opening brackets. `before` stands
between the last tag and the next bracket, whose position is given. -/
def partsFrom (position : Nat) (before : List Char) : List (List Char) → List Part
  | [] => [.text (unescaped before)]
  | piece :: pieces =>
    let next := position + piece.length + 1
    match tag? piece with
    | none => partsFrom next (before ++ '[' :: piece) pieces
    | some (tag, rest) =>
      let n := trailing before
      let shown := unescaped (before.take (before.length - n)) ++ List.replicate (n / 2) '\\'
      if n % 2 = 0 then .text shown :: .tag position tag :: partsFrom next rest pieces
      else .text (shown ++ '[' :: tag ++ [']']) :: partsFrom next rest pieces

def parts (s : String) : List Part :=
  match Text.pieces '[' s.toList with
  | [] => []
  | first :: pieces => partsFrom first.length first pieces

def shortNames : List (String × String) := [
  ("d", "dim"), ("b", "bold"), ("i", "italic"), ("u", "underline"), ("r", "reverse"),
  ("c", "conceal"), ("s", "strike"), ("uu", "underline2"), ("o", "overline")]

def attributes : List String := [
  "bold", "dim", "italic", "underline", "blink", "blink2", "reverse", "conceal", "strike",
  "underline2", "frame", "encircle", "overline"]

def words (cs : List Char) : List String :=
  let spaced := cs.map (fun c => if Text.isBlank c then ' ' else c)
  ((Text.pieces ' ' spaced).filter (!·.isEmpty)).map String.ofList

/-- The name by which a style is known, however it is spelled. Case does not count, and neither does
the order of attributes. -/
def styleName (cs : List Char) : String :=
  let low := (Text.trim cs).flatMap Text.lower
  let named := (words low).map (fun w => (shortNames.lookup w).getD w)
  if named.all (· ∈ attributes) then " ".intercalate (attributes.filter (· ∈ named))
  else String.ofList low

/-- What a tag does to the styles that are open, the latest first. A closing tag without a name
closes the latest style. -/
def apply (opened : List String) (position : Nat) (tag : List Char) :
    Except MarkupFault (List String) :=
  match (Text.splitFirst '=' tag).1 with
  | '/' :: name =>
    if (Text.trim name).isEmpty then
      match opened with
      | [] => .error (.nothingToClose position)
      | _ :: opened => .ok opened
    else if styleName name ∈ opened then .ok (opened.erase (styleName name))
    else .error (.unmatched (String.ofList tag) position)
  | name => .ok (styleName name :: opened)

def isControl (c : Char) : Bool := c.toNat ∈ [7, 8, 11, 12, 13]

def shownParts (opened : List String) : List Part → Except MarkupFault (List Char)
  | [] => .ok []
  | .text cs :: ps => do return cs.filter (!isControl ·) ++ (← shownParts opened ps)
  | .tag position tag :: ps => do shownParts (← apply opened position tag) ps

def shown (s : String) : Except MarkupFault String := do
  return String.ofList (← shownParts [] (parts s))

def escapeFrom (before : List Char) : List (List Char) → List Char
  | [] => before
  | piece :: pieces =>
    match tag? piece with
    | none => before ++ '[' :: escapeFrom piece pieces
    | some (tag, rest) =>
      before ++ List.replicate (trailing before + 1) '\\' ++ '[' :: tag
        ++ ']' :: escapeFrom rest pieces

/-- A single backslash at the end is doubled, so that it does not escape a tag that follows. -/
def guardEnd (cs : List Char) : List Char := if trailing cs = 1 then cs ++ ['\\'] else cs

def escape (s : String) : String :=
  match Text.pieces '[' s.toList with
  | [] => ""
  | first :: pieces => String.ofList (guardEnd (escapeFrom first pieces))

example : (shown "[b]x[/bold]y[0]\\[i]").toOption = some "xy[0][i]" := by decide
example : (shown (escape "a[b][/]")).toOption = some "a[b][/]" := by decide

end Markup

end ClassSchema
