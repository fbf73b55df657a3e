import ClassSchema.CommandLine.Console
import ClassSchema.Text.Integer
import Mathlib.Data.List.Forall2

namespace ClassSchema

namespace Text

/-- Characters that neither break a line nor move along it. -/
def isInline (c : Char) : Bool :=
  0x20 ≤ c.toNat && !(0x7F ≤ c.toNat && c.toNat ≤ 0x9F) && c.toNat ≠ 0x2028 && c.toNat ≠ 0x2029

/-- Text on one line. Between two colons, there is a blank, so that no emoji code stands there. -/
structure Clear (cs : List Char) : Prop where
  inline : ∀ c ∈ cs, isInline c = true
  codeFree : ∀ before code after, cs = before ++ ':' :: code ++ ':' :: after → ∃ c ∈ code, isBlank c = true

def isBare (c : Char) : Bool := isInline c && c ≠ '[' && c ≠ '\\' && c ≠ ':'

theorem Clear.of_count {cs : List Char} (hinline : ∀ c ∈ cs, isInline c = true) (h : cs.count ':' ≤ 1) :
    Clear cs := by
  refine ⟨hinline, fun before code after heq => ?_⟩
  rw [heq] at h
  simp only [List.count_append, List.count_cons_self] at h
  omega

end Text

namespace Table

/-- The line holds the cells in their order, with nothing but blanks around them. -/
inductive Spaced : List String → List Char → Prop
  | none : Spaced [] []
  | cell {cell cells line} (before after : Nat) : Spaced cells line →
      Spaced (cell :: cells)
        (List.replicate before ' ' ++ cell.toList ++ List.replicate (after + 2) ' ' ++ line)

def Lists (rows : List (List String)) (text : String) : Prop :=
  ∃ lines, List.Forall₂ Spaced rows lines ∧ text = String.ofList (lines.flatMap (· ++ ['\n']))

end Table

namespace Console

structure Unmarked (cs : List Char) : Prop where
  clear : Text.Clear cs
  bracketFree : '[' ∉ cs

structure Bare (cs : List Char) : Prop extends Unmarked cs where
  backslashFree : '\\' ∉ cs

theorem Bare.of_forall {cs : List Char} (h : ∀ c ∈ cs, Text.isBare c = true) : Bare cs := by
  have hchars : ∀ c ∈ cs, Text.isInline c = true ∧ c ≠ '[' ∧ c ≠ '\\' ∧ c ≠ ':' := by
    simpa [Text.isBare, and_assoc] using h
  refine ⟨⟨.of_count (fun c hc => (hchars c hc).1) ?_, fun hmem => (hchars _ hmem).2.1 rfl⟩,
    fun hmem => (hchars _ hmem).2.2.1 rfl⟩
  rw [List.count_eq_zero.mpr fun hmem => (hchars _ hmem).2.2.2 rfl]
  exact Nat.zero_le 1

theorem Bare.of_all {cs : List Char} (h : cs.all Text.isBare = true) : Bare cs :=
  .of_forall (List.all_eq_true.mp h)

theorem isBare_of_mem_toString {n : Nat} {c : Char} (h : c ∈ (toString n).toList) : Text.isBare c = true := by
  have hdigit : c.isDigit = true := by
    rw [Nat.toString_eq_repr, Nat.toList_repr] at h
    exact Nat.isDigit_of_mem_toDigits (by decide) (by decide) h
  have hrange : 48 ≤ c.toNat ∧ c.toNat ≤ 57 := by
    simpa [Char.isDigit, UInt32.le_iff_toNat_le] using hdigit
  have hne {d : Char} (hd : 57 < d.toNat) : c ≠ d := by
    rintro rfl
    omega
  have hinline : Text.isInline c = true := by
    simp only [Text.isInline, Bool.and_eq_true, Bool.not_eq_true', Bool.and_eq_false_iff, decide_eq_true_eq,
      decide_eq_false_iff_not]
    omega
  simp [Text.isBare, hinline, hne (by decide : 57 < '['.toNat), hne (by decide : 57 < '\\'.toNat),
    hne (by decide : 57 < ':'.toNat)]

theorem print_of_shown {C : Console} {markup text : String} (broken : Bool) (h : C.shown markup = .ok text) :
    C.print broken markup = .ok (C.lines broken text) := by
  rw [print, h]
  rfl

/-- Markup that is made of bare text, some of which may be in a style, with what is shown of it. -/
inductive Marks : (markup shown : String) → Prop
  | words {words : String} : Bare words.toList → Marks words words
  | styled {words after : String} (style : Style) : Bare words.toList → Bare after.toList →
      Marks (style.mark words ++ after) (words ++ after)

def IsTag (tag : String) : Prop := tag ≠ "" ∧ ∀ c ∈ tag.toList, 'a' ≤ c ∧ c ≤ 'z'

/-- What is documented of a console: tags are not shown, a tag that closes nothing is at fault, and
escaped text is never at fault, and shown as it is if nothing but tags in it could be markup. -/
structure Lawful (C : Console) : Prop where
  unmarked {s} : Unmarked s.toList → C.shown s = .ok s
  marked {markup text} : Marks markup text → C.shown markup = .ok text
  opening {before tag after} : Bare before.toList → IsTag tag → Bare after.toList →
    C.shown (before ++ "[" ++ tag ++ "]" ++ after) = .ok (before ++ after)
  closing {before tag after} : Bare before.toList → IsTag tag → Bare after.toList →
    ∃ message, C.shown (before ++ "[/" ++ tag ++ "]" ++ after) = .error message
  escaped {markup text} (s : String) : Marks markup text →
    ∃ shown, C.shown (markup ++ C.escape s) = .ok shown ∧
      (Text.Clear (text ++ s).toList → '\\' ∉ s.toList → shown = text ++ s)
  styled (style : Style) (s : String) : ∃ shown, C.shown (style.mark (C.escape s)) = .ok shown ∧
    (Text.Clear s.toList → '\\' ∉ s.toList → shown = s)
  lines {s : String} : Text.Clear s.toList → (∀ c ∈ s.toList.getLast?, Text.isBlank c = false) →
    C.lines false s = s ++ "\n"

/-- The console is wide enough for every line, and for those of tables. -/
structure Roomy (C : Console) : Prop where
  lines (s : String) : C.lines true s = C.lines false s
  table {columns rows} : columns ≠ [] → (∀ c ∈ columns, Unmarked c.heading.toList) →
    (∀ row ∈ rows, row.length = columns.length ∧ ∀ cell ∈ row, Text.Clear cell.toList) →
    Table.Lists (columns.map (·.heading) :: rows) (C.table columns rows)

end Console

end ClassSchema
