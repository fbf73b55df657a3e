import ClassSchema.Json.Printer
import ClassSchema.Json.Reader
import Mathlib.Data.List.Induction
import Mathlib.Data.Nat.Digits.Defs

namespace ClassSchema

namespace Json

section Strings

variable {c : Char} {cs rest : List Char} {us : List Nat} {n : Nat}

theorem hexValue?_digitChar (h : n < 16) : hexValue? n.digitChar = some n :=
  (by decide : ∀ k : Fin 16, hexValue? (k : Nat).digitChar = some (k : Nat)) ⟨n, h⟩

theorem toDigits_step (h : 16 ≤ n) : Nat.toDigits 16 n = Nat.toDigits 16 (n / 16) ++ [(n % 16).digitChar] :=
  Nat.toDigits_of_base_le (by decide) h

theorem hexDigits_four (h : n < 0x10000) : Text.hexDigits 4 n =
    [(n / 4096).digitChar, (n / 256 % 16).digitChar, (n / 16 % 16).digitChar, (n % 16).digitChar] := by
  have hdiv : n / 16 / 16 = n / 256 ∧ n / 256 / 16 = n / 4096 := by omega
  have hlast {k : Nat} (hk : k < 16) : Nat.toDigits 16 k = [k.digitChar] := Nat.toDigits_of_lt_base hk
  have hzero : (0 : Nat).digitChar = '0' := rfl
  unfold Text.hexDigits
  rcases (by omega : n < 16 ∨ 16 ≤ n ∧ n < 256 ∨ 256 ≤ n ∧ n < 4096 ∨ 4096 ≤ n) with
    hn | ⟨hn, hn'⟩ | ⟨hn, hn'⟩ | hn
  · have hparts : n / 4096 = 0 ∧ n / 256 % 16 = 0 ∧ n / 16 % 16 = 0 ∧ n % 16 = n := by omega
    simp [hlast hn, hparts, hzero, List.replicate_succ]
  · have hparts : n / 4096 = 0 ∧ n / 256 % 16 = 0 ∧ n / 16 % 16 = n / 16 := by omega
    simp [toDigits_step hn, hlast (by omega : n / 16 < 16), hparts, hzero, List.replicate_succ]
  · have hparts : n / 4096 = 0 ∧ n / 256 % 16 = n / 256 := by omega
    simp [toDigits_step (by omega : 16 ≤ n), toDigits_step (by omega : 16 ≤ n / 16),
      hlast (by omega : n / 256 < 16), hdiv, hparts, hzero, List.replicate_succ]
  · simp [toDigits_step (by omega : 16 ≤ n), toDigits_step (by omega : 16 ≤ n / 16),
      toDigits_step (by omega : 16 ≤ n / 256), hlast (by omega : n / 4096 < 16), hdiv]

theorem unit?_hexDigits (h : n < 0x10000) : ∃ a b c d, Text.hexDigits 4 n = [a, b, c, d] ∧
    unit? a b c d = some n := by
  refine ⟨_, _, _, _, hexDigits_four h, ?_⟩
  have hdigits : n / 4096 < 16 ∧ n / 256 % 16 < 16 ∧ n / 16 % 16 < 16 ∧ n % 16 < 16 := by omega
  simp only [unit?, hexValue?_digitChar hdigits.1, hexValue?_digitChar hdigits.2.1,
    hexValue?_digitChar hdigits.2.2.1, hexValue?_digitChar hdigits.2.2.2, Option.bind_eq_bind,
    Option.bind_some]
  refine congrArg some ?_
  omega

def charUnits (c : Char) : List Nat :=
  if c.toNat < 0x10000 then [c.toNat]
  else [0xD800 + (c.toNat - 0x10000) / 0x400, 0xDC00 + (c.toNat - 0x10000) % 0x400]

theorem readUnits_plain (hquote : c ≠ '"') (hback : c ≠ '\\') (h : readUnits cs = some (us, rest)) :
    readUnits (c :: cs) = some (c.toNat :: us, rest) := by
  rw [readUnits, h]
  · rfl
  · exact hquote
  · rintro _ _ _ _ _ heq -
    exact hback heq
  · rintro _ _ heq -
    exact hback heq

theorem readUnits_escaped {d : Char} (hd : escaped? d = some c) (hu : d ≠ 'u')
    (h : readUnits cs = some (us, rest)) : readUnits ('\\' :: d :: cs) = some (c.toNat :: us, rest) := by
  rw [readUnits, hd, h]
  · rfl
  · rintro _ _ _ _ _ heq -
    exact hu heq

theorem readUnits_unitText (hn : n < 0x10000) (h : readUnits cs = some (us, rest)) :
    readUnits (unitText n ++ cs) = some (n :: us, rest) := by
  obtain ⟨a, b, c, d, hdigits, hunit⟩ := unit?_hexDigits hn
  simp only [unitText, hdigits, List.cons_append, List.nil_append, readUnits, hunit, h]
  rfl

theorem isValid (c : Char) : c.toNat < 0xD800 ∨ 0xDFFF < c.toNat ∧ c.toNat < 0x110000 := c.valid

theorem readUnits_escapeChar (c : Char) (h : readUnits cs = some (us, rest)) :
    readUnits (escapeChar c ++ cs) = some (charUnits c ++ us, rest) := by
  have hvalid := isValid c
  have hsmall {d : Char} (hd : d.toNat < 0x10000) : charUnits d = [d.toNat] := if_pos hd
  unfold escapeChar
  split_ifs with hquote hback hn hr ht hb hf hplain hbasic
  · subst hquote
    exact readUnits_escaped rfl (by decide) h
  · subst hback
    exact readUnits_escaped rfl (by decide) h
  · subst hn
    exact readUnits_escaped rfl (by decide) h
  · subst hr
    exact readUnits_escaped rfl (by decide) h
  · subst ht
    exact readUnits_escaped rfl (by decide) h
  · subst hb
    exact readUnits_escaped rfl (by decide) h
  · subst hf
    exact readUnits_escaped rfl (by decide) h
  · rw [hsmall (by omega)]
    exact readUnits_plain hquote hback h
  · rw [hsmall hbasic]
    exact readUnits_unitText hbasic h
  · rw [charUnits, if_neg hbasic, List.append_assoc]
    exact readUnits_unitText (by omega) (readUnits_unitText (by omega) h)

theorem joinUnits_charUnits (cs : List Char) : joinUnits (cs.flatMap charUnits) = cs := by
  induction cs with
  | nil => rfl
  | cons c cs ih =>
      have hvalid := isValid c
      rw [List.flatMap_cons]
      by_cases hbasic : c.toNat < 0x10000
      · rw [charUnits, if_pos hbasic, List.singleton_append]
        cases hus : cs.flatMap charUnits with
        | nil =>
            rw [hus] at ih
            rw [joinUnits, Char.ofNat_toNat, ← ih, joinUnits]
        | cons m us =>
            rw [hus] at ih
            rw [joinUnits, if_neg (by omega), Char.ofNat_toNat, ih]
      · have hsum : 0x10000 + (0xD800 + (c.toNat - 0x10000) / 0x400 - 0xD800) * 0x400 +
            (0xDC00 + (c.toNat - 0x10000) % 0x400 - 0xDC00) = c.toNat := by omega
        rw [charUnits, if_neg hbasic, List.cons_append, List.singleton_append, joinUnits,
          if_pos (by omega), hsum, Char.ofNat_toNat, ih]

theorem readString_quoted (s : String) (rest : List Char) :
    readString (s.toList.flatMap escapeChar ++ '"' :: rest) = some (s, rest) := by
  have hunits (cs : List Char) :
      readUnits (cs.flatMap escapeChar ++ '"' :: rest) = some (cs.flatMap charUnits, rest) := by
    induction cs with
    | nil => rfl
    | cons c cs ih =>
        rw [List.flatMap_cons, List.append_assoc]
        exact readUnits_escapeChar c ih
  rw [readString, hunits, Option.map_some, joinUnits_charUnits, String.ofList_toList]

end Strings

end Json

mutual

/-- Whether a value is made of nothing but texts, truth values and the absent value. -/
def Value.isVerbal : Value → Bool
  | .null | .bool _ | .text _ => true
  | .int _ | .decimal _ | .tuple _ => false
  | .list items => Value.areVerbal items
  | .record entries => Value.haveVerbal entries

def Value.areVerbal : List Value → Bool
  | [] => true
  | v :: vs => v.isVerbal && Value.areVerbal vs

def Value.haveVerbal : List (String × Value) → Bool
  | [] => true
  | (_, v) :: es => v.isVerbal && Value.haveVerbal es

end

namespace Json

section Values

variable {v : Value} {rest more after cs : List Char} {level room : Nat}

theorem skipBlank_replicate (n : Nat) (cs : List Char) :
    skipBlank (List.replicate n ' ' ++ cs) = skipBlank cs := by
  induction n with
  | zero => rfl
  | succ n ih => rw [List.replicate_succ, List.cons_append, skipBlank, ih]

theorem skipBlank_newLine (level : Nat) (cs : List Char) :
    skipBlank ((newLine level).toList ++ cs) = skipBlank cs := by
  rw [newLine, String.toList_ofList, List.cons_append, skipBlank, skipBlank_replicate]

def isStart (c : Char) : Bool := c ∈ ['n', 't', 'f', '"', '[', '\x7b']

theorem skipBlank_start {c : Char} (h : isStart c = true) (cs : List Char) :
    skipBlank (c :: cs) = c :: cs := by
  rw [skipBlank]
  all_goals
    rintro _ heq
    cases heq
    cases h

theorem toList_quoted (s : String) : (quoted s).toList = '"' :: (s.toList.flatMap escapeChar ++ ['"']) := by
  simp [quoted]

theorem toList_print_null (level : Nat) : (print level .null).toList = ['n', 'u', 'l', 'l'] := by
  rw [print]
  rfl

theorem toList_print_true (level : Nat) : (print level (.bool true)).toList = ['t', 'r', 'u', 'e'] := by
  rw [print]
  rfl

theorem toList_print_false (level : Nat) : (print level (.bool false)).toList = ['f', 'a', 'l', 's', 'e'] := by
  rw [print]
  rfl

theorem toList_print_text (level : Nat) (s : String) :
    (print level (.text s)).toList = '"' :: (s.toList.flatMap escapeChar ++ ['"']) := by
  rw [print, toList_quoted]

def joined (level : Nat) (items : List String) : List Char :=
  (',' :: (newLine level).toList).intercalate (items.map String.toList)

theorem joined_singleton (level : Nat) (item : String) : joined level [item] = item.toList := by
  simp [joined]

theorem joined_cons (level : Nat) (item next : String) (items : List String) :
    joined level (item :: next :: items) =
      item.toList ++ ',' :: ((newLine level).toList ++ joined level (next :: items)) := by
  simp [joined]

theorem toList_enclosed (opening closing item : String) (level : Nat) (items : List String) :
    (enclosed opening closing level (item :: items)).toList = opening.toList ++
      ((newLine (level + 1)).toList ++ (joined (level + 1) (item :: items) ++
        ((newLine level).toList ++ closing.toList))) := by
  simp [enclosed, joined, String.toList_append, String.toList_intercalate]

theorem toList_print_nil (level : Nat) : (print level (.list [])).toList = ['[', ']'] := by
  simp [print, printItems, enclosed]

theorem toList_print_list (level : Nat) (v : Value) (vs : List Value) :
    (print level (.list (v :: vs))).toList = '[' :: ((newLine (level + 1)).toList ++
      (joined (level + 1) (print (level + 1) v :: printItems (level + 1) vs) ++
        ((newLine level).toList ++ [']']))) := by
  rw [print, printItems, toList_enclosed]
  rfl

def entryText (level : Nat) (key : String) (v : Value) : String := quoted key ++ ": " ++ print level v

theorem toList_entryText (level : Nat) (key : String) (v : Value) (more : List Char) :
    (entryText level key v).toList ++ more =
      '"' :: (key.toList.flatMap escapeChar ++ '"' :: ':' :: ' ' :: ((print level v).toList ++ more)) := by
  simp [entryText, toList_quoted, String.toList_append]

theorem entryText_start (level : Nat) (key : String) (v : Value) :
    ∃ cs, (entryText level key v).toList = '"' :: cs := by
  have htext := toList_entryText level key v []
  rw [List.append_nil] at htext
  exact ⟨_, htext⟩

theorem toList_print_empty (level : Nat) : (print level (.record [])).toList = ['\x7b', '\x7d'] := by
  simp [print, printEntries, enclosed]

theorem toList_print_record (level : Nat) (key : String) (v : Value) (es : List (String × Value)) :
    (print level (.record ((key, v) :: es))).toList = '\x7b' :: ((newLine (level + 1)).toList ++
      (joined (level + 1) (entryText (level + 1) key v :: printEntries (level + 1) es) ++
        ((newLine level).toList ++ ['\x7d']))) := by
  rw [print, printEntries, toList_enclosed]
  rfl

theorem print_start (h : v.isVerbal = true) (level : Nat) :
    ∃ c cs, (print level v).toList = c :: cs ∧ isStart c = true := by
  cases v with
  | null => exact ⟨_, _, toList_print_null level, by decide⟩
  | bool b =>
      cases b with
      | true => exact ⟨_, _, toList_print_true level, by decide⟩
      | false => exact ⟨_, _, toList_print_false level, by decide⟩
  | text s => exact ⟨_, _, toList_print_text level s, by decide⟩
  | list items =>
      cases items with
      | nil => exact ⟨_, _, toList_print_nil level, by decide⟩
      | cons v vs => exact ⟨_, _, toList_print_list level v vs, by decide⟩
  | record entries =>
      cases entries with
      | nil => exact ⟨_, _, toList_print_empty level, by decide⟩
      | cons e es => exact ⟨_, _, toList_print_record level e.1 e.2 es, by decide⟩
  | int n => cases h
  | decimal d => cases h
  | tuple items => cases h

theorem skipBlank_print (h : v.isVerbal = true) (level : Nat) (rest : List Char) :
    skipBlank ((print level v).toList ++ rest) = (print level v).toList ++ rest := by
  obtain ⟨c, cs, hprint, hc⟩ := print_start h level
  rw [hprint, List.cons_append, skipBlank_start hc]

theorem readWord_append (word : String) (v : Value) (rest : List Char) :
    readWord word v (word.toList ++ rest) = some (v, rest) := by
  have hprefix : word.toList.isPrefixOf (word.toList ++ rest) = true := by simp
  rw [readWord, if_pos hprefix, ← String.length_toList, List.drop_left]

theorem joined_start {item : String} {c : Char} {cs : List Char} (h : item.toList = c :: cs) (level : Nat)
    (items : List String) (more : List Char) : ∃ cs', joined level (item :: items) ++ more = c :: cs' := by
  cases items with
  | nil => exact ⟨_, by rw [joined_singleton, h, List.cons_append]⟩
  | cons next items => exact ⟨_, by rw [joined_cons, h, List.cons_append, List.cons_append]⟩

theorem readValue_list {c : Char} {items : List Value} (hcs : skipBlank cs = '[' :: rest)
    (hrest : skipBlank rest = c :: more) (hc : isStart c = true)
    (h : readItems room (c :: more) = some (items, after)) :
    readValue (room + 1) cs = some (.list items, after) := by
  rw [readValue, hcs]
  simp only [hrest]
  split
  next heq =>
    cases heq
    cases hc
  next => rw [h, Option.map_some]

theorem readValue_record {c : Char} {entries : List (String × Value)} (hcs : skipBlank cs = '\x7b' :: rest)
    (hrest : skipBlank rest = c :: more) (hc : isStart c = true)
    (h : readEntries room (c :: more) = some (entries, after)) :
    readValue (room + 1) cs = some (.record entries, after) := by
  rw [readValue, hcs]
  simp only [hrest]
  split
  next heq =>
    cases heq
    cases hc
  next => rw [h, Option.map_some]

section Entries

variable {key : String} {entries : List (String × Value)}

theorem readEntries_last (hcs : skipBlank cs = (entryText level key v).toList ++ more)
    (hv : readValue room (' ' :: ((print level v).toList ++ more)) = some (v, more))
    (hmore : skipBlank more = '\x7d' :: rest) : readEntries (room + 1) cs = some ([(key, v)], rest) := by
  have hcolon (cs : List Char) : skipBlank (':' :: cs) = ':' :: cs := rfl
  rw [readEntries, hcs, toList_entryText]
  simp only [readString_quoted, Option.bind_eq_bind, Option.bind_some, hcolon, hv, hmore]
  rfl

theorem readEntries_next (hcs : skipBlank cs = (entryText level key v).toList ++ more)
    (hv : readValue room (' ' :: ((print level v).toList ++ more)) = some (v, more))
    (hmore : skipBlank more = ',' :: after) (h : readEntries room after = some (entries, rest)) :
    readEntries (room + 1) cs = some ((key, v) :: entries, rest) := by
  have hcolon (cs : List Char) : skipBlank (':' :: cs) = ':' :: cs := rfl
  rw [readEntries, hcs, toList_entryText]
  simp only [readString_quoted, Option.bind_eq_bind, Option.bind_some, hcolon, hv, hmore, h]
  rfl

theorem length_entryText (level : Nat) (key : String) (v : Value) :
    (print level v).toList.length < (entryText level key v).toList.length := by
  have htext := congrArg List.length (toList_entryText level key v [])
  simp only [List.append_nil, List.length_cons, List.length_append] at htext
  omega

end Entries

/-- With room for every character, what is printed is read. -/
structure ReadsAt (room : Nat) : Prop where
  value {v : Value} (hv : v.isVerbal = true) (level : Nat) {cs rest : List Char} :
    skipBlank cs = (print level v).toList ++ rest → (print level v).toList.length ≤ room →
      readValue room cs = some (v, rest)
  items {v : Value} {vs : List Value} (hv : v.isVerbal = true) (hvs : Value.areVerbal vs = true)
    (level outer : Nat) {cs rest : List Char} :
    skipBlank cs = joined level (print level v :: printItems level vs) ++
        ((newLine outer).toList ++ ']' :: rest) →
      (joined level (print level v :: printItems level vs)).length < room →
        readItems room cs = some (v :: vs, rest)
  entries {key : String} {v : Value} {es : List (String × Value)} (hv : v.isVerbal = true)
    (hes : Value.haveVerbal es = true) (level outer : Nat) {cs rest : List Char} :
    skipBlank cs = joined level (entryText level key v :: printEntries level es) ++
        ((newLine outer).toList ++ '\x7d' :: rest) →
      (joined level (entryText level key v :: printEntries level es)).length < room →
        readEntries room cs = some ((key, v) :: es, rest)

theorem ReadsAt.list (h : ReadsAt room) {items : List Value} (hv : Value.areVerbal items = true)
    (hcs : skipBlank cs = (print level (.list items)).toList ++ rest)
    (hroom : (print level (.list items)).toList.length ≤ room + 1) :
    readValue (room + 1) cs = some (.list items, rest) := by
  cases items with
  | nil =>
      rw [readValue, hcs, toList_print_nil]
      simp [skipBlank]
  | cons v vs =>
      rw [Value.areVerbal, Bool.and_eq_true] at hv
      obtain ⟨c, _, hprint, hc⟩ := print_start hv.1 (level + 1)
      obtain ⟨more, hjoined⟩ := joined_start hprint (level + 1) (printItems (level + 1) vs)
        ((newLine level).toList ++ ']' :: rest)
      rw [toList_print_list] at hcs hroom
      simp only [List.cons_append, List.append_assoc, List.nil_append, List.length_cons, List.length_append]
        at hcs hroom
      have hskip := skipBlank_start hc more
      rw [← hjoined] at hskip
      have hitems := h.items hv.1 hv.2 (level + 1) level hskip (by omega)
      rw [hjoined] at hitems
      exact readValue_list hcs ((skipBlank_newLine _ _).trans (hskip.trans hjoined)) hc hitems

theorem ReadsAt.record (h : ReadsAt room) {entries : List (String × Value)}
    (hv : Value.haveVerbal entries = true)
    (hcs : skipBlank cs = (print level (.record entries)).toList ++ rest)
    (hroom : (print level (.record entries)).toList.length ≤ room + 1) :
    readValue (room + 1) cs = some (.record entries, rest) := by
  cases entries with
  | nil =>
      rw [readValue, hcs, toList_print_empty]
      simp [skipBlank]
  | cons e es =>
      obtain ⟨key, v⟩ := e
      rw [Value.haveVerbal, Bool.and_eq_true] at hv
      obtain ⟨_, hstart⟩ := entryText_start (level + 1) key v
      obtain ⟨more, hjoined⟩ := joined_start hstart (level + 1) (printEntries (level + 1) es)
        ((newLine level).toList ++ '\x7d' :: rest)
      rw [toList_print_record] at hcs hroom
      simp only [List.cons_append, List.append_assoc, List.nil_append, List.length_cons, List.length_append]
        at hcs hroom
      have hc : isStart '"' = true := by decide
      have hskip := skipBlank_start hc more
      rw [← hjoined] at hskip
      have hentries := h.entries hv.1 hv.2 (level + 1) level hskip (by omega)
      rw [hjoined] at hentries
      exact readValue_record hcs ((skipBlank_newLine _ _).trans (hskip.trans hjoined)) hc hentries

theorem ReadsAt.value_succ (h : ReadsAt room) (hv : v.isVerbal = true)
    (hcs : skipBlank cs = (print level v).toList ++ rest) (hroom : (print level v).toList.length ≤ room + 1) :
    readValue (room + 1) cs = some (v, rest) := by
  cases v with
  | null =>
      rw [readValue, hcs, toList_print_null]
      exact readWord_append "null" .null rest
  | bool b =>
      cases b with
      | true =>
          rw [readValue, hcs, toList_print_true]
          exact readWord_append "true" (.bool true) rest
      | false =>
          rw [readValue, hcs, toList_print_false]
          exact readWord_append "false" (.bool false) rest
  | text s =>
      rw [readValue, hcs, toList_print_text]
      simp [readString_quoted]
  | list items => exact h.list (by rwa [Value.isVerbal] at hv) hcs hroom
  | record entries => exact h.record (by rwa [Value.isVerbal] at hv) hcs hroom
  | int n => cases hv
  | decimal d => cases hv
  | tuple items => cases hv

theorem ReadsAt.items_succ (h : ReadsAt room) {vs : List Value} {outer : Nat} (hv : v.isVerbal = true)
    (hvs : Value.areVerbal vs = true)
    (hcs : skipBlank cs = joined level (print level v :: printItems level vs) ++
      ((newLine outer).toList ++ ']' :: rest))
    (hroom : (joined level (print level v :: printItems level vs)).length < room + 1) :
    readItems (room + 1) cs = some (v :: vs, rest) := by
  cases vs with
  | nil =>
      rw [printItems, joined_singleton] at hcs hroom
      rw [readItems, h.value hv level hcs (by omega)]
      simp [skipBlank_newLine, skipBlank]
  | cons w vs =>
      rw [Value.areVerbal, Bool.and_eq_true] at hvs
      rw [printItems, joined_cons] at hcs hroom
      simp only [List.append_assoc, List.cons_append, List.length_append, List.length_cons] at hcs hroom
      obtain ⟨c, _, hprint, hc⟩ := print_start hvs.1 level
      obtain ⟨more, hjoined⟩ := joined_start hprint level (printItems level vs)
        ((newLine outer).toList ++ ']' :: rest)
      have hskip : skipBlank ((newLine level).toList ++ (c :: more)) = c :: more := by
        rw [skipBlank_newLine, skipBlank_start hc]
      rw [← hjoined] at hskip
      have hrest := h.items hvs.1 hvs.2 level outer hskip (by omega)
      rw [readItems, h.value hv level hcs (by omega)]
      simp [skipBlank, hrest]

theorem ReadsAt.entries_succ (h : ReadsAt room) {key : String} {es : List (String × Value)} {outer : Nat}
    (hv : v.isVerbal = true) (hes : Value.haveVerbal es = true)
    (hcs : skipBlank cs = joined level (entryText level key v :: printEntries level es) ++
      ((newLine outer).toList ++ '\x7d' :: rest))
    (hroom : (joined level (entryText level key v :: printEntries level es)).length < room + 1) :
    readEntries (room + 1) cs = some ((key, v) :: es, rest) := by
  have hlength := length_entryText level key v
  have hblank (more : List Char) :
      skipBlank (' ' :: ((print level v).toList ++ more)) = (print level v).toList ++ more := by
    rw [skipBlank, skipBlank_print hv]
  cases es with
  | nil =>
      rw [printEntries, joined_singleton] at hcs hroom
      refine readEntries_last hcs (h.value hv level (hblank _) (by omega)) ?_
      rw [skipBlank_newLine]
      rfl
  | cons e es =>
      obtain ⟨next, w⟩ := e
      rw [Value.haveVerbal, Bool.and_eq_true] at hes
      have hentry : printEntries level ((next, w) :: es) =
          entryText level next w :: printEntries level es := rfl
      rw [hentry, joined_cons] at hcs hroom
      simp only [List.append_assoc, List.cons_append, List.length_append, List.length_cons] at hcs hroom
      obtain ⟨_, hstart⟩ := entryText_start level next w
      obtain ⟨more, hjoined⟩ := joined_start hstart level (printEntries level es)
        ((newLine outer).toList ++ '\x7d' :: rest)
      have hc : isStart '"' = true := by decide
      have hskip : skipBlank ((newLine level).toList ++ ('"' :: more)) = '"' :: more := by
        rw [skipBlank_newLine, skipBlank_start hc]
      rw [← hjoined] at hskip
      have hrest := h.entries hes.1 hes.2 level outer hskip (by omega)
      exact readEntries_next hcs (h.value hv level (hblank _) (by omega)) rfl hrest

theorem readsAt (room : Nat) : ReadsAt room := by
  induction room with
  | zero =>
      refine ⟨fun {v} hv level cs rest _ hroom => ?_, fun _ _ _ _ _ _ _ hroom => ?_,
        fun _ _ _ _ _ _ _ hroom => ?_⟩
      · obtain ⟨c, cs, hprint, -⟩ := print_start hv level
        rw [hprint] at hroom
        cases hroom
      · cases hroom
      · cases hroom
  | succ room ih =>
      exact ⟨fun hv _ _ _ hcs => ih.value_succ hv hcs, fun hv hvs _ _ _ _ hcs => ih.items_succ hv hvs hcs,
        fun hv hes _ _ _ _ hcs => ih.entries_succ hv hes hcs⟩

/-- What is printed of a value without numbers can be read. -/
theorem read?_print (h : v.isVerbal = true) (hrest : skipBlank rest = []) :
    read? (print 0 v ++ String.ofList rest) = some v := by
  have hread : readValue (2 * (print 0 v ++ String.ofList rest).toList.length + 2)
      (print 0 v ++ String.ofList rest).toList = some (v, rest) := by
    rw [String.toList_append, String.toList_ofList]
    refine (readsAt _).value h 0 (skipBlank_print h 0 rest) ?_
    rw [List.length_append]
    omega
  rw [read?, hread]
  simp [hrest]

end Values

end Json

end ClassSchema
