import ClassSchema.CommandLine.Plain.Console
import ClassSchema.Proofs.Consoles
import ClassSchema.Proofs.Literal

namespace ClassSchema

namespace Markup

variable {cs before piece tag rest : List Char} {pieces tail : List (List Char)} {s : String}

theorem isControl_of_isInline {c : Char} (h : Text.isInline c = true) : isControl c = false := by
  have hle : 0x20 ≤ c.toNat := by
    simp only [Text.isInline, Bool.and_eq_true, decide_eq_true_eq] at h
    exact h.1.1.1
  have hne : ∀ n ∈ [7, 8, 11, 12, 13], c.toNat ≠ n := by
    intro n hn
    have hn' : n < 0x20 := by revert n; decide
    omega
  simp [isControl, fun n hn => hne n hn]

theorem filter_inline (h : ∀ c ∈ cs, Text.isInline c = true) : cs.filter (!isControl ·) = cs :=
  List.filter_eq_self.mpr fun c hc => by rw [isControl_of_isInline (h c hc), Bool.not_false]

theorem shownParts_last {opened : List String} {position : Nat} (h : Console.Unmarked cs) :
    shownParts opened (partsFrom position cs []) = .ok cs := by
  simp only [partsFrom, shownParts_text, unescaped_of_not_mem h.bracketFree, filter_inline h.clear.inline]
  simp [shownParts]

theorem trailing_of_not_mem (h : '\\' ∉ cs) : trailing cs = 0 := by
  obtain ⟨core, n, rfl, hn⟩ := exists_append_trailing cs
  rw [hn]
  cases n with
  | zero => rfl
  | succ n => simp [List.replicate_succ] at h

theorem shownParts_bare {opened : List String} {position : Nat} (hs : Console.Bare cs)
    (htag : tag? piece = some (tag, rest)) (pieces : List (List Char)) :
    shownParts opened (partsFrom position cs (piece :: pieces)) = (cs ++ ·) <$> (do
      shownParts (← apply opened position tag) (partsFrom (position + piece.length + 1) rest pieces)) := by
  simp only [partsFrom, htag, trailing_of_not_mem hs.backslashFree]
  simp [shownParts_text, shownParts, unescaped_of_not_mem hs.bracketFree, filter_inline hs.clear.inline]

theorem bare_nil : Console.Bare [] where
  clear := ⟨nofun, fun before code after h => by simp at h⟩
  bracketFree := List.not_mem_nil
  backslashFree := List.not_mem_nil

section Tags

variable {t : String}

theorem isTag_cons (h : Console.IsTag t) : ∃ c cs, t.toList = c :: cs ∧ ∀ d ∈ c :: cs, 'a' ≤ d ∧ d ≤ 'z' := by
  cases ht : t.toList with
  | nil => exact absurd (String.toList_eq_nil_iff.mp ht) h.1
  | cons c cs => exact ⟨c, cs, rfl, ht ▸ h.2⟩

theorem not_mem_tag (h : Console.IsTag t) {d : Char} (hd : ¬('a' ≤ d ∧ d ≤ 'z')) : d ∉ t.toList :=
  fun hmem => hd (h.2 d hmem)

theorem tag?_opening (h : Console.IsTag t) (rest : List Char) :
    tag? (t.toList ++ ']' :: rest) = some (t.toList, rest) := by
  obtain ⟨c, cs, ht, hall⟩ := isTag_cons h
  obtain ⟨hc, -⟩ := List.forall_mem_cons.mp hall
  have hend : ']' ∉ cs := fun hmem => not_mem_tag h (by decide) (ht ▸ List.mem_cons_of_mem c hmem)
  have hopens : opensTag c = true := by simp [opensTag, hc]
  simp [ht, tag?, hopens, Text.splitFirst_append hend]

theorem tag?_closing (h : Console.IsTag t) (rest : List Char) :
    tag? ('/' :: (t.toList ++ ']' :: rest)) = some ('/' :: t.toList, rest) := by
  have hend : ']' ∉ t.toList := not_mem_tag h (by decide)
  have hopens : opensTag '/' = true := by decide
  simp [tag?, hopens, Text.splitFirst_append hend]

theorem splitFirst_of_not_mem {sep : Char} (h : sep ∉ cs) : (Text.splitFirst sep cs).1 = cs :=
  List.takeWhile_eq_self_iff.mpr fun _ hc => decide_eq_true fun heq => h (heq ▸ hc)

theorem apply_opening (h : Console.IsTag t) (opened : List String) (position : Nat) :
    apply opened position t.toList = .ok (styleName t.toList :: opened) := by
  rw [apply.eq_def, splitFirst_of_not_mem (not_mem_tag h (by decide))]
  split
  next name heq =>
    have hslash : '/' ∈ t.toList := heq ▸ List.mem_cons_self
    exact absurd hslash (not_mem_tag h (by decide))
  next => rfl

theorem apply_closing (h : Console.IsTag t) (position : Nat) :
    ∃ fault, apply [] position ('/' :: t.toList) = .error fault := by
  have hfree : '=' ∉ '/' :: t.toList :=
    List.not_mem_cons_of_ne_of_not_mem (by decide) (not_mem_tag h (by decide))
  rw [apply.eq_def, splitFirst_of_not_mem hfree]
  by_cases hname : (Text.trim t.toList).isEmpty
  · exact ⟨.nothingToClose position, by simp [hname]⟩
  · exact ⟨.unmatched (String.ofList ('/' :: t.toList)) position, by simp [hname]⟩

theorem shown_opening {a b : String} (ha : Console.Bare a.toList) (ht : Console.IsTag t)
    (hb : Console.Bare b.toList) : shown (a ++ "[" ++ t ++ "]" ++ b) = .ok (a ++ b) := by
  have hfree : '[' ∉ t.toList ++ ']' :: b.toList := by
    simpa [hb.bracketFree] using not_mem_tag ht (by decide)
  have htext : (a ++ "[" ++ t ++ "]" ++ b).toList = a.toList ++ '[' :: (t.toList ++ ']' :: b.toList) := by
    simp [String.toList_append]
  rw [shown, parts, htext, Text.pieces_append, Text.pieces_of_not_mem ha.bracketFree,
    Text.pieces_of_not_mem hfree]
  simp only [List.cons_append, List.nil_append, shownParts_bare ha (tag?_opening ht _), apply_opening ht]
  simp [bind, Except.bind, shownParts_last hb.toUnmarked, pure, Except.pure, String.ofList_append]

theorem shown_closing {a b : String} (ha : Console.Bare a.toList) (ht : Console.IsTag t)
    (hb : Console.Bare b.toList) : ∃ fault, shown (a ++ "[/" ++ t ++ "]" ++ b) = .error fault := by
  have hfree : '[' ∉ '/' :: (t.toList ++ ']' :: b.toList) := by
    simpa [hb.bracketFree] using not_mem_tag ht (by decide)
  have htext : (a ++ "[/" ++ t ++ "]" ++ b).toList =
      a.toList ++ '[' :: '/' :: (t.toList ++ ']' :: b.toList) := by
    simp [String.toList_append]
  obtain ⟨fault, hfault⟩ := apply_closing ht a.toList.length
  refine ⟨fault, ?_⟩
  rw [shown, parts, htext, Text.pieces_append, Text.pieces_of_not_mem ha.bracketFree,
    Text.pieces_of_not_mem hfree]
  simp only [List.cons_append, List.nil_append, shownParts_bare ha (tag?_closing ht _), hfault]
  rfl

end Tags

section Marks

variable {style : Console.Style} {opened : List String}

theorem tag?_style (style : Console.Style) (rest : List Char) :
    tag? (style.name.toList ++ ']' :: rest) = some (style.name.toList, rest) := by
  have htag : tag? (style.name.toList ++ [']']) = some (style.name.toList, []) := by
    cases style <;> decide
  exact (tag?_eq_some htag).2 rest

theorem tag?_endStyle (style : Console.Style) (rest : List Char) :
    tag? ('/' :: (style.name.toList ++ ']' :: rest)) = some ('/' :: style.name.toList, rest) := by
  have htag : tag? ('/' :: (style.name.toList ++ [']'])) = some ('/' :: style.name.toList, []) := by
    cases style <;> decide
  exact (tag?_eq_some htag).2 rest

theorem apply_style (style : Console.Style) (position : Nat) :
    apply [] position style.name.toList = .ok [style.name] := by
  cases style
  · rfl
  · rfl

theorem apply_endStyle (style : Console.Style) (position : Nat) :
    apply [style.name] position ('/' :: style.name.toList) = .ok [] := by
  cases style
  · rfl
  · rfl

theorem toList_mark (style : Console.Style) (markup : String) :
    (style.mark markup).toList = '[' :: (style.name.toList ++ ']' :: markup.toList) ++
      '[' :: '/' :: (style.name.toList ++ [']']) := by
  simp [Console.Style.mark, String.toList_append]

/-- Markup that is made of bare text ends in bare text, which what comes next goes on with. -/
theorem parts_marks {markup text : String} (h : Console.Marks markup text) :
    ∃ lead last, text.toList = lead ++ last ∧ Console.Bare last ∧ ∀ {s : String} {before pieces},
      Text.pieces '[' s.toList = before :: pieces → ∃ position, shownParts [] (parts (markup ++ s)) =
        (lead ++ ·) <$> shownParts [] (partsFrom position (last ++ before) pieces) := by
  cases h with
  | words hwords =>
    refine ⟨[], _, rfl, hwords, fun hs => ?_⟩
    have hpieces := Text.pieces_append_of_not_mem hwords.bracketFree hs
    rw [parts, String.toList_append, hpieces]
    exact ⟨_, (id_map _).symm⟩
  | @styled words after style hwords hafter =>
    refine ⟨words.toList, after.toList, String.toList_append, hafter, fun {s before pieces} hs => ?_⟩
    have hfree : '[' ∉ style.name.toList ++ ']' :: words.toList := by
      have hname : '[' ∉ style.name.toList := by cases style <;> decide
      simp [hname, hwords.bracketFree]
    have hend : '[' ∉ '/' :: (style.name.toList ++ ']' :: after.toList) := by
      have hname : '[' ∉ style.name.toList := by cases style <;> decide
      simp [hname, hafter.bracketFree]
    have htext : (style.mark words ++ after ++ s).toList =
        [] ++ '[' :: ((style.name.toList ++ ']' :: words.toList) ++
          '[' :: (('/' :: (style.name.toList ++ ']' :: after.toList)) ++ s.toList)) := by
      simp [toList_mark, String.toList_append]
    have hpieces : Text.pieces '[' (style.mark words ++ after ++ s).toList =
        [] :: (style.name.toList ++ ']' :: words.toList) ::
          ('/' :: (style.name.toList ++ ']' :: (after.toList ++ before))) :: pieces := by
      rw [htext, Text.pieces_append, Text.pieces_append, Text.pieces_of_not_mem hfree,
        Text.pieces_append_of_not_mem hend hs]
      simp [Text.pieces]
    rw [parts, hpieces]
    simp only [shownParts_bare bare_nil (tag?_style style _), apply_style, bind, Except.bind,
      shownParts_bare hwords (tag?_endStyle style _), apply_endStyle]
    exact ⟨_, id_map _⟩

end Marks

section Escaping

theorem guarded_append {last : List Char} (h : '\\' ∉ last) (before : List Char) (pieces : List (List Char)) :
    ∃ head tail, guarded before pieces = head :: tail ∧
      guarded (last ++ before) pieces = (last ++ head) :: tail := by
  cases last using List.reverseRecOn with
  | nil =>
      obtain ⟨head, tail, hguarded⟩ := guarded_eq_cons before pieces
      exact ⟨head, tail, hguarded, hguarded⟩
  | append_singleton xs c =>
      have hc : c ≠ '\\' := fun heq => h (by simp [heq])
      obtain ⟨head, tail, hguarded, hlonger⟩ := guarded_append_cons hc xs before pieces
      exact ⟨head, tail, hguarded, by simpa using hlonger⟩

theorem shownPieces_of_not_mem (h : '\\' ∉ ['['].intercalate (before :: pieces)) :
    shownPieces before pieces = before :: pieces := by
  induction pieces generalizing before with
  | nil =>
      rw [List.intercalate_singleton] at h
      simp [shownPieces, guardEnd, trailing_of_not_mem h]
  | cons piece pieces ih =>
      have hjoin : ['['].intercalate (before :: piece :: pieces) =
          before ++ '[' :: ['['].intercalate (piece :: pieces) := by simp
      rw [hjoin, List.mem_append, not_or] at h
      have hlast : before.getLast? ≠ some '\\' := fun hlast => h.1 (List.mem_of_getLast? hlast)
      simp [shownPieces, dropGuard, hlast, ih (List.not_mem_of_not_mem_cons h.2)]

theorem shown_escaped {markup text : String} (h : Console.Marks markup text) (s : String) :
    ∃ cs, shown (markup ++ escape s) = .ok (String.ofList cs) ∧
      (Text.Clear (text ++ s).toList → '\\' ∉ s.toList → cs = (text ++ s).toList) := by
  obtain ⟨lead, last, htext, hlast, hparts⟩ := parts_marks h
  obtain ⟨before, pieces, hp, hs⟩ := exists_pieces s
  have hfree : ∀ p ∈ before :: pieces, '[' ∉ p := fun p h => Text.not_mem_of_mem_pieces (hp ▸ h)
  obtain ⟨hbefore, hpieces⟩ := List.forall_mem_cons.mp hfree
  obtain ⟨head, tail, hguarded, hlonger⟩ := guarded_append hlast.backslashFree before pieces
  obtain ⟨position, hshown⟩ := hparts ((pieces_escape hp).trans hguarded)
  have hfront : '[' ∉ last ++ before := by simp [hlast.bracketFree, hbefore]
  rw [shownParts_guarded [] position hfront hpieces hlonger] at hshown
  refine ⟨_, by rw [shown, hshown]; rfl, fun hclear hback => ?_⟩
  have hjoin : ['['].intercalate ((last ++ before) :: pieces) = last ++ s.toList := by
    rw [hs]
    cases pieces <;> simp
  have hwhole : (text ++ s).toList = lead ++ (last ++ s.toList) := by
    rw [String.toList_append, htext, List.append_assoc]
  have hinline : ∀ c ∈ last ++ s.toList, Text.isInline c = true := fun c hc =>
    hclear.inline c (hwhole ▸ List.mem_append_right lead hc)
  have hfree : '\\' ∉ ['['].intercalate ((last ++ before) :: pieces) := by
    simp [hjoin, hlast.backslashFree, hback]
  rw [shownPieces_of_not_mem hfree, hjoin, filter_inline hinline, hwhole]

/-- The end of a style ends it, or is shown as text behind backslashes. -/
theorem shownParts_endStyle (style : Console.Style) (position : Nat) {last : List Char} (hlast : '[' ∉ last) :
    ∃ cs, shownParts [style.name] (partsFrom position last ['/' :: (style.name.toList ++ [']'])]) = .ok cs ∧
      ('\\' ∉ last → cs = last.filter (!isControl ·)) := by
  simp only [partsFrom, tag?_endStyle style []]
  split
  next =>
    refine ⟨_, by simp only [shownParts, apply_endStyle, bind, Except.bind]; rfl, fun hfree => ?_⟩
    simp [trailing_of_not_mem hfree, unescaped_of_not_mem hlast, unescaped]
  next hodd =>
    refine ⟨_, by simp only [shownParts]; rfl, fun hfree => ?_⟩
    exact absurd (by rw [trailing_of_not_mem hfree]) hodd

theorem shown_styled (style : Console.Style) (s : String) :
    ∃ cs, shown (style.mark (escape s)) = .ok (String.ofList cs) ∧
      (Text.Clear s.toList → '\\' ∉ s.toList → cs = s.toList) := by
  obtain ⟨before, pieces, hp, hs⟩ := exists_pieces s
  have hfree : ∀ p ∈ before :: pieces, '[' ∉ p := fun p h => Text.not_mem_of_mem_pieces (hp ▸ h)
  obtain ⟨hbefore, hpieces⟩ := List.forall_mem_cons.mp hfree
  obtain ⟨head, tail, hguarded⟩ := guarded_eq_cons before pieces
  have hname : '[' ∉ style.name.toList ++ [']'] := by cases style <;> decide
  have hend : '[' ∉ '/' :: (style.name.toList ++ [']']) := by simpa using hname
  have htext : (style.mark (escape s)).toList =
      ([] ++ '[' :: ((style.name.toList ++ [']']) ++ (escape s).toList)) ++
        '[' :: '/' :: (style.name.toList ++ [']']) := by
    simp [toList_mark]
  have hcut : Text.pieces '[' (style.mark (escape s)).toList =
      [] :: (style.name.toList ++ ']' :: head) :: (tail ++ ['/' :: (style.name.toList ++ [']'])]) := by
    rw [htext, Text.pieces_append, Text.pieces_append,
      Text.pieces_append_of_not_mem hname ((pieces_escape hp).trans hguarded), Text.pieces_of_not_mem hend]
    simp [Text.pieces]
  -- What is escaped leaves the style open, whatever tags it holds, so that it can be ended.
  obtain ⟨front, last, next, hlast, hall, hmore⟩ := shownParts_guarded_append [style.name]
    (0 + (style.name.toList ++ ']' :: head).length + 1) hbefore hpieces hguarded
  obtain ⟨cs, hcs, hexact⟩ := shownParts_endStyle style next hlast
  refine ⟨front ++ cs, ?_, fun hclear hback => ?_⟩
  · rw [shown, parts, hcut]
    simp only [shownParts_bare bare_nil (tag?_style style _), apply_style, bind, Except.bind,
      List.length_nil, hmore, hcs]
    rfl
  · rw [shownPieces_of_not_mem (hs ▸ hback), ← hs, filter_inline hclear.inline] at hall
    have hfree : '\\' ∉ last := by
      intro hmem
      have hkept : '\\' ∈ last.filter (!isControl ·) := List.mem_filter.mpr ⟨hmem, by decide⟩
      exact hback (hall ▸ List.mem_append_right front hkept)
    rw [hexact hfree, hall]

end Escaping

end Markup

namespace Table

variable {columns : List Column} {row : List String} {rows : List (List String)}

theorem length_sized (rows : List (List String)) (columns : List Column) :
    (sized rows columns).length = columns.length := by
  induction columns generalizing rows with
  | nil => rfl
  | cons c cs ih => simp [sized, ih]

theorem padded_spaced (c : Sized) {cell : String} {cells : List String} {line : List Char}
    (h : Spaced cells line) : Spaced (cell :: cells) (padded c cell.toList ++ line) := by
  unfold padded
  split
  next => exact .cell _ 0 h
  next =>
    have hcell : Spaced (cell :: cells) _ := .cell 0 (c.2 - Text.width cell.toList) h
    simpa [blanks, List.replicate_add] using hcell

theorem foldl_max_replicate (n : Nat) : (List.replicate (n + 1) 1).foldl max 0 = 1 := by
  induction n with
  | zero => rfl
  | succ n ih => rw [List.replicate_succ', List.foldl_append, ih]; rfl

theorem cells_spaced {sizes : List Sized} (hlength : row.length = sizes.length) :
    Spaced row ((sizes.zip (row.map fun cell => [cell.toList])).flatMap fun c =>
      padded c.1 (c.2.getD 0 [])) := by
  induction row generalizing sizes with
  | nil =>
      rw [List.map_nil, List.zip_nil_right]
      exact .none
  | cons cell row ih =>
      cases sizes with
      | nil => cases hlength
      | cons c sizes => exact padded_spaced c (ih (Nat.succ.inj hlength))

theorem zip_lengths {sizes : List Sized} (hlength : row.length = sizes.length) :
    (sizes.zip (row.map fun cell => [cell.toList])).map (·.2.length) = List.replicate row.length 1 := by
  have hsnd : (sizes.zip (row.map fun cell => [cell.toList])).map Prod.snd = _ :=
    List.map_snd_zip (by simp [hlength])
  calc
    _ = ((sizes.zip (row.map fun cell => [cell.toList])).map Prod.snd).map List.length := List.map_map.symm
    _ = row.map fun _ => 1 := by rw [hsnd, List.map_map]; rfl
    _ = _ := List.map_const'

theorem rowText_spaced {sizes : List Sized} (hlength : row.length = sizes.length) (hne : row ≠ [])
    (hrow : ∀ cell ∈ row, '\n' ∉ cell.toList) :
    ∃ line, Spaced row line ∧ rowText sizes row = line ++ ['\n'] := by
  have hcells : row.map cellLines = row.map (fun cell => [cell.toList]) :=
    List.map_congr_left fun cell hcell => Text.pieces_of_not_mem (hrow cell hcell)
  obtain ⟨cell, rest, rfl⟩ := List.exists_cons_of_ne_nil hne
  refine ⟨_, cells_spaced hlength, ?_⟩
  simp only [rowText, hcells, zip_lengths hlength, List.length_cons, foldl_max_replicate]
  simp [List.range_succ, rowLine]

theorem rowTexts_spaced {sizes : List Sized} (hne : sizes ≠ [])
    (hrows : ∀ row ∈ rows, row.length = sizes.length ∧ ∀ cell ∈ row, '\n' ∉ cell.toList) :
    ∃ lines, List.Forall₂ Spaced rows lines ∧
      rows.flatMap (rowText sizes) = lines.flatMap (· ++ ['\n']) := by
  induction rows with
  | nil => exact ⟨[], .nil, rfl⟩
  | cons row rows ih =>
      obtain ⟨⟨hlength, hrow⟩, hrows⟩ := List.forall_mem_cons.mp hrows
      have hnil : row ≠ [] := by
        rintro rfl
        exact hne (List.eq_nil_of_length_eq_zero hlength.symm)
      obtain ⟨line, hspaced, hline⟩ := rowText_spaced hlength hnil hrow
      obtain ⟨lines, hall, hlines⟩ := ih hrows
      exact ⟨line :: lines, .cons hspaced hall, by simp [hline, hlines]⟩

theorem text_lists (hne : columns ≠ [])
    (hrows : ∀ row ∈ columns.map (·.heading) :: rows, row.length = columns.length ∧
      ∀ cell ∈ row, '\n' ∉ cell.toList) :
    Lists (columns.map (·.heading) :: rows) (text columns rows) := by
  have hsizes := length_sized rows columns
  have hnil : sized rows columns ≠ [] := by
    intro h
    rw [h] at hsizes
    exact hne (List.eq_nil_of_length_eq_zero hsizes.symm)
  rw [← hsizes] at hrows
  obtain ⟨lines, hall, hlines⟩ := rowTexts_spaced hnil hrows
  exact ⟨lines, hall, congrArg String.ofList hlines⟩

end Table

namespace Console

theorem plain_shown {markup text : String} (h : Markup.shown markup = .ok text) :
    plain.shown markup = .ok text := by
  change (Markup.shown markup).mapError MarkupFault.message = .ok text
  rw [h]
  rfl

theorem plain_lawful : plain.Lawful where
  unmarked {s} h := by
    refine plain_shown ?_
    rw [Markup.shown, Markup.parts, Text.pieces_of_not_mem h.bracketFree]
    simp only [Markup.shownParts_last h, bind, Except.bind]
    exact congrArg Except.ok String.ofList_toList
  marked {markup text} h := by
    obtain ⟨lead, last, htext, hlast, hparts⟩ := Markup.parts_marks h
    have hempty : Text.pieces '[' "".toList = [] :: [] := rfl
    obtain ⟨position, hshown⟩ := hparts hempty
    rw [String.append_empty, List.append_nil, Markup.shownParts_last hlast.toUnmarked] at hshown
    refine plain_shown ?_
    have htext' : String.ofList (lead ++ last) = text := htext ▸ String.ofList_toList
    rw [Markup.shown, hshown, ← htext']
    rfl
  opening hbefore htag hafter := plain_shown (Markup.shown_opening hbefore htag hafter)
  closing {before tag after} hbefore htag hafter := by
    obtain ⟨fault, hfault⟩ := Markup.shown_closing hbefore htag hafter
    refine ⟨fault.message, ?_⟩
    change (Markup.shown _).mapError MarkupFault.message = _
    rw [hfault]
    rfl
  escaped s h := by
    obtain ⟨cs, hshown, hexact⟩ := Markup.shown_escaped h s
    refine ⟨String.ofList cs, plain_shown hshown, fun hclear hback => ?_⟩
    rw [hexact hclear hback, String.ofList_toList]
  styled style s := by
    obtain ⟨cs, hshown, hexact⟩ := Markup.shown_styled style s
    refine ⟨String.ofList cs, plain_shown hshown, fun hclear hback => ?_⟩
    rw [hexact hclear hback, String.ofList_toList]
  lines {s} hclear _ := by
    have htab : '\t' ∉ s.toList := fun hmem => absurd (hclear.inline _ hmem) (by decide)
    change Text.line s = s ++ "\n"
    rw [Text.line, Text.expandTabs_of_not_mem htab, String.ofList_append, String.ofList_toList]

theorem plain_roomy : plain.Roomy where
  lines _ := rfl
  table {columns rows} hne hheadings hrows := by
    have hbreak {cs : List Char} (h : Text.Clear cs) : '\n' ∉ cs :=
      fun hmem => absurd (h.inline _ hmem) (by decide)
    refine Table.text_lists hne (List.forall_mem_cons.mpr ⟨⟨List.length_map _, ?_⟩, fun row hrow => ?_⟩)
    · simpa using fun c hc => hbreak (hheadings c hc).clear
    · exact ⟨(hrows row hrow).1, fun cell hcell => hbreak ((hrows row hrow).2 cell hcell)⟩

end Console

end ClassSchema
