import ClassSchema.CommandLine.Plain.Markup
import ClassSchema.Proofs.Cutting
import ClassSchema.Text.Width
import Mathlib.Data.List.DropRight

namespace ClassSchema

namespace Markup

variable {c : Char} {cs xs ys before piece tag rest : List Char} {pieces tail : List (List Char)}

theorem tag?_eq_some (h : tag? piece = some (tag, rest)) :
    piece = tag ++ ']' :: rest ∧ ∀ ys, tag? (tag ++ ']' :: ys) = some (tag, ys) := by
  cases piece with
  | nil => cases h
  | cons c cs =>
      rw [tag?] at h
      by_cases hopens : opensTag c && ']' ∈ cs
      · rw [if_pos hopens] at h
        rw [Bool.and_eq_true, decide_eq_true_eq] at hopens
        obtain ⟨body, after, rfl, hbody⟩ := List.eq_append_cons_of_mem hopens.2
        rw [Text.splitFirst_append hbody] at h
        cases h
        refine ⟨rfl, fun ys => ?_⟩
        simp [tag?, hopens.1, Text.splitFirst_append hbody]
      · rw [if_neg hopens] at h
        cases h

theorem tag?_append_replicate (h : tag? piece = none) (n : Nat) :
    tag? (piece ++ List.replicate n '\\') = none := by
  cases piece with
  | nil =>
      cases n with
      | zero => rfl
      | succ n => rfl
  | cons c cs =>
      have hopens : ¬(opensTag c && ']' ∈ cs) := by
        intro hopens
        simp [tag?, hopens] at h
      rw [List.cons_append, tag?, if_neg]
      simpa [List.mem_replicate] using hopens

theorem trailing_append_cons (hc : c ≠ '\\') (xs ys : List Char) :
    trailing (xs ++ c :: ys) = trailing ys := by
  have htake : (ys.reverse ++ c :: xs.reverse).takeWhile (· = '\\') =
      ys.reverse.takeWhile (· = '\\') := by
    rw [List.takeWhile_append]
    split
    next hlen => simp [hc, (List.takeWhile_prefix _).eq_of_length hlen]
    next => rfl
  simp only [trailing, List.reverse_append, List.reverse_cons, List.append_assoc,
    List.singleton_append, htake]

theorem trailing_append_replicate (xs : List Char) (n : Nat) :
    trailing (xs ++ List.replicate n '\\') = trailing xs + n := by
  rw [trailing, trailing, List.reverse_append, List.reverse_replicate, List.takeWhile_append_of_pos]
  · simp [Nat.add_comm]
  · intro c hc
    simpa using (List.mem_replicate.mp hc).2

theorem take_trailing_append_cons (c : Char) (xs ys : List Char) :
    (xs ++ c :: ys).take ((xs ++ c :: ys).length - trailing ys) =
      xs ++ c :: ys.take (ys.length - trailing ys) := by
  have hle : trailing ys ≤ ys.reverse.length := (List.takeWhile_prefix _).length_le
  rw [List.length_reverse] at hle
  have hlength : (xs ++ c :: ys).length - trailing ys = xs.length + (ys.length - trailing ys + 1) := by
    simp only [List.length_append, List.length_cons]
    omega
  rw [hlength, List.take_length_add_append, List.take_succ_cons]

theorem exists_append_trailing (xs : List Char) :
    ∃ core n, xs = core ++ List.replicate n '\\' ∧ trailing xs = n := by
  refine ⟨xs.rdropWhile (· = '\\'), trailing xs, ?_, rfl⟩
  have hend : xs.rtakeWhile (· = '\\') = List.replicate (trailing xs) '\\' := by
    refine List.eq_replicate_iff.mpr ⟨List.length_reverse, fun c hc => ?_⟩
    simpa using List.mem_rtakeWhile_imp hc
  rw [← hend, List.rdropWhile_append_rtakeWhile]

theorem guardEnd_append_cons (hc : c ≠ '\\') (xs ys : List Char) :
    guardEnd (xs ++ c :: ys) = xs ++ c :: guardEnd ys := by
  unfold guardEnd
  rw [trailing_append_cons hc]
  split
  next => simp
  next => rfl

/-- The pieces between the opening brackets of a text that is escaped. Before a tag, there is one
backslash more than twice as many as there were. -/
def guarded (before : List Char) : List (List Char) → List (List Char)
  | [] => [guardEnd before]
  | piece :: pieces =>
    (before ++ if (tag? piece).isSome then List.replicate (trailing before + 1) '\\' else []) ::
      guarded piece pieces

theorem guarded_eq_cons (before : List Char) (pieces : List (List Char)) :
    ∃ head tail, guarded before pieces = head :: tail := by
  cases pieces with
  | nil => exact ⟨_, _, rfl⟩
  | cons piece pieces => exact ⟨_, _, rfl⟩

theorem guarded_append_cons (hc : c ≠ '\\') (xs before : List Char) (pieces : List (List Char)) :
    ∃ head tail, guarded before pieces = head :: tail ∧
      guarded (xs ++ c :: before) pieces = (xs ++ c :: head) :: tail := by
  cases pieces with
  | nil => exact ⟨_, _, rfl, by rw [guarded, guardEnd_append_cons hc]⟩
  | cons piece pieces =>
      refine ⟨_, _, rfl, ?_⟩
      rw [guarded, trailing_append_cons hc, List.append_assoc, List.cons_append]

theorem guardEnd_escapeFrom (before : List Char) (pieces : List (List Char)) :
    guardEnd (escapeFrom before pieces) = ['['].intercalate (guarded before pieces) := by
  induction pieces generalizing before with
  | nil => simp [escapeFrom, guarded]
  | cons piece pieces ih =>
      have hbracket : '[' ≠ '\\' := by decide
      unfold escapeFrom
      split
      next hnone =>
        obtain ⟨head, tail, hguarded⟩ := guarded_eq_cons piece pieces
        rw [guardEnd_append_cons hbracket, ih, guarded, hguarded, hnone]
        simp
      next tag rest hsome =>
        obtain ⟨rfl, -⟩ := tag?_eq_some hsome
        have hend : ']' ≠ '\\' := by decide
        obtain ⟨head, tail, hrest, hpiece⟩ := guarded_append_cons hend tag rest pieces
        have hassoc : before ++ List.replicate (trailing before + 1) '\\' ++ '[' :: tag ++
            ']' :: escapeFrom rest pieces =
            (before ++ List.replicate (trailing before + 1) '\\' ++ '[' :: tag) ++
              ']' :: escapeFrom rest pieces := rfl
        rw [hassoc, guardEnd_append_cons hend, ih, guarded, hsome, hpiece, hrest]
        cases tail with
        | nil => simp
        | cons => simp

theorem unescaped_cons (h : c = '\\' → cs.head? ≠ some '[') :
    unescaped (c :: cs) = c :: unescaped cs := by
  rw [unescaped]
  rintro rest rfl rfl
  exact h rfl rfl

theorem unescaped_append (xs ys : List Char) :
    unescaped (xs ++ '[' :: ys) = unescaped (xs ++ ['[']) ++ unescaped ys := by
  fun_induction unescaped xs with
  | case1 cs ih => simp [unescaped, ih]
  | case2 c cs hne ih =>
      cases cs with
      | nil => by_cases hc : c = '\\' <;> simp [unescaped, hc]
      | cons d cs =>
          have hhead : ∀ zs, c = '\\' → (d :: cs ++ zs).head? ≠ some '[' := by
            rintro zs rfl hd
            exact hne cs rfl (by rw [Option.some.inj hd])
          have hcons : ∀ zs, c :: d :: cs ++ zs = c :: (d :: cs ++ zs) := fun zs => rfl
          rw [hcons, hcons, unescaped_cons (hhead _), unescaped_cons (hhead _), ih]
          rfl
  | case3 => simp [unescaped]

theorem unescaped_of_not_mem (h : '[' ∉ cs) : unescaped cs = cs := by
  fun_induction unescaped cs with
  | case1 cs => simp at h
  | case2 c cs hne ih => rw [ih (List.not_mem_of_not_mem_cons h)]
  | case3 => rfl

def dropGuard (cs : List Char) : List Char := if cs.getLast? = some '\\' then cs.dropLast else cs

theorem dropGuard_append_cons (hc : c ≠ '\\') (xs ys : List Char) :
    dropGuard (xs ++ c :: ys) = xs ++ c :: dropGuard ys := by
  cases ys using List.reverseRecOn with
  | nil => simp [dropGuard, hc]
  | append_singleton ys d =>
      have hassoc : xs ++ c :: (ys ++ [d]) = (xs ++ c :: ys) ++ [d] := by simp
      simp only [dropGuard, hassoc, List.getLast?_concat, List.dropLast_concat]
      split <;> simp

theorem unescaped_bracket (h : '[' ∉ cs) : unescaped (cs ++ ['[']) = dropGuard cs ++ ['['] := by
  induction cs with
  | nil => rfl
  | cons c cs ih =>
      cases cs with
      | nil => by_cases hc : c = '\\' <;> simp [unescaped, dropGuard, hc]
      | cons d cs =>
          have hd : '[' ≠ d := List.ne_of_not_mem_cons (List.not_mem_of_not_mem_cons h)
          have hdrop : dropGuard (c :: d :: cs) = c :: dropGuard (d :: cs) := by
            simp only [dropGuard, List.getLast?_cons_cons]
            split <;> simp
          rw [List.cons_append, unescaped_cons (by simpa using fun _ => Ne.symm hd),
            ih (List.not_mem_of_not_mem_cons h), hdrop, List.cons_append]

def shownPieces (before : List Char) : List (List Char) → List (List Char)
  | [] => [guardEnd before]
  | piece :: pieces =>
    (if (tag? piece).isSome then before else dropGuard before) :: shownPieces piece pieces

theorem shownPieces_eq_cons (before : List Char) (pieces : List (List Char)) :
    ∃ head tail, shownPieces before pieces = head :: tail := by
  cases pieces with
  | nil => exact ⟨_, _, rfl⟩
  | cons piece pieces => exact ⟨_, _, rfl⟩

theorem shownPieces_append_cons (hc : c ≠ '\\') (xs before : List Char)
    (pieces : List (List Char)) :
    ∃ head tail, shownPieces before pieces = head :: tail ∧
      shownPieces (xs ++ c :: before) pieces = (xs ++ c :: head) :: tail := by
  cases pieces with
  | nil => exact ⟨_, _, rfl, by rw [shownPieces, guardEnd_append_cons hc]⟩
  | cons piece pieces =>
      refine ⟨_, _, rfl, ?_⟩
      rw [shownPieces, dropGuard_append_cons hc]
      split <;> rfl

theorem shownParts_text (opened : List String) (cs : List Char) (ps : List Part) :
    shownParts opened (.text cs :: ps) =
      (cs.filter (!isControl ·) ++ ·) <$> shownParts opened ps := by
  rw [shownParts]
  cases shownParts opened ps with
  | error fault => rfl
  | ok rest => rfl

theorem shownParts_flush (opened : List String) (position : Nat) (xs before : List Char)
    (pieces : List (List Char)) :
    shownParts opened (partsFrom position (xs ++ '[' :: before) pieces) =
      ((unescaped (xs ++ ['['])).filter (!isControl ·) ++ ·) <$>
        shownParts opened (partsFrom position before pieces) := by
  induction pieces generalizing position before with
  | nil =>
      simp only [partsFrom, shownParts_text, unescaped_append xs before, List.filter_append]
      simp [shownParts]
  | cons piece pieces ih =>
      simp only [partsFrom]
      split
      next => rw [List.append_assoc, List.cons_append, ih]
      next tag rest hsome =>
        have hbracket : '[' ≠ '\\' := by decide
        rw [trailing_append_cons hbracket, take_trailing_append_cons, unescaped_append]
        split
        next => simp only [shownParts_text, List.filter_append, List.append_assoc, Functor.map_map]
        next => simp only [shownParts_text, List.filter_append, List.append_assoc, Functor.map_map]

theorem guardEnd_eq_append (cs : List Char) : ∃ n, guardEnd cs = cs ++ List.replicate n '\\' := by
  unfold guardEnd
  split
  next => exact ⟨1, rfl⟩
  next => exact ⟨0, by simp⟩

theorem guarded_head (h : guarded before pieces = piece :: tail) :
    ∃ n, piece = before ++ List.replicate n '\\' := by
  cases pieces with
  | nil =>
      obtain ⟨n, hend⟩ := guardEnd_eq_append before
      exact ⟨n, by rw [← hend, ← (List.cons.inj h).1]⟩
  | cons next pieces =>
      rw [guarded] at h
      split at h
      next => exact ⟨_, (List.cons.inj h).1.symm⟩
      next => exact ⟨0, (List.cons.inj h).1.symm⟩

theorem shownParts_plain (opened : List String) (position : Nat) (hbefore : '[' ∉ before)
    (htag : tag? piece = none) (pieces : List (List Char)) :
    shownParts opened (partsFrom position before (piece :: pieces)) =
      ((dropGuard before ++ ['[']).filter (!isControl ·) ++ ·) <$>
        shownParts opened (partsFrom (position + piece.length + 1) piece pieces) := by
  simp only [partsFrom, htag, shownParts_flush, unescaped_bracket hbefore]

theorem shownParts_tag (opened : List String) (position : Nat) (hbefore : '[' ∉ before)
    (htag : tag? piece = some (tag, rest)) (pieces : List (List Char)) :
    shownParts opened (partsFrom position
        (before ++ List.replicate (trailing before + 1) '\\') (piece :: pieces)) =
      ((before ++ '[' :: tag ++ [']']).filter (!isControl ·) ++ ·) <$>
        shownParts opened (partsFrom (position + piece.length + 1) rest pieces) := by
  obtain ⟨core, n, rfl, hn⟩ := exists_append_trailing before
  have hcore : '[' ∉ core := fun h => hbefore (List.mem_append_left _ h)
  have hodd : ¬ (n + (n + 1)) % 2 = 0 := by omega
  have hhalf : (n + (n + 1)) / 2 = n := by omega
  have hlength : (core ++ List.replicate n '\\' ++ List.replicate (n + 1) '\\').length -
      (n + (n + 1)) = core.length := by
    simp only [List.length_append, List.length_replicate]
    omega
  simp only [partsFrom, htag, trailing_append_replicate, hn, hlength]
  rw [if_neg hodd, hhalf, List.append_assoc core, List.take_left, unescaped_of_not_mem hcore,
    shownParts_text]

/-- An odd number of backslashes stands before every bracket that could open a tag, so that none
does. What comes after the text only meets its end, which has no bracket. -/
theorem shownParts_guarded_append (opened : List String) (position : Nat) (hbefore : '[' ∉ before)
    (hpieces : ∀ p ∈ pieces, '[' ∉ p) (h : guarded before pieces = piece :: tail) :
    ∃ front last next, '[' ∉ last ∧
      front ++ last.filter (!isControl ·) =
        (['['].intercalate (shownPieces before pieces)).filter (!isControl ·) ∧
      ∀ more, shownParts opened (partsFrom position piece (tail ++ more)) =
        (front ++ ·) <$> shownParts opened (partsFrom next last more) := by
  induction pieces generalizing before position piece tail with
  | nil =>
      obtain ⟨rfl, rfl⟩ := List.cons.inj h
      have hend : '[' ∉ guardEnd before := by
        obtain ⟨n, hn⟩ := guardEnd_eq_append before
        simp [hn, hbefore, List.mem_replicate]
      exact ⟨[], guardEnd before, position, hend, by simp [shownPieces], fun more => by simp⟩
  | cons next pieces ih =>
      obtain ⟨hnext, hrests⟩ := List.forall_mem_cons.mp hpieces
      obtain ⟨head, tail, hguarded⟩ := guarded_eq_cons next pieces
      rw [guarded, hguarded] at h
      obtain ⟨rfl, rfl⟩ := List.cons.inj h
      cases htag : tag? next with
      | none =>
          have hnone : tag? head = none := by
            obtain ⟨n, rfl⟩ := guarded_head hguarded
            exact tag?_append_replicate htag n
          obtain ⟨front, last, next', hlast, hshown, hmore⟩ :=
            ih (position + head.length + 1) hnext hrests hguarded
          refine ⟨(dropGuard before ++ ['[']).filter (!isControl ·) ++ front, last, next', hlast, ?_,
            fun more => ?_⟩
          · obtain ⟨shown, shown', hcons⟩ := shownPieces_eq_cons next pieces
            rw [List.append_assoc, hshown, shownPieces, htag, hcons]
            simp [← List.filter_append]
          · rw [Option.isSome_none, if_neg Bool.false_ne_true, List.append_nil, List.cons_append,
              shownParts_plain opened position hbefore hnone, hmore]
            simp [Functor.map_map]
      | some found =>
          -- The tag is as it was, and what follows it is a piece of its own to the induction.
          obtain ⟨tag, rest⟩ := found
          obtain ⟨rfl, hfound⟩ := tag?_eq_some htag
          have hend : ']' ≠ '\\' := by decide
          have hrest : '[' ∉ rest := fun h => hnext (by simp [h])
          obtain ⟨after, tail, hafter, hguarded'⟩ := guarded_append_cons hend tag rest pieces
          obtain ⟨rfl, rfl⟩ := List.cons.inj (hguarded.symm.trans hguarded')
          obtain ⟨front, last, next', hlast, hshown, hmore⟩ :=
            ih (position + (tag ++ ']' :: after).length + 1) hrest hrests hafter
          refine ⟨(before ++ '[' :: tag ++ [']']).filter (!isControl ·) ++ front, last, next', hlast, ?_,
            fun more => ?_⟩
          · obtain ⟨shown, shown', hcons, hcons'⟩ := shownPieces_append_cons hend tag rest pieces
            rw [List.append_assoc, hshown, shownPieces, htag, hcons, hcons']
            cases shown' <;> simp [← List.filter_append]
          · rw [Option.isSome_some, if_pos rfl, List.cons_append,
              shownParts_tag opened position hbefore (hfound after), hmore]
            simp [Functor.map_map]

theorem shownParts_guarded (opened : List String) (position : Nat) (hbefore : '[' ∉ before)
    (hpieces : ∀ p ∈ pieces, '[' ∉ p) (h : guarded before pieces = piece :: tail) :
    shownParts opened (partsFrom position piece tail) =
      .ok ((['['].intercalate (shownPieces before pieces)).filter (!isControl ·)) := by
  obtain ⟨front, last, next, hlast, hshown, hmore⟩ :=
    shownParts_guarded_append opened position hbefore hpieces h
  have hnone := hmore []
  rw [List.append_nil] at hnone
  rw [hnone, ← hshown, partsFrom, unescaped_of_not_mem hlast, shownParts_text]
  simp [shownParts]

theorem not_mem_guarded (hbefore : '[' ∉ before) (hpieces : ∀ p ∈ pieces, '[' ∉ p) :
    ∀ p ∈ guarded before pieces, '[' ∉ p := by
  induction pieces generalizing before with
  | nil =>
      obtain ⟨n, hn⟩ := guardEnd_eq_append before
      simp [guarded, hn, hbefore, List.mem_replicate]
  | cons piece pieces ih =>
      obtain ⟨hpiece, hpieces⟩ := List.forall_mem_cons.mp hpieces
      rw [guarded]
      refine List.forall_mem_cons.mpr ⟨?_, ih hpiece hpieces⟩
      split <;> simp [hbefore, List.mem_replicate]

theorem pieces_escape {s : String} (h : Text.pieces '[' s.toList = before :: pieces) :
    Text.pieces '[' (escape s).toList = guarded before pieces := by
  have hfree : ∀ p ∈ before :: pieces, '[' ∉ p := fun p hp => Text.not_mem_of_mem_pieces (h ▸ hp)
  obtain ⟨hbefore, hpieces⟩ := List.forall_mem_cons.mp hfree
  obtain ⟨head, tail, hguarded⟩ := guarded_eq_cons before pieces
  have hescape : (escape s).toList = ['['].intercalate (guarded before pieces) := by
    simp only [escape, h, String.toList_ofList, guardEnd_escapeFrom]
  rw [hescape, Text.pieces_eq_splitOn, List.splitOn_intercalate]
  · exact not_mem_guarded hbefore hpieces
  · rw [hguarded]
    exact List.cons_ne_nil _ _

theorem exists_pieces (s : String) :
    ∃ before pieces, Text.pieces '[' s.toList = before :: pieces ∧
      s.toList = ['['].intercalate (before :: pieces) := by
  have hjoin : ['['].intercalate (Text.pieces '[' s.toList) = s.toList := by
    rw [Text.pieces_eq_splitOn, List.intercalate_splitOn]
  cases hp : Text.pieces '[' s.toList with
  | nil => exact absurd (Text.pieces_eq_splitOn '[' s.toList ▸ hp) (List.splitOn_ne_nil _ _)
  | cons before pieces => exact ⟨before, pieces, rfl, by rw [← hp, hjoin]⟩

end Markup

namespace Text

theorem expandTabs_of_not_mem {cs : List Char} (h : '\t' ∉ cs) (column : Nat) :
    expandTabs column cs = cs := by
  fun_induction expandTabs column cs with
  | case1 => rfl
  | case2 column cs ih => simp at h
  | case3 column cs hc ih => rw [ih (List.not_mem_of_not_mem_cons h)]
  | case4 column c cs hc hn ih => rw [ih (List.not_mem_of_not_mem_cons h)]

end Text

end ClassSchema
