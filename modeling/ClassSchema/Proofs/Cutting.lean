import ClassSchema.Text.Pieces
import Mathlib.Data.List.Basic
import Mathlib.Data.List.TakeWhile

namespace ClassSchema.Text

theorem pieces_eq_splitOn (sep : Char) (cs : List Char) : pieces sep cs = cs.splitOn sep := by
  induction cs with
  | nil => rfl
  | cons c cs ih =>
      rw [pieces, ih, List.splitOn_cons_eq_if_modifyHead]
      by_cases hc : c = sep
      · simp [hc]
      · cases hs : cs.splitOn sep with
        | nil => exact absurd hs (List.splitOn_ne_nil sep cs)
        | cons p ps => simp [hc]

theorem pieces_append (sep : Char) (xs ys : List Char) :
    pieces sep (xs ++ sep :: ys) = pieces sep xs ++ pieces sep ys := by
  induction xs with
  | nil => simp [pieces]
  | cons c xs ih =>
      by_cases hc : c = sep
      · simp [pieces, hc, ih]
      · cases hp : pieces sep xs with
        | nil => exact absurd (pieces_eq_splitOn sep xs ▸ hp) (List.splitOn_ne_nil sep xs)
        | cons p ps => simp [pieces, hc, ih, hp]

theorem pieces_append_of_not_mem {sep : Char} {xs ys p : List Char} {ps : List (List Char)}
    (h : sep ∉ xs) (hys : pieces sep ys = p :: ps) : pieces sep (xs ++ ys) = (xs ++ p) :: ps := by
  induction xs with
  | nil => exact hys
  | cons c xs ih =>
      have hc : c ≠ sep := fun heq => h (heq ▸ List.mem_cons_self)
      simp [pieces, hc, ih (List.not_mem_of_not_mem_cons h)]

theorem pieces_of_not_mem {sep : Char} {cs : List Char} (h : sep ∉ cs) : pieces sep cs = [cs] := by
  have happend := pieces_append_of_not_mem h (rfl : pieces sep [] = [[]])
  rwa [List.append_nil] at happend

theorem not_mem_of_mem_pieces {sep : Char} {cs p : List Char} (h : p ∈ pieces sep cs) : sep ∉ p := by
  induction cs generalizing p with
  | nil =>
      rw [List.mem_singleton.mp h]
      exact List.not_mem_nil
  | cons c cs ih =>
      unfold pieces at h
      split at h
      next =>
        rcases List.mem_cons.mp h with rfl | h
        · exact List.not_mem_nil
        · exact ih h
      next hc =>
        split at h
        next =>
          rw [List.mem_singleton.mp h]
          simpa using Ne.symm hc
        next q qs hq =>
          rcases List.mem_cons.mp h with rfl | h
          · simpa [Ne.symm hc] using ih (hq ▸ List.mem_cons_self)
          · exact ih (hq ▸ List.mem_cons_of_mem q h)

theorem splitFirst_append {sep : Char} {before : List Char} (h : sep ∉ before) (after : List Char) :
    splitFirst sep (before ++ sep :: after) = (before, after) := by
  have hne : ∀ c ∈ before, decide (c ≠ sep) = true := fun c hc =>
    decide_eq_true fun heq => h (heq ▸ hc)
  rw [splitFirst, List.takeWhile_append_of_pos hne, List.dropWhile_append_of_pos hne]
  simp

theorem splitLast_append {sep : Char} {after : List Char} (h : sep ∉ after) (before : List Char) :
    splitLast sep (before ++ sep :: after) = (before, after) := by
  have hne : ∀ c ∈ after.reverse, decide (c ≠ sep) = true := fun c hc =>
    decide_eq_true fun heq => h (List.mem_reverse.mp (heq ▸ hc))
  have hlast : (after.reverse ++ sep :: before.reverse).takeWhile (· ≠ sep) = after.reverse := by
    rw [List.takeWhile_append_of_pos hne]
    simp
  simp only [splitLast, List.reverse_append, List.reverse_cons, List.append_assoc,
    List.singleton_append, hlast]
  simp [List.drop_append]

theorem exists_last {sep : Char} {cs : List Char} (h : sep ∈ cs) :
    ∃ before after, cs = before ++ sep :: after ∧ sep ∉ after := by
  obtain ⟨after, before, hcs, hnot⟩ := List.eq_append_cons_of_mem (List.mem_reverse.mpr h)
  refine ⟨before.reverse, after.reverse, ?_, fun hmem => hnot (List.mem_reverse.mp hmem)⟩
  rw [← List.reverse_reverse cs, hcs]
  simp

theorem splitLast_of_not_mem {sep : Char} {cs : List Char} (h : sep ∉ cs) : splitLast sep cs = ([], cs) := by
  have hne : ∀ c ∈ cs.reverse, decide (c ≠ sep) = true := fun c hc =>
    decide_eq_true fun heq => h (List.mem_reverse.mp (heq ▸ hc))
  simp only [splitLast, List.takeWhile_eq_self_iff.mpr hne]
  simp

end ClassSchema.Text
