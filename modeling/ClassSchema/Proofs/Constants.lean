import ClassSchema.Model.Basic
import ClassSchema.Proofs.Equality
import Mathlib.Data.List.Induction

namespace ClassSchema

theorem withoutAliases_concat (ms : List (String × Value)) (m : String × Value) :
    withoutAliases (ms ++ [m]) =
      withoutAliases ms ++ if ms.any (fun n => n.2.same m.2) then [] else [m] := by
  induction ms with
  | nil => rfl
  | cons n ms ih =>
      rw [List.cons_append, withoutAliases, ih, List.filter_append, withoutAliases, List.cons_append,
        List.any_cons]
      cases hn : n.2.same m.2 <;> cases ms.any (fun n => n.2.same m.2) <;> simp [hn]

namespace EnumStyle

variable {style : EnumStyle} {before after ms : List (String × Value)} {m n : String × Value}

def counts : EnumStyle → Value → Bool
  | .distinct, _ => true
  | .flags, v => v.isSingleBit

/-- Whether a member is a constant where the given ones stand before it. -/
def lists (style : EnumStyle) (before : List (String × Value)) (m : String × Value) : Bool :=
  style.counts m.2 && !before.any (fun n => style.counts n.2 && n.2.same m.2)

theorem lists_eq_false : style.lists before m = false ↔
    (style.counts m.2 = true → ∃ n ∈ before, style.counts n.2 = true ∧ n.2.same m.2 = true) := by
  simp only [lists, Bool.and_eq_false_imp, Bool.not_eq_eq_eq_not, Bool.not_false, List.any_eq_true,
    Bool.and_eq_true]

theorem canonical_eq_counted (style : EnumStyle) (ms : List (String × Value)) :
    style.canonical ms = withoutAliases (ms.filter (fun m => style.counts m.2)) := by
  cases style with
  | distinct => exact congrArg withoutAliases (List.filter_eq_self.mpr fun _ _ => rfl).symm
  | flags => rfl

theorem canonical_concat (style : EnumStyle) (ms : List (String × Value)) (m : String × Value) :
    style.canonical (ms ++ [m]) = style.canonical ms ++ if style.lists ms m then [m] else [] := by
  rw [canonical_eq_counted, canonical_eq_counted, List.filter_append, List.filter_singleton, lists]
  cases style.counts m.2 with
  | false => simp
  | true =>
      rw [cond_true, withoutAliases_concat, List.any_filter, Bool.true_and]
      cases ms.any (fun n => style.counts n.2 && n.2.same m.2) <;> rfl

/-- The constants are the members that are listed where they stand. -/
theorem canonical_eq_listed (style : EnumStyle) (ms : List (String × Value)) :
    style.canonical ms = (ms.zipIdx.filter fun x => style.lists (ms.take x.2) x.1).map Prod.fst := by
  induction ms using List.reverseRecOn with
  | nil => cases style <;> rfl
  | append_singleton ms m ih =>
      have hearlier : ∀ x ∈ ms.zipIdx, style.lists ((ms ++ [m]).take x.2) x.1 =
          style.lists (ms.take x.2) x.1 := by
        intro x hx
        rw [List.take_append_of_le_length (Nat.le_of_lt (by simpa using List.snd_lt_of_mem_zipIdx hx))]
      have hlast : (ms ++ [m]).take (0 + ms.length) = ms := by simp
      rw [canonical_concat, ih, List.zipIdx_append, List.filter_append, List.map_append,
        List.filter_congr hearlier, List.zipIdx_singleton, List.filter_singleton, hlast]
      cases style.lists ms m <;> rfl

theorem lists_insert (h : style.lists before m = false) (after : List (String × Value))
    (n : String × Value) : style.lists (before ++ m :: after) n = style.lists (before ++ after) n := by
  have hmember : (style.counts m.2 && m.2.same n.2) = true →
      before.any (fun n' => style.counts n'.2 && n'.2.same n.2) = true := by
    intro hm
    obtain ⟨hcounts, hsame⟩ := Bool.and_eq_true_iff.mp hm
    obtain ⟨e, he, hecounts, hesame⟩ := lists_eq_false.mp h hcounts
    exact List.any_eq_true.mpr ⟨e, he, Bool.and_eq_true_iff.mpr ⟨hecounts, e.2.same_trans hesame hsame⟩⟩
  simp only [lists, List.any_append, List.any_cons]
  cases hm : style.counts m.2 && m.2.same n.2 with
  | false => simp
  | true => simp [hmember hm]

theorem canonical_insert (h : style.lists before m = false) (after : List (String × Value)) :
    style.canonical (before ++ m :: after) = style.canonical (before ++ after) := by
  induction after using List.reverseRecOn with
  | nil => rw [canonical_concat, h, List.append_nil]; exact List.append_nil _
  | append_singleton after n ih =>
      rw [← List.cons_append, ← List.append_assoc, ← List.append_assoc, canonical_concat,
        canonical_concat, ih, lists_insert h]

end EnumStyle

end ClassSchema
