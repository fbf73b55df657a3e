import ClassSchema.Model.Heritage
import Mathlib.Data.List.Forall2
import Mathlib.Data.List.Induction

namespace ClassSchema

variable {α β : Type}

theorem keys_put (table : List (String × α)) (key : String) (value : α) :
    (put table key value).map Prod.fst =
      if key ∈ table.map Prod.fst then table.map Prod.fst else table.map Prod.fst ++ [key] := by
  induction table with
  | nil => rfl
  | cons e rest ih =>
      by_cases he : e.1 = key
      · simp [put, he]
      · simp only [put, if_neg he, List.map_cons, ih, List.mem_cons]
        by_cases hk : key ∈ rest.map Prod.fst
        · simp [hk]
        · simp [hk, Ne.symm he]

theorem nodup_keys_put {table : List (String × α)} (h : (table.map Prod.fst).Nodup)
    (key : String) (value : α) : ((put table key value).map Prod.fst).Nodup := by
  rw [keys_put]
  split
  next => exact h
  next hk =>
    refine List.nodup_append.mpr ⟨h, by simp, ?_⟩
    rintro a ha b hb rfl
    exact hk (List.mem_singleton.mp hb ▸ ha)

theorem nodup_keys_putAll (table : List (String × α)) (h : (table.map Prod.fst).Nodup)
    (entries : List (String × α)) : ((putAll table entries).map Prod.fst).Nodup := by
  induction entries generalizing table with
  | nil => exact h
  | cons e entries ih => exact ih _ (nodup_keys_put h e.1 e.2)

theorem mem_keys_put {table : List (String × α)} {key name : String} {value : α} :
    name ∈ (put table key value).map Prod.fst ↔ name ∈ table.map Prod.fst ∨ name = key := by
  rw [keys_put]
  split
  next hk =>
    refine ⟨Or.inl, ?_⟩
    rintro (h | rfl)
    · exact h
    · exact hk
  next => rw [List.mem_append, List.mem_singleton]

theorem mem_keys_putAll {table entries : List (String × α)} {name : String} :
    name ∈ (putAll table entries).map Prod.fst ↔
      name ∈ table.map Prod.fst ∨ name ∈ entries.map Prod.fst := by
  induction entries generalizing table with
  | nil => simp [putAll]
  | cons e entries ih =>
      rw [putAll, List.foldl_cons]
      refine ih.trans ?_
      rw [mem_keys_put, List.map_cons, List.mem_cons, or_assoc]

theorem mem_of_mem_put {table : List (String × α)} {key : String} {value : α} {e : String × α}
    (h : e ∈ put table key value) : e ∈ table ∨ e = (key, value) := by
  induction table with
  | nil => exact Or.inr (List.mem_singleton.mp h)
  | cons d rest ih =>
      by_cases hd : d.1 = key
      · simp only [put, if_pos hd, List.mem_cons] at h
        rcases h with rfl | h
        · exact Or.inr (by rw [hd])
        · exact Or.inl (List.mem_cons_of_mem _ h)
      · simp only [put, if_neg hd, List.mem_cons] at h
        rcases h with rfl | h
        · exact Or.inl List.mem_cons_self
        · exact (ih h).imp_left (List.mem_cons_of_mem _)

theorem mem_of_mem_putAll {table entries : List (String × α)} {e : String × α}
    (h : e ∈ putAll table entries) : e ∈ table ∨ e ∈ entries := by
  induction entries generalizing table with
  | nil => exact Or.inl h
  | cons d entries ih =>
      have hcases : e ∈ put table d.1 d.2 ∨ e ∈ entries := ih h
      rcases hcases with h | h
      · rcases mem_of_mem_put h with h | rfl
        · exact Or.inl h
        · exact Or.inr List.mem_cons_self
      · exact Or.inr (List.mem_cons_of_mem _ h)

section

variable {R : String × α → String × β → Prop} {table entries : List (String × α)}
  {table' entries' : List (String × β)}

theorem forall₂_put (hkey : ∀ e e', R e e' → e'.1 = e.1) (h : List.Forall₂ R table table')
    {e : String × α} {e' : String × β} (he : R e e') :
    List.Forall₂ R (put table e.1 e.2) (put table' e'.1 e'.2) := by
  induction h with
  | nil => exact .cons he .nil
  | @cons d d' _ _ hd hrest ih =>
      by_cases hk : d.1 = e.1
      · have hk' : d'.1 = e'.1 := by rw [hkey _ _ hd, hkey _ _ he, hk]
        simp only [put, hk, hk', if_true]
        exact .cons he hrest
      · have hk' : d'.1 ≠ e'.1 := by rwa [hkey _ _ hd, hkey _ _ he]
        simp only [put, if_neg hk, if_neg hk']
        exact .cons hd ih

theorem forall₂_putAll (hkey : ∀ e e', R e e' → e'.1 = e.1) (h : List.Forall₂ R table table')
    (hentries : List.Forall₂ R entries entries') :
    List.Forall₂ R (putAll table entries) (putAll table' entries') := by
  induction hentries generalizing table table' with
  | nil => exact h
  | cons he _ ih => exact ih (forall₂_put hkey h he)

end

theorem put_map (g : α → β) (table : List (String × α)) (key : String) (value : α) :
    (put table key value).map (fun e => (e.1, g e.2)) =
      put (table.map fun e => (e.1, g e.2)) key (g value) := by
  induction table with
  | nil => rfl
  | cons e table ih =>
      by_cases he : e.1 = key
      · simp only [put, if_pos he, List.map_cons]
      · simp only [put, if_neg he, List.map_cons, ih]

theorem putAll_map (g : α → β) (table entries : List (String × α)) :
    (putAll table entries).map (fun e => (e.1, g e.2)) =
      putAll (table.map fun e => (e.1, g e.2)) (entries.map fun e => (e.1, g e.2)) := by
  induction entries generalizing table with
  | nil => rfl
  | cons e entries ih => exact (ih (put table e.1 e.2)).trans (by rw [put_map]; rfl)

section

variable {table rest entries : List (String × α)} {key key' : String} {value value' : α}

theorem putAll_append (table entries entries' : List (String × α)) :
    putAll table (entries ++ entries') = putAll (putAll table entries) entries' := List.foldl_append

theorem put_append_of_mem (h : key ∈ table.map Prod.fst) :
    put (table ++ rest) key value = put table key value ++ rest := by
  induction table with
  | nil => exact absurd h List.not_mem_nil
  | cons e table ih =>
      by_cases he : e.1 = key
      · simp only [List.cons_append, put, if_pos he]
      · have hrest := (List.mem_cons.mp h).resolve_left (Ne.symm he)
        simp only [List.cons_append, put, if_neg he, ih hrest]

theorem put_append_of_not_mem (h : key ∉ table.map Prod.fst) :
    put (table ++ rest) key value = table ++ put rest key value := by
  induction table with
  | nil => rfl
  | cons e table ih =>
      rw [List.map_cons, List.mem_cons, not_or] at h
      simp only [List.cons_append, put, if_neg (Ne.symm h.1), ih h.2]

theorem put_of_mem (hnd : (table.map Prod.fst).Nodup) (h : (key, value) ∈ table) :
    put table key value = table := by
  induction table with
  | nil => exact absurd h List.not_mem_nil
  | cons e table ih =>
      rw [List.map_cons, List.nodup_cons] at hnd
      rcases List.mem_cons.mp h with rfl | h
      · simp only [put, if_true]
      · have he : e.1 ≠ key := fun he => hnd.1 (he ▸ List.mem_map_of_mem h)
        simp only [put, if_neg he, ih hnd.2 h]

theorem put_put (table : List (String × α)) (key : String) (value value' : α) :
    put (put table key value) key value' = put table key value' := by
  induction table with
  | nil => simp only [put, if_true]
  | cons e table ih =>
      by_cases he : e.1 = key
      · simp only [put, if_pos he]
      · simp only [put, if_neg he, ih]

theorem put_comm (hne : key ≠ key') (h : key ∈ table.map Prod.fst) :
    put (put table key' value') key value = put (put table key value) key' value' := by
  induction table with
  | nil => exact absurd h List.not_mem_nil
  | cons e table ih =>
      by_cases he : e.1 = key
      · have he' : e.1 ≠ key' := fun he' => hne (he.symm.trans he')
        simp only [put, if_neg he', if_pos he]
      · by_cases he' : e.1 = key'
        · simp only [put, if_pos he', if_neg he]
        · have hrest := (List.mem_cons.mp h).resolve_left (Ne.symm he)
          simp only [put, if_neg he', if_neg he, ih hrest]

theorem put_putAll (hkey : key ∈ table.map Prod.fst) (h : key ∉ entries.map Prod.fst) :
    put (putAll table entries) key value = putAll (put table key value) entries := by
  induction entries generalizing table with
  | nil => rfl
  | cons e entries ih =>
      rw [List.map_cons, List.mem_cons, not_or] at h
      have hkey' : key ∈ (put table e.1 e.2).map Prod.fst := mem_keys_put.mpr (Or.inl hkey)
      have hput := ih hkey' h.2
      exact hput.trans (congrArg (putAll · entries) (put_comm h.1 hkey))

theorem putAll_put (hnd : (entries.map Prod.fst).Nodup) (table : List (String × α)) (key : String)
    (value : α) : putAll table (put entries key value) = put (putAll table entries) key value := by
  induction entries generalizing table with
  | nil => rfl
  | cons e entries ih =>
      rw [List.map_cons, List.nodup_cons] at hnd
      by_cases he : e.1 = key
      · subst he
        simp only [put, if_true]
        have hkey : e.1 ∈ (put table e.1 e.2).map Prod.fst := mem_keys_put.mpr (Or.inr rfl)
        refine ((put_putAll hkey hnd.1).trans ?_).symm
        rw [put_put]
        rfl
      · simp only [put, if_neg he]
        exact ih hnd.2 (put table e.1 e.2)

/-- Entries may be written to a table before it is copied. -/
theorem putAll_putAll {copied : List (String × α)} (hnd : (copied.map Prod.fst).Nodup)
    (table entries : List (String × α)) :
    putAll table (putAll copied entries) = putAll (putAll table copied) entries := by
  induction entries using List.reverseRecOn with
  | nil => rfl
  | append_singleton entries e ih =>
      rw [putAll_append, putAll_append]
      exact (putAll_put (nodup_keys_putAll copied hnd entries) table e.1 e.2).trans
        (congrArg (put · e.1 e.2) ih)

theorem putAll_ordered (table entries : List (String × α)) :
    putAll table (putAll [] entries) = putAll table entries := by
  have hnil : (([] : List (String × α)).map Prod.fst).Nodup := List.nodup_nil
  exact putAll_putAll hnil table entries

theorem putAll_of_subset (hnd : (table.map Prod.fst).Nodup) (h : ∀ e ∈ entries, e ∈ table) :
    putAll table entries = table := by
  induction entries with
  | nil => rfl
  | cons e entries ih =>
      obtain ⟨he, hentries⟩ := List.forall_mem_cons.mp h
      rw [putAll, List.foldl_cons, put_of_mem hnd he]
      exact ih hentries

theorem putAll_self_putAll (hnd : (table.map Prod.fst).Nodup) (entries : List (String × α)) :
    putAll table (putAll table entries) = putAll table entries := by
  rw [putAll_putAll hnd, putAll_of_subset hnd fun _ he => he]

/-- A table that is written to begins as it was, if what it has is written as it is. -/
theorem prefix_putAll (hnd : (table.map Prod.fst).Nodup)
    (h : ∀ e ∈ entries, ∀ value, (e.1, value) ∈ table → e.2 = value) : table <+: putAll table entries := by
  -- What stands behind the table may change while the entries are written.
  have hgrown : ∀ rest, table <+: putAll (table ++ rest) entries := by
    induction entries with
    | nil => exact fun rest => List.prefix_append table rest
    | cons e entries ih =>
        obtain ⟨he, hentries⟩ := List.forall_mem_cons.mp h
        intro rest
        rw [putAll, List.foldl_cons]
        by_cases hkey : e.1 ∈ table.map Prod.fst
        · obtain ⟨d, hd, hde⟩ := List.mem_map.mp hkey
          have hmem : (e.1, e.2) ∈ table := by
            rw [he d.2 (hde ▸ hd), ← hde]
            exact hd
          rw [put_append_of_mem hkey, put_of_mem hnd hmem]
          exact ih hentries rest
        · rw [put_append_of_not_mem hkey]
          exact ih hentries _
  simpa using hgrown []

end

end ClassSchema
