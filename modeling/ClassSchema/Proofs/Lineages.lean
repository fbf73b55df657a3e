import ClassSchema.Proofs.Descriptions
import Mathlib.Data.List.Induction

namespace ClassSchema

namespace Heritage

variable {stores : ClassRef → TypeExpr → Bool}

theorem table_concat (decls : List ClassDecl) (d : ClassDecl) :
    table stores (decls ++ [d]) = table stores decls ++ [ofDecl stores (table stores decls) d] := by
  simp [table]

theorem table_take (decls : List ClassDecl) (i : Nat) :
    table stores (decls.take i) = (table stores decls).take i := by
  induction decls using List.reverseRecOn with
  | nil => simp [table]
  | append_singleton decls d ih =>
      rw [table_concat]
      by_cases hi : i ≤ decls.length
      · rw [List.take_append_of_le_length hi, ih,
          List.take_append_of_le_length (by rwa [length_table])]
      · rw [List.take_of_length_le, List.take_of_length_le, table_concat]
        · rw [List.length_append, length_table, List.length_singleton]
          omega
        · rw [List.length_append, List.length_singleton]
          omega

theorem table_getElem? {decls : List ClassDecl} {i : Nat} {d : ClassDecl} (h : decls[i]? = some d) :
    (table stores decls)[i]? = some (ofDecl stores ((table stores decls).take i) d) := by
  obtain ⟨hi, rfl⟩ := List.getElem?_eq_some_iff.mp h
  have htake : table stores (decls.take (i + 1)) =
      (table stores decls).take i ++ [ofDecl stores ((table stores decls).take i) decls[i]] := by
    rw [List.take_succ_eq_append_getElem hi, table_concat, table_take]
  rw [table_take] at htake
  have hlength : ((table stores decls).take i).length = i := by
    rw [List.length_take, length_table]
    omega
  rw [← List.getElem?_take_of_lt (Nat.lt_succ_self i), htake,
    List.getElem?_append_right (Nat.le_of_eq hlength), hlength, Nat.sub_self]
  rfl

theorem find_take {rows : List Heritage} {i : Nat} {c : ClassRef} {s : List (String × Bool)}
    (h : (find (rows.take i) c).stored = some s) :
    (∃ j < i, c = .declared j) ∧ find (rows.take i) c = find rows c := by
  cases c with
  | builtin b => cases h
  | declared j =>
      by_cases hj : j < i
      · refine ⟨⟨j, hj, rfl⟩, ?_⟩
        simp only [find, List.getD_eq_getElem?_getD, List.getElem?_take_of_lt hj]
      · have hnone : (rows.take i)[j]? = none := by
          rw [List.getElem?_eq_none_iff, List.length_take]
          omega
        simp [find, hnone] at h

theorem self_mem_lineage (stores : ClassRef → TypeExpr → Bool) (rows : List Heritage) (d : ClassDecl) :
    .declared rows.length ∈ (ofDecl stores rows d).lineage := by
  unfold ofDecl
  split <;> exact List.mem_cons_self

/-- A stored name is one's own, or stored by an ancestor. -/
theorem ofDecl_stored {rows : List Heritage} {d : ClassDecl} {s : List (String × Bool)}
    (hs : (ofDecl stores rows d).stored = some s) {name : String} (hname : name ∈ s.map Prod.fst) :
    name ∈ (ofDecl stores rows d).own.map Prod.fst ∨
      ∃ c ∈ (ofDecl stores rows d).lineage, ∃ t, (find rows c).stored = some t ∧ name ∈ t.map Prod.fst := by
  unfold ofDecl at hs ⊢
  split at hs
  next exprs fields _ =>
    obtain ⟨c, hc, ht⟩ := List.exists_of_findSome?_eq_some hs
    exact Or.inr ⟨c, List.mem_cons_of_mem _ hc, s, ht, hname⟩
  next exprs fields _ =>
    cases hs
    rcases mem_keys_putAll.mp hname with hname | hname
    · rcases mem_keys_putAll.mp hname with hname | hname
      · exact absurd hname List.not_mem_nil
      · obtain ⟨e, he, rfl⟩ := List.mem_map.mp hname
        obtain ⟨c, hc, he⟩ := List.mem_flatMap.mp he
        cases ht : (find rows c).stored with
        | none => simp [ht] at he
        | some t =>
            rw [ht, Option.getD_some] at he
            exact Or.inr ⟨c, List.mem_cons_of_mem _ (List.mem_reverse.mp hc), t, ht,
              List.mem_map_of_mem he⟩
    · refine Or.inl ?_
      rwa [List.map_map] at hname
  next => cases hs
  next => cases hs
  next => cases hs

end Heritage

namespace Model

variable {M : Model}

/-- The ancestors of an ancestor are ancestors. So it can be, too, where bases contradict each other
and the lineage breaks off at once. -/
def ClosedLineages (M : Model) : Prop :=
  ∀ i < M.classes.length, ∀ d ∈ (M.heritage (.declared i)).lineage,
    (M.heritage d).lineage ⊆ (M.heritage (.declared i)).lineage

instance (M : Model) : Decidable M.ClosedLineages :=
  inferInstanceAs (Decidable (∀ i < M.classes.length, ∀ d ∈ (M.heritage (.declared i)).lineage,
    (M.heritage d).lineage ⊆ (M.heritage (.declared i)).lineage))

def Declares (M : Model) (c : ClassRef) (name : String) : Prop :=
  ∃ d ∈ (M.heritage c).lineage, name ∈ (M.heritage d).own.map Prod.fst

theorem decl_eq {i : Nat} (hi : i < M.classes.length) : M.decl i = M.classes[i] := by
  rw [decl, List.getD_eq_getElem?_getD, List.getElem?_eq_getElem hi, Option.getD_some]

theorem heritage_declared {i : Nat} (hi : i < M.classes.length) :
    M.heritage (.declared i) =
      Heritage.ofDecl M.stores ((Heritage.table M.stores M.classes).take i) M.classes[i] := by
  rw [heritage, Heritage.find, List.getD_eq_getElem?_getD,
    Heritage.table_getElem? (List.getElem?_eq_getElem hi), Option.getD_some]

theorem Declares.of_ancestor (hM : M.ClosedLineages) {i : Nat} (hi : i < M.classes.length)
    {d : ClassRef} (hd : d ∈ (M.heritage (.declared i)).lineage) {name : String}
    (h : M.Declares d name) : M.Declares (.declared i) name := by
  obtain ⟨e, he, hname⟩ := h
  exact ⟨e, hM i hi d hd he, hname⟩

theorem self_mem_lineage {i : Nat} (hi : i < M.classes.length) :
    .declared i ∈ (M.heritage (.declared i)).lineage := by
  have hmem := Heritage.self_mem_lineage M.stores ((Heritage.table M.stores M.classes).take i) M.classes[i]
  rwa [List.length_take, Heritage.length_table, Nat.min_eq_left (Nat.le_of_lt hi),
    ← heritage_declared hi] at hmem

theorem declares_of_stored (hM : M.ClosedLineages) {i : Nat} {s : List (String × Bool)}
    (hs : (M.heritage (.declared i)).stored = some s) :
    ∀ name ∈ s.map Prod.fst, M.Declares (.declared i) name := by
  -- The induction goes over the classes in the order of their declaration.
  induction i using Nat.strongRecOn generalizing s with
  | _ i ih =>
      intro name hname
      by_cases hi : i < M.classes.length
      · have hs' := hs
        rw [heritage_declared hi] at hs'
        rcases Heritage.ofDecl_stored hs' hname with hown | ⟨c, hc, t, ht, hname⟩
        · rw [← heritage_declared hi] at hown
          exact ⟨.declared i, self_mem_lineage hi, hown⟩
        · rw [← heritage_declared hi] at hc
          obtain ⟨⟨j, hj, rfl⟩, hfind⟩ := Heritage.find_take ht
          rw [hfind] at ht
          exact (ih j hj ht name hname).of_ancestor hM hi hc
      · rw [heritage_undeclared (Nat.le_of_not_lt hi)] at hs
        cases hs

theorem resolveEach_names {ds : List (ClassRef × String × TypeExpr)}
    {types : List (String × TypeExpr)} (h : M.resolveEach ds = .ok types) :
    types.map Prod.fst = ds.map (fun d => d.2.1) := by
  induction ds generalizing types with
  | nil => cases h; rfl
  | cons d ds ih =>
      obtain ⟨u, _, h⟩ := bind_eq_ok.mp h
      obtain ⟨rest, hrest, h⟩ := bind_eq_ok.mp h
      cases h
      rw [List.map_cons, List.map_cons, ih hrest]

theorem Declares.typed {c : ClassRef} {name : String} (h : M.Declares c name)
    {types : List (String × TypeExpr)} (ht : M.resolvedFields c = .ok types) :
    name ∈ types.map Prod.fst := by
  obtain ⟨entries, he, htypes⟩ := bind_eq_ok.mp ht
  cases htypes
  refine mem_keys_putAll.mpr (Or.inr ?_)
  rw [resolveEach_names he]
  obtain ⟨d, hd, hname⟩ := h
  obtain ⟨f, hf, rfl⟩ := List.mem_map.mp hname
  refine List.mem_map.mpr ⟨(d, f), ?_, rfl⟩
  exact List.mem_flatMap.mpr ⟨d, List.mem_reverse.mpr hd, List.mem_map_of_mem hf⟩

theorem fieldNames_typed (hM : M.ClosedLineages) {c : ClassRef} {types : List (String × TypeExpr)}
    (ht : M.resolvedFields c = .ok types) :
    ∀ name ∈ M.fieldNames c types, name ∈ types.map Prod.fst := by
  intro name hname
  unfold fieldNames at hname
  split at hname
  next s hs =>
    cases c with
    | builtin b => cases hs
    | declared i =>
        refine (declares_of_stored hM hs name ?_).typed ht
        exact (List.filter_sublist.map Prod.fst).subset hname
  next => exact (List.filter_sublist.map Prod.fst).subset hname

end Model

end ClassSchema
