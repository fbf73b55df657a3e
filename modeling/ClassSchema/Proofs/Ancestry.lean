import ClassSchema.Proofs.NameTables
import ClassSchema.Proofs.Lineages

namespace ClassSchema

section

variable {rows : List (List ClassRef)} {c : ClassRef} {l : List ClassRef}

theorem nextInRows_some (h : nextInRows rows = some c) :
    (∃ row ∈ rows, c ∈ row) ∧ ∀ row ∈ rows, c ∉ row.tail := by
  obtain ⟨row, hrow, hhead⟩ := List.mem_filterMap.mp (List.mem_of_find?_eq_some h)
  refine ⟨⟨row, hrow, List.mem_of_mem_head? hhead⟩, fun row hrow => ?_⟩
  have hall := List.find?_some (p := fun c => rows.all fun row => !row.tail.contains c) h
  simpa using List.all_eq_true.mp hall row hrow

theorem mergeRows_next (h : nextInRows rows = some c) (room : Nat) : mergeRows (room + 1) rows =
    c :: mergeRows room (rows.map fun row => if row.head? = some c then row.tail else row) := by
  simp only [mergeRows, h]

theorem mem_mergeRows {room : Nat} (h : c ∈ mergeRows room rows) : ∃ row ∈ rows, c ∈ row := by
  induction room generalizing rows with
  | zero => exact absurd h List.not_mem_nil
  | succ room ih =>
      unfold mergeRows at h
      split at h
      next => exact absurd h List.not_mem_nil
      next d hd =>
        rcases List.mem_cons.mp h with rfl | h
        · exact (nextInRows_some hd).1
        · obtain ⟨rest, hrest, hc⟩ := ih h
          obtain ⟨row, hrow, rfl⟩ := List.mem_map.mp hrest
          refine ⟨row, hrow, ?_⟩
          split at hc
          · exact List.mem_of_mem_tail hc
          · exact hc

theorem nodup_mergeRows (room : Nat) (rows : List (List ClassRef)) : (mergeRows room rows).Nodup := by
  induction room generalizing rows with
  | zero => exact List.nodup_nil
  | succ room ih =>
      unfold mergeRows
      split
      next => exact List.nodup_nil
      next c hc =>
        -- A class that has been chosen stands at the head of a row or nowhere in it.
        refine List.nodup_cons.mpr ⟨fun hmem => ?_, ih _⟩
        obtain ⟨rest, hrest, hmem⟩ := mem_mergeRows hmem
        obtain ⟨row, hrow, rfl⟩ := List.mem_map.mp hrest
        have htail := (nextInRows_some hc).2 row hrow
        cases row with
        | nil => exact absurd hmem (by simp)
        | cons d row =>
            split_ifs at hmem with hd
            · exact htail hmem
            · rcases List.mem_cons.mp hmem with rfl | hmem
              · exact hd rfl
              · exact htail hmem

theorem mergeRows_row {room : Nat} (hnd : l.Nodup) (hroom : l.length ≤ room) :
    mergeRows room [l, []] = l := by
  induction l generalizing room with
  | nil => cases room <;> rfl
  | cons d l ih =>
      obtain ⟨hd, hl⟩ := List.nodup_cons.mp hnd
      cases room with
      | zero => cases hroom
      | succ room =>
          have hnext : nextInRows [d :: l, []] = some d := by simp [nextInRows, hd]
          simp only [mergeRows_next hnext, List.map_cons, List.map_nil, List.head?_cons, List.tail_cons,
            if_true, List.head?_nil, reduceCtorEq, if_false]
          rw [ih hl (Nat.le_of_succ_le_succ hroom)]

theorem mergeAll_sole (hnd : (c :: l).Nodup) : mergeAll [c :: l, [c]] = c :: l := by
  obtain ⟨hc, hl⟩ := List.nodup_cons.mp hnd
  have hnext : nextInRows [c :: l, [c]] = some c := by simp [nextInRows, hc]
  have hroom : (([c :: l, [c]] : List (List ClassRef)).map List.length).foldr (· + ·) 0 =
      l.length + 1 + 1 := rfl
  rw [mergeAll, hroom, mergeRows_next hnext]
  simp only [List.map_cons, List.map_nil, List.head?_cons, List.tail_cons, if_true]
  rw [mergeRows_row hl (Nat.le_succ _)]

end

namespace TypeExpr

variable {isGeneric isGeneric' : ClassRef → Bool} {bases exprs later : List TypeExpr} {t : TypeExpr}
  {c : ClassRef}

theorem isGenericBase_congr (h : ∀ c, t = .cls c → isGeneric c = isGeneric' c) :
    t.isGenericBase isGeneric = t.isGenericBase isGeneric' := by
  cases t with
  | cls c => exact h c rfl
  | _ => rfl

theorem mroEntries_congr (h : ∀ c, .cls c ∈ later → isGeneric c = isGeneric' c) :
    t.mroEntries isGeneric bases later = t.mroEntries isGeneric' bases later := by
  have hany : later.any (isGenericBase isGeneric) = later.any (isGenericBase isGeneric') := by
    rw [Bool.eq_iff_iff, List.any_eq_true, List.any_eq_true]
    refine exists_congr fun u => and_congr_right fun hu => ?_
    rw [isGenericBase_congr fun c hc => h c (hc ▸ hu)]
  unfold mroEntries
  split <;> simp only [hany]

theorem allMroEntries_congr (h : ∀ c, .cls c ∈ exprs → isGeneric c = isGeneric' c) :
    allMroEntries isGeneric bases exprs = allMroEntries isGeneric' bases exprs := by
  induction exprs with
  | nil => rfl
  | cons t later ih =>
      have hlater (c : ClassRef) (hc : .cls c ∈ later) := h c (List.mem_cons_of_mem t hc)
      rw [allMroEntries, allMroEntries, mroEntries_congr hlater, ih hlater]

theorem mem_allMroEntries (hc : c ≠ .builtin .generic) (h : .cls c ∈ exprs) :
    c ∈ allMroEntries isGeneric bases exprs := by
  induction exprs with
  | nil => exact absurd h List.not_mem_nil
  | cons t later ih =>
      rw [allMroEntries]
      rcases List.mem_cons.mp h with rfl | h
      · refine List.mem_append_left _ ?_
        unfold mroEntries
        split
        next heq => cases heq; exact absurd rfl hc
        next heq => cases heq
        next heq => cases heq; exact List.mem_singleton_self _
        next heq => cases heq
        next heq => cases heq
        next heq => cases heq
        next hcls _ _ _ => exact absurd rfl (hcls c)
      · exact List.mem_append_right _ (ih h)

end TypeExpr

namespace Heritage

variable {isGeneric isGeneric' : ClassRef → Bool} {exprs : List TypeExpr} {c : ClassRef}

theorem bases_congr (h : ∀ c, .cls c ∈ exprs → isGeneric c = isGeneric' c) :
    bases isGeneric exprs = bases isGeneric' exprs := by
  rw [bases, bases, TypeExpr.allMroEntries_congr h]

theorem mem_bases (hc : c ≠ .builtin .generic) (h : .cls c ∈ exprs) : c ∈ bases isGeneric exprs := by
  have hmem : c ∈ TypeExpr.allMroEntries isGeneric exprs exprs := TypeExpr.mem_allMroEntries hc h
  unfold bases
  split
  next hnil => exact absurd (hnil ▸ hmem) List.not_mem_nil
  next => exact hmem

end Heritage

theorem Builtin.nodup_lineage (b : Builtin) : b.heritage.lineage.Nodup := by
  cases b <;> decide

def ClassRef.isBefore (i : Nat) : ClassRef → Bool
  | .builtin _ => true
  | .declared j => j < i

theorem ClassRef.isBefore_trans {c : ClassRef} {i j : Nat} (h : c.isBefore i = true) (hij : i < j) :
    c.isBefore j = true := by
  cases c with
  | builtin b => rfl
  | declared k => exact decide_eq_true (Nat.lt_trans (of_decide_eq_true h) hij)

namespace ClassBody

def style? : ClassBody → Option RecordStyle
  | .record style _ _ => some style
  | .enumeration .. => none

def fields : ClassBody → List (String × TypeExpr)
  | .record _ _ fields => fields
  | .enumeration .. => []

/-- The bases that a class is declared with, or the builtin one that its style stands for. -/
def bases (isGeneric : ClassRef → Bool) : ClassBody → List ClassRef
  | .record .plain exprs _ | .record .dataclass exprs _ => Heritage.bases isGeneric exprs
  | .record .namedTuple _ _ => [.builtin .tuple]
  | .record .typedDict exprs _ =>
    match exprs.filterMap TypeExpr.baseClass? with
    | [] => [.builtin .dict]
    | cs => cs
  | .enumeration .. => [.builtin .enum]

end ClassBody

namespace Heritage

variable {stores : ClassRef → TypeExpr → Bool} {rows : List Heritage} {fields : List (String × TypeExpr)}

theorem find_made (h : ∀ x ∈ rows, ∀ f ∈ x.own, f.2.isMade = true) (c : ClassRef) :
    ∀ f ∈ (find rows c).own, f.2.isMade = true := by
  rcases find_cases rows c with hrow | ⟨hnil, _⟩
  · exact h _ hrow
  · rw [hnil]
    exact fun f hf => absurd hf List.not_mem_nil

theorem arguments_made (h : ∀ f ∈ fields, f.2.isMade = true) : ∀ f ∈ arguments fields, f.2.isMade = true := by
  intro f hf
  obtain ⟨e, he, rfl⟩ := List.mem_map.mp hf
  exact (TypeExpr.isMade_asArgument e.2).trans (h e he)

theorem putAll_made (h : ∀ f ∈ fields, f.2.isMade = true) : ∀ f ∈ putAll [] fields, f.2.isMade = true :=
  fun f hf => h f ((mem_of_mem_putAll hf).resolve_left List.not_mem_nil)

theorem table_made {decls : List ClassDecl} (h : ∀ d ∈ decls, ∀ f ∈ d.body.fields, f.2.isMade = true) :
    ∀ x ∈ table stores decls, ∀ f ∈ x.own, f.2.isMade = true := by
  refine table_induction decls fun rows d hd hrows => ?_
  have hfields := h d hd
  unfold ofDecl
  split
  next exprs fields hbody =>
    rw [hbody] at hfields
    exact putAll_made hfields
  next exprs fields hbody =>
    rw [hbody] at hfields
    exact putAll_made hfields
  next exprs fields hbody =>
    rw [hbody] at hfields
    exact putAll_made (arguments_made hfields)
  next exprs fields hbody =>
    rw [hbody] at hfields
    refine putAll_made (arguments_made fun f hf => ?_)
    rcases List.mem_append.mp hf with hf | hf
    · obtain ⟨c, _, hf⟩ := List.mem_flatMap.mp hf
      exact find_made hrows c f hf
    · exact hfields f hf
  next => exact fun f hf => absurd hf List.not_mem_nil

theorem argument_of_mem {f : String × TypeExpr} (h : f ∈ putAll [] (arguments fields)) :
    f.2.asArgument = f.2 ∧ f.2.isText = false := by
  obtain ⟨e, _, rfl⟩ := List.mem_map.mp ((mem_of_mem_putAll h).resolve_left List.not_mem_nil)
  obtain ⟨name, t⟩ := e
  cases t <;> exact ⟨rfl, rfl⟩

end Heritage

namespace Model

variable (M : Model)

def style? : ClassRef → Option RecordStyle
  | .builtin _ => none
  | .declared i => (M.decl i).body.style?

def written : ClassRef → List (String × TypeExpr)
  | .builtin _ => []
  | .declared i => (M.decl i).body.fields

def isGeneric (c : ClassRef) : Bool := (M.heritage c).lineage.contains (.builtin .generic)

def bases : ClassRef → List ClassRef
  | .builtin b => (b.ancestors.take 1).map .builtin
  | .declared i => (M.decl i).body.bases M.isGeneric

/-- What holds of all classes that can be made. -/
structure Formed (M : Model) : Prop where
  closed : M.ClosedLineages
  /-- A class is declared after its bases. -/
  earlier : ∀ i < M.classes.length, ∀ b ∈ M.bases (.declared i), b.isBefore i = true
  /-- Of the classes with fields, typed dicts derive from typed dicts only. -/
  dicts : ∀ i < M.classes.length, M.style? (.declared i) = some .typedDict →
    ∀ b ∈ M.bases (.declared i), M.style? b = none ∨ M.style? b = some .typedDict
  /-- Unions are annotations only as they have been made. -/
  annotations : ∀ d ∈ M.classes, ∀ f ∈ d.body.fields, f.2.isMade = true

instance (M : Model) : Decidable M.Formed :=
  decidable_of_iff
    (M.ClosedLineages ∧
      (∀ i < M.classes.length, ∀ b ∈ M.bases (.declared i), b.isBefore i = true) ∧
      (∀ i < M.classes.length, M.style? (.declared i) = some .typedDict →
        ∀ b ∈ M.bases (.declared i), M.style? b = none ∨ M.style? b = some .typedDict) ∧
      ∀ d ∈ M.classes, ∀ f ∈ d.body.fields, f.2.isMade = true)
    ⟨fun ⟨closed, earlier, dicts, annotations⟩ => ⟨closed, earlier, dicts, annotations⟩,
      fun h => ⟨h.closed, h.earlier, h.dicts, h.annotations⟩⟩

def ancestors (c : ClassRef) : List ClassRef :=
  mergeAll ((M.bases c).map (fun b => (M.heritage b).lineage) ++ [M.bases c])

variable {M} {i : Nat} {b c d : ClassRef}

theorem isEnumClass_declared (i : Nat) :
    M.isEnumClass (.declared i) = (M.style? (.declared i)).isNone := by
  rw [isEnumClass, style?]
  cases (M.decl i).body <;> rfl

theorem find_take (h : c.isBefore i = true) :
    Heritage.find ((Heritage.table M.stores M.classes).take i) c = M.heritage c := by
  cases c with
  | builtin b => rfl
  | declared j =>
      have hj : j < i := of_decide_eq_true h
      simp only [heritage, Heritage.find, List.getD_eq_getElem?_getD, List.getElem?_take_of_lt hj]

theorem bases_take {exprs : List TypeExpr}
    (h : ∀ b ∈ Heritage.bases M.isGeneric exprs, b.isBefore i = true) :
    Heritage.bases (Heritage.isGeneric ((Heritage.table M.stores M.classes).take i)) exprs =
      Heritage.bases M.isGeneric exprs := by
  refine Heritage.bases_congr fun c hc => ?_
  have hbefore : c.isBefore i = true := by
    by_cases hgeneric : c = .builtin .generic
    · rw [hgeneric]
      rfl
    · exact h c (Heritage.mem_bases hgeneric hc)
  rw [Heritage.isGeneric, find_take hbefore, isGeneric]

theorem ancestors_take {bs : List ClassRef} (h : ∀ b ∈ bs, b.isBefore i = true) :
    Heritage.ancestors ((Heritage.table M.stores M.classes).take i) bs =
      mergeAll (bs.map (fun b => (M.heritage b).lineage) ++ [bs]) := by
  rw [Heritage.ancestors, List.map_congr_left fun b hb => by rw [find_take (h b hb)]]

theorem length_take (hi : i < M.classes.length) : ((Heritage.table M.stores M.classes).take i).length = i := by
  rw [List.length_take, Heritage.length_table, Nat.min_eq_left (Nat.le_of_lt hi)]

theorem isBefore_declared (i : Nat) : (ClassRef.declared i).isBefore i = false :=
  decide_eq_false (Nat.lt_irrefl i)

/-- A plain class or a dataclass looks to the lineages of its bases, and all others to two builtin
classes. -/
theorem heritage_cases (hi : i < M.classes.length) :
    (∃ style, M.style? (.declared i) = some style ∧ (style = .plain ∨ style = .dataclass)) ∨
      ∃ b own, b ≠ .object ∧
        M.heritage (.declared i) = ⟨[.declared i, .builtin b, .builtin .object], own, none⟩ := by
  rw [heritage_declared hi, ← decl_eq hi, Heritage.ofDecl, length_take hi, style?]
  cases (M.decl i).body with
  | record style exprs fields =>
      cases style with
      | plain => exact Or.inl ⟨.plain, rfl, Or.inl rfl⟩
      | dataclass => exact Or.inl ⟨.dataclass, rfl, Or.inr rfl⟩
      | namedTuple => exact Or.inr ⟨.tuple, _, nofun, rfl⟩
      | typedDict => exact Or.inr ⟨.dict, _, nofun, rfl⟩
  | enumeration => exact Or.inr ⟨.enum, _, nofun, rfl⟩

theorem exists_heritage_dict (hi : i < M.classes.length) (h : M.style? (.declared i) = some .typedDict) :
    ∃ a own, M.heritage (.declared i) = ⟨[.declared i, .builtin a, .builtin .object], own, none⟩ := by
  rcases heritage_cases hi with ⟨style, hs, hstyle⟩ | ⟨a, own, _, hs⟩
  · rw [h] at hs
    cases hs
    rcases hstyle with hstyle | hstyle <;> cases hstyle
  · exact ⟨a, own, hs⟩

namespace Formed

theorem lt_of_bases (hM : M.Formed) (hi : i < M.classes.length) {j : Nat}
    (hb : .declared j ∈ M.bases (.declared i)) : j < i := of_decide_eq_true (hM.earlier i hi _ hb)

theorem heritage_merged (hM : M.Formed) (hi : i < M.classes.length) {style : RecordStyle}
    (h : M.style? (.declared i) = some style) (hstyle : style = .plain ∨ style = .dataclass) :
    M.heritage (.declared i) = ⟨.declared i :: M.ancestors (.declared i),
      putAll [] (M.written (.declared i)),
      if style = .plain then
        Heritage.inherited ((Heritage.table M.stores M.classes).take i) (M.ancestors (.declared i))
      else
        some (Heritage.storedTable (M.stores (.declared i)) ((Heritage.table M.stores M.classes).take i)
          (M.ancestors (.declared i))
          (putAll [] (M.written (.declared i))))⟩ := by
  have hearlier := hM.earlier i hi
  rw [style?] at h
  rw [bases] at hearlier
  rw [ancestors, heritage_declared hi, ← decl_eq hi, Heritage.ofDecl, length_take hi, bases, written]
  cases hbody : (M.decl i).body with
  | record style exprs fields =>
      rw [hbody] at h hearlier
      cases h
      have hbases : ∀ b ∈ Heritage.bases M.isGeneric exprs, b.isBefore i = true := by
        rcases hstyle with rfl | rfl <;> exact hearlier
      rcases hstyle with rfl | rfl <;>
        simp only [bases_take hbases, ancestors_take hbases, ClassBody.bases, ClassBody.fields] <;> rfl
  | enumeration => rw [hbody] at h; cases h

theorem ancestors_isBefore (hM : M.Formed) (hi : i < M.classes.length) :
    ∀ c ∈ M.ancestors (.declared i), c.isBefore i = true := by
  -- The induction goes over the classes in the order of their declaration.
  induction i using Nat.strongRecOn with
  | _ i ih =>
      intro c hc
      obtain ⟨row, hrow, hc⟩ := mem_mergeRows hc
      rcases List.mem_append.mp hrow with hrow | hrow
      · obtain ⟨b, hb, rfl⟩ := List.mem_map.mp hrow
        have hbefore := hM.earlier i hi b hb
        cases b with
        | builtin b =>
            obtain ⟨a, _, rfl⟩ := List.mem_map.mp hc
            rfl
        | declared j =>
            have hj : j < i := hM.lt_of_bases hi hb
            have hjn := Nat.lt_trans hj hi
            rcases heritage_cases hjn with ⟨style, h, hstyle⟩ | ⟨b, own, _, h⟩
            · rw [hM.heritage_merged hjn h hstyle] at hc
              rcases List.mem_cons.mp hc with rfl | hc
              · exact hbefore
              · exact ClassRef.isBefore_trans (ih j hj hjn c hc) hj
            · rw [h] at hc
              simp only [List.mem_cons, List.not_mem_nil, or_false] at hc
              rcases hc with rfl | rfl | rfl
              · exact hbefore
              · rfl
              · rfl
      · exact hM.earlier i hi c (List.mem_singleton.mp hrow ▸ hc)

theorem nodup_lineage (hM : M.Formed) (c : ClassRef) : (M.heritage c).lineage.Nodup := by
  cases c with
  | builtin b => exact b.nodup_lineage
  | declared i =>
      by_cases hi : i < M.classes.length
      · rcases heritage_cases hi with ⟨style, h, hstyle⟩ | ⟨b, own, hb, h⟩
        · rw [hM.heritage_merged hi h hstyle]
          refine List.nodup_cons.mpr ⟨fun hself => ?_, nodup_mergeRows _ _⟩
          have hbefore := hM.ancestors_isBefore hi _ hself
          rw [isBefore_declared] at hbefore
          cases hbefore
        · rw [h]
          simpa using hb
      · rw [heritage_undeclared (Nat.le_of_not_lt hi)]
        simp

theorem exists_lineage (hM : M.Formed) (c : ClassRef) : ∃ rest, (M.heritage c).lineage = c :: rest := by
  cases c with
  | builtin b => exact ⟨_, rfl⟩
  | declared i =>
      by_cases hi : i < M.classes.length
      · rcases heritage_cases hi with ⟨style, h, hstyle⟩ | ⟨b, own, _, h⟩
        · exact ⟨_, congrArg Heritage.lineage (hM.heritage_merged hi h hstyle)⟩
        · exact ⟨_, congrArg Heritage.lineage h⟩
      · exact ⟨[], congrArg Heritage.lineage (heritage_undeclared (Nat.le_of_not_lt hi))⟩

theorem ancestors_sole (hM : M.Formed) (hbase : M.bases c = [b]) :
    M.ancestors c = (M.heritage b).lineage := by
  obtain ⟨rest, hrest⟩ := hM.exists_lineage b
  have hnd := hM.nodup_lineage b
  rw [ancestors, hbase, List.map_singleton, List.singleton_append]
  rw [hrest] at hnd ⊢
  exact mergeAll_sole hnd

theorem stored_eq_none (hM : M.Formed)
    (h : ∀ d ∈ (M.heritage c).lineage, M.style? d ≠ some .dataclass) : (M.heritage c).stored = none := by
  cases c with
  | builtin b => rfl
  | declared i =>
      -- Lineages are closed, so the classes that an ancestor looks to are ancestors as well.
      induction i using Nat.strongRecOn with
      | _ i ih =>
          by_cases hi : i < M.classes.length
          · rcases heritage_cases hi with ⟨style, hs, hstyle⟩ | ⟨b, own, _, hs⟩
            · have hmerged := hM.heritage_merged hi hs hstyle
              have hself := h (.declared i) (by rw [hmerged]; exact List.mem_cons_self)
              have hplain : style = .plain :=
                hstyle.resolve_right fun hdata => hself (hdata ▸ hs)
              rw [hmerged, if_pos hplain]
              refine List.findSome?_eq_none_iff.mpr fun d hd => ?_
              have hbefore := hM.ancestors_isBefore hi d hd
              have hmem : d ∈ (M.heritage (.declared i)).lineage := by
                rw [hmerged]
                exact List.mem_cons_of_mem _ hd
              rw [find_take hbefore]
              cases d with
              | builtin b => rfl
              | declared j =>
                  exact ih j (of_decide_eq_true hbefore) fun e he => h e (hM.closed i hi _ hmem he)
            · rw [hs]
          · rw [heritage_undeclared (Nat.le_of_not_lt hi)]

end Formed

end Model

end ClassSchema
