import ClassSchema.Proofs.Agreement

namespace ClassSchema

theorem mapM_outcome {ε α β : Type} (f : α → Except ε β) (xs : List α) :
    (∃ ys, List.Forall₂ (fun x y => f x = .ok y) xs ys ∧ xs.mapM f = .ok ys) ∨
      ∃ x ∈ xs, ∃ fault, f x = .error fault ∧ xs.mapM f = .error fault := by
  induction xs with
  | nil => exact .inl ⟨[], .nil, rfl⟩
  | cons x xs ih =>
      rw [List.mapM_cons]
      cases hx : f x with
      | error fault => exact .inr ⟨x, List.mem_cons_self, fault, hx, rfl⟩
      | ok y =>
        rcases ih with ⟨ys, hall, hys⟩ | ⟨z, hz, fault, hfault, hxs⟩
        · rw [hys]
          exact .inl ⟨y :: ys, .cons hx hall, rfl⟩
        · rw [hxs]
          exact .inr ⟨z, List.mem_cons_of_mem x hz, fault, hfault, rfl⟩

theorem exists_of_mem_forall₂ {α β : Type} {R : α → β → Prop} {x : α} {xs : List α} {ys : List β}
    (h : List.Forall₂ R xs ys) (hx : x ∈ xs) : ∃ y, R x y := by
  induction h with
  | nil => cases hx
  | cons hr _ ih =>
      rcases List.mem_cons.mp hx with rfl | hx
      · exact ⟨_, hr⟩
      · exact ih hx

namespace Console

variable {C : Console}

def ShowsCells (C : Console) (rows cells : List (List String)) : Prop :=
  List.Forall₂ (List.Forall₂ fun markup text => C.shown markup = .ok text) rows cells

theorem ShowsCells.shown_of_mem {rows cells : List (List String)} {row : List String} {cell : String}
    (h : C.ShowsCells rows cells) (hrow : row ∈ rows) (hcell : cell ∈ row) :
    ∃ text, C.shown cell = .ok text := by
  obtain ⟨texts, htexts⟩ := exists_of_mem_forall₂ h hrow
  exact exists_of_mem_forall₂ htexts hcell

theorem printTable_outcome (C : Console) (columns : List Column) (rows : List (List String)) :
    (∃ cells, C.ShowsCells rows cells ∧ C.printTable columns rows = .ok (C.table columns cells)) ∨
      ∃ row ∈ rows, ∃ cell ∈ row, ∃ message,
        C.shown cell = .error message ∧ C.printTable columns rows = .error message := by
  rcases mapM_outcome (fun row : List String => row.mapM C.shown) rows with
    ⟨cells, hall, hcells⟩ | ⟨row, hrow, message, hmessage, hrows⟩
  · refine .inl ⟨cells, hall.imp fun row texts htexts => ?_, by rw [printTable, hcells]; rfl⟩
    rcases mapM_outcome C.shown row with ⟨texts', hall', htexts'⟩ | ⟨cell, hcell, message, -, hmessage⟩
    · cases htexts.symm.trans htexts'
      exact hall'
    · cases htexts.symm.trans hmessage
  · rcases mapM_outcome C.shown row with ⟨texts, -, htexts⟩ | ⟨cell, hcell, message', hshown, hmessage'⟩
    · cases htexts.symm.trans hmessage
    · cases hmessage'.symm.trans hmessage
      exact .inr ⟨row, hrow, cell, hcell, message, hshown, by rw [printTable, hrows]; rfl⟩

theorem mapM_of_forall₂ {ε α β : Type} {f : α → Except ε β} {xs : List α} {ys : List β}
    (h : List.Forall₂ (fun x y => f x = .ok y) xs ys) : xs.mapM f = .ok ys := by
  induction h with
  | nil => rfl
  | cons hx _ ih =>
      rw [List.mapM_cons, hx, ih]
      rfl

theorem printTable_of_shows {columns : List Column} {rows cells : List (List String)}
    (h : C.ShowsCells rows cells) : C.printTable columns rows = .ok (C.table columns cells) := by
  have hcells : rows.mapM (·.mapM C.shown) = .ok cells := mapM_of_forall₂ (h.imp fun _ _ => mapM_of_forall₂)
  rw [printTable, hcells]
  rfl

end Console

namespace CommandLine

namespace Summary

variable {C : Console} {M : Model} {s : Summary} {message : String}

/-- All names can be shown that are taken for markup. -/
structure WellFormed (C : Console) (s : Summary) : Prop where
  fields : ∀ f ∈ s.description.fields, ∃ text, C.shown f.name = .ok text
  blocks : ∀ name ∈ s.document.enums ++ s.document.messages, ∃ text, C.shown name = .ok text

theorem WellFormed.of_shows {fields blocks : List (List String)}
    (hfields : C.ShowsCells (s.fieldRows M C) fields) (hblocks : C.ShowsCells s.blockRows blocks) : s.WellFormed C where
  fields f hf := by
    obtain ⟨n, hn⟩ := List.mem_iff_getElem?.mp hf
    have hmem : (f, 1 + n) ∈ s.description.fields.zipIdx 1 := List.mk_add_mem_zipIdx_iff_getElem?.mpr hn
    exact hfields.shown_of_mem (List.mem_map_of_mem hmem) (List.mem_cons_of_mem _ List.mem_cons_self)
  blocks name hname := by
    obtain ⟨kind, hrow⟩ : ∃ kind, [kind, name] ∈ s.blockRows := by
      rcases List.mem_append.mp hname with h | h
      · exact ⟨"enum", List.mem_append_left _ (List.mem_map_of_mem h)⟩
      · exact ⟨"message", List.mem_append_right _ (List.mem_map_of_mem h)⟩
    exact hblocks.shown_of_mem hrow (List.mem_cons_of_mem _ List.mem_cons_self)

def fieldCells (M : Model) (s : Summary) : List (List String) :=
  (s.description.fields.zipIdx 1).map fun p => [toString p.2, p.1.name, p.1.shape.word, shownType M p.1]

theorem unmarked_ordinal (n : Nat) : Console.Unmarked (toString n).toList :=
  (Console.Bare.of_forall fun _ => Console.isBare_of_mem_toString).toUnmarked

theorem unmarked_word (shape : Shape) : Console.Unmarked shape.word.toList :=
  (Console.Bare.of_all (by cases shape <;> decide)).toUnmarked

theorem unmarked_kind {kind : String} (h : kind ∈ ["enum", "message"]) : Console.Unmarked kind.toList := by
  have hbare : ∀ kind ∈ ["enum", "message"], kind.toList.all Text.isBare = true := by decide
  exact (Console.Bare.of_all (hbare kind h)).toUnmarked

theorem unmarked_heading {c : Column} (h : c ∈ fieldColumns ++ blockColumns) :
    Console.Unmarked c.heading.toList := by
  have hbare : ∀ c ∈ fieldColumns ++ blockColumns, c.heading.toList.all Text.isBare = true := by decide
  exact (Console.Bare.of_all (hbare c h)).toUnmarked

theorem marks_empty : Console.Marks "" "" := .words (.of_all (by decide))

theorem shown_escaped (hC : C.Lawful) (t : String) : ∃ text, C.shown (C.escape t) = .ok text ∧
    (Text.Clear t.toList → '\\' ∉ t.toList → text = t) := by
  have hescaped := hC.escaped t marks_empty
  rwa [String.empty_append, String.empty_append] at hescaped

/-- Of the cells of a field, only its name can be at fault. -/
theorem eq_name_of_error (hC : C.Lawful) {f : Field} {ordinal : Nat} {cell : String}
    (hcell : cell ∈ fieldRow M C ordinal f) (h : C.shown cell = .error message) : cell = f.name := by
  simp only [fieldRow, List.mem_cons, List.not_mem_nil, or_false] at hcell
  rcases hcell with rfl | rfl | rfl | rfl
  · cases (hC.unmarked (unmarked_ordinal ordinal)).symm.trans h
  · rfl
  · cases (hC.unmarked (unmarked_word f.shape)).symm.trans h
  · obtain ⟨text, htext, -⟩ := shown_escaped hC (shownType M f)
    cases htext.symm.trans h

theorem fieldTable_outcome (hC : C.Lawful) (M : Model) (s : Summary) :
    (∃ cells, C.ShowsCells (s.fieldRows M C) cells ∧
        C.printTable fieldColumns (s.fieldRows M C) = .ok (C.table fieldColumns cells)) ∨
      ∃ f ∈ s.description.fields, ∃ message,
        C.shown f.name = .error message ∧ C.printTable fieldColumns (s.fieldRows M C) = .error message := by
  refine (C.printTable_outcome fieldColumns (s.fieldRows M C)).imp_right ?_
  rintro ⟨row, hrow, cell, hcell, message, hmessage, hprint⟩
  obtain ⟨⟨f, ordinal⟩, hmem, rfl⟩ := List.mem_map.mp hrow
  obtain rfl := eq_name_of_error hC hcell hmessage
  exact ⟨f, List.fst_mem_of_mem_zipIdx hmem, message, hmessage, hprint⟩

theorem mem_blockRows {row : List String} (h : row ∈ s.blockRows) :
    ∃ kind ∈ ["enum", "message"], ∃ name ∈ s.document.enums ++ s.document.messages, row = [kind, name] := by
  rcases List.mem_append.mp h with h | h
  · obtain ⟨name, hname, rfl⟩ := List.mem_map.mp h
    exact ⟨"enum", by decide, name, List.mem_append_left _ hname, rfl⟩
  · obtain ⟨name, hname, rfl⟩ := List.mem_map.mp h
    exact ⟨"message", by decide, name, List.mem_append_right _ hname, rfl⟩

theorem blockTable_outcome (hC : C.Lawful) (s : Summary) :
    (∃ cells, C.ShowsCells s.blockRows cells ∧
        C.printTable blockColumns s.blockRows = .ok (C.table blockColumns cells)) ∨
      ∃ name ∈ s.document.enums ++ s.document.messages, ∃ message,
        C.shown name = .error message ∧ C.printTable blockColumns s.blockRows = .error message := by
  refine (C.printTable_outcome blockColumns s.blockRows).imp_right ?_
  rintro ⟨row, hrow, cell, hcell, message, hmessage, hprint⟩
  obtain ⟨kind, hkind, name, hname, rfl⟩ := mem_blockRows hrow
  simp only [List.mem_cons, List.not_mem_nil, or_false] at hcell
  rcases hcell with rfl | rfl
  · cases (hC.unmarked (unmarked_kind hkind)).symm.trans hmessage
  · exact ⟨cell, hname, message, hmessage, hprint⟩

/-- Nothing in the names is markup, and nothing in the types but tags could be. -/
structure Plain (M : Model) (s : Summary) : Prop where
  names : ∀ f ∈ s.description.fields, Console.Unmarked f.name.toList
  types : ∀ f ∈ s.description.fields, Text.Clear (shownType M f).toList ∧ '\\' ∉ (shownType M f).toList
  blocks : ∀ name ∈ s.document.enums ++ s.document.messages, Console.Unmarked name.toList

theorem Plain.fieldCells (hC : C.Lawful) (h : s.Plain M) :
    C.ShowsCells (s.fieldRows M C) (s.fieldCells M) := by
  refine List.forall₂_map_left_iff.mpr (List.forall₂_map_right_iff.mpr (List.forall₂_same.mpr ?_))
  rintro ⟨f, ordinal⟩ hmem
  have hf : f ∈ s.description.fields := List.fst_mem_of_mem_zipIdx hmem
  obtain ⟨text, htext, hexact⟩ := shown_escaped hC (shownType M f)
  obtain rfl := hexact (h.types f hf).1 (h.types f hf).2
  exact .cons (hC.unmarked (unmarked_ordinal ordinal)) (.cons (hC.unmarked (h.names f hf))
    (.cons (hC.unmarked (unmarked_word f.shape)) (.cons htext .nil)))

theorem Plain.blockRows (hC : C.Lawful) (h : s.Plain M) : C.ShowsCells s.blockRows s.blockRows := by
  refine List.forall₂_same.mpr fun row hrow => ?_
  obtain ⟨kind, hkind, name, hname, rfl⟩ := mem_blockRows hrow
  exact .cons (hC.unmarked (unmarked_kind hkind)) (.cons (hC.unmarked (h.blocks name hname)) .nil)

theorem Plain.lists_fields (hC : C.Roomy) (h : s.Plain M) :
    Table.Lists (fieldColumns.map (·.heading) :: s.fieldCells M) (C.table fieldColumns (s.fieldCells M)) := by
  refine hC.table (by decide) (fun c hc => unmarked_heading (List.mem_append_left _ hc)) fun row hrow => ?_
  obtain ⟨⟨f, ordinal⟩, hmem, rfl⟩ := List.mem_map.mp hrow
  have hf : f ∈ s.description.fields := List.fst_mem_of_mem_zipIdx hmem
  refine ⟨rfl, ?_⟩
  simp only [List.forall_mem_cons]
  exact ⟨(unmarked_ordinal ordinal).clear, (h.names f hf).clear, (unmarked_word f.shape).clear,
    (h.types f hf).1, fun _ h => absurd h List.not_mem_nil⟩

theorem Plain.lists_blocks (hC : C.Roomy) (h : s.Plain M) :
    Table.Lists (blockColumns.map (·.heading) :: s.blockRows) (C.table blockColumns s.blockRows) := by
  refine hC.table (by decide) (fun c hc => unmarked_heading (List.mem_append_right _ hc)) fun row hrow => ?_
  obtain ⟨kind, hkind, name, hname, rfl⟩ := mem_blockRows hrow
  refine ⟨rfl, ?_⟩
  simp only [List.forall_mem_cons]
  exact ⟨(unmarked_kind hkind).clear, (h.blocks name hname).clear, fun _ h => absurd h List.not_mem_nil⟩

end Summary

/-- A name that would close a style which is not open. -/
def Closes (name : String) : Prop := ∃ before tag after, Console.Bare before.toList ∧ Console.IsTag tag ∧
  Console.Bare after.toList ∧ name = before ++ "[/" ++ tag ++ "]" ++ after

/-- A name with a tag that opens a style, and what is left of it without the tag. -/
def Opens (name rest : String) : Prop := ∃ before tag after, Console.Bare before.toList ∧ Console.IsTag tag ∧
  Console.Bare after.toList ∧ name = before ++ "[" ++ tag ++ "]" ++ after ∧ rest = before ++ after

/-- The tables list the fields and the blocks in their order if all names can be shown, and break off
if not. Names are shown as they are if they are plain, and tags in them are not. -/
structure Tabulates (C : Console) (M : Model) (s : Summary) (info : Outcome) : Prop where
  formed : s.WellFormed C → info.exit = 0 ∧ ∃ title fields blocks, C.shown (s.title M C) = .ok title ∧
    C.ShowsCells (s.fieldRows M C) fields ∧ C.ShowsCells s.blockRows blocks ∧
    info.out = C.lines true title ++ C.table Summary.fieldColumns fields ++ "\n" ++ C.lines true "Blocks" ++
      C.table Summary.blockColumns blocks
  broken : ¬ s.WellFormed C → info.exit = 1 ∧ ∃ message, info.failure = some (.markup message)
  closing : ∀ f ∈ s.description.fields, Closes f.name → info.exit = 1
  opening : ∀ f ∈ s.description.fields, ∀ rest, Opens f.name rest → C.shown f.name = .ok rest ∧ rest ≠ f.name
  lists : C.Roomy → s.Plain M → info.exit = 0 ∧ ∃ title fields blocks,
    (∃ text, C.shown (s.title M C) = .ok text ∧ title = C.lines true text) ∧
    info.out = title ++ fields ++ "\n" ++ "Blocks\n" ++ blocks ∧
    Table.Lists (Summary.fieldColumns.map (·.heading) :: s.fieldCells M) fields ∧
    Table.Lists (Summary.blockColumns.map (·.heading) :: s.blockRows) blocks

section Run

variable {C : Console} {read : Reader} {w : Workspace} {target : Target} {arguments : List String}
  {s : Summary}

theorem run_tabulated (h : read w arguments = .ok (.summary target false))
    (hsummary : summaryOf w target = .ok s) :
    run C w read arguments = finish C w (printTables C w s {}) := by
  have hlift : Running.lift id (Except.ok s) = pure s := rfl
  rw [run_eq_finish h, perform, hsummary, hlift, pure_bind, if_neg Bool.false_ne_true]

theorem print_title (hC : C.Lawful) (M : Model) (s : Summary) : ∃ title, C.shown (s.title M C) = .ok title ∧
    C.print true (s.title M C) = .ok (C.lines true title) := by
  obtain ⟨title, htitle, -⟩ := hC.styled .title (M.qualifiedName s.description.type)
  exact ⟨title, htitle, Console.print_of_shown true htitle⟩

theorem print_blocks (hC : C.Lawful) :
    C.print true (Console.Style.title.mark "Blocks") = .ok (C.lines true "Blocks") := by
  have hmarks : Console.Marks (Console.Style.title.mark "Blocks" ++ "") ("Blocks" ++ "") :=
    .styled .title (.of_all (by decide)) (.of_all (by decide))
  rw [String.append_empty, String.append_empty] at hmarks
  exact Console.print_of_shown true (hC.marked hmarks)

theorem finish_printTables {title : String} {fields blocks : List (List String)}
    (hC : C.Lawful) (htitle : C.print true (s.title w.model C) = .ok (C.lines true title))
    (hfields : C.printTable Summary.fieldColumns (s.fieldRows w.model C) =
      .ok (C.table Summary.fieldColumns fields))
    (hblocks : C.printTable Summary.blockColumns s.blockRows = .ok (C.table Summary.blockColumns blocks)) :
    finish C w (printTables C w s {}) = {
      out := C.lines true title ++ C.table Summary.fieldColumns fields ++ "\n" ++ C.lines true "Blocks" ++
        C.table Summary.blockColumns blocks
      exit := 0 } := by
  have hout : "" ++ C.lines true title = C.lines true title := String.empty_append
  simp only [printTables, htitle, hfields, print_blocks hC, hblocks]
  rw [← hout]
  rfl

theorem Summary.WellFormed.finish (hC : C.Lawful) (h : s.WellFormed C) (w : Workspace) :
    ∃ title fields blocks, C.shown (s.title w.model C) = .ok title ∧
      C.ShowsCells (s.fieldRows w.model C) fields ∧ C.ShowsCells s.blockRows blocks ∧
      finish C w (printTables C w s {}) = {
        out := C.lines true title ++ C.table Summary.fieldColumns fields ++ "\n" ++ C.lines true "Blocks" ++
          C.table Summary.blockColumns blocks
        exit := 0 } := by
  obtain ⟨title, htitle, hprint⟩ := print_title hC w.model s
  rcases Summary.fieldTable_outcome hC w.model s with
    ⟨fields, hfields, hfieldTable⟩ | ⟨f, hf, message, hmessage, -⟩
  · rcases Summary.blockTable_outcome hC s with
      ⟨blocks, hblocks, hblockTable⟩ | ⟨name, hname, message, hmessage, -⟩
    · exact ⟨title, fields, blocks, htitle, hfields, hblocks,
        finish_printTables hC hprint hfieldTable hblockTable⟩
    · obtain ⟨text, htext⟩ := h.blocks name hname
      cases htext.symm.trans hmessage
  · obtain ⟨text, htext⟩ := h.fields f hf
    cases htext.symm.trans hmessage

theorem finish_printTables_broken (hC : C.Lawful) (w : Workspace) (h : ¬ s.WellFormed C) :
    ∃ message, (finish C w (printTables C w s {})).exit = 1 ∧
      (finish C w (printTables C w s {})).failure = some (.markup message) := by
  obtain ⟨title, -, hprint⟩ := print_title hC w.model s
  rcases Summary.fieldTable_outcome hC w.model s with
    ⟨fields, hfields, hfieldTable⟩ | ⟨f, -, message, -, hfieldTable⟩
  · rcases Summary.blockTable_outcome hC s with
      ⟨blocks, hblocks, -⟩ | ⟨name, -, message, -, hblockTable⟩
    · exact absurd (.of_shows hfields hblocks) h
    · simp only [printTables, hprint, hfieldTable, print_blocks hC, hblockTable]
      exact ⟨message, rfl, rfl⟩
  · simp only [printTables, hprint, hfieldTable]
    exact ⟨message, rfl, rfl⟩

theorem Tabulates.of_printTables (hC : C.Lawful) (w : Workspace) (s : Summary) :
    Tabulates C w.model s (finish C w (printTables C w s {})) where
  formed h := by
    obtain ⟨title, fields, blocks, htitle, hfields, hblocks, hinfo⟩ := h.finish hC w
    rw [hinfo]
    exact ⟨rfl, title, fields, blocks, htitle, hfields, hblocks, rfl⟩
  broken h := by
    obtain ⟨message, hexit, hfailure⟩ := finish_printTables_broken hC w h
    exact ⟨hexit, message, hfailure⟩
  closing f hf := by
    rintro ⟨before, tag, after, hbefore, htag, hafter, hname⟩
    obtain ⟨message, hmessage⟩ := hC.closing hbefore htag hafter
    have hbroken : ¬ s.WellFormed C := by
      intro h
      obtain ⟨text, htext⟩ := h.fields f hf
      rw [hname, hmessage] at htext
      cases htext
    obtain ⟨-, hexit, -⟩ := finish_printTables_broken hC w hbroken
    exact hexit
  opening f hf rest := by
    rintro ⟨before, tag, after, hbefore, htag, hafter, hname, rfl⟩
    refine ⟨hname ▸ hC.opening hbefore htag hafter, fun h => ?_⟩
    have hlength := congrArg String.length (h.trans hname)
    simp only [String.length_append, show "[".length = 1 from rfl, show "]".length = 1 from rfl] at hlength
    omega
  lists hroomy h := by
    obtain ⟨title, htitle, hprint⟩ := print_title hC w.model s
    have hblocks : C.lines true "Blocks" = "Blocks\n" := by
      have hlast : "Blocks".toList.getLast? = some 's' := by decide
      rw [hroomy.lines]
      refine hC.lines (Console.Bare.of_all (by decide)).clear fun c hc => ?_
      cases hlast.symm.trans hc
      decide
    rw [finish_printTables hC hprint (Console.printTable_of_shows (h.fieldCells hC))
      (Console.printTable_of_shows (h.blockRows hC)), hblocks]
    exact ⟨rfl, C.lines true title, _, _, ⟨title, htitle, rfl⟩, rfl, h.lists_fields hroomy,
      h.lists_blocks hroomy⟩

/-- Where a class is compiled, a summary as tables is made of it. -/
theorem info_tabulates {c : ClassRef} {session : Session} {document : Document} (hC : C.Lawful)
    (h : read w arguments = .ok (.summary target false))
    (hload : ClassName.load w.model target.name target.search w.session = .ok c session)
    (hcompile : Compiler.compile w.model default (.cls c) = .ok document) :
    ∃ description, w.model.describeClass c = .ok description ∧
      Tabulates C w.model { description, document } (run C w read arguments) := by
  cases hd : w.model.describeClass c with
  | error fault =>
    rw [Compiler.compile_of_undescribed hd] at hcompile
    cases hcompile
  | ok description =>
    refine ⟨description, rfl, ?_⟩
    rw [run_tabulated h (summaryOf_ok hload hd hcompile)]
    exact .of_printTables hC w _

end Run

theorem single_tabulates : ∃ description document,
    Workspace.single.model.describeClass (.declared 0) = .ok description ∧
      Compiler.compile Workspace.single.model default (.cls (.declared 0)) = .ok document ∧
      Console.plain.Lawful ∧ Console.plain.Roomy ∧
      Tabulates .plain Workspace.single.model { description, document }
        (run .plain .single Request.ofCommandLine ["info", "-t", "m:Item"]) ∧
      (run .plain .single Request.ofCommandLine ["info", "-t", "m:Item"]).out =
        "m.Item\n#  Field  Shape   Type          \n1  size   scalar  builtins.int  \n\nBlocks\n" ++
          "Kind     Name       \nmessage  GrpcItem   \nmessage  GrpcItems  \n" := by
  obtain ⟨document, hcompile⟩ : ∃ document,
      Compiler.compile Workspace.single.model default (.cls (.declared 0)) = .ok document :=
    exists_of_isSome (by decide +kernel)
  have hread : Request.ofCommandLine .single ["info", "-t", "m:Item"] = .ok (.summary ⟨"m:Item", []⟩ false) :=
    rfl
  have hload : ClassName.load Workspace.single.model "m:Item" [] Workspace.single.session =
      .ok (.declared 0) Workspace.single.session := rfl
  obtain ⟨description, hd, htabulates⟩ := info_tabulates Console.plain_lawful hread hload hcompile
  exact ⟨description, document, hd, hcompile, Console.plain_lawful, Console.plain_roomy, htabulates,
    by decide +kernel⟩

end CommandLine

def Workspace.holding (field : String) : Workspace where
  model :=
    { modules := [{ name := "m", bindings := [("Item", .cls (.declared 0))] }]
      classes := [{ name := "Item", body := .record .plain [] [(field, .builtin .int)] }] }
  session := { loaded := [{ name := "m", index := some 0, directories := none }] }

namespace CommandLine

/-- A tag in the name of a field is not shown. -/
theorem not_always_tabulated : ¬ ∀ (C : Console) (read : Reader) (w : Workspace) (target : Target)
    (arguments : List String) (c : ClassRef) (session : Session) (document : Document), C.Lawful →
    read w arguments = .ok (.summary target false) →
      ClassName.load w.model target.name target.search w.session = .ok c session →
      Compiler.compile w.model default (.cls c) = .ok document →
      (run C w read arguments).exit = 0 ∧
        ∀ f ∈ w.model.fieldsOf c, f.name.toList <:+: (run C w read arguments).out.toList := by
  intro hall
  obtain ⟨document, hcompile⟩ : ∃ document,
      Compiler.compile (Workspace.holding "size[b]").model default (.cls (.declared 0)) = .ok document :=
    exists_of_isSome (by decide +kernel)
  have hread : Request.ofCommandLine (.holding "size[b]") ["info", "-t", "m:Item"] =
      .ok (.summary ⟨"m:Item", []⟩ false) := rfl
  obtain ⟨-, hshown⟩ :=
    hall .plain Request.ofCommandLine _ _ _ _ _ document Console.plain_lawful hread rfl hcompile
  have hnames : ((Workspace.holding "size[b]").model.fieldsOf (.declared 0)).map (·.name) = ["size[b]"] := by
    decide +kernel
  obtain ⟨f, hf, hname⟩ := List.mem_map.mp (hnames ▸ List.mem_singleton_self "size[b]")
  have hout : (run .plain (.holding "size[b]") Request.ofCommandLine ["info", "-t", "m:Item"]).out =
      "m.Item\n#  Field  Shape   Type          \n1  size   scalar  builtins.int  \n\nBlocks\n" ++
        "Kind     Name       \nmessage  GrpcItem   \nmessage  GrpcItems  \n" := by
    decide +kernel
  have hinfix := hshown f hf
  rw [hname, hout] at hinfix
  exact absurd hinfix (by decide +kernel)

/-- A tag that closes what is not open breaks the summary off after its title. -/
example : (run .plain (.holding "size[/b]") Request.ofCommandLine ["info", "-t", "m:Item"]).exit = 1 ∧
    (run .plain (.holding "size[/b]") Request.ofCommandLine ["info", "-t", "m:Item"]).out = "m.Item\n" := by
  decide +kernel

end CommandLine

end ClassSchema
