import ClassSchema.Proofs.Imports
import ClassSchema.Proofs.Reading
import ClassSchema.Proofs.Resolution
import ClassSchema.Proofs.Words

namespace ClassSchema

theorem IsToken.of_tame {s : String} (hne : s ≠ "") (h : ∀ c ∈ s.toList, Name.isTame c = true ∨ c = '.') :
    IsToken s where
  ne := hne
  plain := by
    intro c hc
    refine ⟨?_, ?_, ?_⟩ <;> rintro rfl <;> rcases h _ hc with h | h <;> exact absurd h (by decide)

theorem IsToken.of_word {s : String} (h : Name.isWord s = true) : IsToken s := by
  obtain ⟨hne, htame⟩ := Name.isWord_iff.mp h
  exact .of_tame hne fun c hc => Or.inl (htame c hc)

theorem IsToken.of_sanitize {s : String} (h : Name.sanitize s ≠ "") : IsToken (Name.sanitize s) where
  ne := h
  plain := by
    intro c hc
    rw [Name.sanitize, String.toList_ofList] at hc
    have hlegal := (List.mem_filter.mp hc).2
    refine ⟨?_, ?_, ?_⟩ <;> rintro rfl <;> exact absurd hlegal (by decide)

theorem Text.mem_pieces {sep c : Char} {cs : List Char} (h : c ∈ cs) :
    c = sep ∨ ∃ p ∈ pieces sep cs, c ∈ p := by
  induction cs with
  | nil => exact absurd h List.not_mem_nil
  | cons x xs ih =>
      unfold pieces
      rcases List.mem_cons.mp h with rfl | h
      · split
        next hx => exact Or.inl hx
        next =>
          split
          next => exact Or.inr ⟨[c], List.mem_cons_self, List.mem_cons_self⟩
          next p ps _ => exact Or.inr ⟨c :: p, List.mem_cons_self, List.mem_cons_self⟩
      · refine (ih h).imp_right ?_
        rintro ⟨q, hq, hc⟩
        split
        next => exact ⟨q, List.mem_cons_of_mem _ hq, hc⟩
        next =>
          split
          next hnil => simp [hnil] at hq
          next p ps hp =>
            rw [hp] at hq
            rcases List.mem_cons.mp hq with rfl | hq
            · exact ⟨x :: q, List.mem_cons_self, List.mem_cons_of_mem x hc⟩
            · exact ⟨q, List.mem_cons_of_mem _ hq, hc⟩

theorem IsToken.of_isPackage {s : String} (h : Name.isPackage s = true) : IsToken s := by
  have hpieces : ∀ p ∈ Text.pieces '.' s.toList, Name.isIdentifierChars p = true :=
    List.all_eq_true.mp h
  refine .of_tame (fun hs => by simp [hs, Text.pieces, Name.isIdentifierChars] at hpieces) fun c hc => ?_
  rcases Text.mem_pieces hc with hdot | ⟨p, hp, hcp⟩
  · exact Or.inr hdot
  · have hident : Name.isIdentifier (String.ofList p) = true := by
      rw [Name.isIdentifier, String.toList_ofList]
      exact hpieces p hp
    exact Or.inl (Name.tame_of_isIdentifier hident c (by rwa [String.toList_ofList]))

theorem Options.package_token (o : Options) {package : String} (h : o.package = some package) :
    IsToken package := by
  have haccepted := o.accepted
  unfold Settings.fault? at haccepted
  split at haccepted
  next => cases haccepted
  next =>
    rw [h] at haccepted
    by_cases hp : Name.isPackage package = true
    · exact .of_isPackage hp
    · simp [hp] at haccepted

theorem IsToken.of_keyword {t : TypeExpr} {keyword : String} (h : t.keyword? = some keyword) :
    IsToken keyword := by
  cases t with
  | cls c =>
      cases c with
      | builtin b => cases b <;> cases h <;> decide
      | declared i => cases h
  | marker m => cases m <;> cases h <;> decide
  | _ => cases h

theorem IsToken.of_resolves {names : List String} {type : String} (h : ResolvesIn names type)
    (hnames : ∀ n ∈ names, IsToken n) : IsToken type := by
  rcases h with rfl | ⟨t, ht⟩ | h
  · decide
  · exact .of_keyword ht
  · exact hnames type h

namespace Compiler

variable {M : Model} {o : Options} {root c : ClassRef} {ps : List Piece}

theorem multiplicity_token (met : List Part) (f : Field) : IsToken (multiplicity met f) := by
  have htokens : IsToken Multiplicity.optional ∧ IsToken Multiplicity.repeated := by decide
  unfold multiplicity
  split
  next => exact htokens.1
  next => exact htokens.1
  next =>
    split
    next => exact htokens.1
    next => exact htokens.2
  all_goals exact htokens.2

theorem Filled.tokens {fs : List Field} {ls : List Line} (h : Filled M o root c fs ls ps) :
    ∀ l ∈ ls, IsToken l.multiplicity ∧ IsToken l.name := by
  induction h with
  | none ps => exact fun l hl => absurd hl List.not_mem_nil
  | field _ _ hf ih =>
      refine List.forall_mem_append.mpr ⟨ih, List.forall_mem_singleton.mpr ⟨?_, ?_⟩⟩
      · exact multiplicity_token _ _
      · exact .of_sanitize hf.legal

theorem Fits.tokens {p : Piece} (h : Fits M o root ps p) :
    ∀ b ∈ pieceBlocks M o root p, ∀ l ∈ b.lines, IsToken l.multiplicity ∧ IsToken l.name := by
  cases p with
  | message c ls =>
      obtain ⟨hlegal, x, _, hfill⟩ := h
      simp only [pieceBlocks, List.forall_mem_cons]
      refine ⟨hfill.tokens, ?_, fun b hb => absurd hb List.not_mem_nil⟩
      exact List.forall_mem_singleton.mpr ⟨(by decide : IsToken Multiplicity.repeated), .of_sanitize hlegal⟩
  | enumeration e =>
      exact List.forall_mem_singleton.mpr fun l hl => absurd hl List.not_mem_nil
  | entry c f =>
      refine List.forall_mem_singleton.mpr (List.forall_mem_cons.mpr ⟨?_, List.forall_mem_singleton.mpr ?_⟩)
      · exact (by decide : IsToken Multiplicity.required ∧ IsToken "key")
      · exact (by decide : IsToken Multiplicity.required ∧ IsToken "value")

/-- What the names in a document are made of, and the options that its text is made with. -/
structure Readable (M : Model) (o : Options) (root : ClassRef) : Prop where
  worded : M.Worded root
  constants : ∀ e, M.Needs root (.enumeration e) → ∀ k ∈ M.constants e, Name.isWord k = true
  indent : ∀ c ∈ o.indent.toList, c = ' ' ∨ c = '\t'
  version : '\n' ∉ o.version.toList

theorem Sound.legible (h : Sound M o root ps) (hr : Readable M o root) :
    ∀ b ∈ blocksOf M o root ps, b.Legible := by
  have hnames : ∀ b ∈ blocksOf M o root ps, IsToken b.name := by
    intro b hb
    obtain ⟨p, hneeds, hname⟩ := h.exists_part hb
    exact .of_word (partNames_word (hr.worded _ hneeds) _ hname)
  intro b hb
  obtain ⟨before, after, hs⟩ := List.append_of_mem hb
  have hresolves : ∀ l ∈ b.lines, ResolvesIn ([] ++ before.map Block.name) l.type :=
    (hs ▸ h.backward : Backward [] (before ++ b :: after)).middle
  obtain ⟨p, hp, hbp⟩ := mem_blocksOf.mp hb
  obtain ⟨later, earlier, hps⟩ := List.append_of_mem hp
  obtain ⟨_, _, hfits⟩ := (hps ▸ h : Sound M o root (later ++ p :: earlier)).fits
  refine ⟨hnames b hb, fun l hl => ?_, ?_⟩
  · obtain ⟨hmultiplicity, hname⟩ := hfits.tokens b hbp l hl
    refine ⟨hmultiplicity, .of_resolves (hresolves l hl) ?_, hname⟩
    intro n hn
    obtain ⟨a, ha, rfl⟩ := List.mem_map.mp hn
    exact hnames a (hs ▸ List.mem_append_left _ ha)
  · rintro name constants rfl c hc
    cases p with
    | enumeration e =>
        cases List.mem_singleton.mp hbp
        exact .of_word (hr.constants e (h.needs _ (List.mem_map_of_mem hp)) c hc)
    | message c ls => simp [pieceBlocks, Block.wrapper] at hbp
    | entry c f => simp [pieceBlocks, Block.mapEntry] at hbp

theorem documentOf_legible {s : Progress} (hat : At M o root [] ps [] s) (hr : Readable M o root)
    (himports : Draft.Imported s.draft.imports ((s.draft.blocks.flatMap Block.lines).map Line.type)) :
    (documentOf o s).Legible where
  version := hr.version
  package := fun _ hp => o.package_token hp
  imports := by
    intro file hf
    rw [himports.eq_file file hf]
    decide
  indent := hr.indent
  blocks := by
    show ∀ b ∈ s.draft.blocks, b.Legible
    rw [hat.blocks]
    exact hat.sound.legible hr

theorem compile_legible {doc : Document} (hr : Readable M o root)
    (h : compile M o (.cls root) = .ok doc) : doc.Legible := by
  have himports := compile_imports h
  obtain ⟨_, ps, s, heq, _, hat, _, rfl⟩ := compile_ok h
  cases heq
  exact documentOf_legible hat hr himports

theorem names_passages (bs : List Block) (r : Reading) (hr : r.passages = bs.map Block.passage) :
    (bs.filter (fun b => b.kind ≠ .enum)).map Block.name = r.messages ∧
      (bs.filter (fun b => b.kind = .enum)).map Block.name = r.enums := by
  rw [Reading.messages, Reading.enums, hr]
  clear hr
  induction bs with
  | nil => exact ⟨rfl, rfl⟩
  | cons b bs ih =>
      cases b with
      | message name lines | entry name lines => simp_all [Block.passage, Block.kind, Block.name]
      | enum name constants => simp_all [Block.passage, Block.kind, Block.name]

/-- A document is read back from its text as it was written. So documents with the same text tell the
same, whatever they have been compiled from. -/
theorem compile_read {doc : Document} (hr : Readable M o root) (h : compile M o (.cls root) = .ok doc) :
    Reading.ofText? doc.text = some doc.reading ∧
      doc.messages = doc.reading.messages ∧ doc.enums = doc.reading.enums ∧
      doc.heading = ⟨o.version, o.package, doc.imports, o.heading⟩ ∧
      ∀ (M' : Model) (o' : Options) (root' : ClassRef) (doc' : Document), Readable M' o' root' →
        compile M' o' (.cls root') = .ok doc' → doc'.text = doc.text → doc'.reading = doc.reading := by
  have htext := (compile_legible hr h).ofText?
  obtain ⟨_, ps, s, heq, _, hat, _, rfl⟩ := compile_ok h
  have hnames := names_passages s.draft.blocks (documentOf o s).reading rfl
  refine ⟨htext, hat.draft.messages.trans hnames.1, hat.draft.enums.trans hnames.2, rfl, ?_⟩
  intro M' o' root' doc' hr' h' htexts
  have htext' := (compile_legible hr' h').ofText?
  rw [htexts, htext] at htext'
  exact (Option.some.inj htext').symm

theorem shop_read : ∃ doc, Readable .shop default (.declared 2) ∧
    compile .shop default (.cls (.declared 2)) = .ok doc ∧
      Reading.ofText? doc.text = some doc.reading ∧ doc.reading.version = some "proto2" ∧
      doc.reading.messages = ["Item", "Items", "GrpcOrderStockEntry", "GrpcOrder", "GrpcOrders"] := by
  have hreadable : Readable .shop default (.declared 2) := by
    let classes : List ClassRef := [.declared 0, .declared 1, .declared 2, .builtin .str]
    have hclosed : ∀ x ∈ classes, ∀ y ∈ Model.shop.mentioned x, y ∈ classes := by decide +kernel
    have hconstants : ∀ e ∈ classes, ∀ k ∈ Model.shop.constants e, Name.isWord k = true := by
      decide +kernel
    refine ⟨?_, ?_, ?_, by decide⟩
    · exact .of_closed classes (by decide) hclosed (by decide +kernel)
    · exact fun e he => hconstants e (he.about_mem (by decide) hclosed)
    · have hindent : ((default : Options).indent.toList.all fun c => c = ' ' ∨ c = '\t') = true := by
        decide
      simpa using hindent
  obtain ⟨doc, h, hmessages⟩ : ∃ doc, compile .shop default (.cls (.declared 2)) = .ok doc ∧
      decide (doc.messages = ["Item", "Items", "GrpcOrderStockEntry", "GrpcOrder", "GrpcOrders"]) = true :=
    exists_of_any (by decide +kernel)
  obtain ⟨htext, hnames, _, hheading, _⟩ := compile_read hreadable h
  refine ⟨doc, hreadable, h, htext, ?_, hnames ▸ of_decide_eq_true hmessages⟩
  rw [Document.reading, hheading]
  rfl

end Compiler

end ClassSchema
