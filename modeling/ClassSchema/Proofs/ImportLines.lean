import ClassSchema.Proofs.FieldLines
import ClassSchema.Proofs.Imports
import ClassSchema.Proofs.Layout

namespace ClassSchema

open Reading

def importLine (file : String) : String := "import \"" ++ file ++ "\";"

def isImportLine (line : String) : Bool := "import ".toList.isPrefixOf line.toList

def importLines (text : String) : List String := (splitAt '\n' text).filter isImportLine

def Options.versionLine (o : Options) : String := "syntax = \"" ++ o.version ++ "\";"

theorem importLines_append (s t : String) :
    importLines (s ++ "\n" ++ t) = importLines s ++ importLines t := by
  have hnewline : "\n".toList = ['\n'] := rfl
  simp only [importLines, splitAt, String.toList_append, hnewline, List.append_assoc,
    List.singleton_append, List.splitOn_append_cons_self, List.map_append, List.filter_append]

theorem importLines_join {ls : List String} (h : ∀ l ∈ ls, '\n' ∉ l.toList) :
    importLines (String.join (ls.map (· ++ "\n"))) = ls.filter isImportLine := by
  have hblank : [""].filter isImportLine = [] := rfl
  rw [importLines, splitAt_lines h, List.filter_append, hblank, List.append_nil]

theorem isImportLine_append {s : String} {c : Char} {cs : List Char} (hs : s.toList = c :: cs)
    (hc : c ≠ 'i') (t : String) : isImportLine (s ++ t) = false := by
  have hletter : "import ".toList = 'i' :: "mport ".toList := rfl
  rw [isImportLine, String.toList_append, hs, hletter, List.cons_append, List.isPrefixOf_cons_cons,
    beq_eq_false_iff_ne.mpr hc.symm, Bool.false_and]

theorem isImportLine_importLine (file : String) : isImportLine (importLine file) = true := by
  have hword : "import \"".toList = "import ".toList ++ ['"'] := rfl
  rw [isImportLine, importLine, String.append_assoc, String.toList_append, hword,
    List.isPrefixOf_iff_prefix, List.append_assoc]
  exact List.prefix_append _ _

namespace Options

variable (o : Options)

def packageLines : List String :=
  match o.package with
  | some package => ["", "package " ++ package ++ ";"]
  | none => []

def importsLines (imports : List String) : List String :=
  if imports = [] then [] else "" :: imports.map importLine

theorem importsLines_text (imports : List String) :
    String.join ((importsLines imports).map (· ++ "\n")) =
      if imports = [] then ""
      else "\n" ++ String.join (imports.map fun file => "import \"" ++ file ++ "\";\n") := by
  have hend : "\";\n" = "\";" ++ "\n" := rfl
  unfold importsLines
  split_ifs with hi
  · rfl
  · simp only [List.map_cons, String.join_cons, List.map_map, Function.comp_def, importLine, hend,
      String.append_assoc, String.empty_append]

theorem header_eq_lines (imports : List String) : o.header imports =
    o.versionLine ++ "\n" ++ String.join ((o.packageLines ++ importsLines imports).map (· ++ "\n")) := by
  have hend : "\";\n" = "\";" ++ "\n" := rfl
  rw [List.map_append, String.join_append, importsLines_text]
  cases hp : o.package with
  | none =>
      simp only [header, packageLines, hp, versionLine, hend, List.map_nil, String.join_nil,
        String.append_assoc]
  | some package =>
      have hopen : "\npackage " = "\n" ++ "package " := rfl
      have hclose : ";\n" = ";" ++ "\n" := rfl
      simp only [header, packageLines, hp, versionLine, hend, hopen, hclose, List.map_cons,
        List.map_nil, String.join_cons, String.join_nil, String.append_assoc, String.empty_append,
        String.append_empty]

theorem packageLines_plain : ∀ l ∈ o.packageLines, '\n' ∉ l.toList ∧ isImportLine l = false := by
  unfold packageLines
  cases hp : o.package with
  | none => exact fun l hl => absurd hl List.not_mem_nil
  | some package =>
      have htoken := (o.package_token hp).newline_not_mem
      refine List.forall_mem_cons.mpr ⟨⟨by decide, rfl⟩, List.forall_mem_singleton.mpr ⟨?_, ?_⟩⟩
      · simpa using htoken
      · rw [String.append_assoc]
        exact isImportLine_append rfl (by decide) _

/-- A heading imports the given files line by line. What else a text for the version may bring is
its own. -/
theorem importLines_header {imports : List String} (h : ∀ file ∈ imports, '\n' ∉ file.toList) :
    importLines (o.header imports) = importLines o.versionLine ++ imports.map importLine := by
  have hfiles : ∀ l ∈ imports.map importLine, '\n' ∉ l.toList := by
    rintro l hl
    obtain ⟨file, hf, rfl⟩ := List.mem_map.mp hl
    simpa [importLine] using h file hf
  have hlines : ∀ l ∈ o.packageLines ++ importsLines imports, '\n' ∉ l.toList := by
    refine List.forall_mem_append.mpr ⟨fun l hl => (o.packageLines_plain l hl).1, ?_⟩
    unfold importsLines
    split_ifs with hi
    · exact fun l hl => absurd hl List.not_mem_nil
    · exact List.forall_mem_cons.mpr ⟨by decide, hfiles⟩
  have hpackage : o.packageLines.filter isImportLine = [] :=
    List.filter_eq_nil_iff.mpr fun l hl => by simp [(o.packageLines_plain l hl).2]
  have himports : (importsLines imports).filter isImportLine = imports.map importLine := by
    have hall : (imports.map importLine).filter isImportLine = imports.map importLine :=
      List.filter_eq_self.mpr (List.forall_mem_map.mpr fun file _ => isImportLine_importLine file)
    have hblank : isImportLine "" = false := rfl
    unfold importsLines
    split_ifs with hi
    · rw [hi]
      rfl
    · rw [List.filter_cons_of_neg (by simp [hblank]), hall]
  rw [header_eq_lines, importLines_append, importLines_join hlines, List.filter_append, hpackage,
    himports, List.nil_append]

theorem importLines_versionLine (h : '\n' ∉ o.version.toList) : importLines o.versionLine = [] := by
  have hplain : '\n' ∉ o.versionLine.toList := by simpa [versionLine] using h
  rw [importLines, splitAt_of_not_mem hplain]
  refine List.filter_eq_nil_iff.mpr (List.forall_mem_singleton.mpr ?_)
  rw [versionLine, String.append_assoc, isImportLine_append rfl (by decide)]
  exact Bool.false_ne_true

end Options

def Model.agenda : Model where
  classes := [
    { name := "Event", body := .record .plain []
        [("times", .subscript (.cls (.builtin .dict)) [.builtin .str, .builtin .datetime])] },
    { name := "Calendar", body := .record .plain []
        [("events", .subscript (.cls (.builtin .list)) [.cls (.declared 0)])] }]

namespace Compiler

variable {M : Model} {o : Options} {root c : ClassRef} {t : TypeExpr} {keyword : String}
  {ps : List Piece} {f : Field}

theorem operandType?_of_keyword {e : TypeExpr} (he : e.unwrap = .ok t) (h : t.keyword? = some keyword) :
    operandType? M o root (some e) = some keyword := by
  have hany : t.isAny = false := by
    rw [Bool.eq_false_iff]
    intro hany
    unfold TypeExpr.isAny at hany
    split at hany
    next => cases h
    next => cases hany
  rw [operandType?_of_unwrap he, typeName?_of_keyword hany h]

theorem Filled.line_of_field {fs : List Field} {ls : List Line} (h : Filled M o root c fs ls ps)
    (hf : f ∈ fs) : ∃ l ∈ ls, l.type = (fieldType? M o root c f).getD defaultType := by
  induction h with
  | none ps => exact absurd hf List.not_mem_nil
  | field _ _ _ ih =>
      rcases List.mem_append.mp hf with hf | hf
      · obtain ⟨l, hl, htype⟩ := ih hf
        exact ⟨l, List.mem_append_left _ hl, htype⟩
      · cases List.mem_singleton.mp hf
        exact ⟨_, List.mem_append_right _ List.mem_cons_self, rfl⟩

theorem Sound.line_of_field (h : Sound M o root ps) (hc : .message c ∈ parts ps)
    (hf : f ∈ M.fieldsOf c) : ∃ b ∈ blocksOf M o root ps, ∃ l ∈ b.lines,
      l.type = (fieldType? M o root c f).getD defaultType := by
  obtain ⟨later, p, earlier, rfl, hp⟩ := exists_split hc
  obtain ⟨_, _, hfit⟩ := h.fits
  cases p with
  | message c' lines =>
      cases hp
      obtain ⟨_, x, hx, hfill⟩ := hfit
      obtain ⟨l, hl, htype⟩ := hfill.line_of_field (Model.fieldsOf_of_describeClass hx ▸ hf)
      have hmem : .message c lines ∈ later ++ .message c lines :: earlier :=
        List.mem_append_right _ List.mem_cons_self
      exact ⟨_, mem_blocksOf.mpr ⟨_, hmem, List.mem_cons_self⟩, l, hl, htype⟩
  | enumeration e => cases hp
  | entry c' f => cases hp

/-- A type with a keyword is written for every field that uses it: in the line of the field, or in
one of the two lines of its entry. -/
theorem Sound.line_of_use (h : Sound M o root ps) (hroot : .message root ∈ parts ps)
    (hc : M.Reachable root c) (hf : f ∈ M.fieldsOf c) (hu : f.Uses t) (ht : t.keyword? = some keyword) :
    ∃ b ∈ blocksOf M o root ps, ∃ l ∈ b.lines, l.type = keyword := by
  obtain ⟨e, he, hunwrap⟩ := hu
  have hname : (operandType? M o root (some e)).getD defaultType = keyword := by
    rw [operandType?_of_keyword hunwrap ht, Option.getD_some]
  cases hs : f.shape with
  | scalar | enum | composite | list | array | collection =>
      have htype : fieldType? M o root c f = operandType? M o root (some e) := by
        simp only [Field.operands, hs, List.mem_singleton] at he
        simp only [fieldType?, hs, he]
      obtain ⟨b, hb, l, hl, hltype⟩ := h.line_of_field (h.reaches hroot hc) hf
      exact ⟨b, hb, l, hl, by rw [hltype, htype, hname]⟩
  | map =>
      have hentry : .entry c f ∈ ps :=
        List.mem_reverse.mp ((h.covers hroot).entry hc hf hs)
      refine ⟨_, mem_blocksOf.mpr ⟨_, hentry, List.mem_cons_self⟩, ?_⟩
      have hlines : (Block.mapEntry (Name.entryName (messageName M o root c) f.name)
          ((operandType? M o root f.key).getD defaultType)
          ((operandType? M o root f.element).getD defaultType)).lines.map Line.type =
          [f.key, f.element].map fun operand => (operandType? M o root operand).getD defaultType := rfl
      simp only [Field.operands, hs] at he
      have hmem := List.mem_map_of_mem (f := fun operand =>
        (operandType? M o root operand).getD defaultType) he
      rw [← hlines, hname] at hmem
      obtain ⟨l, hl, htype⟩ := List.mem_map.mp hmem
      exact ⟨l, hl, htype⟩

/-- A document imports the file of a well-known type if one of its lines has that type, and each
file once. Such a line there is for every use of the type in a class that the root reaches. The
heading has one line for each file. -/
theorem compile_imports_exactly {doc : Document} (h : compile M o t = .ok doc) :
    ∃ root, t = .cls root ∧ doc.imports.Nodup ∧
      (∀ file, file ∈ doc.imports ↔
        ∃ b ∈ doc.blocks, ∃ l ∈ b.lines, wellKnownFile? l.type = some file) ∧
      (∀ c u keyword file, M.Reachable root c → M.Mentions c u → u.keyword? = some keyword →
        wellKnownFile? keyword = some file → file ∈ doc.imports) ∧
      doc.text = (if o.heading then o.header doc.imports else "") ++ "\n" ++
        String.join (doc.blocks.map (Block.setIn o.indent)) ∧
      importLines (o.header doc.imports) =
        importLines o.versionLine ++ doc.imports.map importLine ∧
      ('\n' ∉ o.version.toList → importLines (o.header doc.imports) = doc.imports.map importLine) := by
  have himported := compile_imports h
  have hexact : ∀ file, file ∈ doc.imports ↔
      ∃ b ∈ doc.blocks, ∃ l ∈ b.lines, wellKnownFile? l.type = some file := by
    intro file
    rw [himported.exact]
    simp only [List.mem_map, List.mem_flatMap, exists_exists_and_eq_and]
    constructor
    · rintro ⟨l, ⟨b, hb, hl⟩, hw⟩
      exact ⟨b, hb, l, hl, hw⟩
    · rintro ⟨b, hb, l, hl, hw⟩
      exact ⟨l, ⟨b, hb, hl⟩, hw⟩
  have hplain : ∀ file ∈ doc.imports, '\n' ∉ file.toList := by
    intro file hf
    rw [himported.eq_file file hf]
    decide
  have hheader := o.importLines_header hplain
  obtain ⟨root, ps, s, rfl, _, hat, hroot, rfl⟩ := compile_ok h
  refine ⟨root, rfl, himported.nodup, hexact, ?_, documentOf_text o s, hheader, fun hversion => ?_⟩
  · rintro c u keyword file hc ⟨f, hf, hu⟩ hk hw
    obtain ⟨b, hb, l, hl, rfl⟩ := hat.sound.line_of_use hroot hc hf hu hk
    rw [← hat.blocks] at hb
    exact (hexact file).mpr ⟨b, hb, l, hl, hw⟩
  · rw [hheader, o.importLines_versionLine hversion, List.nil_append]

theorem agenda_imports : ∃ doc root,
    compile .agenda default (.cls (.declared 1)) = .ok doc ∧ TypeExpr.cls (.declared 1) = .cls root ∧
      Model.agenda.Reachable root (.declared 0) ∧
      Model.agenda.Mentions (.declared 0) (.builtin .datetime) ∧
      doc.imports = ["google/protobuf/timestamp.proto"] ∧
      importLines ((default : Options).header doc.imports) =
        ["import \"google/protobuf/timestamp.proto\";"] := by
  obtain ⟨doc, h, hfiles⟩ : ∃ doc, compile .agenda default (.cls (.declared 1)) = .ok doc ∧
      decide (doc.imports = ["google/protobuf/timestamp.proto"]) = true :=
    exists_of_any (by decide +kernel)
  rw [decide_eq_true_eq] at hfiles
  obtain ⟨root, hroot, _, _, _, _, _, hlines⟩ := compile_imports_exactly h
  cases hroot
  refine ⟨doc, _, h, rfl, .single ⟨?_, by decide⟩, ?_, hfiles, ?_⟩
  · exact Model.mentions_of_mem (by decide +kernel)
  · exact Model.mentions_of_mem (by decide +kernel)
  · rw [hlines (by decide), hfiles]
    rfl

end Compiler

end ClassSchema
