import ClassSchema.Proofs.Delivery
import ClassSchema.Proofs.JsonText
import ClassSchema.Proofs.Layout
import ClassSchema.Proofs.Runs

namespace ClassSchema

theorem Model.describeClass_builtin (M : Model) (b : Builtin) :
    ∃ d, M.describeClass (.builtin b) = .ok d := by
  have hd : M.declarations (.builtin b) = [] := by
    simp [declarations, heritage_builtin, Builtin.heritage]
  have hstored : (M.heritage (.builtin b)).stored = none := by
    simp [heritage_builtin, Builtin.heritage]
  have htypes : M.resolvedFields (.builtin b) = .ok [] := by
    simp only [resolvedFields, hd, resolveEach]
    rfl
  have hnames : M.fieldNames (.builtin b) [] = [] := by
    simp [fieldNames, hstored]
  by_cases he : M.isEnumClass (.builtin b) = true
  · rw [describeClass, if_pos he]
    exact ⟨_, rfl⟩
  · rw [describeClass, if_neg he, htypes]
    simp only [bind, Except.bind, hnames]
    exact ⟨_, rfl⟩

theorem Model.isComposite_of_undescribed {M : Model} {c : ClassRef} {fault : Fault}
    (h : M.describeClass c = .error fault) : M.isComposite c = true := by
  have he : M.isEnumClass c = false := by
    rw [← Bool.not_eq_true]
    intro he
    rw [describeClass, if_pos he] at h
    cases h
  cases c with
  | builtin b =>
    obtain ⟨d, hd⟩ := M.describeClass_builtin b
    rw [hd] at h
    cases h
  | declared i => exact isComposite_iff.mpr ⟨rfl, rfl, he, rfl⟩

namespace Compiler

variable {M : Model} {o : Options} {root c : ClassRef} {doc : Document} {fault : Fault}

/-- A root that cannot be described fails its compilation with the same fault. -/
theorem compile_of_undescribed (h : M.describeClass c = .error fault) :
    compile M o (.cls c) = .error fault := by
  have hcomp := Model.isComposite_of_undescribed h
  have hbuild : buildMessage M o (levels M) (.cls c) .root {} = .error fault {} := by
    simp only [levels, buildMessage, Model.describe, h]
    rfl
  simp only [compile, checkRoot_composite hcomp, bind, Except.bind, hbuild]
  rfl

theorem linesFrom_eq_mapIdx (enter : List Piece → ClassRef → List Piece) (ps : List Piece)
    (fs : List Field) :
    linesFrom M o root enter c 0 ps fs = fs.mapIdx fun i f =>
      fieldLine M o root (parts ((fs.take i).foldl (meetField M enter c) ps)) c (i + 1) f := by
  refine List.ext_getElem? fun i => ?_
  have hi : ((0 : Nat) : Int) + i + 1 = i + 1 := by omega
  rw [linesFrom_getElem?, List.getElem?_mapIdx, hi]

theorem compile_root (h : compile M o (.cls root) = .ok doc) :
    ∃ (earlier : List Block) (met : Nat → List Part), doc.blocks = earlier ++
      [.message (messageName M o root root)
        ((M.fieldsOf root).mapIdx fun i f => fieldLine M o root (met i) root (i + 1) f),
       .wrapper (messageName M o root root)] := by
  obtain ⟨_, s, heq, _, hat, _, rfl⟩ := compile_visits h
  cases heq
  have hblocks := hat.blocks
  rw [levels, visit, linesFrom_eq_mapIdx, blocksOf_cons] at hblocks
  let enter := visit M o root M.classes.length
  exact ⟨_, fun i => parts (((M.fieldsOf root).take i).foldl (meetField M enter root) []), hblocks⟩

end Compiler

namespace CommandLine

variable {C : Console} {read : Reader} {w : Workspace} {target : Target} {trouble : Trouble} {json : Bool}
  {arguments genArguments infoArguments : List String}

theorem summaryOf_document (w : Workspace) (target : Target) :
    Summary.document <$> summaryOf w target = schemaOf w target {} := by
  have hsettings : Options.ofSettings {} = .ok default := rfl
  have hschema : schemaOf w target {} = loadTarget w target >>= compileWith w default := rfl
  rw [hschema, summaryOf]
  cases loadTarget w target with
  | error trouble => rfl
  | ok c =>
    cases hd : w.model.describeClass c with
    | error fault =>
      simp only [bind, Except.bind, Model.describe, hd, compileWith, Compiler.compile_of_undescribed hd]
      rfl
    | ok description =>
      simp only [bind, Except.bind, Model.describe, hd]
      cases compileWith w default c with
      | error trouble => rfl
      | ok document => rfl

theorem summaryOf_error (h : schemaOf w target {} = .error trouble) :
    summaryOf w target = .error trouble := by
  rw [← summaryOf_document] at h
  cases hs : summaryOf w target with
  | ok s =>
    rw [hs] at h
    cases h
  | error trouble' =>
    rw [hs] at h
    cases h
    rfl

theorem summaryOf_ok {c : ClassRef} {session : Session} {description : Description}
    {document : Document}
    (hload : ClassName.load w.model target.name target.search w.session = .ok c session)
    (hd : w.model.describeClass c = .ok description)
    (hcompile : Compiler.compile w.model default (.cls c) = .ok document) :
    summaryOf w target = .ok { description, document } := by
  have hcompiled : compileWith w default c = .ok document := by
    rw [compileWith, hcompile]
    rfl
  simp only [summaryOf, loadTarget, hload, Model.describe, bind, Except.bind, hd, hcompiled]
  rfl

theorem run_summarised {s : Summary} (h : read w arguments = .ok (.summary target true))
    (hsummary : summaryOf w target = .ok s) :
    run C w read arguments = { out := Json.print 0 (s.toValue w.model) ++ "\n", exit := 0 } := by
  have hout (t : String) : "" ++ t = t := String.empty_append
  rw [run_eq_finish h, perform, hsummary, ← hout (Json.print 0 _ ++ "\n")]
  rfl

theorem run_unsummarised (h : read w arguments = .ok (.summary target json))
    (hsummary : summaryOf w target = .error trouble) :
    run C w read arguments = finish C w (.error trouble {}) := by
  rw [run_eq_finish h, perform, hsummary]
  rfl

def Holds (v : Value) (key : String) (texts : List String) : Prop :=
  v.field? key = some (.list (texts.map .text))

/-- What is told of a field: its name, its shape, and the names of its types. -/
structure TellsField (M : Model) (f : Field) (v : Value) : Prop where
  owner : (v.field? "declaring_type").bind Value.string? = M.typeName? f.owner
  name : v.field? "name" = some (.text f.name)
  declared : (v.field? "declared_type").bind Value.string? = M.typeName? f.declared
  shape : v.field? "shape" = some (.text f.shape.word)
  element : (v.field? "element_type").bind Value.string? = f.element.bind M.typeName?
  key : (v.field? "key_type").bind Value.string? = f.key.bind M.typeName?

/-- What is told of a class, with an entry for each field in turn. -/
structure TellsClass (M : Model) (description : Description) (v : Value) : Prop where
  type : v.field? "type" = some (.text (M.qualifiedName description.type))
  name : v.field? "name" = some (.text (M.simpleName description.type))
  qualifiedName : v.field? "qualified_name" = some (.text (M.qualifiedName description.type))
  isEnum : v.field? "is_enum" = some (.bool description.isEnum)
  constants : Holds v "constants" description.constants
  fields : ∃ entries, v.field? "fields" = some (.list entries) ∧
    List.Forall₂ (TellsField M) description.fields entries

structure Tells (M : Model) (description : Description) (document : Document) (v : Value) : Prop where
  messages : Holds v "messages" ((document.blocks.filter (·.keyword = "message")).map Block.name)
  enums : Holds v "enums" ((document.blocks.filter (·.keyword = "enum")).map Block.name)
  imports : Holds v "imports" document.imports
  described : ∃ type, v.field? "type" = some type ∧ TellsClass M description type

/-- The summary lists what the text of the document shows, and the fields of the root in the order
of the lines of its message. -/
structure Summarises (M : Model) (root : ClassRef) (description : Description) (document : Document)
    (gen info : Outcome) : Prop where
  gen_exit : gen.exit = 0
  gen_out : gen.out = (default : Options).setText document.imports document.blocks
  info_exit : info.exit = 0
  told : ∃ v, Json.read? info.out = some v ∧ Tells M description document v
  read : Compiler.Readable M default root → ∃ r, Reading.ofText? gen.out = some r ∧
    r.messages = (document.blocks.filter (·.keyword = "message")).map Block.name ∧
    r.enums = (document.blocks.filter (·.keyword = "enum")).map Block.name ∧
    r.imports = document.imports
  lines : ∃ (earlier : List Block) (met : Nat → List Part), document.blocks = earlier ++
    [.message ("Grpc" ++ M.simpleName root) (description.fields.mapIdx fun i f =>
        Compiler.fieldLine M default root (met i) root (i + 1) f),
      .wrapper ("Grpc" ++ M.simpleName root)]

theorem areVerbal_map {α : Type} {f : α → Value} (h : ∀ a, (f a).isVerbal = true) (l : List α) :
    Value.areVerbal (l.map f) = true := by
  induction l with
  | nil => rfl
  | cons a l ih => rw [List.map_cons, Value.areVerbal, h, ih, Bool.and_true]

theorem isVerbal_ofText? (s : Option String) : (Value.ofText? s).isVerbal = true := by
  cases s <;> rfl

theorem isVerbal_ofTexts (ss : List String) : (Value.ofTexts ss).isVerbal = true := by
  rw [Value.ofTexts, Value.isVerbal, areVerbal_map fun _ => rfl]

theorem isVerbal_field (M : Model) (f : Field) : (f.toValue M).isVerbal = true := by
  simp [Field.toValue, Value.isVerbal, Value.haveVerbal, isVerbal_ofText?]

theorem isVerbal_summary (M : Model) (s : Summary) : (s.toValue M).isVerbal = true := by
  simp [Summary.toValue, Description.toValue, Value.isVerbal, Value.haveVerbal, isVerbal_ofTexts,
    areVerbal_map (isVerbal_field M)]

theorem string?_ofText? (s : Option String) : (Value.ofText? s).string? = s := by
  cases s <;> rfl

theorem tellsField_toValue (M : Model) (f : Field) : TellsField M f (f.toValue M) where
  owner := string?_ofText? _
  name := rfl
  declared := string?_ofText? _
  shape := rfl
  element := string?_ofText? _
  key := string?_ofText? _

theorem tellsClass_toValue (M : Model) (d : Description) : TellsClass M d (d.toValue M) where
  type := rfl
  name := rfl
  qualifiedName := rfl
  isEnum := rfl
  constants := rfl
  fields := ⟨_, rfl, List.forall₂_map_right_iff.mpr (List.forall₂_same.mpr fun f _ => tellsField_toValue M f)⟩

theorem Summarises.of_compile {M : Model} {root : ClassRef} {description : Description}
    {document : Document} (hd : M.describeClass root = .ok description)
    (h : Compiler.compile M default (.cls root) = .ok document) :
    Summarises M root description document { out := document.text, exit := 0 }
      { out := Json.print 0 (Summary.toValue M { description, document }) ++ "\n", exit := 0 } := by
  have hroot := Compiler.compile_root h
  have hread (hr : Compiler.Readable M default root) := (Compiler.compile_legible hr h).ofText?
  obtain ⟨_, _, s, heq, _, hat, _, rfl⟩ := Compiler.compile_ok h
  cases heq
  have hmessages := hat.draft.messages
  have henums := hat.draft.enums
  obtain ⟨hreadMessages, hreadEnums⟩ :=
    Compiler.names_passages s.draft.blocks (Compiler.documentOf default s).reading rfl
  simp only [← Draft.keyword_message_iff, ← Draft.keyword_enum_iff] at hmessages henums
  simp only [← Draft.keyword_message_iff, ← Draft.keyword_enum_iff] at hreadMessages hreadEnums
  refine ⟨rfl, Compiler.documentOf_text _ s, rfl, ⟨_, Json.read?_print (isVerbal_summary M _) rfl, ?_⟩,
    fun hr => ?_, ?_⟩
  · exact ⟨congrArg (some ∘ Value.ofTexts) hmessages, congrArg (some ∘ Value.ofTexts) henums, rfl,
      _, rfl, tellsClass_toValue M description⟩
  · exact ⟨_, hread hr, hreadMessages.symm, hreadEnums.symm, rfl⟩
  · rw [Compiler.messageName_root, Model.fieldsOf_of_describeClass hd] at hroot
    exact hroot

/-- The schema of a class is asked for, and its summary as JSON. Both runs are refused alike, or the
summary tells what the schema shows. -/
theorem info_agrees_with_gen (hC : C.Lawful) (hgen : read w genArguments = .ok (.schema target {} none))
    (hinfo : read w infoArguments = .ok (.summary target true)) :
    let gen := run C w read genArguments
    let info := run C w read infoArguments
    (info.exit = 0 ↔ gen.exit = 0) ∧
      ((∃ trouble, Refuses w target {} trouble ∧ Refused C w trouble gen ∧ info = gen) ∨
        ∃ c session description document,
          ClassName.load w.model target.name target.search w.session = .ok c session ∧
            w.model.describeClass c = .ok description ∧
            Compiler.compile w.model default (.cls c) = .ok document ∧
            Summarises w.model c description document gen info) := by
  rcases schemaOf_makes_or_refuses w target {} with
    ⟨document, hschema, o, c, session, ho, hload, hcompile⟩ | ⟨trouble, hschema, hrefuses⟩
  · have hdefault : Options.ofSettings {} = .ok default := rfl
    cases hdefault.symm.trans ho
    cases hd : w.model.describeClass c with
    | error fault =>
      rw [Compiler.compile_of_undescribed hd] at hcompile
      cases hcompile
    | ok description =>
      rw [run_printed hgen hschema, run_summarised hinfo (summaryOf_ok hload hd hcompile)]
      have hsummarises := Summarises.of_compile hd hcompile
      exact ⟨Iff.rfl, .inr ⟨c, session, description, document, hload, hd, hcompile, hsummarises⟩⟩
  · rw [run_refused hgen hschema, run_unsummarised hinfo (summaryOf_error hschema)]
    exact ⟨Iff.rfl, .inl ⟨trouble, hrefuses, .of_finish hC w trouble, rfl⟩⟩

theorem single_agrees :
    let gen := run .plain .single Request.ofCommandLine ["gen", "-t", "m:Item"]
    let info := run .plain .single Request.ofCommandLine ["info", "--json", "-t", "m:Item"]
    Console.plain.Lawful ∧
      Request.ofCommandLine .single ["gen", "-t", "m:Item"] = .ok (.schema ⟨"m:Item", []⟩ {} none) ∧
      Request.ofCommandLine .single ["info", "--json", "-t", "m:Item"] = .ok (.summary ⟨"m:Item", []⟩ true) ∧
      ∃ c description document, Summarises Workspace.single.model c description document gen info := by
  have hgen : Request.ofCommandLine .single ["gen", "-t", "m:Item"] = .ok (.schema ⟨"m:Item", []⟩ {} none) :=
    rfl
  have hinfo : Request.ofCommandLine .single ["info", "--json", "-t", "m:Item"] =
      .ok (.summary ⟨"m:Item", []⟩ true) := rfl
  have hexit : (run .plain .single Request.ofCommandLine ["gen", "-t", "m:Item"]).exit ≠ 1 := by
    decide +kernel
  obtain ⟨-, ⟨trouble, -, hrefused, -⟩ | ⟨c, _, description, document, -, -, -, hsummarises⟩⟩ :=
    info_agrees_with_gen Console.plain_lawful hgen hinfo
  · exact absurd hrefused.exit hexit
  · exact ⟨Console.plain_lawful, hgen, hinfo, c, description, document, hsummarises⟩

end CommandLine

end ClassSchema
