import ClassSchema.CommandLine.Run
import ClassSchema.Proofs.Invocations
import ClassSchema.Proofs.PlainConsole

namespace ClassSchema

namespace CommandLine

variable {C : Console} {read : Reader} {w : Workspace} {target : Target} {settings : Settings}
  {flags : Flags} {document : Document} {trouble : Trouble} {file : String} {r : Request}
  {arguments plain filed : List String} {output : Option String}

/-- The settings are accepted, the class is loaded, and its schema is compiled. -/
def Makes (w : Workspace) (target : Target) (settings : Settings) (document : Document) : Prop :=
  ∃ o c session, Options.ofSettings settings = .ok o ∧
    ClassName.load w.model target.name target.search w.session = .ok c session ∧
    Compiler.compile w.model o (.cls c) = .ok document

/-- The first of the steps to a schema that fails does so with the trouble. -/
inductive Refuses (w : Workspace) (target : Target) (settings : Settings) : Trouble → Prop
  | settings {fault : Fault} (h : Options.ofSettings settings = .error fault) :
    Refuses w target settings (.schema fault)
  | loading {o : Options} {fault : LoadFault} {session : Session}
    (hsettings : Options.ofSettings settings = .ok o)
    (h : ClassName.load w.model target.name target.search w.session = .error fault session) :
    Refuses w target settings (.load fault)
  | compiling {o : Options} {c : ClassRef} {session : Session} {fault : Fault}
    (hsettings : Options.ofSettings settings = .ok o)
    (hload : ClassName.load w.model target.name target.search w.session = .ok c session)
    (h : Compiler.compile w.model o (.cls c) = .error fault) :
    Refuses w target settings (.schema fault)

theorem schemaOf_makes_or_refuses (w : Workspace) (target : Target) (settings : Settings) :
    (∃ document, schemaOf w target settings = .ok document ∧ Makes w target settings document) ∨
      ∃ trouble, schemaOf w target settings = .error trouble ∧
        Refuses w target settings trouble := by
  cases ho : Options.ofSettings settings with
  | error fault =>
    refine .inr ⟨.schema fault, ?_, .settings ho⟩
    rw [schemaOf, ho]
    rfl
  | ok o =>
    have hschema : schemaOf w target settings = loadTarget w target >>= compileWith w o := by
      rw [schemaOf, ho]
      rfl
    rw [hschema, loadTarget]
    cases hload : ClassName.load w.model target.name target.search w.session with
    | error fault session => exact .inr ⟨.load fault, rfl, .loading ho hload⟩
    | ok c session =>
      have hcompiled : (Except.ok c >>= compileWith w o) = compileWith w o c := rfl
      simp only [hcompiled, compileWith]
      cases hcompile : Compiler.compile w.model o (.cls c) with
      | error fault => exact .inr ⟨.schema fault, rfl, .compiling ho hload hcompile⟩
      | ok document => exact .inl ⟨document, rfl, o, c, session, ho, hload, hcompile⟩

theorem run_eq_finish (h : read w arguments = .ok r) :
    run C w read arguments = finish C w (perform C w r {}) := by
  rw [run, h]

theorem run_printed (h : read w arguments = .ok (.schema target flags none))
    (hschema : schemaOf w target flags.settings = .ok document) :
    run C w read arguments = { out := document.text, exit := 0 } := by
  have hout : "" ++ document.text = document.text := String.empty_append
  rw [run_eq_finish h, perform, hschema, ← hout]
  rfl

theorem marks_writtenNote (document : Document) : ∃ words, Console.Marks words words ∧
    ∀ (C : Console) file, writtenNote C document file = words ++ C.escape file := by
  have hwords {words : String} (h : words.toList.all Text.isBare = true) :
      ∀ c ∈ words.toList, Text.isBare c = true := List.all_eq_true.mp h
  refine ⟨_, .words (.of_forall ?_), fun C file => rfl⟩
  simp only [String.toList_append, List.forall_mem_append]
  exact ⟨⟨⟨⟨hwords (by decide), fun _ => Console.isBare_of_mem_toString⟩, hwords (by decide)⟩,
    fun _ => Console.isBare_of_mem_toString⟩, hwords (by decide)⟩

theorem run_written (hC : C.Lawful) (h : read w arguments = .ok (.schema target flags (some file)))
    (hschema : schemaOf w target flags.settings = .ok document) (hfile : w.writeFault? file = none) :
    ∃ shown, C.shown (writtenNote C document file) = .ok shown ∧ run C w read arguments = {
      err := C.lines false shown
      written := some (file, document.text)
      exit := 0 } := by
  obtain ⟨words, hmarks, hnote⟩ := marks_writtenNote document
  obtain ⟨shown, hshown, -⟩ := hC.escaped file hmarks
  rw [← hnote] at hshown
  have hprint := Console.print_of_shown false hshown
  have hdeliver : deliver C w document (some file) = (do
      Running.write file document.text
      Running.note (C.lines false shown)) := by
    rw [deliver, hfile, hprint]
    rfl
  have herr : "" ++ C.lines false shown = C.lines false shown := String.empty_append
  refine ⟨shown, hshown, ?_⟩
  rw [run_eq_finish h, perform, hschema, ← herr]
  change finish C w (deliver C w document (some file) {}) = _
  rw [hdeliver]
  rfl

theorem run_refused (h : read w arguments = .ok (.schema target flags output))
    (hschema : schemaOf w target flags.settings = .error trouble) :
    run C w read arguments = finish C w (.error trouble {}) := by
  rw [run_eq_finish h, perform, hschema]
  rfl

theorem finish_unreported (h : ¬trouble.isReported = true) :
    finish C w (.error trouble {}) = { exit := 1, failure := some trouble } := by
  rw [finish, if_neg h]

theorem marks_alarm : Console.Marks (Console.Style.alarm.mark "Error:" ++ " ") ("Error:" ++ " ") :=
  .styled .alarm ⟨⟨.of_count (List.all_eq_true.mp (by decide)) (by decide), by decide⟩, by decide⟩
    (.of_all (by decide))

/-- A message that a console prints as it is when it is escaped, behind the word for an error. -/
structure Printable (message : String) : Prop where
  clear : Text.Clear ("Error: " ++ message).toList
  backslashFree : '\\' ∉ message.toList
  blankFree : ∀ c ∈ ("Error: " ++ message).toList.getLast?, Text.isBlank c = false

/-- A run ends with the trouble, and has printed and written nothing of a schema. A trouble that is
reported is told on the error stream, and any other breaks the run off. -/
structure Refused (C : Console) (w : Workspace) (trouble : Trouble) (outcome : Outcome) : Prop where
  exit : outcome.exit = 1
  out : outcome.out = ""
  written : outcome.written = none
  told : trouble.isReported = true → outcome.failure = none ∧
    ∃ shown, C.shown (report C (trouble.message w.model)) = .ok shown ∧ outcome.err = C.lines false shown
  verbatim : trouble.isReported = true → Printable (trouble.message w.model) →
    outcome.err = "Error: " ++ trouble.message w.model ++ "\n"
  broken : trouble.isReported = false → outcome.failure = some trouble

theorem Refused.of_finish (hC : C.Lawful) (w : Workspace) (trouble : Trouble) :
    Refused C w trouble (finish C w (.error trouble {})) := by
  by_cases h : trouble.isReported = true
  · obtain ⟨shown, hshown, hexact⟩ := hC.escaped (trouble.message w.model) marks_alarm
    have hreport : Console.Style.alarm.mark "Error:" ++ " " ++ C.escape (trouble.message w.model) =
        report C (trouble.message w.model) := rfl
    rw [hreport] at hshown
    have hprint := Console.print_of_shown false hshown
    have hfinish : finish C w (.error trouble {}) = { err := C.lines false shown, exit := 1 } := by
      have herr : "" ++ C.lines false shown = C.lines false shown := String.empty_append
      simp only [finish, if_pos h, hprint]
      rw [Output.note, herr]
    rw [hfinish]
    refine ⟨rfl, rfl, rfl, fun _ => ⟨rfl, shown, hshown, rfl⟩, fun _ hp => ?_, fun h' => ?_⟩
    · obtain rfl := hexact hp.clear hp.backslashFree
      exact hC.lines hp.clear hp.blankFree
    · exact absurd (h'.symm.trans h) (by decide)
  · rw [finish_unreported h]
    exact ⟨rfl, rfl, rfl, fun h' => absurd h' h, fun h' => absurd h' h, fun _ => rfl⟩

/-- The text of the document goes as a whole to where it is asked for, and nowhere else. -/
structure Delivered (document : Document) (file : String) (plain filed : Outcome) : Prop where
  plain_exit : plain.exit = 0
  plain_out : plain.out = document.text
  plain_written : plain.written = none
  filed_exit : filed.exit = 0
  filed_out : filed.out = ""
  filed_written : filed.written = some (file, document.text)

/-- The same schema is asked for twice, once in a file. Both runs deliver the whole of it, or both are
refused for the same trouble and deliver nothing. -/
theorem gen_all_or_nothing (hC : C.Lawful) (hplain : read w plain = .ok (.schema target flags none))
    (hfiled : read w filed = .ok (.schema target flags (some file))) (hfile : w.writeFault? file = none) :
    (run C w read filed).exit = (run C w read plain).exit ∧
      ((∃ document, Makes w target flags.settings document ∧
          Delivered document file (run C w read plain) (run C w read filed)) ∨
        ∃ trouble, Refuses w target flags.settings trouble ∧
          Refused C w trouble (run C w read plain) ∧ Refused C w trouble (run C w read filed)) := by
  rcases schemaOf_makes_or_refuses w target flags.settings with
    ⟨document, hschema, hmakes⟩ | ⟨trouble, hschema, hrefuses⟩
  · obtain ⟨shown, -, hwritten⟩ := run_written hC hfiled hschema hfile
    rw [run_printed hplain hschema, hwritten]
    exact ⟨rfl, .inl ⟨document, hmakes, ⟨rfl, rfl, rfl, rfl, rfl, rfl⟩⟩⟩
  · rw [run_refused hplain hschema, run_refused hfiled hschema]
    have hrefused := Refused.of_finish hC w trouble
    exact ⟨rfl, .inr ⟨trouble, hrefuses, hrefused, hrefused⟩⟩

end CommandLine

def Workspace.single : Workspace where
  model :=
    { modules := [{ name := "m", bindings := [("Item", .cls (.declared 0))] }]
      classes := [{ name := "Item", body := .record .dataclass [] [("size", .builtin .int)] }] }
  session := { loaded := [{ name := "m", index := some 0, directories := none }] }

namespace CommandLine

theorem single_delivered : ∃ target flags document,
    Request.ofCommandLine .single ["gen", "-t", "m:Item", "--indent=2"] =
        .ok (.schema target flags none) ∧
      Request.ofCommandLine .single ["gen", "-t", "m:Item", "-o", "item.proto", "--indent=2"] =
        .ok (.schema target flags (some "item.proto")) ∧
      Console.plain.Lawful ∧ Makes .single target flags.settings document ∧
      Delivered document "item.proto"
        (run .plain .single Request.ofCommandLine ["gen", "-t", "m:Item", "--indent=2"])
        (run .plain .single Request.ofCommandLine
          ["gen", "-t", "m:Item", "-o", "item.proto", "--indent=2"]) := by
  have hwhole : Arguments.isWhole Command.gen.parameters ["-t", "m:Item"] = true := by decide
  have hplain : Request.ofCommandLine .single ("gen" :: (["-t", "m:Item"] ++ ["--indent=2"])) =
      .ok (.schema ⟨"m:Item", []⟩ { indent := some 2 } none) := rfl
  have hfiled := Request.ofCommandLine_insert "item.proto" hwhole hplain
  have hfile : Workspace.single.writeFault? "item.proto" = none := by decide
  have hexit : (run .plain .single Request.ofCommandLine
      ["gen", "-t", "m:Item", "--indent=2"]).exit ≠ 1 := by decide +kernel
  obtain ⟨-, ⟨document, hmakes, hdelivered⟩ | ⟨trouble, -, hrefused, -⟩⟩ :=
    gen_all_or_nothing Console.plain_lawful hplain hfiled hfile
  · exact ⟨_, _, document, hplain, hfiled, Console.plain_lawful, hmakes, hdelivered⟩
  · exact absurd hrefused.exit hexit

/-- Of the backslashes before a bracket that opens no tag, one is not told. -/
theorem not_always_told : ∃ target flags trouble,
    Request.ofCommandLine .single ["gen", "-t", "m:Item", "--prefix", "\\["] =
        .ok (.schema target flags none) ∧
      Refuses .single target flags.settings trouble ∧ trouble.isReported = true ∧
      trouble.message Workspace.single.model = "Prefix '\\\\[' is not a valid identifier" ∧
      (run .plain .single Request.ofCommandLine ["gen", "-t", "m:Item", "--prefix", "\\["]).err =
        "Error: Prefix '\\[' is not a valid identifier\n" := by
  have hread : Request.ofCommandLine .single ["gen", "-t", "m:Item", "--prefix", "\\["] =
      .ok (.schema ⟨"m:Item", []⟩ { affix := "\\[" } none) := rfl
  have hsettings : Options.ofSettings (Flags.settings { affix := "\\[" }) =
      .error (.invalidAffix "\\[") := rfl
  refine ⟨_, _, _, hread, .settings hsettings, rfl, ?_, ?_⟩
  · decide +kernel
  · decide +kernel

end CommandLine

end ClassSchema
