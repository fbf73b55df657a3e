import ClassSchema.CommandLine.Invocation
import ClassSchema.Proofs.Descriptions

namespace ClassSchema.CommandLine

variable {accepted : List Parameter} {before after : List String} {file : String}

namespace Arguments

variable {a : Arguments} {p : Parameter}

/-- Whether another parameter may begin behind the arguments: none of them waits for its value, and
none of them is `--`. -/
def isWhole (accepted : List Parameter) : List String → Bool
  | [] => true
  | argument :: rest =>
    if argument = "--" then false
    else if isOption argument then
      match readOption accepted argument, rest with
      | .ok (_, none), rest => isWhole accepted rest
      | .ok (_, some _), _ :: rest => isWhole accepted rest
      | _, _ => false
    else isWhole accepted rest

def append (front a : Arguments) : Arguments where
  given := front.given ++ a.given
  rest := front.rest ++ a.rest

theorem append_map (front next : Arguments) (x : Except MisuseKind Arguments) :
    front.append <$> next.append <$> x = (front.append next).append <$> x := by
  have hassoc : (front.append next).append = fun a => front.append (next.append a) := by
    funext a
    simp only [append, List.append_assoc]
  rw [Functor.map_map, hassoc]

section Reading

variable {argument value : String} {rest : List String} {given : List (Parameter × String)}

theorem read_word (hdash : argument ≠ "--") (hword : isOption argument = false) :
    read accepted (argument :: rest) = append { rest := [argument] } <$> read accepted rest := by
  rw [read.eq_def]
  simp only [if_neg hdash, hword, Bool.false_eq_true, if_false]
  rfl

theorem read_flags (hdash : argument ≠ "--") (hoption : isOption argument = true)
    (h : readOption accepted argument = .ok (given, none)) :
    read accepted (argument :: rest) = append { given } <$> read accepted rest := by
  rw [read.eq_def]
  simp only [if_neg hdash, if_pos hoption, h]
  rfl

theorem read_valued {waiting : Waiting} (hdash : argument ≠ "--")
    (hoption : isOption argument = true)
    (h : readOption accepted argument = .ok (given, some waiting)) :
    read accepted (argument :: value :: rest) =
      append { given := given ++ [(waiting.parameter, value)] } <$> read accepted rest := by
  have hfront : append { given := given ++ [(waiting.parameter, value)] } =
      fun a => { a with given := given ++ (waiting.parameter, value) :: a.given } := by
    funext a
    simp [append]
  rw [read.eq_def, hfront]
  simp only [if_neg hdash, if_pos hoption, h]
  rfl

theorem read_append (h : isWhole accepted before = true) :
    ∃ front : Arguments, ∀ after,
      read accepted (before ++ after) = front.append <$> read accepted after := by
  fun_induction isWhole accepted before with
  | case1 =>
    have hid : append {} = id := rfl
    exact ⟨{}, fun after => by rw [List.nil_append, hid, id_map]⟩
  | case2 => cases h
  | case3 argument hdash hoption given rest hread ih =>
    obtain ⟨front, hfront⟩ := ih h
    refine ⟨append { given } front, fun after => ?_⟩
    rw [List.cons_append, read_flags hdash hoption hread, hfront, append_map]
  | case4 argument hdash hoption given waiting value rest hread ih =>
    obtain ⟨front, hfront⟩ := ih h
    refine ⟨append { given := given ++ [(waiting.parameter, value)] } front, fun after => ?_⟩
    rw [List.cons_append, List.cons_append, read_valued hdash hoption hread, hfront, append_map]
  | case5 => cases h
  | case6 argument rest hdash hword ih =>
    obtain ⟨front, hfront⟩ := ih h
    refine ⟨append { rest := [argument] } front, fun after => ?_⟩
    rw [List.cons_append, read_word hdash (Bool.eq_false_iff.mpr hword), hfront, append_map]

end Reading

theorem read_insert (file : String) (hwhole : isWhole Command.gen.parameters before = true)
    (h : read Command.gen.parameters (before ++ after) = .ok a) :
    ∃ g g', a.given = g ++ g' ∧ read Command.gen.parameters (before ++ "-o" :: file :: after) =
      .ok { a with given := g ++ (.output, file) :: g' } := by
  obtain ⟨front, hfront⟩ := read_append hwhole
  rw [hfront] at h
  cases hafter : read Command.gen.parameters after with
  | error misuse =>
    rw [hafter] at h
    cases h
  | ok b =>
    rw [hafter] at h
    cases h
    refine ⟨front.given, b.given, rfl, ?_⟩
    have houtput : readOption Command.gen.parameters "-o" = .ok ([], some ⟨"-o", .output⟩) := rfl
    rw [hfront, read_valued (by decide) (by decide) houtput, hafter]
    rfl

section Insertion

variable (g g' : List (Parameter × String)) (rest : List String)

theorem values_insert (hp : p ≠ .output) :
    values { given := g ++ (.output, file) :: g', rest } p = values { given := g ++ g', rest } p := by
  simp [values, Ne.symm hp]

theorem value?_insert (hp : p ≠ .output) :
    value? { given := g ++ (.output, file) :: g', rest } p = value? { given := g ++ g', rest } p := by
  rw [value?, values_insert g g' rest hp, value?]

theorem isGiven_insert (hp : p ≠ .output) :
    isGiven { given := g ++ (.output, file) :: g', rest } p =
      isGiven { given := g ++ g', rest } p := by
  simp [isGiven, beq_eq_false_iff_ne.mpr (Ne.symm hp)]

theorem value?_output_insert (h : value? { given := g ++ g', rest } .output = none) :
    value? { given := g ++ (.output, file) :: g', rest } .output = some file := by
  have hnone : values { given := g ++ g', rest } .output = [] := List.getLast?_eq_none_iff.mp h
  rw [values, List.filter_append, List.map_append, List.append_eq_nil_iff] at hnone
  simp [value?, values, hnone]

end Insertion

end Arguments

namespace Request

open Arguments

variable {w : Workspace} {a : Arguments} {r : Request} {target : Target} {flags : Flags}

theorem forM_eq_ok_iff {α ε : Type} {f : α → Except ε Unit} {xs : List α} :
    xs.forM f = .ok () ↔ ∀ x ∈ xs, f x = .ok () := by
  induction xs with
  | nil => simp [pure, Except.pure]
  | cons x xs ih =>
      rw [List.forM, List.forall_mem_cons, ← ih]
      cases f x with
      | error fault => simp [bind, Except.bind]
      | ok u => simp [bind, Except.bind]

theorem ofArguments_gen_iff : ofArguments w .gen a = .ok (some r) ↔
    a.isGiven .help = false ∧ (∀ p ∈ checkOrder .gen a, check w a p = .ok ()) ∧ a.rest = [] ∧
      ∃ indent, readWidth? a .indent = .ok indent ∧
        r = .schema (targetOf a) (flagsOf a indent) (a.value? .output) := by
  unfold ofArguments
  cases a.isGiven .help with
  | true => simp [pure, Except.pure]
  | false =>
    rw [← forM_eq_ok_iff]
    cases (checkOrder .gen a).forM (check w a) with
    | error misuse => simp [bind, Except.bind]
    | ok u =>
      by_cases hrest : a.rest = []
      · cases readWidth? a .indent with
        | error misuse => simp [hrest, bind, Except.bind]
        | ok indent => simp [hrest, bind, Except.bind, pure, Except.pure, eq_comm]
      · simp [hrest, bind, Except.bind, throw, throwThe, MonadExceptOf.throw]

theorem mem_checkOrder {c : Command} {p : Parameter} :
    p ∈ checkOrder c a ↔ a.isGiven p = true ∨ p ∈ c.parameters := by
  by_cases hp : a.isGiven p = true
  · have hmem : p ∈ a.given.map (·.1) := by simpa [isGiven] using hp
    simp [checkOrder, hp, hmem]
  · have hmem : p ∉ a.given.map (·.1) := by simpa [isGiven] using hp
    simp [checkOrder, hp, hmem]

section Insertion

variable {g g' : List (Parameter × String)} {rest : List String}

theorem check_insert {p : Parameter} (hp : p ≠ .output) :
    check w { given := g ++ (.output, file) :: g', rest } p =
      check w { given := g ++ g', rest } p := by
  cases p <;> simp [check, values_insert, isGiven_insert, readWidth?, value?_insert]

theorem ofArguments_insert
    (h : ofArguments w .gen { given := g ++ g', rest } = .ok (some (.schema target flags none))) :
    ofArguments w .gen { given := g ++ (.output, file) :: g', rest } =
      .ok (some (.schema target flags (some file))) := by
  have htarget : targetOf { given := g ++ (.output, file) :: g', rest } =
      targetOf { given := g ++ g', rest } := by
    simp [targetOf, value?_insert, values_insert]
  have hflags (indent : Option Nat) :
      flagsOf { given := g ++ (.output, file) :: g', rest } indent =
        flagsOf { given := g ++ g', rest } indent := by
    simp [flagsOf, value?_insert, isGiven_insert]
  rw [ofArguments_gen_iff] at h ⊢
  obtain ⟨hhelp, hchecks, hrest, indent, hindent, heq⟩ := h
  obtain ⟨rfl, rfl, hout⟩ := Request.schema.inj heq
  rw [isGiven_insert g g' rest (by decide)]
  refine ⟨hhelp, fun p hp => ?_, hrest, indent, ?_, ?_⟩
  · by_cases hp' : p = .output
    · rw [hp', check]
    · rw [mem_checkOrder, isGiven_insert g g' rest hp', ← mem_checkOrder] at hp
      rw [check_insert hp']
      exact hchecks p hp
  · rw [← hindent, readWidth?, value?_insert g g' rest (by decide), readWidth?]
  · rw [htarget, hflags, value?_output_insert g g' rest hout.symm]

end Insertion

theorem about_eq_ok {α : Type} {c : Option Command} {x : Except MisuseKind α} {b : α} :
    about c x = .ok b ↔ x = .ok b := by
  cases x with
  | error misuse => exact ⟨fun h => (nomatch h), fun h => (nomatch h)⟩
  | ok b' => exact ⟨fun h => congrArg _ (Except.ok.inj h), fun h => congrArg _ (Except.ok.inj h)⟩

theorem ofCommandLine_gen_iff {arguments : List String} :
    ofCommandLine w ("gen" :: arguments) = .ok r ↔
      ∃ a, read Command.gen.parameters arguments = .ok a ∧ ofArguments w .gen a = .ok (some r) := by
  have hgen : ofCommandLine w ("gen" :: arguments) = ofCommand w .gen arguments := rfl
  rw [hgen, ofCommand, bind_eq_ok]
  refine exists_congr fun a => ?_
  rw [about_eq_ok]
  refine and_congr_right fun _ => ?_
  rw [bind_eq_ok]
  constructor
  · rintro ⟨request, hrequest, h⟩
    rw [about_eq_ok] at hrequest
    cases request with
    | none => cases h
    | some request =>
        cases h
        exact hrequest
  · intro h
    exact ⟨some r, about_eq_ok.mpr h, rfl⟩

/-- Where the output of a schema is not given, `-o` may be given wherever another parameter may
begin. Then nothing but the output changes. -/
theorem ofCommandLine_insert (file : String) (hwhole : isWhole Command.gen.parameters before = true)
    (h : ofCommandLine w ("gen" :: (before ++ after)) = .ok (.schema target flags none)) :
    ofCommandLine w ("gen" :: (before ++ "-o" :: file :: after)) = .ok (.schema target flags (some file)) := by
  obtain ⟨⟨given, rest⟩, hread, h⟩ := ofCommandLine_gen_iff.mp h
  obtain ⟨g, g', rfl, hinsert⟩ := read_insert file hwhole hread
  exact ofCommandLine_gen_iff.mpr ⟨_, hinsert, ofArguments_insert h⟩

end Request

end ClassSchema.CommandLine
