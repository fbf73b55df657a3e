import ClassSchema.Proofs.Acceptance
import ClassSchema.Proofs.Containers
import ClassSchema.Proofs.Faults
import ClassSchema.Proofs.Moments

namespace ClassSchema

def Progress.withLine (s : Progress) (m : OpenMessage) (rest : List OpenMessage) (line : Line) :
    Progress :=
  { s with draft := { s.draft with pending := { m with lines := m.lines ++ [line] } :: rest } }

namespace Compiler

open Compiling

def writeField (M : Model) (o : Options) (levels : Nat) (c : ClassRef) (name : String) (ordinal : Int)
    (t : TypeExpr) : Compiling Unit := do
  let f ← fromResult (M.describeField (.cls c) name t)
  classifyField M o (fun u => buildMessage M o levels u .nested) f ordinal

/-- From the state `s`, a field of the class `c` with the type `t` and one with containers of `t` fail
for faults of one family, or have lines that differ in their multiplicity alone, in states that are
the same otherwise. In the second case, an entry with values `t` has the type of these lines. -/
inductive Alike (M : Model) (o : Options) (root : ClassRef) (levels : Nat) (c : ClassRef)
    (name : String) (ordinal : Int) (t : TypeExpr) (head : Head) (s : Progress) : Prop
  | fails {fault fault' s₁ s₂} : writeField M o levels c name ordinal t s = .error fault s₁ →
      writeField M o levels c name ordinal (.sequenceOf head t) s = .error fault' s₂ →
      (fault' = fault ∨ fault.family = .unsupportedShape ∧ fault'.family = .unsupportedShape) →
      Alike M o root levels c name ordinal t head s
  | writes {mult type m rest} {s' : Progress} :
      s.draft.pending = m :: rest → m.name = messageName M o root c →
      writeField M o levels c name ordinal t s =
        .ok ⟨⟩ (s'.withLine m rest ⟨mult, type, Name.sanitize name, ordinal⟩) →
      writeField M o levels c name ordinal (.sequenceOf head t) s =
        .ok ⟨⟩ (s'.withLine m rest ⟨Multiplicity.repeated, type, Name.sanitize name, ordinal⟩) →
      (∀ mapHead key s'', mapHead.shape? = some .map →
        writeField M o levels c name ordinal (.subscripted mapHead [key, t]) s = .ok ⟨⟩ s'' →
        ∃ entry keyType, s''.draft.blocks.getLast? = some (.mapEntry entry keyType type)) →
      Alike M o root levels c name ordinal t head s

variable {M : Model} {o : Options} {root c d e : ClassRef} {path : List ClassRef}
  {known : ClassRef → Prop} {s : Progress} {f g : Field} {t u : TypeExpr} {name : String} {ordinal : Int}
  {head : Head} {levels : Nat}

theorem run_bind {σ α β : Type} {step : EStateM Fault σ α} {next : α → EStateM Fault σ β} {s s' : σ}
    {a : α} (h : step s = .ok a s') : (step >>= next) s = next a s' := by
  simp only [Bind.bind, EStateM.bind, h]

theorem run_bind_error {σ α β : Type} {step : EStateM Fault σ α} {next : α → EStateM Fault σ β}
    {s s' : σ} {fault : Fault} (h : step s = .error fault s') : (step >>= next) s = .error fault s' := by
  simp only [Bind.bind, EStateM.bind, h]

theorem knownName?_keyword (h : s.registry.contains t = false) : knownName? t s = .ok t.keyword? s :=
  Ends.eq_ok (knownName?_ends_keyword h ⟨rfl, rfl⟩)

theorem knownName?_class (h : Steady M o root path known s) (hd : known d) :
    knownName? (.cls d) s = .ok (some (className M o root d)) s := by
  refine Ends.eq_ok ?_
  apply Ends.bind
  apply isRegistered_ends
  rw [(h.registry.contains_cls d).mpr hd]
  exact Ends.bind (registeredName_ends (h.registry.nameOf_cls hd) (Ends.of_pure ⟨rfl, rfl⟩))

theorem registeredName_class (h : Steady M o root path known s) (hd : known d) :
    registeredName (.cls d) s = .ok (className M o root d) s :=
  Ends.eq_ok (registeredName_ends (h.registry.nameOf_cls hd) ⟨rfl, rfl⟩)

theorem noteImport_run (type : String) (d : Draft) :
    ∃ imports, Draft.noteImport type d = .ok ⟨⟩ { d with imports } := by
  unfold Draft.noteImport
  cases wellKnownFile? type with
  | none => exact ⟨d.imports, rfl⟩
  | some file =>
      by_cases hf : file ∈ d.imports
      · refine ⟨d.imports, ?_⟩
        change EStateM.Result.ok _ (if file ∈ d.imports then _ else _) = _
        rw [if_pos hf]
      · refine ⟨d.imports ++ [file], ?_⟩
        change EStateM.Result.ok _ (if file ∈ d.imports then _ else _) = _
        rw [if_neg hf]

theorem addLine_run {d : Draft} {m : OpenMessage} {rest : List OpenMessage} (h : d.pending = m :: rest)
    (line : Line) :
    Draft.addLine line d = .ok ⟨⟩ { d with pending := { m with lines := m.lines ++ [line] } :: rest } := by
  cases d
  cases h
  rfl

theorem emitField_run {m : OpenMessage} {rest : List OpenMessage} (hp : s.draft.pending = m :: rest)
    (type : Option String) (name : String) (ordinal : Int) :
    ∃ s' : Progress, s'.draft.pending = s.draft.pending ∧ s'.draft.blocks = s.draft.blocks ∧ ∀ mult,
      onDraft (Draft.emitField mult type name ordinal) s =
        if Name.sanitize name = "" then .error (.illegalFieldName name) s'
        else .ok ⟨⟩ (s'.withLine m rest
          ⟨mult, type.getD defaultType, Name.sanitize name, ordinal⟩) := by
  obtain ⟨imports, hnote⟩ := noteImport_run (type.getD defaultType) s.draft
  refine ⟨{ s with draft := { s.draft with imports } }, rfl, rfl, fun mult => ?_⟩
  have hget : (get : Drafting Draft) s.draft = .ok s.draft s.draft := rfl
  have hemit : Draft.emitField mult type name ordinal s.draft =
      (Draft.fieldLine mult type name ordinal >>= Draft.addLine) s.draft := by
    rw [Draft.emitField, run_bind hget, hp, List.isEmpty_cons, if_neg Bool.false_ne_true]
  have hline : Draft.fieldLine mult type name ordinal s.draft =
      if Name.sanitize name = "" then .error (.illegalFieldName name) { s.draft with imports }
      else .ok ⟨mult, type.getD defaultType, Name.sanitize name, ordinal⟩ { s.draft with imports } := by
    rw [Draft.fieldLine, run_bind hnote]
    split <;> rfl
  unfold onDraft
  rw [hemit]
  by_cases hl : Name.sanitize name = ""
  · rw [if_pos hl] at hline ⊢
    rw [run_bind_error hline]
  · rw [if_neg hl] at hline ⊢
    rw [run_bind hline]
    rw [addLine_run (d := { s.draft with imports }) hp]
    rfl

variable {nested : TypeExpr → Compiling String}

theorem elementName_scalar (h : t.isAny = true ∨ t.isScalar = true) :
    elementName M o nested g t = pure t.keyword? := by
  unfold elementName
  rw [TypeExpr.containerShape?_of_scalar h, Option.isSome_none, if_neg Bool.false_ne_true]
  by_cases hany : t.isAny = true
  · have hkey : typeName? M o (.builtin .any) t = t.keyword? := typeName?_of_scalar h
    rw [if_pos hany, ← hkey, typeName?_of_isAny hany]
  · rw [if_neg hany]
    obtain ⟨keyword, hkey⟩ := Option.isSome_iff_exists.mp (h.resolve_left hany)
    rw [hkey]

theorem elementName_enum (h : M.isEnumClass e = true) :
    elementName M o nested g (.cls e) = (do return some (← ensureEnum M o (.cls e))) := by
  obtain ⟨hany, hkey, hcont⟩ := Model.enum_facts h
  unfold elementName
  simp only [hcont, Option.isSome_none, hany, hkey, Model.isEnum, h, if_true, Bool.false_eq_true,
    if_false]

theorem elementName_composite (h : M.isComposite d = true) :
    elementName M o nested g (.cls d) = (do
      checkCycle M g (.cls d)
      if !(← isRegistered (.cls d)) then discard (nested (.cls d))
      return some (← registeredName (.cls d))) := by
  obtain ⟨hany, hscalar, henum, hcont⟩ := Model.isComposite_iff.mp h
  have hkey : (TypeExpr.cls d).keyword? = none := by simpa [TypeExpr.isScalar] using hscalar
  unfold elementName
  simp only [hcont, Option.isSome_none, hany, hkey, Model.isEnum, henum, TypeExpr.isClass, Bool.not_true,
    Bool.false_eq_true, if_false]

def WritesAsElement (M : Model) (o : Options) (nested : TypeExpr → Compiling String) (f g : Field)
    (ordinal : Int) (s : Progress) : Prop :=
  ∃ mult, classifyField M o nested f ordinal s = (do
    let name? ← elementName M o nested g f.declared
    onDraft (Draft.emitField mult name? f.name ordinal) : Compiling Unit) s

theorem scalar_asElement (h : Steady M o root path known s) (hs : f.shape = .scalar)
    (hd : f.declared.isAny = true ∨ f.declared.isScalar = true) :
    WritesAsElement M o nested f g ordinal s := by
  have hreg := h.contains_of_part?_eq_none (Model.part?_of_scalar (M := M) hd)
  refine ⟨Multiplicity.optional, ?_⟩
  rw [elementName_scalar hd, pure_bind]
  unfold classifyField
  simp only [hs, reduceCtorEq, if_false, decide_true, Bool.true_or, if_true]
  exact run_bind (knownName?_keyword hreg)

theorem enum_asElement (h : Steady M o root path known s) (hs : f.shape = .enum)
    (hd : f.declared = .cls e) (he : M.isEnumClass e = true) :
    WritesAsElement M o nested f g ordinal s := by
  refine ⟨Multiplicity.optional, ?_⟩
  rw [hd, elementName_enum he, bind_assoc]
  unfold classifyField
  simp only [hs, hd, reduceCtorEq, if_false, decide_false, Bool.false_or, pure_bind]
  have hregistered : isRegistered (.cls e) s = .ok (s.registry.contains (.cls e)) s := rfl
  rw [run_bind hregistered]
  by_cases hreg : s.registry.contains (.cls e) = true
  · have hk := (h.registry.contains_cls e).mp hreg
    have hensure : ensureEnum M o (.cls e) s = .ok (className M o root e) s := by
      rw [ensureEnum, run_bind hregistered, if_pos hreg, registeredName_class h hk]
    rw [if_pos hreg, run_bind (knownName?_class h hk), run_bind hensure]
  · rw [if_neg hreg]

theorem composite_asElement (h : Steady M o root (c :: path) known s) (hrooted : root ∈ c :: path)
    (howner : g.owner = f.owner) (hname : g.name = f.name) (hs : f.shape = .composite)
    (hd : f.declared = .cls d) (hcomp : M.isComposite d = true) :
    WritesAsElement M o (fun u => buildMessage M o levels u .nested) f g ordinal s := by
  have hcheck : checkCycle M g (.cls d) = checkCycle M f (.cls d) :=
    checkCycle_congr (.refl M True) howner hname
  unfold WritesAsElement
  rw [hd, elementName_composite hcomp, hcheck]
  unfold classifyField
  simp only [hs, hd, if_true, decide_false, reduceCtorEq, Bool.false_or, bind_assoc]
  have hstate := checkCycle_state (M := M) (f := f) (d := d) h.trail
  cases hrun : checkCycle M f (.cls d) s with
  | error fault s' => exact ⟨Multiplicity.repeated, by rw [run_bind_error hrun, run_bind_error hrun]⟩
  | ok _ s' =>
      obtain ⟨hs', hout⟩ := hstate.of_ok hrun
      rw [hs'] at hrun
      have hregistered : isRegistered (.cls d) s = .ok (s.registry.contains (.cls d)) s := rfl
      simp only [run_bind hrun, run_bind hregistered]
      by_cases hreg : s.registry.contains (.cls d) = true
      · have hk := (h.registry.contains_cls d).mp hreg
        refine ⟨Multiplicity.optional, ?_⟩
        simp only [hreg, if_true, Bool.not_true, Bool.false_eq_true, if_false, bind_assoc, pure_bind,
          run_bind (knownName?_class h hk), run_bind (registeredName_class h hk)]
      · have hnew : ¬ known d := fun hk => hreg ((h.registry.contains_cls d).mpr hk)
        have hne : d ≠ root := fun he => hout (he ▸ hrooted)
        have hclass : className M o root d = M.simpleName d := by
          rw [className_of_composite hcomp, messageName_of_ne hne]
        have hnested : Ends (discard (buildMessage M o levels (.cls d) .nested)) s
            (fun _ s' => ∃ known', Steady M o root (c :: path) known' s' ∧ known' d)
            (fun _ _ => True) := by
          refine Ends.discard ((nested_follows levels hrooted d known (s, {}) trivial hcomp hout hnew
            h.keeps).ends.mono ?_ (fun _ _ _ => trivial))
          rintro _ s' ⟨r, known', hk, h', _⟩
          exact ⟨known', h'.steady, hk d (Or.inl rfl)⟩
        refine ⟨Multiplicity.repeated, ?_⟩
        rw [Bool.not_eq_true] at hreg
        simp only [hreg, Bool.not_false, if_true, Bool.false_eq_true, if_false, bind_assoc, pure_bind]
        cases hrun' : discard (buildMessage M o levels (.cls d) .nested) s with
        | error fault s₁ => rw [run_bind_error hrun', run_bind_error hrun']
        | ok _ s₁ =>
            obtain ⟨known', h', hk⟩ := hnested.of_ok hrun'
            rw [run_bind hrun', run_bind hrun', run_bind (registeredName_class h' hk), hclass]
            rfl

/-- A field that is no container is written as an element of its type would be, but for a multiplicity
of its own. -/
theorem classifyField_asElement (h : Steady M o root (c :: path) known s) (hrooted : root ∈ c :: path)
    (howner : g.owner = f.owner) (hname : g.name = f.name)
    (hl : M.layoutOf f.declared = .ok f.layout) (hcont : f.declared.containerShape? = none) :
    WritesAsElement M o (fun u => buildMessage M o levels u .nested) f g ordinal s := by
  rcases Model.layoutOf_cases hl with ⟨hs, hd⟩ | ⟨hs, e, hd, he⟩ | ⟨_, hc⟩ | ⟨hs, d, hd, hcomp⟩
  · exact scalar_asElement h hs hd
  · exact enum_asElement h hs hd he
  · rw [hcont] at hc
    cases hc
  · exact composite_asElement h hrooted howner hname hs hd hcomp

theorem failField_run {α : Type} {fault : String → String → Fault} (howner : g.owner = .cls c) :
    failField M g fault s = (.error (fault (M.simpleName c) g.name) s : EStateM.Result _ _ α) := by
  rw [failField, howner]
  rfl

theorem classifyField_sequence (h : Steady M o root path known s) (hs : g.shape.isSequence = true)
    (hd : M.part? g.declared = none) :
    classifyField M o nested g ordinal s = (do
      let name? ← resolveElement M o nested g g.element
      onDraft (Draft.emitField Multiplicity.repeated name? g.name ordinal) : Compiling Unit) s := by
  have hregistered : isRegistered g.declared s = .ok false s := by
    rw [← h.contains_of_part?_eq_none hd]
    rfl
  rw [classifyField_of_sequence hs, run_bind hregistered]
  rfl

theorem classifyField_map (h : Steady M o root path known s) (hs : g.shape = .map)
    (hd : M.part? g.declared = none) :
    classifyField M o nested g ordinal s = (do
      let entry ← buildEntry M o nested g
      onDraft (Draft.emitField Multiplicity.repeated (some entry) g.name ordinal) : Compiling Unit) s := by
  have hregistered : isRegistered g.declared s = .ok false s := by
    rw [← h.contains_of_part?_eq_none hd]
    rfl
  unfold classifyField
  simp [hs, run_bind hregistered]

theorem elementName_unsupported (howner : g.owner = .cls c) (hcont : t.containerShape? = none)
    (hel : t.isElement = false) (henum : M.isEnum t = false) :
    elementName M o nested g t s = .error (.unsupportedElement (M.simpleName c) g.name t) s := by
  have hnot : t.isAny = false ∧ t.isScalar = false ∧ t.isClass = false := by
    simpa [TypeExpr.isElement, hcont, and_assoc] using hel
  have hkey : t.keyword? = none := by simpa [TypeExpr.isScalar] using hnot.2.1
  unfold elementName
  simp only [hcont, Option.isSome_none, hnot.1, hkey, henum, hnot.2.2, Bool.not_false, if_true,
    Bool.false_eq_true, if_false]
  exact failField_run howner

theorem writeField_mapOf {mapHead : Head} {key : TypeExpr} {s' : Progress}
    (h : Steady M o root (c :: path) known s) (hrooted : root ∈ c :: path)
    (hhead : mapHead.shape? = some .map) (ht : t ≠ .none) (ha : mapHead.argument t = t)
    (hrun : writeField M o levels c name ordinal (.subscripted mapHead [key, t]) s = .ok ⟨⟩ s') :
    ∃ entry keyType, s'.draft.blocks.getLast? =
      some (.mapEntry entry keyType ((operandType? M o root (some t)).getD defaultType)) := by
  have hdescribe : M.describeField (.cls c) name (.subscripted mapHead [key, t]) = .ok _ :=
    Model.describeField_mapOf hhead ht
  have hlayout := (Model.describeField_ok hdescribe).2.2
  obtain ⟨m, rest, hp, _⟩ := h.exists_pending
  rw [writeField, hdescribe, fromResult_ok, classifyField_map h rfl
    (part?_of_isContainer hlayout rfl rfl)] at hrun
  have hentry := (buildEntry_follows (.refl M True) h.keeps (nested_follows levels hrooted)
    (writable_self rfl hlayout) rfl).ends
  cases he : buildEntry M o (fun u => buildMessage M o levels u .nested)
      ⟨.cls c, name, .subscripted mapHead [key, t],
        ⟨.map, some (mapHead.argument t), (mapHead.argument key).present?⟩⟩ s with
  | error fault s₁ =>
      rw [run_bind_error he] at hrun
      cases hrun
  | ok entry s₁ =>
      obtain ⟨_, ⟨_, _, _, hp₁⟩, entryName, keyType, hlast⟩ := hentry.of_ok he
      obtain ⟨s₂, _, hb, hemit⟩ := emitField_run (hp₁.trans hp) (some entry) name ordinal
      rw [run_bind he, hemit] at hrun
      split at hrun
      next => cases hrun
      next =>
        cases hrun
        rw [ha] at hlast
        exact ⟨entryName, keyType, by rw [← hlast, ← hb]; rfl⟩

def sequenceField (c : ClassRef) (name : String) (head : Head) (shape : Shape) (t : TypeExpr) : Field :=
  ⟨.cls c, name, .sequenceOf head t, ⟨shape, some (head.argument t), none⟩⟩

theorem writeField_sequence {shape : Shape} (h : Steady M o root path known s)
    (hhead : head.shape? = some shape) (hseq : shape.isSequence = true) (ht : t ≠ .none) :
    writeField M o levels c name ordinal (.sequenceOf head t) s = (do
      let name? ← resolveElement M o (fun u => buildMessage M o levels u .nested)
        (sequenceField c name head shape t) (some (head.argument t))
      onDraft (Draft.emitField Multiplicity.repeated name? name ordinal) : Compiling Unit) s := by
  have hdescribe : M.describeField (.cls c) name (.sequenceOf head t) = .ok _ :=
    Model.describeField_sequence hhead hseq ht
  have hlayout := (Model.describeField_ok hdescribe).2.2
  rw [writeField, hdescribe, fromResult_ok]
  exact classifyField_sequence (g := sequenceField c name head shape t) h hseq
    (part?_of_isContainer hlayout rfl (Shape.isContainer_of_isSequence hseq))

theorem writeField_unsupported {why : Unsupported}
    (h : t.unwrap = .error why ∨ ∃ u, t.unwrap = .ok u ∧ M.layoutOf u = .error why) :
    writeField M o levels c name ordinal t s =
      .error (.unsupported (M.simpleName c) name why) s := by
  rw [writeField, Model.describeField_unsupported h]
  rfl

theorem alike_of_unwrap_error {shape : Shape} {why : Unsupported}
    (h : Steady M o root (c :: path) known s) (hhead : head.shape? = some shape)
    (hseq : shape.isSequence = true) (ht : t ≠ .none) (hu : t.unwrap = .error why) :
    Alike M o root levels c name ordinal t head s := by
  have ha : head.argument t = t := by
    refine (head.argument_cases ht).resolve_right ?_
    rintro ⟨text, rfl, _⟩
    simp [TypeExpr.unwrap] at hu
  have hsequence : writeField M o levels c name ordinal (.sequenceOf head t) s =
      .error (.unsupported (M.simpleName c) name why) s := by
    rw [writeField_sequence h hhead hseq ht, ha]
    refine run_bind_error ?_
    simp only [resolveElement, hu]
    exact failField_run (g := sequenceField c name head shape t) rfl
  exact .fails (writeField_unsupported (Or.inl hu)) hsequence (Or.inl rfl)

theorem alike_of_layout_error {shape : Shape} {why : Unsupported}
    (h : Steady M o root (c :: path) known s) (hhead : head.shape? = some shape)
    (hseq : shape.isSequence = true) (ht : t ≠ .none) (hu : t.unwrap = .ok u)
    (hcont : u.containerShape? = none) (hl : M.layoutOf u = .error why) :
    Alike M o root levels c name ordinal t head s := by
  obtain ⟨v, hv, hvcont, hel, henum⟩ : ∃ v, (head.argument t).unwrap = .ok v ∧
      v.containerShape? = none ∧ v.isElement = false ∧ M.isEnum v = false := by
    rcases head.argument_cases ht with ha | ⟨text, rfl, ha⟩
    · exact ⟨u, by rw [ha, hu], hcont, (Model.layoutOf_error hl hcont).2⟩
    · exact ⟨.forward text, by rw [ha]; simp [TypeExpr.unwrap], rfl, rfl, rfl⟩
  have hsequence : writeField M o levels c name ordinal (.sequenceOf head t) s =
      .error (.unsupportedElement (M.simpleName c) name v) s := by
    rw [writeField_sequence h hhead hseq ht]
    refine run_bind_error ?_
    simp only [resolveElement, hv]
    exact elementName_unsupported (g := sequenceField c name head shape t) rfl hvcont hel henum
  exact .fails (writeField_unsupported (Or.inr ⟨u, hu, hl⟩)) hsequence (Or.inr ⟨rfl, rfl⟩)

theorem alike_of_element {element : Compiling (Option String)} {mult : String}
    (h : Steady M o root (c :: path) known s)
    (hdirect : writeField M o levels c name ordinal t s = (do
      let name? ← element
      onDraft (Draft.emitField mult name? name ordinal) : Compiling Unit) s)
    (hsequence : writeField M o levels c name ordinal (.sequenceOf head t) s = (do
      let name? ← element
      onDraft (Draft.emitField Multiplicity.repeated name? name ordinal) : Compiling Unit) s)
    (hends : Ends element s (fun name? s' => name? = operandType? M o root (some t) ∧
      s'.draft.pending = s.draft.pending) (fun _ _ => True))
    (hmap : ∀ mapHead key s', mapHead.shape? = some .map →
      writeField M o levels c name ordinal (.subscripted mapHead [key, t]) s = .ok ⟨⟩ s' →
      ∃ entry keyType, s'.draft.blocks.getLast? =
        some (.mapEntry entry keyType ((operandType? M o root (some t)).getD defaultType))) :
    Alike M o root levels c name ordinal t head s := by
  obtain ⟨m, rest, hp, hm⟩ := h.exists_pending
  cases hrun : element s with
  | error fault s₁ =>
      rw [run_bind_error hrun] at hdirect hsequence
      exact .fails hdirect hsequence (Or.inl rfl)
  | ok name? s₁ =>
      obtain ⟨rfl, hp₁⟩ := hends.of_ok hrun
      obtain ⟨s₂, _, _, hemit⟩ := emitField_run (hp₁.trans hp) (operandType? M o root (some t)) name
        ordinal
      rw [run_bind hrun, hemit] at hdirect hsequence
      by_cases hlegal : Name.sanitize name = ""
      · rw [if_pos hlegal] at hdirect hsequence
        exact .fails hdirect hsequence (Or.inl rfl)
      · rw [if_neg hlegal] at hdirect hsequence
        exact .writes hp hm hdirect hsequence hmap

theorem alike_of_layout {shape : Shape} {layout : Layout} (h : Steady M o root (c :: path) known s)
    (hrooted : root ∈ c :: path) (hhead : head.shape? = some shape) (hseq : shape.isSequence = true)
    (ht : t ≠ .none) (hu : t.unwrap = .ok u) (hcont : u.containerShape? = none)
    (hl : M.layoutOf u = .ok layout) : Alike M o root levels c name ordinal t head s := by
  have ha (head : Head) : head.argument t = t := by
    refine (head.argument_cases ht).resolve_right ?_
    rintro ⟨text, rfl, _⟩
    simp only [TypeExpr.unwrap, Except.ok.injEq] at hu
    subst hu
    simp [Model.layoutOf, TypeExpr.isAny, TypeExpr.isScalar, TypeExpr.keyword?, Model.isEnum,
      TypeExpr.containerShape?, TypeExpr.origin?, TypeExpr.isClass] at hl
  obtain ⟨mult, hdirect⟩ : WritesAsElement M o (fun u => buildMessage M o levels u .nested)
      ⟨.cls c, name, u, layout⟩ (sequenceField c name head shape t) ordinal s :=
    classifyField_asElement h hrooted rfl rfl hl hcont
  have hfield : writeField M o levels c name ordinal t s = classifyField M o
      (fun u => buildMessage M o levels u .nested) ⟨.cls c, name, u, layout⟩ ordinal s := by
    rw [writeField, Model.describeField_eq hu hl, fromResult_ok]
  have helement : resolveElement M o (fun u => buildMessage M o levels u .nested)
      (sequenceField c name head shape t) (some (head.argument t)) =
        elementName M o (fun u => buildMessage M o levels u .nested)
          (sequenceField c name head shape t) u := by
    simp only [ha, resolveElement, hu]
  have hsequence : writeField M o levels c name ordinal (.sequenceOf head t) s = (do
      let name? ← elementName M o (fun u => buildMessage M o levels u .nested)
        (sequenceField c name head shape t) u
      onDraft (Draft.emitField Multiplicity.repeated name? name ordinal) : Compiling Unit) s := by
    rw [writeField_sequence h hhead hseq ht, helement]
  have hends := (elementName_follows (.refl M True) h.keeps (nested_follows levels hrooted) (t := u)
    (fun _ => rfl) rfl rfl (f := sequenceField c name head shape t) (fun _ _ _ _ => trivial)).ends
  refine alike_of_element h (hfield.trans hdirect) hsequence (hends.mono ?_ fun _ _ _ => trivial)
    fun mapHead key s' hmap hrun => writeField_mapOf h hrooted hmap ht (ha mapHead) hrun
  rintro name? s' ⟨_, hname, _, _, _, hp⟩
  exact ⟨hname.trans (operandType?_of_unwrap hu).symm, hp⟩

/-- From every moment at which the message of a class is open, a field of a type and one of containers
of that type are written alike. -/
theorem alike_of_inside {shape : Shape} (levels : Nat) (name : String) (ordinal : Int)
    (hs : Inside M o root (c :: path) s) (hhead : head.shape? = some shape)
    (hseq : shape.isSequence = true)
    (ht : ∀ u, t.unwrap = .ok u → u ≠ .none ∧ u.containerShape? = none) :
    Alike M o root levels c name ordinal t head s := by
  obtain ⟨hrooted, known, h⟩ := hs.steady
  have hnone : t ≠ .none := by
    rintro rfl
    exact (ht .none rfl).1 rfl
  cases hu : t.unwrap with
  | error why => exact alike_of_unwrap_error h hhead hseq hnone hu
  | ok u =>
      obtain ⟨_, hcont⟩ := ht u hu
      cases hl : M.layoutOf u with
      | error why => exact alike_of_layout_error h hhead hseq hnone hu hcont hl
      | ok layout => exact alike_of_layout h hrooted hhead hseq hnone hu hcont hl

theorem shop_alike : ∃ s, Inside .shop default (.declared 2) [.declared 2] s ∧
    Head.shape? (.cls (.builtin .list)) = some .list ∧ Shape.list.isSequence = true ∧
    (∀ u, (TypeExpr.cls (.declared 1)).unwrap = .ok u → u ≠ .none ∧ u.containerShape? = none) ∧
    Alike .shop default (.declared 2) 3 (.declared 2) "spare" 4 (.cls (.declared 1))
      (.cls (.builtin .list)) s := by
  have hroot : Model.shop.isComposite (.declared 2) = true := by decide
  obtain ⟨x, hx⟩ : ∃ x, Model.shop.describeClass (.declared 2) = .ok x :=
    exists_of_isSome (by decide +kernel)
  obtain ⟨s, hinside⟩ : ∃ s, Inside .shop default (.declared 2) [.declared 2] s :=
    Inside.exists_root hroot hx
  have ht : ∀ u, (TypeExpr.cls (.declared 1)).unwrap = .ok u → u ≠ .none ∧ u.containerShape? = none := by
    intro u hu
    rw [Model.unwrap_cls] at hu
    cases hu
    exact ⟨nofun, rfl⟩
  exact ⟨s, hinside, rfl, rfl, ht, alike_of_inside 3 "spare" 4 hinside rfl rfl ht⟩

end Compiler

end ClassSchema
