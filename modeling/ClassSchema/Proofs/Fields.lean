import ClassSchema.Proofs.Elements

namespace ClassSchema

namespace Compiler

open Compiling

variable (M : Model) (o : Options) (root : ClassRef)

def AddsLine (enter : List Piece → ClassRef → List Piece) (c : ClassRef) (path : List ClassRef)
    (ordinal : Int) (f : Field) (ps : List Piece)
    (m : OpenMessage) (rest : List OpenMessage) (s : Progress) : Prop :=
  Advances M o root (c :: path) [.entry c f.name] ps
    ({ m with lines := m.lines ++ [fieldLine M o root (parts ps) c ordinal f] } :: rest)
    (fun ps' => ps' = meetField M enter c ps f ∧ Settled M ps' c f) s

variable {M : Model} {o : Options} {root c d e : ClassRef} {path : List ClassRef} {ps ps' : List Piece}
  {m : OpenMessage} {rest : List OpenMessage} {s : Progress} {f : Field} {ordinal : Int}
  {nested : TypeExpr → Compiling String} {enter : List Piece → ClassRef → List Piece}

theorem At.redraft {pending pending' : List OpenMessage} {d : Draft}
    (h : At M o root path ps pending s) (hd : d.Consistent) (hb : d.blocks = s.draft.blocks)
    (hp : d.pending = pending') : At M o root path ps pending' { s with draft := d } where
  trail := h.trail
  registry := h.registry
  draft := hd
  blocks := hb.trans h.blocks
  pending := hp
  sound := h.sound
  closed := h.closed
  entries := h.entries

theorem emitField_ends {mult : String} {type : Option String}
    (hgrown : Grown (c :: path) [.entry c f.name] ps ps')
    (h : At M o root (c :: path) ps' (m :: rest) s) (hc : M.Reachable root c) (hf : f ∈ M.fieldsOf c)
    (hres : ∀ operand ∈ f.operands, M.Resolved ps' operand)
    (hentry : f.shape = .map → .entry c f.name ∈ parts ps')
    (hmeet : ps' = meetField M enter c ps f) (hmult : mult = multiplicity (parts ps) f)
    (htype : type = fieldType? M o root c f) :
    Ends (onDraft (Draft.emitField mult type f.name ordinal)) s
      (fun _ s' => AddsLine M o root enter c path ordinal f ps m rest s') (Fails M o root (c :: path)) := by
  refine onDraft_ends ((Draft.emitField_ends h.draft h.pending _ _ _ _).mono ?_ ?_)
  · rintro _ d ⟨hlegal, hd, hb, hp⟩
    rw [hmult, htype] at hp
    exact ⟨ps', hgrown, h.redraft hd hb hp, hmeet, hlegal, hres, hentry⟩
  · rintro _ d ⟨hlegal, rfl⟩
    exact ⟨h.trail, Cause.illegalFieldName hc hf hlegal⟩

theorem knownName?_ends_keyword {t : TypeExpr} {post : Option String → Progress → Prop}
    {fails : Fault → Progress → Prop} (hreg : s.registry.contains t = false) (h : post t.keyword? s) :
    Ends (knownName? t) s post fails := by
  apply Ends.bind
  apply isRegistered_ends
  rw [hreg]
  exact Ends.of_pure h

theorem knownName?_ends_class {post : Option String → Progress → Prop}
    {fails : Fault → Progress → Prop} {pending : List OpenMessage} (h : At M o root path ps pending s)
    (hmet : Met M path ps c) (hpost : post (some (className M o root c)) s) :
    Ends (knownName? (.cls c)) s post fails := by
  apply Ends.bind
  apply isRegistered_ends
  rw [(h.contains_cls c).mpr hmet]
  exact Ends.bind (registeredName_ends (h.registry.nameOf_cls hmet) (Ends.of_pure hpost))

theorem typeName?_of_scalar {t : TypeExpr} (h : t.isAny = true ∨ t.isScalar = true) :
    typeName? M o root t = t.keyword? := by
  cases hkey : t.keyword? with
  | none =>
      refine typeName?_of_isAny (h.resolve_right ?_)
      simp [TypeExpr.isScalar, hkey]
  | some keyword =>
      refine typeName?_of_keyword ?_ hkey
      rw [Bool.eq_false_iff]
      intro hany
      cases t with
      | cls c => cases c with
        | builtin b => cases b <;> simp_all [TypeExpr.isAny, TypeExpr.keyword?, Builtin.keyword?]
        | declared i => cases hany
      | _ => cases hany

theorem operandType?_cls (hany : (TypeExpr.cls c).isAny = false)
    (hkey : (TypeExpr.cls c).keyword? = none) :
    operandType? M o root (some (.cls c)) = some (className M o root c) := by
  rw [operandType?_of_unwrap (Model.unwrap_cls c), typeName?_cls hany hkey]

theorem emitSole_ends {mult : String} {operand : Option TypeExpr}
    (hgrown : Grown (c :: path) [] ps ps') (h : At M o root (c :: path) ps' (m :: rest) s)
    (hc : M.Reachable root c) (hf : f ∈ M.fieldsOf c) (hops : f.operands = [operand])
    (hmeet : ps' = meetOperand M enter ps operand) (hres : M.Resolved ps' operand)
    (hmult : mult = multiplicity (parts ps) f) :
    Ends (onDraft (Draft.emitField mult (operandType? M o root operand) f.name ordinal)) s
      (fun _ s' => AddsLine M o root enter c path ordinal f ps m rest s') (Fails M o root (c :: path)) := by
  have hmap : f.shape ≠ .map := by
    intro hm
    simp [Field.operands_of_map hm] at hops
  have htype : operandType? M o root operand = fieldType? M o root c f := by
    cases hs : f.shape <;> simp_all [Field.operands, fieldType?]
  have hall : ∀ operand ∈ f.operands, M.Resolved ps' operand := by
    rw [hops]
    exact List.forall_mem_singleton.mpr hres
  rw [← meetField_sole hops] at hmeet
  exact emitField_ends (hgrown.mono (List.nil_subset _)) h hc hf hall (fun hm => absurd hm hmap) hmeet
    hmult htype

theorem classifyScalar_ends (hroot : M.isComposite root = true) (hway : M.Way root (c :: path))
    (h : At M o root (c :: path) ps (m :: rest) s) (hf : f ∈ M.fieldsOf c) (hs : f.shape = .scalar)
    (hd : f.declared.isAny = true ∨ f.declared.isScalar = true) :
    Ends (classifyField M o nested f ordinal) s
      (fun _ s' => AddsLine M o root enter c path ordinal f ps m rest s') (Fails M o root (c :: path)) := by
  have hnone : M.part? f.declared = none := Model.part?_of_scalar hd
  have hreg := h.contains_of_part?_eq_none (hway.composite hroot) hnone
  have hops : f.operands = [some f.declared] := by simp only [Field.operands, hs]
  have hel : f.declared.isElement = true := by
    rcases hd with hd | hd <;> simp [TypeExpr.isElement, hd]
  have hst : M.Stands ps f.declared := .of_none hnone ps
  have hres : M.Resolved ps (some f.declared) := ⟨_, _, rfl, Model.unwrap_of_scalar hd, hel, hst⟩
  have htype : operandType? M o root (some f.declared) = f.declared.keyword? := by
    rw [operandType?_of_unwrap (Model.unwrap_of_scalar hd), typeName?_of_scalar hd]
  unfold classifyField
  simp only [hs, reduceCtorEq, if_false, decide_true, Bool.true_or, if_true]
  refine Ends.bind (isRegistered_ends (Ends.bind (knownName?_ends_keyword hreg ?_)))
  rw [← htype]
  exact emitSole_ends .refl h (hway.reachable c List.mem_cons_self) hf hops
    (meetOperand_of_stands (Model.unwrap_of_scalar hd) hst).symm hres (by simp only [multiplicity, hs])

theorem classifyEnum_ends (hroot : M.isComposite root = true) (hway : M.Way root (c :: path))
    (h : At M o root (c :: path) ps (m :: rest) s) (hf : f ∈ M.fieldsOf c) (hs : f.shape = .enum)
    (hd : f.declared = .cls e) (he : M.isEnumClass e = true) :
    Ends (classifyField M o nested f ordinal) s
      (fun _ s' => AddsLine M o root enter c path ordinal f ps m rest s') (Fails M o root (c :: path)) := by
  obtain ⟨hany, hkey, hcont⟩ := Model.enum_facts he
  have hc : M.Reachable root c := hway.reachable c List.mem_cons_self
  have hops : f.operands = [some (.cls e)] := by simp only [Field.operands, hs, hd]
  have hm : M.Mentions c (.cls e) := ⟨f, hf, .cls e, by simp [hops], Model.unwrap_cls e⟩
  have hel : (TypeExpr.cls e).isElement = true := by simp [TypeExpr.isElement, TypeExpr.isClass, hcont]
  have hmult : Multiplicity.optional = multiplicity (parts ps) f := by simp only [multiplicity, hs]
  have hout : e ∉ c :: path := by
    intro hp
    simp [(Model.isComposite_iff.mp (hway.composite hroot e hp)).2.2.1] at he
  unfold classifyField
  simp only [hs, hd, reduceCtorEq, if_false, decide_false, Bool.false_or]
  apply Ends.bind
  apply isRegistered_ends
  by_cases hreg : s.registry.contains (.cls e) = true
  · have hmet := (h.contains_cls e).mp hreg
    rw [if_pos hreg]
    refine Ends.bind (knownName?_ends_class h hmet ?_)
    rw [← operandType?_cls hany hkey]
    exact emitSole_ends .refl h hc hf hops
      (meetOperand_of_stands (Model.unwrap_cls e) (hmet.stands hout)).symm
      ⟨_, _, rfl, Model.unwrap_cls e, hel, hmet.stands hout⟩ hmult
  · rw [if_neg hreg]
    refine (ensureEnum_ends enter hroot hway h he hm).andThen ?_
    rintro _ s' ⟨rfl, ps', hgrown, h', hmeet, hst⟩
    rw [← operandType?_cls hany hkey]
    rw [← meetOperand_of_unwrap (Model.unwrap_cls e)] at hmeet
    exact emitSole_ends hgrown h' hc hf hops hmeet ⟨_, _, rfl, Model.unwrap_cls e, hel, hst⟩ hmult

theorem classifyField_of_sequence (hs : f.shape.isSequence = true) :
    classifyField M o nested f ordinal = (do
      if ← isRegistered f.declared then
        onDraft (Draft.emitField Multiplicity.optional (← knownName? f.declared) f.name ordinal)
      else
        let name? ← resolveElement M o nested f f.element
        onDraft (Draft.emitField Multiplicity.repeated name? f.name ordinal)) := by
  unfold classifyField
  cases hsh : f.shape <;> simp_all [Shape.isSequence]

theorem classifySequence_ends (hroot : M.isComposite root = true) (hway : M.Way root (c :: path))
    (h : At M o root (c :: path) ps (m :: rest) s) (hn : Nests M o root nested enter (c :: path))
    (hf : f ∈ M.fieldsOf c) (hs : f.shape.isSequence = true)
    (hd : f.declared.containerShape? = some f.shape) :
    Ends (classifyField M o nested f ordinal) s
      (fun _ s' => AddsLine M o root enter c path ordinal f ps m rest s') (Fails M o root (c :: path)) := by
  have hreg := h.contains_of_part?_eq_none (hway.composite hroot) (Model.part?_of_container hd)
  have hops := Field.operands_of_sequence hs
  rw [classifyField_of_sequence hs]
  apply Ends.bind
  apply isRegistered_ends
  rw [hreg, if_neg Bool.false_ne_true]
  refine (resolveElement_ends hroot hway h hn hf (by simp [hops])).andThen ?_
  rintro _ s' ⟨rfl, ps', hgrown, h', hmeet, hres⟩
  exact emitSole_ends hgrown h' (hway.reachable c List.mem_cons_self) hf hops hmeet hres
    (multiplicity_of_sequence hs).symm

theorem classifyMap_ends (hroot : M.isComposite root = true) (hway : M.Way root (c :: path))
    (h : At M o root (c :: path) ps (m :: rest) s) (hn : Nests M o root nested enter (c :: path))
    (hf : f ∈ M.fieldsOf c) (hs : f.shape = .map) (hd : f.declared.containerShape? = some .map)
    (hnew : .entry c f.name ∉ parts ps) :
    Ends (classifyField M o nested f ordinal) s
      (fun _ s' => AddsLine M o root enter c path ordinal f ps m rest s') (Fails M o root (c :: path)) := by
  have hreg := h.contains_of_part?_eq_none (hway.composite hroot) (Model.part?_of_container hd)
  unfold classifyField
  simp only [hs, reduceCtorEq, if_false, decide_false, Bool.false_or]
  apply Ends.bind
  apply isRegistered_ends
  rw [hreg, if_neg Bool.false_ne_true]
  refine (buildEntry_ends hroot hway h hn hf hs hnew).andThen ?_
  rintro _ s' ⟨rfl, ps', hgrown, h', hmeet, hentry, hres⟩
  refine emitField_ends hgrown h' (hway.reachable c List.mem_cons_self) hf hres (fun _ => hentry) hmeet
    ?_ ?_
  · simp only [multiplicity, hs]
  · simp only [fieldType?, hs]

theorem classifyComposite_ends (hway : M.Way root (c :: path))
    (h : At M o root (c :: path) ps (m :: rest) s) (hn : Nests M o root nested enter (c :: path))
    (hf : f ∈ M.fieldsOf c) (hs : f.shape = .composite) (hd : f.declared = .cls d)
    (hcomp : M.isComposite d = true) :
    Ends (classifyField M o nested f ordinal) s
      (fun _ s' => AddsLine M o root enter c path ordinal f ps m rest s') (Fails M o root (c :: path)) := by
  obtain ⟨hany, hscalar, _, hcont⟩ := Model.isComposite_iff.mp hcomp
  have hkey : (TypeExpr.cls d).keyword? = none := by simpa [TypeExpr.isScalar] using hscalar
  have hops : f.operands = [some (.cls d)] := by simp only [Field.operands, hs, hd]
  have hu : f.Uses (.cls d) := ⟨.cls d, by simp [hops], Model.unwrap_cls d⟩
  have hpart := Model.part?_composite hcomp
  have hel := Model.isElement_composite hcomp
  have hc : M.Reachable root c := hway.reachable c List.mem_cons_self
  have hname : className M o root d = messageName M o root d := className_of_composite hcomp
  unfold classifyField
  simp only [hs, hd, reduceCtorEq, if_true, decide_false, Bool.false_or]
  refine (checkCycle_ends hway h hf hu hcomp).andThen ?_
  rintro _ s' ⟨hs', hout⟩
  rw [hs']
  apply Ends.bind
  apply isRegistered_ends
  by_cases hreg : s.registry.contains (.cls d) = true
  · have hmet := (h.contains_cls d).mp hreg
    have hst := hmet.stands hout
    rw [if_pos hreg]
    refine Ends.bind (knownName?_ends_class h hmet ?_)
    rw [← operandType?_cls hany hkey]
    refine emitSole_ends .refl h hc hf hops (meetOperand_of_stands (Model.unwrap_cls d) hst).symm
      ⟨_, _, rfl, Model.unwrap_cls d, hel, hst⟩ ?_
    simp [multiplicity, hs, hd, TypeExpr.class?, hst _ hpart]
  · have hnot : .message d ∉ parts ps := fun hmem =>
      hreg ((h.contains_cls d).mpr (met_of_mem hpart hmem))
    have hne : d ≠ root := fun he => hout (he ▸ hway.root_mem)
    have hnest : Ends (discard (nested (.cls d))) s
        (fun _ s' => Advances M o root (c :: path) [] ps (m :: rest)
          (fun ps' => ps' = enter ps d ∧ .message d ∈ parts ps') s')
        (Fails M o root (c :: path)) :=
      Ends.discard (hn d ps _ s (.into hway ⟨⟨f, hf, hu⟩, hcomp⟩ hout) hnot h)
    rw [if_neg hreg]
    apply hnest.andThen
    rintro _ s' ⟨ps', hgrown, h', hmeet, hmem⟩
    have hmet : Met M (c :: path) ps' d := met_of_mem hpart hmem
    apply Ends.bind
    apply requireName_ends
    rw [← messageName_of_ne hne, ← hname, ← operandType?_cls hany hkey]
    replace hmeet := hmeet.trans (meet_new hcomp hnot).symm
    rw [← meetOperand_of_unwrap (Model.unwrap_cls d)] at hmeet
    refine emitSole_ends hgrown h' hc hf hops hmeet
      ⟨_, _, rfl, Model.unwrap_cls d, hel, hmet.stands hout⟩ ?_
    simp [multiplicity, hs, hd, TypeExpr.class?, hnot]

theorem classifyField_ends (hroot : M.isComposite root = true) (hway : M.Way root (c :: path))
    (h : At M o root (c :: path) ps (m :: rest) s) (hn : Nests M o root nested enter (c :: path))
    (hf : f ∈ M.fieldsOf c) (hnew : .entry c f.name ∉ parts ps) :
    Ends (classifyField M o nested f ordinal) s
      (fun _ s' => AddsLine M o root enter c path ordinal f ps m rest s') (Fails M o root (c :: path)) := by
  rcases Model.layoutOf_cases (Model.layout_of_field hf) with
    ⟨hs, hd⟩ | ⟨hs, e, hd, he⟩ | ⟨hs, hd⟩ | ⟨hs, d, hd, hcomp⟩
  · exact classifyScalar_ends hroot hway h hf hs hd
  · exact classifyEnum_ends hroot hway h hf hs hd he
  · by_cases hm : f.shape = .map
    · exact classifyMap_ends hroot hway h hn hf hm (hm ▸ hd) hnew
    · refine classifySequence_ends hroot hway h hn hf ?_ hd
      exact Shape.isSequence_of_ne_map hs hm
  · exact classifyComposite_ends hway h hn hf hs hd hcomp

/-- The fields of an open message, where the first ones have their lines. An entry is written for a
map of the class only when its turn comes. -/
theorem classifyFields_ends (hroot : M.isComposite root = true) (hway : M.Way root (c :: path))
    (hn : Nests M o root nested enter (c :: path)) (fs : List Field) {done : List Field}
    (h : At M o root (c :: path) ps (m :: rest) s) (hdone : Filled M o root c done m.lines ps)
    (hf : ∀ f ∈ fs, f ∈ M.fieldsOf c) (hnd : (fs.map Field.name).Nodup)
    (hnew : ∀ f ∈ fs, .entry c f.name ∉ parts ps) :
    Ends (classifyFields M o nested (done.length + 1) fs) s
      (fun _ s' => ∃ ps' lines, Grown (c :: path) (fs.map (fun f => .entry c f.name)) ps ps' ∧
        At M o root (c :: path) ps' ({ m with lines } :: rest) s' ∧
        Filled M o root c (done ++ fs) lines ps' ∧
        ps' = fs.foldl (meetField M enter c) ps ∧
        lines = m.lines ++ linesFrom M o root enter c done.length ps fs)
      (Fails M o root (c :: path)) := by
  induction fs generalizing s ps m done with
  | nil =>
      refine Ends.of_pure ⟨ps, m.lines, .refl, h, ?_, rfl, (List.append_nil _).symm⟩
      rwa [List.append_nil]
  | cons f fs ih =>
      obtain ⟨hf, hfs⟩ := List.forall_mem_cons.mp hf
      obtain ⟨hnew, hnews⟩ := List.forall_mem_cons.mp hnew
      obtain ⟨hout, hnd⟩ := List.nodup_cons.mp hnd
      refine (classifyField_ends hroot hway h hn hf hnew).andThen ?_
      rintro _ s₁ ⟨ps₁, hgrown₁, h₁, hmeet, hset⟩
      have hnews₁ := hgrown₁.entries_new hout hnews
      have hdone₁ := Filled.field hdone hgrown₁.suffix hset
      have hlen : (done ++ [f]).length = done.length + 1 := List.length_append
      have hrest := ih h₁ hdone₁ hfs hnd hnews₁
      rw [hlen] at hrest
      refine hrest.mono ?_ (fun _ _ h => h)
      rintro _ s₂ ⟨ps₂, lines, hgrown₂, h₂, hfill, hps, hlines⟩
      rw [List.append_assoc] at hfill hlines
      rw [hmeet] at hps hlines
      exact ⟨ps₂, lines, hgrown₁.trans hgrown₂, h₂, hfill, hps, hlines⟩

end Compiler

end ClassSchema
