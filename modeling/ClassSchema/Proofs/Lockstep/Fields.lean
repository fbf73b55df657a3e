import ClassSchema.Proofs.Fields
import ClassSchema.Proofs.Lockstep.Elements
import Mathlib.Data.List.Forall2

namespace ClassSchema

namespace Compiler

open Compiling

variable {M M' : Model} {o : Options} {root c d e : ClassRef} {legal : List ClassRef → Prop}
  {path : List ClassRef} {known : ClassRef → Prop} {s : Progress × Record} {exact : Prop} {f f' : Field}
  {t : TypeExpr} {α : Type} {plain : TypeExpr → Compiling String}
  {recorded : TypeExpr → Recording String} {m : OpenMessage} {rest : List OpenMessage} {ordinal : Int}

def AddsALine (M : Model) (o : Options) (root : ClassRef) (legal : List ClassRef → Prop)
    (path : List ClassRef) (known : ClassRef → Prop) (m : OpenMessage) (rest : List OpenMessage)
    (s : Progress × Record) : Prop :=
  ∃ line, Gains M o root legal path known ({ m with lines := m.lines ++ [line] } :: rest) s

theorem emitField_follows {mult name : String} {type : Option String}
    (hg : Gains M o root legal path known (m :: rest) s) :
    Follows exact (onDraft (Draft.emitField mult type name ordinal))
      (Recording.plainly (onDraft (Draft.emitField mult type name ordinal))) s
      (fun _ s' => AddsALine M o root legal path known m rest s') (Quits legal path) := by
  obtain ⟨known', hk, h, hp⟩ := hg
  refine .of_ends (onDraft_ends ((Draft.emitField_ends h.steady.draft hp _ _ _ _).mono ?_
    (fun _ _ _ => h.quits)))
  rintro _ d ⟨_, hd, _, hp'⟩
  exact ⟨_, known', hk, h.redraft hd (by rw [hp, hp']; rfl), hp'⟩

/-- The name of a type that has been given one, or of a scalar. The follower does the same, as it does
not depend on the model. -/
theorem knownName?_follows {fails : Progress × Record → Prop} (h : Keeps M o root legal path known s)
    (ht : s.1.registry.contains t = true → ∃ c, t = .cls c ∧ known c) :
    Follows exact (knownName? t) (Recording.plainly (knownName? t)) s (fun _ s' => s' = s) fails := by
  refine .of_ends ?_
  unfold knownName?
  apply Ends.bind
  apply isRegistered_ends
  by_cases hreg : s.1.registry.contains t = true
  · obtain ⟨c, rfl, hc⟩ := ht hreg
    rw [if_pos hreg]
    exact Ends.bind (registeredName_ends (h.steady.registry.nameOf_cls hc) (Ends.of_pure rfl))
  · rw [if_neg hreg]
    exact Ends.of_pure rfl

theorem isRegistered_follows_container {u : TypeExpr} {fails : Progress × Record → Prop}
    (h : Keeps M o root legal path known s) (ht : M.part? t = none) (hu : M.part? u = none) :
    Follows exact (isRegistered u) (Recording.plainly (isRegistered t)) s
      (fun b s' => b = false ∧ s' = s) fails := by
  have heq : isRegistered u s.1 = isRegistered t s.1 := by
    have ht := h.steady.contains_of_part?_eq_none ht
    have hu := h.steady.contains_of_part?_eq_none hu
    change EStateM.Result.ok (s.1.registry.contains u) s.1 = .ok (s.1.registry.contains t) s.1
    rw [ht, hu]
  have hfollows : Follows exact (isRegistered t) (Recording.plainly (isRegistered t)) s
      (fun b s' => b = false ∧ s' = s) fails :=
    .of_ends (isRegistered_ends ⟨h.steady.contains_of_part?_eq_none ht, rfl⟩)
  simpa only [Follows, heq] using hfollows

theorem classifyScalar_follows (h : Keeps M o root legal (c :: path) known s)
    (hp : s.1.draft.pending = m :: rest) (hf : Writable M M' exact legal c path f f')
    (hs : f.shape = .scalar) (hd : f.declared.isAny = true ∨ f.declared.isScalar = true) :
    Follows exact (classifyField M' o plain f' ordinal) (Recording.classifyField M o recorded f ordinal) s
      (fun _ s' => AddsALine M o root legal (c :: path) known m rest s') (Quits legal (c :: path)) := by
  have hs' : f'.shape = .scalar := by simpa [hs, Shape.isSequence] using hf.mirrors.shape
  have hreg := h.steady.contains_of_part?_eq_none (Model.part?_of_scalar (M := M) hd)
  unfold classifyField Recording.classifyField
  simp only [hs, hs', hf.mirrors.name, hf.mirrors.plain (by simp [hs, Shape.isContainer]), reduceCtorEq,
    if_false, decide_true, Bool.true_or, if_true]
  refine Follows.bind isRegistered_follows ?_
  rintro _ s' ⟨rfl, heq⟩
  rw [heq]
  refine Follows.bind (knownName?_follows h (fun hc => by simp [hreg] at hc)) ?_
  rintro _ s' heq'
  rw [heq']
  exact emitField_follows (hp ▸ h.gains)

theorem classifyEnum_follows (hM : M.Mirrors M' exact) (h : Keeps M o root legal (c :: path) known s)
    (hp : s.1.draft.pending = m :: rest) (hf : Writable M M' exact legal c path f f')
    (hs : f.shape = .enum) (hd : f.declared = .cls e) (he : M.isEnumClass e = true) :
    Follows exact (classifyField M' o plain f' ordinal) (Recording.classifyField M o recorded f ordinal) s
      (fun _ s' => AddsALine M o root legal (c :: path) known m rest s') (Quits legal (c :: path)) := by
  have hs' : f'.shape = .enum := by simpa [hs, Shape.isSequence] using hf.mirrors.shape
  unfold classifyField Recording.classifyField
  simp only [hs, hs', hf.mirrors.name, hf.mirrors.plain (by simp [hs, Shape.isContainer]), hd,
    reduceCtorEq, if_false, decide_false, Bool.false_or]
  refine Follows.bind isRegistered_follows ?_
  rintro _ s' ⟨rfl, heq⟩
  rw [heq]
  by_cases hreg : s.1.registry.contains (.cls e) = true
  · have hk := (h.steady.registry.contains_cls e).mp hreg
    rw [if_pos hreg, if_pos hreg]
    refine Follows.bind (knownName?_follows h (fun _ => ⟨e, rfl, hk⟩)) ?_
    rintro _ s' heq'
    rw [heq']
    exact emitField_follows (hp ▸ h.gains)
  · rw [if_neg hreg, if_neg hreg]
    refine Follows.bind (ensureEnum_follows hM h he) ?_
    rintro _ s' ⟨_, hg⟩
    exact emitField_follows (hp ▸ hg.mono fun c hc => Or.inr hc)

theorem classifySequence_follows (hM : M.Mirrors M' exact) (h : Keeps M o root legal (c :: path) known s)
    (hp : s.1.draft.pending = m :: rest)
    (hn : FollowsNested M o root exact legal (c :: path) plain recorded)
    (hf : Writable M M' exact legal c path f f') (hs : f.shape.isSequence = true)
    (hs' : f'.shape.isSequence = true) (hd : M.part? f.declared = none)
    (hd' : M.part? f'.declared = none) :
    Follows exact (classifyField M' o plain f' ordinal) (Recording.classifyField M o recorded f ordinal) s
      (fun _ s' => AddsALine M o root legal (c :: path) known m rest s') (Quits legal (c :: path)) := by
  have hops := Field.operands_of_sequence hs
  have hrecorded : Recording.classifyField M o recorded f ordinal = (do
      if ← isRegistered f.declared then
        onDraft (Draft.emitField Multiplicity.optional (← knownName? f.declared) f.name ordinal)
      else
        let name? ← Recording.resolveElement M o recorded f f.element
        onDraft (Draft.emitField Multiplicity.repeated name? f.name ordinal)) := by
    unfold Recording.classifyField
    cases hsh : f.shape <;> simp_all [Shape.isSequence]
  rw [classifyField_of_sequence hs', hrecorded, hf.mirrors.name]
  refine Follows.bind (isRegistered_follows_container h hd hd') ?_
  rintro _ s' ⟨rfl, heq⟩
  rw [heq, if_neg Bool.false_ne_true, if_neg Bool.false_ne_true]
  refine Follows.bind (resolveElement_follows hM h hn ?_ hf.mirrors.owner hf.mirrors.name
    hf.mirrors.element (hf.operand (by simp [hops]))) ?_
  · intro he
    rw [hf.mirrors.same he]
    exact ⟨rfl, rfl⟩
  rintro _ s' ⟨_, hg⟩
  exact emitField_follows (hp ▸ hg)

theorem classifyMap_follows (hM : M.Mirrors M' exact) (h : Keeps M o root legal (c :: path) known s)
    (hp : s.1.draft.pending = m :: rest)
    (hn : FollowsNested M o root exact legal (c :: path) plain recorded)
    (hf : Writable M M' exact legal c path f f') (hs : f.shape = .map) (hd : M.part? f.declared = none)
    (hd' : M.part? f'.declared = none) :
    Follows exact (classifyField M' o plain f' ordinal) (Recording.classifyField M o recorded f ordinal) s
      (fun _ s' => AddsALine M o root legal (c :: path) known m rest s') (Quits legal (c :: path)) := by
  have hs' : f'.shape = .map := by simpa [hs, Shape.isSequence] using hf.mirrors.shape
  unfold classifyField Recording.classifyField
  simp only [hs, hs', hf.mirrors.name, reduceCtorEq, if_false, decide_false, Bool.false_or]
  refine Follows.bind (isRegistered_follows_container h hd hd') ?_
  rintro _ s' ⟨rfl, heq⟩
  rw [heq, if_neg Bool.false_ne_true, if_neg Bool.false_ne_true]
  refine Follows.bind (buildEntry_follows hM h hn hf hs) ?_
  rintro _ s' ⟨hg, _⟩
  exact emitField_follows (hp ▸ hg)

theorem classifyComposite_follows (hM : M.Mirrors M' exact)
    (h : Keeps M o root legal (c :: path) known s) (hp : s.1.draft.pending = m :: rest)
    (hn : FollowsNested M o root exact legal (c :: path) plain recorded)
    (hf : Writable M M' exact legal c path f f') (hs : f.shape = .composite) (hd : f.declared = .cls d)
    (hcomp : M.isComposite d = true) :
    Follows exact (classifyField M' o plain f' ordinal) (Recording.classifyField M o recorded f ordinal) s
      (fun _ s' => AddsALine M o root legal (c :: path) known m rest s') (Quits legal (c :: path)) := by
  have hs' : f'.shape = .composite := by simpa [hs, Shape.isSequence] using hf.mirrors.shape
  have hops : f.operands = [some (.cls d)] := by simp only [Field.operands, hs, hd]
  have hu : f.Uses (.cls d) := ⟨.cls d, by simp [hops], Model.unwrap_cls d⟩
  unfold classifyField Recording.classifyField
  simp only [hs, hs', hf.mirrors.name, hf.mirrors.plain (by simp [hs, Shape.isContainer]), hd,
    hM.requireName, if_true, decide_false, reduceCtorEq, Bool.false_or,
    checkCycle_congr hM hf.mirrors.owner hf.mirrors.name]
  refine Follows.bind (q := fun _ s' => s' = s ∧ d ∉ c :: path) (.of_ends ?_) ?_
  · refine (checkCycle_state h.steady.trail).mono ?_ ?_
    · rintro _ _ ⟨rfl, hout⟩
      exact ⟨rfl, hout⟩
    · rintro _ _ rfl
      exact h.quits
  rintro _ s' ⟨heq, hout⟩
  rw [heq]
  refine Follows.bind isRegistered_follows ?_
  rintro _ s' ⟨rfl, heq'⟩
  rw [heq']
  by_cases hreg : s.1.registry.contains (.cls d) = true
  · have hk := (h.steady.registry.contains_cls d).mp hreg
    rw [if_pos hreg, if_pos hreg]
    refine Follows.bind (knownName?_follows h (fun _ => ⟨d, rfl, hk⟩)) ?_
    rintro _ s' heq''
    rw [heq'']
    exact emitField_follows (hp ▸ h.gains)
  · have hnot : ¬ known d := fun hk => hreg ((h.steady.registry.contains_cls d).mpr hk)
    rw [if_neg hreg, if_neg hreg]
    refine Follows.bind (q := fun _ s' => Gains M o root legal (c :: path) (fun c => c = d ∨ known c)
      s.1.draft.pending s') (.discard (hn d known s (hf.legal d hu hcomp hout) hcomp hout hnot h)) ?_
    rintro _ s' hg
    refine Follows.bind (q := fun _ s'' => s'' = s') (.of_ends (requireName_ends rfl)) ?_
    rintro _ s'' rfl
    exact emitField_follows (hp ▸ hg.mono fun c hc => Or.inr hc)

theorem part?_of_isContainer {s : Shape} {l : Layout} (hl : M'.layoutOf t = .ok l) (hs : l.shape = s)
    (hc : s.isContainer = true) : M.part? t = none := by
  rcases Model.layoutOf_cases hl with ⟨h, _⟩ | ⟨h, _⟩ | ⟨_, h⟩ | ⟨h, _⟩
  · simp [← hs, h, Shape.isContainer] at hc
  · simp [← hs, h, Shape.isContainer] at hc
  · exact Model.part?_of_container h
  · simp [← hs, h, Shape.isContainer] at hc

theorem classifyField_follows (hM : M.Mirrors M' exact) (h : Keeps M o root legal (c :: path) known s)
    (hp : s.1.draft.pending = m :: rest)
    (hn : FollowsNested M o root exact legal (c :: path) plain recorded)
    (hf : Writable M M' exact legal c path f f') :
    Follows exact (classifyField M' o plain f' ordinal) (Recording.classifyField M o recorded f ordinal) s
      (fun _ s' => AddsALine M o root legal (c :: path) known m rest s') (Quits legal (c :: path)) := by
  rcases Model.layoutOf_cases hf.mirrors.layout with
    ⟨hs, hd⟩ | ⟨hs, e, hd, he⟩ | ⟨hc, hd⟩ | ⟨hs, d, hd, hcomp⟩
  · exact classifyScalar_follows h hp hf hs hd
  · exact classifyEnum_follows hM h hp hf hs hd he
  · have hpart : M.part? f.declared = none := Model.part?_of_container hd
    by_cases hm : f.shape = .map
    · have hm' : f'.shape = .map := by simpa [hm, Shape.isSequence] using hf.mirrors.shape
      exact classifyMap_follows hM h hp hn hf hm hpart
        (part?_of_isContainer hf.mirrors.layout' hm' rfl)
    · have hs : f.shape.isSequence = true := Shape.isSequence_of_ne_map hc hm
      have hs' : f'.shape.isSequence = true := by
        rcases hf.mirrors.shape with hsh | ⟨_, hsh⟩
        · rw [hsh]
          exact hs
        · exact hsh
      exact classifySequence_follows hM h hp hn hf hs hs' hpart
        (part?_of_isContainer hf.mirrors.layout' rfl (Shape.isContainer_of_isSequence hs'))
  · exact classifyComposite_follows hM h hp hn hf hs hd hcomp

theorem classifyFields_follows {fs fs' : List Field} (hM : M.Mirrors M' exact)
    (h : Keeps M o root legal (c :: path) known s) (hp : s.1.draft.pending = m :: rest)
    (hn : FollowsNested M o root exact legal (c :: path) plain recorded)
    (hf : List.Forall₂ (Writable M M' exact legal c path) fs fs') :
    Follows exact (classifyFields M' o plain ordinal fs')
      (Recording.classifyFields M o recorded ordinal fs) s
      (fun _ s' => ∃ lines, Gains M o root legal (c :: path) known ({ m with lines } :: rest) s')
      (Quits legal (c :: path)) := by
  induction hf generalizing s m ordinal known with
  | nil => exact .of_pure ⟨m.lines, hp ▸ h.gains⟩
  | cons hf _ ih =>
      refine Follows.bind (classifyField_follows hM h hp hn hf) ?_
      rintro _ s₁ ⟨line, known₁, hk₁, h₁, hp₁⟩
      refine (ih h₁ hp₁).mono ?_ (fun _ hq => hq)
      rintro _ s₂ ⟨lines, hg⟩
      exact ⟨lines, hg.mono hk₁⟩

end Compiler

end ClassSchema
