import ClassSchema.Proofs.Messages
import ClassSchema.Document.Call

namespace ClassSchema

theorem OpenMessage.mem_types_blocks (m : OpenMessage) (type : String) :
    type ∈ (m.blocks.flatMap Block.lines).map Line.type ↔
      type ∈ m.lines.map Line.type ∨ m.wrapped = true ∧ type = m.name := by
  have hblock : m.block.lines = m.lines := by
    unfold block
    split <;> rfl
  have hblocks : m.blocks.flatMap Block.lines =
      m.lines ++ if m.wrapped then (Block.wrapper m.name).lines else [] := by
    unfold blocks
    split <;> simp [List.flatMap_cons, hblock]
  have hwrapper : (Block.wrapper m.name).lines.map Line.type = [m.name] := rfl
  rw [hblocks, List.map_append, List.mem_append]
  split
  next hw => simp [hwrapper, hw]
  next hw => simp [hw]

namespace Draft

/-- A call that returns takes the draft `d` to `e`. -/
def Step (d e : Draft) : Prop := ∃ c : Call, c.perform d = .ok () e

def types (d : Draft) : List String :=
  (d.blocks.flatMap Block.lines ++ d.pending.flatMap OpenMessage.lines).map Line.type

/-- The imports are the files of the well-known types, each once. -/
structure Imported (imports types : List String) : Prop where
  nodup : imports.Nodup
  exact : ∀ file, file ∈ imports ↔ ∃ type ∈ types, wellKnownFile? type = some file

variable {imports imports' types types' : List String} {d e : Draft}

theorem Imported.congr (h : Imported imports types) (ht : ∀ type, type ∈ types' ↔ type ∈ types) :
    Imported imports types' where
  nodup := h.nodup
  exact := by simpa only [ht] using h.exact

theorem Imported.note (h : Imported imports types) {type : String}
    (ht : ∀ t, t ∈ types' ↔ t ∈ types ∨ t = type) : Imported (noted imports type) types' := by
  have hnamed : ∀ file, (∃ t ∈ types', wellKnownFile? t = some file) ↔
      file ∈ imports ∨ wellKnownFile? type = some file := by
    intro file
    simp only [ht, h.exact, or_and_right, exists_or, exists_eq_left]
  unfold noted
  split
  next hw => exact ⟨h.nodup, fun file => by simp [hnamed, hw]⟩
  next file hw =>
    split_ifs with hf
    · refine ⟨h.nodup, fun f => ?_⟩
      rw [hnamed, hw, Option.some.injEq]
      exact ⟨Or.inl, fun hm => hm.elim id fun hm => hm ▸ hf⟩
    · refine ⟨List.nodup_append.mpr ⟨h.nodup, List.pairwise_singleton _ _, ?_⟩, fun f => ?_⟩
      · rintro a ha b hb rfl
        exact hf (List.mem_singleton.mp hb ▸ ha)
      · rw [hnamed, hw, Option.some.injEq, List.mem_append, List.mem_singleton, eq_comm (a := f)]

theorem wellKnownFile?_eq_some {type file : String} (h : wellKnownFile? type = some file) :
    type = timestamp ∧ file = "google/protobuf/timestamp.proto" := by
  unfold wellKnownFile? at h
  split_ifs at h with ht
  exact ⟨ht, (Option.some.inj h).symm⟩

theorem Imported.eq_file (h : Imported imports types) :
    ∀ file ∈ imports, file = "google/protobuf/timestamp.proto" := by
  intro file hf
  obtain ⟨type, _, hw⟩ := (h.exact file).mp hf
  exact (wellKnownFile?_eq_some hw).2

/-- There is one well-known type, so its presence alone decides on the imports. -/
theorem Imported.unique (h : Imported imports types) (h' : Imported imports' types')
    (ht : timestamp ∈ types ↔ timestamp ∈ types') : imports = imports' := by
  have hmem : ∀ file, file ∈ imports ↔ file ∈ imports' := by
    intro file
    rw [h.exact, h'.exact]
    constructor
    · rintro ⟨type, hm, hw⟩
      exact ⟨type, (wellKnownFile?_eq_some hw).1 ▸ ht.mp ((wellKnownFile?_eq_some hw).1 ▸ hm), hw⟩
    · rintro ⟨type, hm, hw⟩
      exact ⟨type, (wellKnownFile?_eq_some hw).1 ▸ ht.mpr ((wellKnownFile?_eq_some hw).1 ▸ hm), hw⟩
  have hperm := (List.perm_ext_iff_of_nodup h.nodup h'.nodup).mpr hmem
  rw [List.eq_replicate_of_mem h.eq_file, List.eq_replicate_of_mem h'.eq_file, hperm.length_eq]

theorem Imported.step (h : Imported d.imports d.types) (hs : Step d e) :
    Imported e.imports e.types := by
  obtain ⟨c, hc⟩ := hs
  cases c with
  | beginMessage name wrapped =>
      cases hc
      exact h.congr (by simp [types])
  | emitField multiplicity type name ordinal =>
      cases hp : d.pending with
      | nil =>
          have hends : Ends (Call.emitField multiplicity type name ordinal).perform d
              (fun _ _ => False) (fun fault f => f = d ∧ fault = .outsideMessage name) :=
            emitField_outside hp multiplicity type name ordinal
          exact (hends.of_ok hc).elim
      | cons m rest =>
          obtain ⟨_, rfl⟩ := (emitField_attempt hp multiplicity type name ordinal).of_ok hc
          refine h.note fun t => ?_
          simp only [types, hp, List.flatMap_cons, List.map_append, List.mem_append, List.map_cons,
            List.map_nil, List.mem_singleton]
          simp only [or_assoc, or_left_comm, or_comm]
  | endMessage =>
      cases hp : d.pending with
      | nil =>
          have hends : Ends Call.endMessage.perform d (fun _ _ => False)
              (fun fault f => f = d ∧ fault = .nothingOpen) := Ends.discard (endMessage_outside hp)
          exact (hends.of_ok hc).elim
      | cons m rest =>
          have hends : Ends Call.endMessage.perform d
              (fun _ e => Attempt d m.blocks m.blocks rest e ∧
                e.imports = if m.wrapped then noted d.imports m.name else d.imports)
              (fun _ _ => True) :=
            Ends.discard ((endMessage_attempt hp).mono (fun _ _ h => ⟨h.2.1, h.2.2.2⟩)
              (fun _ _ _ => trivial))
          obtain ⟨ha, hi⟩ := hends.of_ok hc
          have htypes : ∀ t, t ∈ e.types ↔ t ∈ d.types ∨ m.wrapped = true ∧ t = m.name := by
            intro t
            simp only [types, ha.blocks, ha.pending, hp, List.flatMap_append, List.flatMap_cons,
              List.map_append, List.mem_append, m.mem_types_blocks]
            simp only [or_assoc, or_left_comm, or_comm]
          rw [hi]
          cases hw : m.wrapped with
          | false => exact h.congr (by simpa [hw] using htypes)
          | true => exact h.note (by simpa [hw] using htypes)
  | emitEnum name constants =>
      obtain ⟨_, hi, ha⟩ := (emitEnum_attempt d name constants).of_ok hc
      rw [hi]
      exact h.congr (by simp [types, ha.blocks, ha.pending, Block.lines])
  | emitEntry name key value =>
      obtain ⟨ha, hi⟩ := (emitEntry_attempt d name key value).of_ok hc
      rw [hi]
      have hkey : Imported (noted d.imports (key.getD defaultType)) (d.types ++ [key.getD defaultType]) :=
        h.note (by simp)
      refine hkey.note fun t => ?_
      have hentry : ([Block.mapEntry name (key.getD defaultType) (value.getD defaultType)].flatMap
          Block.lines).map Line.type = [key.getD defaultType, value.getD defaultType] := rfl
      simp only [types, ha.blocks, ha.pending, List.flatMap_append, List.map_append, List.mem_append,
        hentry, List.mem_cons, List.not_mem_nil]
      simp only [or_assoc, or_left_comm, or_comm]

theorem Imported.empty : Imported [] [] where
  nodup := List.nodup_nil
  exact := by simp

theorem Imported.steps (h : Relation.ReflTransGen Step {} d) : Imported d.imports d.types := by
  induction h with
  | refl => exact .empty
  | tail _ hs ih => exact ih.step hs

end Draft

namespace Compiling

variable {α β : Type}

/-- All that the step does to the draft, if it ends well, is done by calls that return. -/
def Calls (step : Compiling α) : Prop :=
  ∀ s, Ends step s (fun _ s' => Relation.ReflTransGen Draft.Step s.draft s'.draft) (fun _ _ => True)

namespace Calls

variable {step : Compiling α} {next : α → Compiling β}

theorem of_draft (h : ∀ s, Ends step s (fun _ s' => s'.draft = s.draft) (fun _ _ => True)) :
    Calls step :=
  fun s => (h s).mono (fun _ _ he => he ▸ .refl) (fun _ _ h => h)

theorem pure (a : α) : Calls (pure a) := fun _ => Ends.of_pure .refl

theorem throw (fault : Fault) : Calls (throw fault : Compiling α) := fun _ => Ends.of_throw trivial

theorem get : Calls get := fun _ => Ends.of_get .refl

theorem bind (h : Calls step) (hn : ∀ a, Calls (next a)) : Calls (step >>= next) := by
  intro s
  refine (h s).andThen fun a s' hs => ?_
  exact (hn a s').mono (fun _ _ hs' => hs.trans hs') (fun _ _ h => h)

theorem ite {p : Prop} [Decidable p] {other : Compiling α} (h : Calls step) (h' : Calls other) :
    Calls (if p then step else other) := by
  split
  next => exact h
  next => exact h'

theorem discard (h : Calls step) : Calls (discard step) := fun s => Ends.discard (h s)

theorem fromResult (x : Except Fault α) : Calls (fromResult x) := by
  cases x with
  | ok a => exact pure a
  | error fault => exact throw fault

theorem onDraft (c : Draft.Call) : Calls (onDraft c.perform) := by
  intro s
  apply onDraft_ends
  unfold Ends
  cases hc : c.perform s.draft with
  | ok _ d => exact .single ⟨c, hc⟩
  | error fault d => trivial

theorem onTrail (step : Trailing α) : Calls (onTrail step) := by
  refine of_draft fun s => onTrail_ends ?_
  unfold Ends
  cases step s.trail <;> trivial

theorem within {t : TypeExpr} (h : Calls step) : Calls (within t step) := by
  refine bind (onTrail _) fun _ s => thenLeave_ends ((h s).mono ?_ ?_)
  · exact fun _ s' hs => (onTrail Trail.pop s').mono (fun _ _ hp => hs.trans hp) (fun _ _ h => h)
  · exact fun _ s' _ => (onTrail Trail.pop s').mono (fun _ _ _ => trivial) (fun _ _ h => h)

theorem isRegistered (t : TypeExpr) : Calls (isRegistered t) := bind get fun _ => pure _

theorem registeredName (t : TypeExpr) : Calls (registeredName t) := bind get fun _ => fromResult _

theorem register (t : TypeExpr) (path name : String) : Calls (register t path name) :=
  bind get fun _ => bind (fromResult _) fun _ => of_draft fun _ => Ends.of_modify rfl

end Calls

end Compiling

namespace Compiler

open Compiling

variable {M : Model} {o : Options} {nested : TypeExpr → Compiling String}

theorem checkCycle_calls (f : Field) (t : TypeExpr) : Calls (checkCycle M f t) :=
  .bind .get fun _ => .ite
    (.bind (.fromResult _) fun _ => .bind (.discard (.fromResult _)) fun _ =>
      .bind (.discard (.fromResult _)) fun _ => .bind (.fromResult _) fun _ => .throw _)
    (.pure _)

theorem knownName?_calls (t : TypeExpr) : Calls (knownName? t) :=
  .bind (.isRegistered t) fun _ => .ite (.bind (.registeredName t) fun _ => .pure _) (.pure _)

theorem registerHere_calls (t : TypeExpr) (name : String) : Calls (registerHere M t name) :=
  .bind .get fun _ => .bind (.fromResult _) fun _ => .register _ _ _

theorem ensureEnum_calls (t : TypeExpr) : Calls (ensureEnum M o t) :=
  .bind (.isRegistered t) fun _ => .ite (.registeredName t)
    (.bind (.fromResult _) fun _ => .bind (.within (registerHere_calls _ _)) fun _ =>
      .bind (.onDraft (.emitEnum ..)) fun _ => .pure _)

theorem failField_calls {α : Type} (f : Field) (fault : String → String → Fault) :
    Calls (failField M f fault : Compiling α) :=
  .bind (.fromResult _) fun _ => .throw _

theorem elementName_calls (hn : ∀ t, Calls (nested t)) (f : Field) (t : TypeExpr) :
    Calls (elementName M o nested f t) := by
  unfold elementName
  refine .ite (failField_calls _ _) (.ite (.pure _) ?_)
  cases t.keyword? with
  | some keyword => exact .pure _
  | none =>
      refine .ite (.bind (ensureEnum_calls t) fun _ => .pure _) (.ite (failField_calls _ _) ?_)
      refine .bind (checkCycle_calls f t) fun _ => .bind (.isRegistered t) fun _ => ?_
      exact .ite (.bind (.discard (hn t)) fun _ => .bind (.registeredName t) fun _ => .pure _)
        (.bind (.registeredName t) fun _ => .pure _)

theorem resolveElement_calls (hn : ∀ t, Calls (nested t)) (f : Field) (operand : Option TypeExpr) :
    Calls (resolveElement M o nested f operand) := by
  unfold resolveElement
  split
  next => exact failField_calls _ _
  next =>
    split
    next => exact failField_calls _ _
    next => exact elementName_calls hn f _

theorem buildEntry_calls (hn : ∀ t, Calls (nested t)) (f : Field) :
    Calls (buildEntry M o nested f) :=
  .ite (failField_calls _ _)
    (.bind (resolveElement_calls hn f _) fun _ => .bind (resolveElement_calls hn f _) fun _ =>
      .bind (.registeredName _) fun _ => .bind (.onDraft (.emitEntry ..)) fun _ => .pure _)

theorem classifyField_calls (hn : ∀ t, Calls (nested t)) (f : Field) (ordinal : Int) :
    Calls (classifyField M o nested f ordinal) := by
  have hfield (multiplicity : String) (type : Option String) :
      Calls (onDraft (Draft.emitField multiplicity type f.name ordinal)) :=
    .onDraft (.emitField ..)
  have hknown : Calls (do
      onDraft (Draft.emitField Multiplicity.optional (← knownName? f.declared) f.name ordinal)) :=
    .bind (knownName?_calls _) fun _ => hfield _ _
  unfold classifyField
  cases hs : f.shape with
  | scalar =>
      simp only [reduceCtorEq, if_false, decide_true, Bool.true_or, if_true]
      exact .bind (.isRegistered _) fun _ => hknown
  | enum =>
      simp only [reduceCtorEq, if_false, decide_false, Bool.false_or]
      exact .bind (.isRegistered _) fun _ => .ite hknown
        (.bind (ensureEnum_calls _) fun _ => hfield _ _)
  | list | array | collection =>
      simp only [reduceCtorEq, if_false, decide_false, Bool.false_or]
      exact .bind (.isRegistered _) fun _ => .ite hknown
        (.bind (resolveElement_calls hn f _) fun _ => hfield _ _)
  | map =>
      simp only [reduceCtorEq, if_false, decide_false, Bool.false_or]
      exact .bind (.isRegistered _) fun _ => .ite hknown
        (.bind (buildEntry_calls hn f) fun _ => hfield _ _)
  | composite =>
      simp only [reduceCtorEq, if_true, decide_false, Bool.false_or]
      exact .bind (checkCycle_calls f _) fun _ => .bind (.isRegistered _) fun _ => .ite hknown
        (.bind (.discard (hn _)) fun _ => .bind (.fromResult _) fun _ => hfield _ _)

theorem classifyFields_calls (hn : ∀ t, Calls (nested t)) (fs : List Field) (ordinal : Int) :
    Calls (classifyFields M o nested ordinal fs) := by
  induction fs generalizing ordinal with
  | nil => exact .pure _
  | cons f fs ih => exact .bind (classifyField_calls hn f ordinal) fun _ => ih (ordinal + 1)

theorem endMessage_calls : Calls (discard (onDraft Draft.endMessage)) := by
  have h : discard (onDraft Draft.endMessage) = onDraft Draft.Call.endMessage.perform := by
    funext s
    simp only [discard, Functor.discard, Functor.mapConst, EStateM.map, onDraft, Draft.Call.perform,
      Function.comp]
    cases Draft.endMessage s.draft <;> rfl
  exact h ▸ .onDraft .endMessage

theorem buildMessage_calls (levels : Nat) (t : TypeExpr) (policy : Name.Policy) :
    Calls (buildMessage M o levels t policy) := by
  induction levels generalizing t policy with
  | zero => exact .throw _
  | succ levels ih =>
      refine .bind (.fromResult _) fun d => .bind (.within ?_) fun _ => .pure _
      exact .bind (registerHere_calls _ _) fun _ => .bind (.onDraft (.beginMessage _ _)) fun _ =>
        .bind (classifyFields_calls (fun u => ih u .nested) _ _) fun _ => endMessage_calls

theorem compile_imports {t : TypeExpr} {doc : Document} (h : compile M o t = .ok doc) :
    Draft.Imported doc.imports ((doc.blocks.flatMap Block.lines).map Line.type) := by
  obtain ⟨root, name, s, _, hroot, hb, rfl⟩ := compile_run h
  have hsteps : Relation.ReflTransGen Draft.Step {} s.draft := (buildMessage_calls _ _ _ {}).of_ok hb
  obtain ⟨_, _, hat, _⟩ := (buildRoot_ends hroot).of_ok hb
  have himported := Draft.Imported.steps hsteps
  rwa [Draft.types, hat.pending, List.flatMap_nil, List.append_nil] at himported

end Compiler

end ClassSchema
