import ClassSchema.Proofs.Coverage
import ClassSchema.Proofs.Moments
import ClassSchema.Proofs.Trails
import ClassSchema.Proofs.Writing

namespace ClassSchema

/-- The draft `e` has all that `d` has, and more after it. Their open messages may differ. -/
structure Draft.Continues (d e : Draft) : Prop where
  blocks : d.blocks <+: e.blocks
  messages : d.messages <+: e.messages
  enums : d.enums <+: e.enums
  imports : d.imports <+: e.imports

namespace Draft

variable {d e f : Draft} {new : List Block}

theorem Continues.refl (d : Draft) : Continues d d :=
  ⟨List.prefix_rfl, List.prefix_rfl, List.prefix_rfl, List.prefix_rfl⟩

theorem Continues.trans (h : Continues d e) (h' : Continues e f) : Continues d f :=
  ⟨h.blocks.trans h'.blocks, h.messages.trans h'.messages, h.enums.trans h'.enums,
    h.imports.trans h'.imports⟩

theorem Continues.exists_text (h : Continues d e) (indent : String) :
    ∃ more, e.text indent = d.text indent ++ more := by
  obtain ⟨new, hnew⟩ := h.blocks
  exact ⟨String.join (new.map (Block.text indent)), by
    rw [text, text, ← hnew, List.map_append, String.join_append]⟩

theorem prefix_noted (imports : List String) (type : String) : imports <+: noted imports type := by
  unfold noted
  split
  next => exact List.prefix_rfl
  next file _ =>
    split
    next => exact List.prefix_rfl
    next => exact List.prefix_append _ _

theorem Extends.continues (h : Extends d new e) (hi : d.imports <+: e.imports) : Continues d e :=
  ⟨⟨_, h.blocks.symm⟩, ⟨_, h.messages.symm⟩, ⟨_, h.enums.symm⟩, hi⟩

end Draft

def Lengthened : List OpenMessage → List OpenMessage → Prop
  | [], pending => pending = []
  | m :: rest, pending => ∃ lines, pending = { m with lines := m.lines ++ lines } :: rest

instance : Std.Refl Lengthened where
  refl pending := by
    cases pending with
    | nil => rfl
    | cons m rest => exact ⟨[], by rw [List.append_nil]⟩

instance : IsTrans (List OpenMessage) Lengthened where
  trans := by
    intro pending _ _ h h'
    cases pending with
    | nil =>
        cases h
        exact h'
    | cons m rest =>
        obtain ⟨lines, rfl⟩ := h
        obtain ⟨lines', rfl⟩ := h'
        exact ⟨lines ++ lines', by rw [List.append_assoc]⟩

namespace Registry

variable {r r' : Registry} {c : ClassRef} {t : TypeExpr} {path name : String} {e : RegistryEntry}

theorem register_ok (h : r.register t path name = .ok r') :
    r.get? t = none ∧ r' = ⟨(t, ⟨path, name⟩) :: r.entries⟩ := by
  unfold register at h
  split at h
  next => cases h
  next =>
    split at h
    next => cases h
    next hnone => exact ⟨hnone, (Except.ok.inj h).symm⟩

theorem register_cls_ok (h : r.register (.cls c) path name = .ok r') :
    r.get? (.cls c) = none ∧ r'.get? (.cls c) = some ⟨path, name⟩ ∧
      ∀ t e, r.get? t = some e → r'.get? t = some e := by
  obtain ⟨hnone, rfl⟩ := register_ok h
  refine ⟨hnone, ?_, fun t e ht => ?_⟩
  · rw [get?, List.find?_cons_of_pos (by simp [TypeExpr.same_cls])]
    rfl
  · have hct : (TypeExpr.cls c).same t = false := by
      cases t with
      | cls d =>
          rw [TypeExpr.same_cls, decide_eq_false_iff_not]
          rintro rfl
          rw [hnone] at ht
          cases ht
      | _ => exact TypeExpr.same_cls_of_not_class c rfl
    simpa only [get?, List.find?_cons, hct] using ht

end Registry

namespace Compiling

open Trail

variable {α β : Type} {s s' s'' : Progress} {c : ClassRef}
  {opens opens' : List OpenMessage → List OpenMessage → Prop} {step : Compiling α}
  {next : α → Compiling β}

/-- A step has come back on the trail, and kept all that was written and registered. -/
structure Continues (s s' : Progress) : Prop where
  trail : Returns s.trail s'.trail
  draft : s.draft.Continues s'.draft
  registry : ∀ t e, s.registry.get? t = some e → s'.registry.get? t = some e

theorem Continues.refl (s : Progress) : Continues s s :=
  ⟨.refl s.trail, .refl s.draft, fun _ _ h => h⟩

theorem Continues.trans (h : Continues s s') (h' : Continues s' s'') : Continues s s'' :=
  ⟨h.trail.trans h'.trail, h.draft.trans h'.draft, fun t e ht => h'.registry t e (h.registry t e ht)⟩

theorem Continues.faithful (h : Continues s s') (hs : Faithful s.trail) : Faithful s'.trail :=
  (hs.returns h.trail).1

/-- The step comes back on the trail in any case. If it returns it keeps the rest as well, and `opens`
tells what it makes of the open messages. -/
def Framed (opens : List OpenMessage → List OpenMessage → Prop) (step : Compiling α) (s : Progress) :
    Prop :=
  Ends step s (fun _ s' => Continues s s' ∧ opens s.draft.pending s'.draft.pending)
    (fun _ s' => Returns s.trail s'.trail)

def ReadsOnly (step : Compiling α) (s : Progress) : Prop :=
  Ends step s (fun _ s' => s' = s) (fun _ s' => s' = s)

theorem ReadsOnly.bind (h : ReadsOnly step s) (hn : ∀ a, ReadsOnly (next a) s) :
    ReadsOnly (step >>= next) s :=
  Ends.andThen h (fun a _ hs => hs ▸ hn a)

theorem ReadsOnly.fromResult (result : Except Fault α) (s : Progress) : ReadsOnly (fromResult result) s := by
  cases result <;> rfl

theorem ReadsOnly.discard (h : ReadsOnly step s) : ReadsOnly (Functor.discard step) s := Ends.discard h

theorem ReadsOnly.isRegistered (t : TypeExpr) (s : Progress) : ReadsOnly (isRegistered t) s := rfl

theorem ReadsOnly.registeredName (t : TypeExpr) (s : Progress) : ReadsOnly (registeredName t) s :=
  Ends.bind (Ends.of_get (ReadsOnly.fromResult _ s))

theorem Framed.of_reads [Std.Refl opens] (h : ReadsOnly step s) : Framed opens step s := by
  refine h.mono ?_ ?_
  · rintro _ _ rfl
    exact ⟨.refl _, Std.Refl.refl _⟩
  · rintro _ _ rfl
    exact .refl _

theorem Framed.read (h : ReadsOnly step s) (hn : ∀ a, Framed opens (next a) s) :
    Framed opens (step >>= next) s :=
  Ends.bind (h.mono (fun a _ hs => hs ▸ hn a) (fun _ _ hs => hs ▸ .refl s.trail))

theorem Framed.bind [IsTrans _ opens] (hs : Faithful s.trail) (h : Framed opens step s)
    (hn : ∀ a s', Faithful s'.trail → Framed opens (next a) s') : Framed opens (step >>= next) s := by
  refine Ends.andThen h (fun a s' h' => ?_)
  refine (hn a s' (h'.1.faithful hs)).mono ?_ (fun _ _ h'' => h'.1.trail.trans h'')
  exact fun _ _ h'' => ⟨h'.1.trans h''.1, Trans.trans h'.2 h''.2⟩

theorem Framed.discard (h : Framed opens step s) : Framed opens (Functor.discard step) s :=
  Ends.discard h

theorem Framed.lengthens (h : Framed Eq step s) : Framed Lengthened step s :=
  h.mono (fun _ _ h => ⟨h.1, h.2 ▸ Std.Refl.refl _⟩) (fun _ _ h => h)

theorem Framed.onDraft {step : Drafting α} (h : Ends step s.draft
      (fun _ e => s.draft.Continues e ∧ opens s.draft.pending e.pending) (fun _ _ => True)) :
    Framed opens (onDraft step) s :=
  onDraft_ends (h.mono (fun _ _ h => ⟨⟨.refl s.trail, h.1, fun _ _ h => h⟩, h.2⟩)
    (fun _ _ _ => .refl s.trail))

theorem Framed.within (hs : Faithful s.trail) (h : Framed opens step (entered (.cls c) s)) :
    Framed opens (within (.cls c) step) s := by
  refine within_key_ends (t := .cls c) hs (h.mono ?_ ?_)
  · exact fun _ _ h => ⟨h.1.trail, ⟨h.1.trail.nest (.cls c), h.1.draft, h.1.registry⟩, h.2⟩
  · exact fun _ _ h => ⟨h, h.nest (.cls c)⟩

end Compiling

namespace Compiler

open Compiling Trail

variable {M : Model} {o : Options} {s : Progress} {f : Field} {t : TypeExpr} {c : ClassRef}
  {nested : TypeExpr → Compiling String}

def KeepsFrame (nested : TypeExpr → Compiling String) : Prop :=
  ∀ t s, Faithful s.trail → Framed Eq (nested t) s

theorem failField_reads {α : Type} (f : Field) (fault : String → String → Fault) (s : Progress) :
    ReadsOnly (failField M f fault : Compiling α) s :=
  (ReadsOnly.fromResult _ s).bind (fun _ => rfl)

theorem knownName?_reads (t : TypeExpr) (s : Progress) : ReadsOnly (knownName? t) s := by
  refine (ReadsOnly.isRegistered t s).bind (fun known => ?_)
  cases known with
  | true => exact (ReadsOnly.registeredName t s).bind (fun _ => rfl)
  | false => rfl

theorem checkCycle_reads (f : Field) (t : TypeExpr) (s : Progress) : ReadsOnly (checkCycle M f t) s := by
  refine Ends.bind (Ends.of_get ?_)
  dsimp only
  split
  next =>
    refine (ReadsOnly.fromResult _ s).bind (fun _ => (ReadsOnly.fromResult _ s).discard.bind (fun _ => ?_))
    exact (ReadsOnly.fromResult _ s).discard.bind (fun _ => (ReadsOnly.fromResult _ s).bind (fun _ => rfl))
  next => rfl

theorem registerHere_attempt (t : TypeExpr) (name : String) (s : Progress) :
    Ends (registerHere M t name) s
      (fun _ s' => ∃ path r, s.trail.path M = .ok path ∧ s.registry.register t path name = .ok r ∧
        s' = { s with registry := r })
      (fun fault s' => s' = s ∧ (s.trail.path M = .error fault ∨
        ∃ path, s.trail.path M = .ok path ∧ s.registry.register t path name = .error fault)) := by
  refine Ends.bind (Ends.of_get (Ends.bind ?_))
  cases hpath : s.trail.path M with
  | error fault => exact ⟨rfl, Or.inl rfl⟩
  | ok path =>
      refine Ends.of_pure (Ends.bind (Ends.of_get (Ends.bind ?_)))
      cases hr : s.registry.register t path name with
      | error fault => exact ⟨rfl, Or.inr ⟨path, rfl, hr⟩⟩
      | ok r => exact Ends.of_pure (Ends.of_modify ⟨path, r, rfl, hr, rfl⟩)

theorem registerHere_frame (c : ClassRef) (name : String) (s : Progress) :
    Ends (registerHere M (.cls c) name) s
      (fun _ s' => Continues s s' ∧ s'.draft = s.draft ∧ s.registry.get? (.cls c) = none ∧
        ∃ path, s.trail.path M = .ok path ∧ s'.registry.get? (.cls c) = some ⟨path, name⟩)
      (fun _ s' => s' = s) := by
  refine (registerHere_attempt (.cls c) name s).mono ?_ (fun _ _ h => h.1)
  rintro _ _ ⟨path, r, hpath, hr, rfl⟩
  obtain ⟨hnone, hnew, hkept⟩ := Registry.register_cls_ok hr
  exact ⟨⟨.refl s.trail, .refl s.draft, hkept⟩, rfl, hnone, path, hpath, hnew⟩

theorem emitEnum_framed (name : String) (constants : List String) (s : Progress) :
    Framed Eq (onDraft (Draft.emitEnum name constants)) s :=
  .onDraft ((Draft.emitEnum_attempt s.draft name constants).mono
    (fun _ _ h => ⟨h.2.2.continues (h.2.1 ▸ List.prefix_rfl), h.2.2.pending.symm⟩) (fun _ _ _ => trivial))

theorem emitEntry_framed (name : String) (key value : Option String) (s : Progress) :
    Framed Eq (onDraft (Draft.emitEntry name key value)) s := by
  refine .onDraft ((Draft.emitEntry_attempt s.draft name key value).mono ?_ (fun _ _ _ => trivial))
  rintro _ e ⟨h, hi⟩
  exact ⟨h.continues (hi ▸ (Draft.prefix_noted _ _).trans (Draft.prefix_noted _ _)), h.pending.symm⟩

theorem emitField_framed (multiplicity : String) (type : Option String) (name : String) (ordinal : Int)
    (s : Progress) :
    Framed Lengthened (onDraft (Draft.emitField multiplicity type name ordinal)) s := by
  apply Framed.onDraft
  cases hp : s.draft.pending with
  | nil => exact (Draft.emitField_outside hp _ _ _ _).mono (fun _ _ h => h) (fun _ _ _ => trivial)
  | cons m rest =>
      refine (Draft.emitField_attempt hp _ _ _ _).mono ?_ (fun _ _ _ => trivial)
      rintro _ _ ⟨_, rfl⟩
      exact ⟨⟨List.prefix_rfl, List.prefix_rfl, List.prefix_rfl, Draft.prefix_noted _ _⟩, _, rfl⟩

theorem describe_ok {d : Description} (h : M.describe t = .ok d) :
    ∃ c, t = .cls c ∧ M.describeClass c = .ok d := by
  cases t with
  | cls c => exact ⟨c, rfl, h⟩
  | _ => cases h

theorem ensureEnum_framed (hs : Faithful s.trail) : Framed Eq (ensureEnum M o t) s := by
  refine Framed.read (ReadsOnly.isRegistered t s) (fun known => ?_)
  cases known with
  | true => exact .of_reads (ReadsOnly.registeredName t s)
  | false =>
      cases hd : M.describe t with
      | error fault => exact .of_reads (ReadsOnly.fromResult (.error fault) s)
      | ok d =>
          obtain ⟨c, rfl, _⟩ := describe_ok hd
          simp only [fromResult_ok]
          refine Framed.bind hs (.within hs ?_) (fun _ s' hs' => ?_)
          · exact (registerHere_frame c _ _).mono (fun _ _ h => ⟨h.1, by rw [h.2.1]⟩)
              (by rintro _ _ rfl; exact .refl _)
          · exact Framed.bind hs' (emitEnum_framed _ _ s') (fun _ _ _ => .of_reads rfl)

theorem elementName_framed (hn : KeepsFrame nested) (hs : Faithful s.trail) :
    Framed Eq (elementName M o nested f t) s := by
  unfold elementName
  split
  next => exact .of_reads (failField_reads f _ s)
  next =>
    split
    next => exact .of_reads rfl
    next =>
      split
      next => exact .of_reads rfl
      next =>
        split
        next => exact Framed.bind hs (ensureEnum_framed hs) (fun _ _ _ => .of_reads rfl)
        next =>
          split
          next => exact .of_reads (failField_reads f _ s)
          next =>
            refine Framed.read (checkCycle_reads f t s) (fun _ => ?_)
            refine Framed.read (ReadsOnly.isRegistered t s) (fun known => ?_)
            cases known with
            | true => exact Framed.read (ReadsOnly.registeredName t s) (fun _ => .of_reads rfl)
            | false =>
                refine Framed.bind hs (hn t s hs).discard (fun _ s' _ => ?_)
                exact Framed.read (ReadsOnly.registeredName t s') (fun _ => .of_reads rfl)

theorem resolveElement_framed (hn : KeepsFrame nested) (hs : Faithful s.trail) (operand : Option TypeExpr) :
    Framed Eq (resolveElement M o nested f operand) s := by
  unfold resolveElement
  split
  next => exact .of_reads (failField_reads f _ s)
  next =>
    split
    next => exact .of_reads (failField_reads f _ s)
    next => exact elementName_framed hn hs

theorem buildEntry_framed (hn : KeepsFrame nested) (hs : Faithful s.trail) :
    Framed Eq (buildEntry M o nested f) s := by
  unfold buildEntry
  split
  next => exact .of_reads (failField_reads f _ s)
  next =>
    refine Framed.bind hs (resolveElement_framed hn hs f.key) (fun key s₁ hs₁ => ?_)
    refine Framed.bind hs₁ (resolveElement_framed hn hs₁ f.element) (fun value s₂ hs₂ => ?_)
    refine Framed.read (ReadsOnly.registeredName f.owner s₂) (fun name => ?_)
    exact Framed.bind hs₂ (emitEntry_framed _ key value s₂) (fun _ _ _ => .of_reads rfl)

theorem emitNamed_framed {α : Type} {step : Compiling α} (hs : Faithful s.trail) (h : Framed Eq step s)
    (multiplicity : String) (type : α → Option String) (name : String) (ordinal : Int) :
    Framed Lengthened (do
      let a ← step
      onDraft (Draft.emitField multiplicity (type a) name ordinal)) s :=
  Framed.bind hs h.lengthens (fun a s' _ => emitField_framed multiplicity (type a) name ordinal s')

theorem classifyField_framed (hn : KeepsFrame nested) (hs : Faithful s.trail) (ordinal : Int) :
    Framed Lengthened (classifyField M o nested f ordinal) s := by
  unfold classifyField
  extract_lets rest
  have hrest : ∀ checked, Framed Lengthened (rest checked) s := by
    intro _
    refine Framed.read (ReadsOnly.isRegistered f.declared s) (fun known => ?_)
    split
    next => exact emitNamed_framed hs (.of_reads (knownName?_reads f.declared s)) _ id f.name ordinal
    next =>
      cases f.shape with
      | enum => exact emitNamed_framed hs (ensureEnum_framed hs) _ some f.name ordinal
      | list | array | collection =>
          exact emitNamed_framed hs (resolveElement_framed hn hs f.element) _ id f.name ordinal
      | map => exact emitNamed_framed hs (buildEntry_framed hn hs) _ some f.name ordinal
      | scalar | composite =>
          refine Framed.bind hs (hn f.declared s hs).discard.lengthens (fun _ s' hs' => ?_)
          exact emitNamed_framed hs' (.of_reads (ReadsOnly.fromResult _ s')) _ some f.name ordinal
  split
  next => exact Framed.read (checkCycle_reads f f.declared s) hrest
  next => exact hrest ()

theorem classifyFields_framed (hn : KeepsFrame nested) (hs : Faithful s.trail) (ordinal : Int)
    (fs : List Field) : Framed Lengthened (classifyFields M o nested ordinal fs) s := by
  induction fs generalizing ordinal s with
  | nil => exact .of_reads rfl
  | cons f fs ih =>
      exact Framed.bind hs (classifyField_framed hn hs ordinal) (fun _ _ hs' => ih hs' (ordinal + 1))

def Registers (M : Model) (t : TypeExpr) (name : String) (s s' : Progress) : Prop :=
  s.registry.contains t = false ∧
    ∃ path, s.trail.path M = .ok path ∧ s'.registry.get? t = some ⟨path, name⟩

theorem insideClass_frame (hn : KeepsFrame nested) (hs : Faithful s.trail) (c : ClassRef) (name : String)
    (fs : List Field) :
    Ends (do
        registerHere M (.cls c) name
        onDraft (Draft.beginMessage name true)
        classifyFields M o nested 1 fs
        discard (onDraft Draft.endMessage)) s
      (fun _ s' => Continues s s' ∧ s.draft.pending = s'.draft.pending ∧ Registers M (.cls c) name s s')
      (fun _ s' => Returns s.trail s'.trail) := by
  refine Ends.andThen ((registerHere_frame c name s).mono (fun _ _ h => h) ?_) ?_
  · rintro _ _ rfl
    exact .refl _
  rintro _ s₁ ⟨h₁, hd₁, hnone, path, hpath, hget⟩
  refine Ends.bind (onDraft_ends (Ends.of_modify ?_))
  -- The message that is opened here is closed again, with the lines that its fields have given it.
  have hfields : Framed Lengthened (classifyFields M o nested 1 fs) { s₁ with
      draft := { s₁.draft with pending := { name, wrapped := true } :: s₁.draft.pending } } := by
    refine classifyFields_framed hn ?_ 1 fs
    exact h₁.faithful hs
  refine Ends.andThen (hfields.mono (fun _ _ h => h) (fun _ _ h => h₁.trail.trans h)) ?_
  rintro _ s₂ ⟨h₂, lines, hp₂⟩
  refine Ends.discard (onDraft_ends ((Draft.endMessage_attempt hp₂).mono ?_ ?_))
  · rintro _ e ⟨_, hattempt, _, hi⟩
    have himports : s₂.draft.imports <+: e.imports := hi ▸ Draft.prefix_noted _ _
    refine ⟨⟨h₁.trail.trans h₂.trail, ?_, fun t e ht => h₂.registry t e (h₁.registry t e ht)⟩, ?_, ?_⟩
    · have hdraft : s₁.draft.Continues s₂.draft :=
        ⟨h₂.draft.blocks, h₂.draft.messages, h₂.draft.enums, h₂.draft.imports⟩
      exact hd₁ ▸ hdraft.trans (hattempt.continues himports)
    · rw [hattempt.pending, hd₁]
    · exact ⟨by simp [Registry.contains, hnone], path, hpath, h₂.registry _ _ hget⟩
  · exact fun _ _ _ => h₁.trail.trans h₂.trail

theorem buildMessage_keeps (levels : Nat) (policy : Name.Policy) (t : TypeExpr) (hs : Faithful s.trail) :
    Ends (buildMessage M o levels t policy) s
      (fun name s' => Continues s s' ∧ s.draft.pending = s'.draft.pending ∧
        ∃ c, t = .cls c ∧ Registers M t name (entered (.cls c) s) s')
      (fun _ s' => Returns s.trail s'.trail) := by
  induction levels generalizing t s policy with
  | zero => exact Ends.of_throw (.refl s.trail)
  | succ levels ih =>
      have hn : KeepsFrame (fun u => buildMessage M o levels u .nested) := fun u _ hs =>
        (ih .nested u hs).mono (fun _ _ h => ⟨h.1, h.2.1⟩) (fun _ _ h => h)
      unfold buildMessage
      cases hd : M.describe t with
      | error fault => exact Ends.bind (Ends.of_throw (.refl s.trail))
      | ok d =>
          obtain ⟨c, rfl, _⟩ := describe_ok hd
          simp only [fromResult_ok]
          refine Ends.bind (within_key_ends (t := .cls c) hs
            ((insideClass_frame hn (hs.push (.cls c)) c _ d.fields).mono ?_ ?_))
          · rintro _ s' ⟨h, hp, hr⟩
            refine ⟨h.trail, Ends.of_pure ⟨⟨h.trail.nest (.cls c), h.draft, h.registry⟩, hp, c, rfl, hr⟩⟩
          · exact fun _ _ h => ⟨h, h.nest (.cls c)⟩

structure Frame (s s' : Progress) : Prop where
  trail : Trail.Alike s.trail s'.trail
  pending : s'.draft.pending = s.draft.pending
  draft : s.draft.Continues s'.draft
  text : ∀ indent, ∃ more, s'.draft.text indent = s.draft.text indent ++ more
  registry : ∀ t e, s.registry.get? t = some e → s'.registry.get? t = some e

/-- Whatever state a class is compiled from, after any pushes and pops, the trail is the same again
afterwards. If the class is compiled, nothing else that was there has changed, and the class, which
was not registered, has its path and its name. -/
theorem buildMessage_frame {moves : List Move} (levels : Nat) (t : TypeExpr) (policy : Name.Policy)
    (hs : s.trail = Trail.run moves) :
    Ends (buildMessage M o levels t policy) s
      (fun name s' => Frame s s' ∧ ∃ c, t = .cls c ∧ Registers M t name (entered (.cls c) s) s')
      (fun _ s' => Trail.Alike s.trail s'.trail) := by
  have hfaithful : Faithful s.trail := hs ▸ run_faithful moves
  refine (buildMessage_keeps levels policy t hfaithful).mono ?_ ?_
  · rintro name s' ⟨h, hp, hr⟩
    exact ⟨⟨(hfaithful.returns h.trail).2, hp.symm, h.draft, h.draft.exists_text, h.registry⟩, hr⟩
  · exact fun _ _ h => (hfaithful.returns h).2

theorem exists_run_along {path : List ClassRef} (h : path.Nodup) : ∃ moves, along path = Trail.run moves := by
  induction path with
  | nil => exact ⟨[], rfl⟩
  | cons c path ih =>
      obtain ⟨hc, hpath⟩ := List.nodup_cons.mp h
      obtain ⟨moves, hmoves⟩ := ih hpath
      refine ⟨moves ++ [.push (.cls c)], ?_⟩
      rw [run, moved_append, ← run, ← hmoves]
      exact (Move.leaves_of_ends (m := .push (.cls c)) (P := (· = along (c :: path)))
        (push_along_ends hc rfl)).symm

/-- So the trail is one of pushes and pops at every moment of a compilation. -/
theorem Inside.exists_run {root : ClassRef} {path : List ClassRef} (h : Inside M o root path s) :
    ∃ moves, s.trail = Trail.run moves := by
  obtain ⟨_, _, hsteady⟩ := h.steady
  rw [hsteady.trail]
  exact exists_run_along hsteady.nodup

theorem shop_frame : ∃ s moves name s', Inside .shop default (.declared 2) [.declared 2] s ∧
    s.trail = Trail.run moves ∧ compileNested .shop default (.cls (.declared 1)) s = .ok name s' ∧
    Frame s s' ∧ Registers .shop (.cls (.declared 1)) name (entered (.cls (.declared 1)) s) s' := by
  obtain ⟨name, s', hrun⟩ : ∃ name s', (do
      enter .shop default (.cls (.declared 2)) .root
      compileNested .shop default (.cls (.declared 1))) {} = .ok name s' :=
    exists_of_run' (by decide +kernel)
  obtain ⟨_, s, henter, hnested⟩ := exists_of_bind hrun
  have hinside : Inside .shop default (.declared 2) [.declared 2] s := .root (by decide) henter
  obtain ⟨moves, hmoves⟩ := hinside.exists_run
  obtain ⟨hframe, c, hc, hregisters⟩ := (buildMessage_frame _ _ _ hmoves).of_ok hnested
  cases hc
  exact ⟨s, moves, name, s', hinside, hmoves, hnested, hframe, hregisters⟩

end Compiler

end ClassSchema
