import ClassSchema.Document.Draft
import ClassSchema.Proofs.Ends

namespace ClassSchema

/-- Blocks of one name are messages, both of them. -/
def Block.Apart (a b : Block) : Prop := a.name = b.name → a.kind = .message ∧ b.kind = .message

def Block.wrapper (message : String) : Block :=
  .message (Name.wrapperName message)
    [⟨Multiplicity.repeated, message, Name.sanitize (Name.lowerFirst message), 1⟩]

def Block.mapEntry (name key value : String) : Block :=
  .entry name [⟨Multiplicity.required, key, "key", 1⟩, ⟨Multiplicity.required, value, "value", 2⟩]

theorem Name.ne_wrapperName (message : String) : message ≠ wrapperName message := by
  intro h
  have hlen := congrArg String.length h
  rw [wrapperName, String.length_append] at hlen
  have hs : "s".length = 1 := rfl
  omega

namespace OpenMessage

def blocks (m : OpenMessage) : List Block :=
  if m.wrapped then [m.block, .wrapper m.name] else [m.block]

theorem block_name (m : OpenMessage) : m.block.name = m.name := by
  unfold block
  split <;> rfl

theorem block_kind (m : OpenMessage) : m.block.kind = m.kind := by
  unfold block kind
  split <;> rfl

end OpenMessage

namespace Draft

/-- The draft `e` goes on from `d` with the blocks `new`, which had the right to their names. -/
structure Extends (d : Draft) (new : List Block) (e : Draft) : Prop where
  blocks : e.blocks = d.blocks ++ new
  messages : e.messages = d.messages ++ (new.filter (fun b => b.kind ≠ .enum)).map Block.name
  enums : e.enums = d.enums ++ (new.filter (fun b => b.kind = .enum)).map Block.name
  kept : ∀ n k, d.claims.lookup n = some k → e.claims.lookup n = some k
  claimed : ∀ b ∈ new, e.claims.lookup b.name = some b.kind
  free : ∀ b ∈ new, ∀ k, d.claims.lookup b.name = some k → k = .message ∧ b.kind = .message
  apart : new.Pairwise Block.Apart

/-- Of the blocks that were asked for, those in `new` have been written. Nothing but the names of
blocks that were asked for has been claimed. -/
structure Attempt (d : Draft) (asked new : List Block) (pending : List OpenMessage) (e : Draft) : Prop
    extends Extends d new e where
  taken : ∀ n k, e.claims.lookup n = some k →
    d.claims.lookup n = some k ∨ ∃ b ∈ asked, b.name = n ∧ b.kind = k
  pending : e.pending = pending

/-- A block that was asked for has been refused its name. -/
inductive Refusal (d : Draft) (asked : List Block) : Fault → Prop
  | clash {b earlier} : b ∈ asked → d.claims.lookup b.name = some earlier →
      ¬ (earlier = .message ∧ b.kind = .message) → Refusal d asked (.nameClash b.kind b.name earlier)

structure Grants (d : Draft) (b : Block) (e : Draft) : Prop where
  blocks : e.blocks = d.blocks
  pending : e.pending = d.pending
  messages : e.messages = d.messages
  enums : e.enums = d.enums
  free : ∀ k, d.claims.lookup b.name = some k → k = .message ∧ b.kind = .message
  claims : ∀ n k, e.claims.lookup n = some k ↔ n = b.name ∧ k = b.kind ∨ d.claims.lookup n = some k

def noted (imports : List String) (type : String) : List String :=
  match wellKnownFile? type with
  | none => imports
  | some file => if file ∈ imports then imports else imports ++ [file]

variable {d e f : Draft} {b : Block} {asked asked' new new' : List Block}
  {pending pending' : List OpenMessage}

theorem Extends.of_eq (hb : e.blocks = d.blocks) (hm : e.messages = d.messages)
    (he : e.enums = d.enums) (hc : e.claims = d.claims) : Extends d [] e where
  blocks := by rw [hb, List.append_nil]
  messages := hm.trans (List.append_nil _).symm
  enums := he.trans (List.append_nil _).symm
  kept := fun _ _ h => hc ▸ h
  claimed := fun b hb => absurd hb List.not_mem_nil
  free := fun b hb => absurd hb List.not_mem_nil
  apart := .nil

theorem Extends.trans (h : Extends d new e) (h' : Extends e new' f) : Extends d (new ++ new') f where
  blocks := by rw [h'.blocks, h.blocks, List.append_assoc]
  messages := by simp [h'.messages, h.messages]
  enums := by simp [h'.enums, h.enums]
  kept := fun n k hk => h'.kept n k (h.kept n k hk)
  claimed := by
    intro b hb
    rcases List.mem_append.mp hb with hb | hb
    · exact h'.kept _ _ (h.claimed b hb)
    · exact h'.claimed b hb
  free := by
    intro b hb k hk
    rcases List.mem_append.mp hb with hb | hb
    · exact h.free b hb k hk
    · exact h'.free b hb k (h.kept _ _ hk)
  apart := by
    refine List.pairwise_append.mpr ⟨h.apart, h'.apart, ?_⟩
    intro a ha b hb hn
    exact h'.free b hb a.kind (hn ▸ h.claimed a ha)

theorem Attempt.of_eq (hb : e.blocks = d.blocks) (hm : e.messages = d.messages)
    (he : e.enums = d.enums) (hc : e.claims = d.claims) (hp : e.pending = pending) :
    Attempt d asked [] pending e where
  toExtends := .of_eq hb hm he hc
  taken := fun _ _ h => Or.inl (hc ▸ h)
  pending := hp

theorem Attempt.trans (h : Attempt d asked new pending e) (h' : Attempt e asked' new' pending' f) :
    Attempt d (asked ++ asked') (new ++ new') pending' f where
  toExtends := h.toExtends.trans h'.toExtends
  taken := by
    intro n k hk
    rcases h'.taken n k hk with hk | ⟨b, hb, hbk⟩
    · refine (h.taken n k hk).imp_right ?_
      rintro ⟨b, hb, hbk⟩
      exact ⟨b, List.mem_append_left _ hb, hbk⟩
    · exact Or.inr ⟨b, List.mem_append_right _ hb, hbk⟩
  pending := h'.pending

theorem Attempt.start (h : Attempt e asked new pending f) (hb : e.blocks = d.blocks)
    (hm : e.messages = d.messages) (he : e.enums = d.enums) (hc : e.claims = d.claims) :
    Attempt d asked new pending f := by
  have h' : Attempt d [] [] e.pending e := .of_eq hb hm he hc rfl
  simpa using h'.trans h

theorem Refusal.mono {fault : Fault} (h : Refusal d asked fault) (hs : asked ⊆ asked')
    (hc : d.claims = e.claims) : Refusal e asked' fault := by
  obtain ⟨hb, hk, hnot⟩ := h
  exact .clash (hs hb) (hc ▸ hk) hnot

theorem Refusal.of_attempt {fault : Fault} (h : Refusal e asked' fault)
    (ha : Attempt d asked new pending e) (hne : ∀ a ∈ asked, ∀ b ∈ asked', a.name ≠ b.name) :
    Refusal d (asked ++ asked') fault := by
  obtain ⟨hb, hk, hnot⟩ := h
  rcases ha.taken _ _ hk with hk | ⟨a, ha, hn, _⟩
  · exact .clash (List.mem_append_right _ hb) hk hnot
  · exact absurd hn (hne a ha _ hb)

theorem Grants.attempt (h : Grants d b e) : Attempt d [b] [] d.pending e where
  blocks := h.blocks.trans (List.append_nil _).symm
  messages := h.messages.trans (List.append_nil _).symm
  enums := h.enums.trans (List.append_nil _).symm
  kept := fun n k hk => (h.claims n k).mpr (Or.inr hk)
  claimed := fun b hb => absurd hb List.not_mem_nil
  free := fun b hb => absurd hb List.not_mem_nil
  apart := .nil
  taken := by
    intro n k hk
    rcases (h.claims n k).mp hk with ⟨rfl, rfl⟩ | hk
    · exact Or.inr ⟨b, List.mem_singleton_self b, rfl, rfl⟩
    · exact Or.inl hk
  pending := h.pending

theorem Grants.note (h : Grants d b e) (imports : List String) : Grants d b { e with imports } :=
  ⟨h.blocks, h.pending, h.messages, h.enums, h.free, h.claims⟩

theorem claim_ends (d : Draft) (b : Block) :
    Ends (claim b.name b.kind) d (fun _ e => Grants d b e ∧ e.imports = d.imports)
      (fun fault e => e = d ∧ Refusal d [b] fault) := by
  apply Ends.bind
  apply Ends.of_get
  split
  next hn =>
    refine Ends.of_modify ⟨⟨rfl, rfl, rfl, rfl, ?_, ?_⟩, rfl⟩
    · intro k hk
      rw [hn] at hk
      cases hk
    · intro n k
      rw [List.lookup_cons]
      by_cases h : n = b.name
      · subst h
        simp [hn, eq_comm]
      · rw [beq_eq_false_iff_ne.mpr h]
        simp [h]
  next earlier hn =>
    by_cases hm : earlier = .message ∧ b.kind = .message
    · rw [if_pos hm]
      refine Ends.of_pure ⟨⟨rfl, rfl, rfl, rfl, ?_, ?_⟩, rfl⟩
      · intro k hk
        rw [hn, Option.some.injEq] at hk
        exact hk ▸ hm
      · intro n k
        refine ⟨Or.inr, ?_⟩
        rintro (⟨rfl, rfl⟩ | h)
        · rw [hn, hm.1, hm.2]
        · exact h
    · rw [if_neg hm]
      exact Ends.of_throw ⟨rfl, .clash (List.mem_singleton_self b) hn hm⟩

theorem write_ends (h : Grants d b e) {fails : Fault → Draft → Prop} :
    Ends (write b) e (fun _ f => Attempt d [b] [b] d.pending f ∧ f.imports = e.imports) fails := by
  have hpair : [b].Pairwise Block.Apart := List.pairwise_singleton _ _
  have htaken := h.attempt.taken
  have hclaimed : ∀ b' ∈ [b], e.claims.lookup b'.name = some b'.kind := by
    intro b' hb'
    rw [List.mem_singleton.mp hb']
    exact (h.claims _ _).mpr (Or.inl ⟨rfl, rfl⟩)
  have hfree : ∀ b' ∈ [b], ∀ k, d.claims.lookup b'.name = some k → k = .message ∧ b'.kind = .message := by
    intro b' hb'
    rw [List.mem_singleton.mp hb']
    exact h.free
  apply Ends.of_modify
  cases hk : b.kind with
  | enum | message | entry =>
      refine ⟨⟨⟨?_, ?_, ?_, h.attempt.kept, hclaimed, hfree, hpair⟩, htaken, h.pending⟩, rfl⟩
      · simp only [h.blocks]
      · simp [h.messages, hk]
      · simp [h.enums, hk]

theorem noteImport_ends (type : String) {fails : Fault → Draft → Prop} :
    Ends (noteImport type) d (fun _ e => e = { d with imports := noted d.imports type }) fails := by
  unfold noteImport noted
  cases h : wellKnownFile? type with
  | none => exact Ends.of_pure rfl
  | some file =>
      apply Ends.of_modify
      dsimp only
      split <;> rfl

theorem fieldLine_ends (d : Draft) (multiplicity : String) (type : Option String) (name : String)
    (ordinal : Int) :
    Ends (fieldLine multiplicity type name ordinal) d
      (fun line e => Name.sanitize name ≠ "" ∧
        line = ⟨multiplicity, type.getD defaultType, Name.sanitize name, ordinal⟩ ∧
        e = { d with imports := noted d.imports (type.getD defaultType) })
      (fun fault e => Name.sanitize name = "" ∧ fault = .illegalFieldName name ∧
        e = { d with imports := noted d.imports (type.getD defaultType) }) := by
  refine (noteImport_ends _).andThen ?_
  rintro _ _ rfl
  by_cases hl : Name.sanitize name = ""
  · rw [if_pos hl]
    exact Ends.of_throw ⟨hl, rfl, rfl⟩
  · rw [if_neg hl]
    exact Ends.of_pure ⟨hl, rfl, rfl⟩

theorem emitField_attempt {m : OpenMessage} {rest : List OpenMessage} (hp : d.pending = m :: rest)
    (multiplicity : String) (type : Option String) (name : String) (ordinal : Int) :
    Ends (emitField multiplicity type name ordinal) d
      (fun _ e => Name.sanitize name ≠ "" ∧ e = { d with
        imports := noted d.imports (type.getD defaultType)
        pending := { m with
          lines := m.lines ++ [⟨multiplicity, type.getD defaultType, Name.sanitize name, ordinal⟩] } ::
          rest })
      (fun fault e => Name.sanitize name = "" ∧ fault = .illegalFieldName name ∧
        e = { d with imports := noted d.imports (type.getD defaultType) }) := by
  have hopen : ¬ d.pending.isEmpty = true := by simp [hp]
  apply Ends.bind
  apply Ends.of_get
  rw [if_neg hopen]
  refine (fieldLine_ends d multiplicity type name ordinal).andThen ?_
  rintro _ _ ⟨hl, rfl, rfl⟩
  refine Ends.of_modify ⟨hl, ?_⟩
  simp only [hp]

theorem emitField_outside (hp : d.pending = []) (multiplicity : String) (type : Option String)
    (name : String) (ordinal : Int) {post : Unit → Draft → Prop} :
    Ends (emitField multiplicity type name ordinal) d post
      (fun fault e => e = d ∧ fault = .outsideMessage name) := by
  have hclosed : d.pending.isEmpty = true := by simp [hp]
  apply Ends.bind
  apply Ends.of_get
  rw [if_pos hclosed]
  exact Ends.of_throw ⟨rfl, rfl⟩

theorem emitEnum_attempt (d : Draft) (name : String) (constants : List String) :
    Ends (emitEnum name constants) d
      (fun _ e => constants ≠ [] ∧ e.imports = d.imports ∧
        Attempt d [.enum name constants] [.enum name constants] d.pending e)
      (fun fault e => e = d ∧
        (constants = [] ∧ fault = .emptyEnum name ∨ Refusal d [.enum name constants] fault)) := by
  cases constants with
  | nil => exact Ends.of_throw ⟨rfl, Or.inl ⟨rfl, rfl⟩⟩
  | cons c cs =>
      refine ((claim_ends d (.enum name (c :: cs))).mono (fun _ _ h => h)
        (fun _ _ h => ⟨h.1, Or.inr h.2⟩)).andThen ?_
      rintro _ e ⟨he, hi⟩
      refine (write_ends he).mono ?_ (fun _ _ h => h)
      rintro _ f ⟨hf, hi'⟩
      exact ⟨List.cons_ne_nil c cs, hi'.trans hi, hf⟩

/-- The name of the wrapper may have been claimed where its line is refused. -/
theorem writeWrapper_ends (d : Draft) (message : String) :
    Ends (writeWrapper message) d
      (fun _ e => Name.sanitize (Name.lowerFirst message) ≠ "" ∧ e.imports = noted d.imports message ∧
        Attempt d [.wrapper message] [.wrapper message] d.pending e)
      (fun fault e => Attempt d [.wrapper message] [] d.pending e ∧
        (Refusal d [.wrapper message] fault ∨ Name.sanitize (Name.lowerFirst message) = "" ∧
          fault = .illegalFieldName (Name.lowerFirst message))) := by
  refine ((claim_ends d (.wrapper message)).mono (fun _ _ h => h) ?_).andThen ?_
  · rintro fault _ ⟨rfl, h⟩
    exact ⟨.of_eq rfl rfl rfl rfl rfl, Or.inl h⟩
  rintro _ e ⟨he, hi⟩
  refine ((fieldLine_ends e _ _ _ _).mono (fun _ _ h => h) ?_).andThen ?_
  · rintro fault _ ⟨hl, rfl, rfl⟩
    exact ⟨(he.note _).attempt, Or.inr ⟨hl, rfl⟩⟩
  rintro _ _ ⟨hl, rfl, rfl⟩
  refine (write_ends (he.note _)).mono ?_ (fun _ _ h => h)
  rintro _ f ⟨hf, hi'⟩
  exact ⟨hl, by rw [hi', ← hi]; rfl, hf⟩

theorem takeMessage_ends {m : OpenMessage} {rest : List OpenMessage} (hp : d.pending = m :: rest)
    {fails : Fault → Draft → Prop} :
    Ends takeMessage d (fun m' e => m' = m ∧ e = { d with pending := rest }) fails := by
  apply Ends.bind
  apply Ends.of_get
  rw [hp]
  exact Ends.bind (Ends.of_modify (Ends.of_pure ⟨rfl, rfl⟩))

theorem endMessage_attempt {m : OpenMessage} {rest : List OpenMessage} (hp : d.pending = m :: rest) :
    Ends endMessage d
      (fun name e => name = m.name ∧ Attempt d m.blocks m.blocks rest e ∧
        (m.wrapped = true → Name.sanitize (Name.lowerFirst m.name) ≠ "") ∧
        e.imports = if m.wrapped then noted d.imports m.name else d.imports)
      (fun fault e => ∃ new, new <+: m.blocks.dropLast ∧ Attempt d m.blocks new rest e ∧
        (Refusal d m.blocks fault ∨ m.wrapped = true ∧
          Name.sanitize (Name.lowerFirst m.name) = "" ∧
          fault = .illegalFieldName (Name.lowerFirst m.name))) := by
  have hmem : m.block ∈ m.blocks := by
    unfold OpenMessage.blocks
    split <;> exact List.mem_cons_self
  refine (takeMessage_ends hp).andThen ?_
  rintro m' _ ⟨hm, rfl⟩
  rw [hm, ← m.block_name, ← m.block_kind]
  refine ((claim_ends _ m.block).mono (fun _ _ h => h) ?_).andThen ?_
  · rintro fault _ ⟨rfl, h⟩
    exact ⟨[], List.nil_prefix, .of_eq rfl rfl rfl rfl rfl,
      Or.inl (h.mono (List.cons_subset.mpr ⟨hmem, List.nil_subset _⟩) rfl)⟩
  rintro _ e₀ ⟨h₀, hi₀⟩
  refine (write_ends h₀).andThen ?_
  rintro _ e₁ ⟨h₁, hi₁⟩
  replace h₁ := h₁.start (d := d) rfl rfl rfl rfl
  have himports : e₁.imports = d.imports := hi₁.trans hi₀
  rw [m.block_name]
  cases hw : m.wrapped with
  | false =>
      have hb : m.blocks = [m.block] := by simp [OpenMessage.blocks, hw]
      rw [hb]
      exact Ends.of_pure ⟨rfl, h₁, fun h => absurd h Bool.false_ne_true, himports⟩
  | true =>
      have hb : m.blocks = [m.block] ++ [.wrapper m.name] := by simp [OpenMessage.blocks, hw]
      have hne : ∀ a ∈ [m.block], ∀ b ∈ [Block.wrapper m.name], a.name ≠ b.name := by
        simp only [List.forall_mem_singleton, m.block_name]
        exact Name.ne_wrapperName m.name
      rw [hb]
      refine ((writeWrapper_ends e₁ m.name).mono (fun _ _ h => h) ?_).andThen ?_
      · rintro fault e₂ ⟨h₂, hf⟩
        refine ⟨[m.block], List.prefix_rfl, ?_, hf.imp (fun hf => hf.of_attempt h₁ hne)
          (fun hf => ⟨rfl, hf⟩)⟩
        rw [h₁.pending] at h₂
        simpa using h₁.trans h₂
      · rintro _ e₂ ⟨hl, hi₂, h₂⟩
        rw [h₁.pending] at h₂
        exact Ends.of_pure ⟨rfl, h₁.trans h₂, fun _ => hl, by rw [hi₂, himports]; rfl⟩

theorem endMessage_outside (hp : d.pending = []) {post : String → Draft → Prop} :
    Ends endMessage d post (fun fault e => e = d ∧ fault = .nothingOpen) := by
  apply Ends.bind
  apply Ends.bind
  apply Ends.of_get
  rw [hp]
  exact Ends.of_throw ⟨rfl, rfl⟩

theorem emitEntry_attempt (d : Draft) (name : String) (key value : Option String) :
    Ends (emitEntry name key value) d
      (fun _ e => Attempt d [.mapEntry name (key.getD defaultType) (value.getD defaultType)]
          [.mapEntry name (key.getD defaultType) (value.getD defaultType)] d.pending e ∧
        e.imports = noted (noted d.imports (key.getD defaultType)) (value.getD defaultType))
      (fun fault e => Attempt d [.mapEntry name (key.getD defaultType) (value.getD defaultType)]
          [] d.pending e ∧
        Refusal d [.mapEntry name (key.getD defaultType) (value.getD defaultType)] fault) := by
  have hkey : Name.sanitize "key" = "key" := by decide
  have hvalue : Name.sanitize "value" = "value" := by decide
  apply Ends.bind
  apply Ends.of_modify
  refine ((emitField_attempt rfl _ key "key" 1).mono (fun _ _ h => h)
    (fun _ _ h => absurd h.1 (by rw [hkey]; decide))).andThen ?_
  rintro _ _ ⟨_, rfl⟩
  refine ((emitField_attempt rfl _ value "value" 2).mono (fun _ _ h => h)
    (fun _ _ h => absurd h.1 (by rw [hvalue]; decide))).andThen ?_
  rintro _ _ ⟨_, rfl⟩
  refine Ends.discard ((endMessage_attempt rfl).mono ?_ ?_)
  · rintro _ e ⟨_, h, _, hi⟩
    exact ⟨h.start rfl rfl rfl rfl, hi⟩
  · rintro fault e ⟨new, hnew, h, hf⟩
    cases List.prefix_nil.mp hnew
    refine ⟨h.start rfl rfl rfl rfl, ?_⟩
    rcases hf with hf | ⟨hw, _⟩
    · exact hf.mono (List.Subset.refl _) rfl
    · exact absurd hw Bool.false_ne_true

end Draft

end ClassSchema
