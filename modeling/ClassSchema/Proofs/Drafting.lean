import ClassSchema.Proofs.Writing

namespace ClassSchema

namespace Draft

/-- What is kept beside the blocks of a draft agrees with them. -/
structure Consistent (d : Draft) : Prop where
  messages : d.messages = (d.blocks.filter (fun b => b.kind ≠ .enum)).map Block.name
  enums : d.enums = (d.blocks.filter (fun b => b.kind = .enum)).map Block.name
  claims : ∀ n k, d.claims.lookup n = some k ↔ ∃ b ∈ d.blocks, b.name = n ∧ b.kind = k
  apart : d.blocks.Pairwise Block.Apart

def Clashes (d : Draft) (name : String) (kind : BlockKind) (fault : Fault) : Prop :=
  ∃ b ∈ d.blocks, b.name = name ∧ ¬ (b.kind = .message ∧ kind = .message) ∧
    fault = .nameClash kind name b.kind

variable {d e : Draft} {asked : List Block} {pending : List OpenMessage} {fault : Fault}

theorem Consistent.empty : Consistent {} where
  messages := rfl
  enums := rfl
  claims := by simp
  apart := List.Pairwise.nil

theorem Consistent.congr (hd : d.Consistent) (hb : e.blocks = d.blocks) (hm : e.messages = d.messages)
    (he : e.enums = d.enums) (hc : e.claims = d.claims) : e.Consistent where
  messages := by rw [hm, hb]; exact hd.messages
  enums := by rw [he, hb]; exact hd.enums
  claims := by rw [hc, hb]; exact hd.claims
  apart := by rw [hb]; exact hd.apart

/-- All that was asked for has been written. -/
theorem Consistent.attempt (hd : d.Consistent) (h : Attempt d asked asked pending e) : e.Consistent where
  messages := by simp [h.messages, h.blocks, hd.messages]
  enums := by simp [h.enums, h.blocks, hd.enums]
  claims := by
    intro n k
    rw [h.blocks]
    constructor
    · intro hk
      rcases h.taken n k hk with hk | ⟨b, hb, hbk⟩
      · obtain ⟨b, hb, hbk⟩ := (hd.claims n k).mp hk
        exact ⟨b, List.mem_append_left _ hb, hbk⟩
      · exact ⟨b, List.mem_append_right _ hb, hbk⟩
    · rintro ⟨b, hb, rfl, rfl⟩
      rcases List.mem_append.mp hb with hb | hb
      · exact h.kept _ _ ((hd.claims _ _).mpr ⟨b, hb, rfl, rfl⟩)
      · exact h.claimed b hb
  apart := by
    rw [h.blocks]
    refine List.pairwise_append.mpr ⟨hd.apart, h.apart, ?_⟩
    intro a ha b hb hn
    exact h.free b hb a.kind ((hd.claims _ _).mpr ⟨a, ha, hn, rfl⟩)

theorem Consistent.clashes (hd : d.Consistent) (h : Refusal d asked fault) :
    ∃ b ∈ asked, d.Clashes b.name b.kind fault := by
  obtain ⟨hb, hk, hnot⟩ := h
  obtain ⟨a, ha, hn, rfl⟩ := (hd.claims _ _).mp hk
  exact ⟨_, hb, a, ha, hn, hnot, rfl⟩

theorem emitField_ends {m : OpenMessage} {rest : List OpenMessage} (hd : d.Consistent)
    (hp : d.pending = m :: rest) (multiplicity : String) (type : Option String) (name : String)
    (ordinal : Int) :
    Ends (emitField multiplicity type name ordinal) d
      (fun _ e => Name.sanitize name ≠ "" ∧ e.Consistent ∧ e.blocks = d.blocks ∧
        e.pending = { m with
          lines := m.lines ++ [⟨multiplicity, type.getD defaultType, Name.sanitize name, ordinal⟩] } ::
          rest)
      (fun fault _ => Name.sanitize name = "" ∧ fault = .illegalFieldName name) := by
  refine (emitField_attempt hp multiplicity type name ordinal).mono ?_ (fun _ _ h => ⟨h.1, h.2.1⟩)
  rintro _ _ ⟨hl, rfl⟩
  exact ⟨hl, hd.congr rfl rfl rfl rfl, rfl, rfl⟩

theorem beginMessage_ends (hd : d.Consistent) (name : String) (wrapped : Bool)
    {fails : Fault → Draft → Prop} :
    Ends (beginMessage name wrapped) d
      (fun _ e => e.Consistent ∧ e.blocks = d.blocks ∧ e.pending = { name, wrapped } :: d.pending)
      fails :=
  Ends.of_modify ⟨hd.congr rfl rfl rfl rfl, rfl, rfl⟩

theorem emitEnum_ends (hd : d.Consistent) (name : String) (constants : List String) :
    Ends (emitEnum name constants) d
      (fun _ e => constants ≠ [] ∧ e.Consistent ∧ e.blocks = d.blocks ++ [.enum name constants] ∧
        e.pending = d.pending)
      (fun fault _ => constants = [] ∧ fault = .emptyEnum name ∨ d.Clashes name .enum fault) := by
  refine (emitEnum_attempt d name constants).mono ?_ ?_
  · rintro _ e ⟨hne, _, h⟩
    exact ⟨hne, hd.attempt h, h.blocks, h.pending⟩
  · rintro fault _ ⟨_, hf⟩
    refine hf.imp_right fun hf => ?_
    obtain ⟨b, hb, hcl⟩ := hd.clashes hf
    cases List.mem_singleton.mp hb
    exact hcl

theorem endMessage_ends {m : OpenMessage} {rest : List OpenMessage} (hd : d.Consistent)
    (hp : d.pending = m :: rest) (hw : m.wrapped = true) (hm : m.isEntry = false) :
    Ends endMessage d
      (fun _ e => Name.sanitize (Name.lowerFirst m.name) ≠ "" ∧ e.Consistent ∧
        e.blocks = d.blocks ++ [.message m.name m.lines, .wrapper m.name] ∧ e.pending = rest)
      (fun fault _ => d.Clashes m.name .message fault ∨ d.Clashes (Name.wrapperName m.name) .message fault ∨
        Name.sanitize (Name.lowerFirst m.name) = "" ∧
          fault = .illegalFieldName (Name.lowerFirst m.name)) := by
  have hb : m.blocks = [.message m.name m.lines, .wrapper m.name] := by
    simp [OpenMessage.blocks, OpenMessage.block, hw, hm]
  refine (endMessage_attempt hp).mono ?_ ?_
  · rintro _ e ⟨_, h, hl, _⟩
    exact ⟨hl hw, hd.attempt h, hb ▸ h.blocks, h.pending⟩
  · rintro fault e ⟨_, _, _, hf⟩
    rw [hb] at hf
    rcases hf with hf | ⟨_, hf⟩
    · obtain ⟨b, hmem, hcl⟩ := hd.clashes hf
      rcases List.mem_cons.mp hmem with rfl | hmem
      · exact Or.inl hcl
      · cases List.mem_singleton.mp hmem
        exact Or.inr (Or.inl hcl)
    · exact Or.inr (Or.inr hf)

theorem emitEntry_ends (hd : d.Consistent) (name : String) (key value : Option String) :
    Ends (emitEntry name key value) d
      (fun _ e => e.Consistent ∧
        e.blocks = d.blocks ++ [.mapEntry name (key.getD defaultType) (value.getD defaultType)] ∧
        e.pending = d.pending)
      (fun fault _ => d.Clashes name .entry fault) := by
  refine (emitEntry_attempt d name key value).mono ?_ ?_
  · rintro _ e ⟨h, _⟩
    exact ⟨hd.attempt h, h.blocks, h.pending⟩
  · rintro fault e ⟨_, hf⟩
    obtain ⟨b, hb, hcl⟩ := hd.clashes hf
    cases List.mem_singleton.mp hb
    exact hcl

end Draft

end ClassSchema
