import ClassSchema.Proofs.Runs

namespace ClassSchema.Draft

/-- The call makes the first claim on the name, for a block of the kind. -/
structure Call.Claims (c : Call) (d : Draft) (name : String) (kind : BlockKind) : Prop where
  free : d.claims.lookup name = none
  asked : ∃ b ∈ c.asks d, b.name = name ∧ b.kind = kind
  taken : (c.leaves d).claims.lookup name = some kind

variable {calls : List Call} {name : String} {kind : BlockKind}

/-- No claim is given up again, so that the first one on a name is the one that counts. -/
theorem claims_run (h : (run calls).claims.lookup name = some kind) :
    ∃ before c after, calls = before ++ c :: after ∧ c.Claims (run before) name kind := by
  induction calls using List.reverseRecOn with
  | nil => simp [run] at h
  | append_singleton calls c ih =>
      obtain ⟨_, hc⟩ := c.leaves_attempt (run calls)
      rw [run_concat] at h
      cases hl : (run calls).claims.lookup name with
      | some earlier =>
          have heq : earlier = kind := Option.some.inj ((hc.kept _ _ hl).symm.trans h)
          obtain ⟨before, c', after, rfl, hclaims⟩ := ih (heq ▸ hl)
          exact ⟨before, c', after ++ [c], by simp, hclaims⟩
      | none =>
          have hasked := (hc.taken _ _ h).resolve_left (by simp [hl])
          exact ⟨calls, c, [], rfl, hl, hasked, h⟩

/-- How the names of blocks are shared out by a run of calls, and by a call after it. -/
structure Exclusive (calls : List Call) : Prop where
  /-- An enum or an entry has its name to itself. -/
  alone : ∀ (before : List Block) (b : Block) (after : List Block), (run calls).blocks = before ++ b :: after →
    b.kind ≠ .message → ∀ b' ∈ before ++ after, b'.name ≠ b.name
  refused : ∀ (c : Call) (kind : BlockKind) (name : String) (earlier : BlockKind) (e : Draft),
    c.perform (run calls) = .error (.nameClash kind name earlier) e →
    (∃ b ∈ c.asks (run calls), b.name = name ∧ b.kind = kind) ∧
      (∃ before c' after, calls = before ++ c' :: after ∧ c'.Claims (run before) name earlier) ∧
      (kind ≠ .message ∨ earlier ≠ .message)

theorem run_exclusive (calls : List Call) : Exclusive calls where
  alone := by
    intro before b after hb hk b' hb' hn
    have hapart := (extends_run calls).apart
    rw [hb, List.pairwise_append, List.pairwise_cons] at hapart
    obtain ⟨_, ⟨hafter, _⟩, hbefore⟩ := hapart
    rcases List.mem_append.mp hb' with hb' | hb'
    · exact hk (hbefore b' hb' b List.mem_cons_self hn).2
    · exact hk (hafter b' hb' hn.symm).1
  refused := by
    intro c kind name earlier e he
    obtain ⟨_, _, _, hrefusal⟩ := (c.perform_ends (run calls)).of_error he
    cases hrefusal kind name earlier rfl with
    | @clash b _ hb hl hnot =>
        exact ⟨⟨b, hb, rfl, rfl⟩, claims_run hl, (Decidable.not_and_iff_not_or_not.mp hnot).symm⟩

/-- A message that is open has not claimed its name yet. -/
example : (run [.beginMessage "Color" false, .emitEnum "Color" ["RED"], .endMessage]).blocks =
    [.enum "Color" ["RED"]] := by decide

end ClassSchema.Draft
