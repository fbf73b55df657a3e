import ClassSchema.Compiler.Progress

namespace ClassSchema

variable {σ α β : Type}

theorem exists_of_run' {step : EStateM Fault σ α} {s : σ} (h : (step.run' s).isSome = true) :
    ∃ a s', step s = .ok a s' := by
  unfold EStateM.run' EStateM.run at h
  cases hs : step s with
  | ok a s' => exact ⟨a, s', rfl⟩
  | error fault s' =>
      rw [hs] at h
      cases h

theorem exists_of_bind {step : EStateM Fault σ α} {next : α → EStateM Fault σ β} {s s' : σ} {b : β}
    (h : (step >>= next) s = .ok b s') : ∃ a mid, step s = .ok a mid ∧ next a mid = .ok b s' := by
  simp only [Bind.bind, EStateM.bind] at h
  cases hs : step s with
  | ok a mid =>
      rw [hs] at h
      exact ⟨a, mid, rfl, h⟩
  | error fault mid =>
      rw [hs] at h
      cases h

/-- From the state `s`, the step ends well as `post` says or fails as `fails` says. -/
def Ends (step : EStateM Fault σ α) (s : σ) (post : α → σ → Prop) (fails : Fault → σ → Prop) : Prop :=
  match step s with
  | .ok a s' => post a s'
  | .error fault s' => fails fault s'

namespace Ends

variable {step : EStateM Fault σ α} {s : σ} {post post' : α → σ → Prop}
  {fails fails' : Fault → σ → Prop}

theorem of_ok {a : α} {s' : σ} (h : Ends step s post fails) (hs : step s = .ok a s') : post a s' := by
  simpa only [Ends, hs] using h

theorem of_error {fault : Fault} {s' : σ} (h : Ends step s post fails)
    (hs : step s = .error fault s') : fails fault s' := by
  simpa only [Ends, hs] using h

theorem mono (h : Ends step s post fails) (hp : ∀ a s', post a s' → post' a s')
    (hf : ∀ fault s', fails fault s' → fails' fault s') : Ends step s post' fails' := by
  unfold Ends at h ⊢
  cases hs : step s with
  | ok a s' => rw [hs] at h; exact hp a s' h
  | error fault s' => rw [hs] at h; exact hf fault s' h

theorem and (h : Ends step s post fails) (h' : Ends step s post' fails') :
    Ends step s (fun a s => post a s ∧ post' a s) (fun fault s => fails fault s ∧ fails' fault s) := by
  unfold Ends at *
  cases hs : step s with
  | ok a s' => rw [hs] at h h'; exact ⟨h, h'⟩
  | error fault s' => rw [hs] at h h'; exact ⟨h, h'⟩

theorem of_pure {a : α} (h : post a s) : Ends (pure a) s post fails := h

theorem of_throw {fault : Fault} (h : fails fault s) : Ends (throw fault) s post fails := h

theorem of_get {post : σ → σ → Prop} (h : post s s) : Ends get s post fails := h

theorem of_modify {post : PUnit → σ → Prop} {f : σ → σ} (h : post ⟨⟩ (f s)) :
    Ends (modify f) s post fails := h

theorem bind {next : α → EStateM Fault σ β} {post : β → σ → Prop}
    (h : Ends step s (fun a s' => Ends (next a) s' post fails) fails) :
    Ends (step >>= next) s post fails := by
  simp only [Ends, Bind.bind, EStateM.bind] at h ⊢
  cases hs : step s with
  | ok a s' => simpa only [hs] using h
  | error fault s' => simpa only [hs] using h

theorem andThen {mid : α → σ → Prop} {next : α → EStateM Fault σ β} {post : β → σ → Prop}
    (h : Ends step s mid fails) (hn : ∀ a s', mid a s' → Ends (next a) s' post fails) :
    Ends (step >>= next) s post fails :=
  bind (h.mono hn fun _ _ h => h)

theorem seqRight {first : EStateM Fault σ α} {second : EStateM Fault σ β} {post : β → σ → Prop}
    (h : Ends first s (fun _ s' => Ends second s' post fails) fails) :
    Ends (first *> second) s post fails := by
  simp only [Ends, SeqRight.seqRight, EStateM.seqRight] at h ⊢
  cases hs : first s with
  | ok a s' => simpa only [hs] using h
  | error fault s' => simpa only [hs] using h

theorem discard {post : PUnit → σ → Prop} (h : Ends step s (fun _ s' => post ⟨⟩ s') fails) :
    Ends (Functor.discard step) s post fails := by
  simp only [Ends, Functor.discard, Functor.mapConst, EStateM.map, Function.comp] at h ⊢
  cases hs : step s <;> simpa [hs] using h

end Ends

namespace Compiling

variable {s : Progress} {post : α → Progress → Prop} {fails : Fault → Progress → Prop}

theorem onDraft_ends {step : Drafting α}
    (h : Ends step s.draft (fun a d => post a { s with draft := d })
      (fun fault d => fails fault { s with draft := d })) : Ends (onDraft step) s post fails := by
  unfold Ends onDraft at *
  cases hs : step s.draft <;> simpa only [hs] using h

theorem onTrail_ends {step : Trailing α}
    (h : Ends step s.trail (fun a p => post a { s with trail := p })
      (fun fault p => fails fault { s with trail := p })) : Ends (onTrail step) s post fails := by
  unfold Ends onTrail at *
  cases hs : step s.trail <;> simpa only [hs] using h

theorem thenLeave_ends {step : Compiling α}
    (h : Ends step s (fun a s' => Ends (onTrail Trail.pop) s' (fun _ s'' => post a s'') fails)
      (fun fault s' => Ends (onTrail Trail.pop) s' (fun _ s'' => fails fault s'') fails)) :
    Ends (thenLeave step) s post fails := by
  unfold Ends thenLeave
  unfold Ends at h
  cases hs : step s with
  | ok a s' =>
      rw [hs] at h
      exact Ends.seqRight h
  | error fault s' =>
      rw [hs] at h
      exact Ends.seqRight h

end Compiling

end ClassSchema
