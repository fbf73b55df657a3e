import ClassSchema.Proofs.Bookkeeping
import ClassSchema.Proofs.Recording

namespace ClassSchema

variable {σ α β : Type}

theorem Ends.eq_ok {step : EStateM Fault σ α} {s s' : σ} {a : α}
    (h : Ends step s (fun b t => b = a ∧ t = s') (fun _ _ => False)) : step s = .ok a s' := by
  unfold Ends at h
  cases hs : step s with
  | ok b t =>
      rw [hs] at h
      rw [h.1, h.2]
  | error fault t =>
      rw [hs] at h
      exact h.elim

def Record.onPath (r : Record) (path : List ClassRef) : Record :=
  { r with trails := (Trail.along path).stack :: r.trails }

theorem Recording.plainly_ends {step : Compiling α} {s : Progress × Record}
    {post : α → Progress × Record → Prop} {fails : Fault → Progress × Record → Prop}
    (h : Ends step s.1 (fun a p => post a (p, s.2)) (fun fault p => fails fault (p, s.2))) :
    Ends (plainly step) s post fails := by
  unfold Ends plainly at *
  cases hs : step s.1 <;> simpa only [hs] using h

/-- The plain step ends as the recorded one does where that ends well. Where the recorded one fails,
an `exact` follower fails in the same way. -/
def Follows (exact : Prop) (plain : Compiling α) (recorded : Recording α) (s : Progress × Record)
    (post : α → Progress × Record → Prop) (fails : Progress × Record → Prop) : Prop :=
  Ends recorded s (fun a s' => plain s.1 = .ok a s'.1 ∧ post a s')
    (fun fault s' => (exact → plain s.1 = .error fault s'.1) ∧ fails s')

namespace Follows

variable {exact : Prop} {plain : Compiling α} {recorded : Recording α} {s : Progress × Record}
  {post post' : α → Progress × Record → Prop} {fails fails' : Progress × Record → Prop}

theorem mono (h : Follows exact plain recorded s post fails) (hp : ∀ a s', post a s' → post' a s')
    (hf : ∀ s', fails s' → fails' s') : Follows exact plain recorded s post' fails' :=
  Ends.mono h (fun a s' ⟨hs, ha⟩ => ⟨hs, hp a s' ha⟩) (fun _ s' ⟨hs, ha⟩ => ⟨hs, hf s' ha⟩)

theorem of_pure {a : α} (h : post a s) : Follows exact (pure a) (pure a) s post fails :=
  Ends.of_pure ⟨rfl, h⟩

theorem of_throw {fault : Fault} (h : fails s) :
    Follows exact (throw fault) (throw fault) s post fails :=
  Ends.of_throw ⟨fun _ => rfl, h⟩

theorem of_fails (hexact : ¬ exact) (h : Ends recorded s (fun _ _ => False) (fun _ s' => fails s')) :
    Follows exact plain recorded s post fails :=
  Ends.mono h (fun _ _ h => h.elim) (fun _ _ h => ⟨fun he => absurd he hexact, h⟩)

theorem of_ends (h : Ends plain s.1 (fun a p => post a (p, s.2)) (fun _ p => fails (p, s.2))) :
    Follows exact plain (Recording.plainly plain) s post fails := by
  unfold Follows Ends Recording.plainly
  unfold Ends at h
  cases hs : plain s.1 with
  | ok a p =>
      rw [hs] at h
      exact ⟨rfl, h⟩
  | error fault p =>
      rw [hs] at h
      exact ⟨fun _ => rfl, h⟩

theorem bind {next : α → Compiling β} {recordedNext : α → Recording β}
    {post : β → Progress × Record → Prop} {q : α → Progress × Record → Prop}
    (h : Follows exact plain recorded s q fails)
    (hn : ∀ a s', q a s' → Follows exact (next a) (recordedNext a) s' post fails) :
    Follows exact (plain >>= next) (recorded >>= recordedNext) s post fails := by
  apply Ends.bind
  refine Ends.mono h ?_ ?_
  · rintro a s' ⟨hs, hq⟩
    have hnext : (plain >>= next) s.1 = next a s'.1 := by simp only [Bind.bind, EStateM.bind, hs]
    simpa only [Follows, hnext] using hn a s' hq
  · rintro fault s' ⟨hs, hf⟩
    exact ⟨fun he => by simp only [Bind.bind, EStateM.bind, hs he], hf⟩

theorem discard {post : PUnit → Progress × Record → Prop}
    (h : Follows exact plain recorded s (fun _ s' => post ⟨⟩ s') fails) :
    Follows exact (Functor.discard plain) (Functor.discard recorded) s post fails := by
  apply Ends.discard
  refine Ends.mono h ?_ ?_
  · rintro a s' ⟨hs, hpost⟩
    exact ⟨by simp only [Functor.discard, Functor.mapConst, EStateM.map, Function.comp, hs], hpost⟩
  · rintro fault s' ⟨hs, hf⟩
    exact ⟨fun he => by simp only [Functor.discard, Functor.mapConst, EStateM.map, Function.comp, hs he],
      hf⟩

theorem noteCall {calls : List TypeExpr}
    (h : Follows exact plain recorded (s.1, { s.2 with calls := calls :: s.2.calls }) post fails) :
    Follows exact plain (do Recording.noteCall calls; recorded) s post fails :=
  Ends.bind (Ends.of_modify h)

theorem within {path : List ClassRef} {c : ClassRef} (hs : s.1.trail = Trail.along path) (hc : c ∉ path)
    (h : Follows exact plain recorded
      ({ s.1 with trail := Trail.along (c :: path) }, s.2.onPath (c :: path))
      (fun a s' => s'.1.trail = Trail.along (c :: path) ∧
        post a ({ s'.1 with trail := Trail.along path }, s'.2.onPath path))
      (fun s' => s'.1.trail = Trail.along (c :: path) ∧
        fails ({ s'.1 with trail := Trail.along path }, s'.2.onPath path))) :
    Follows exact (Compiling.within (.cls c) plain) (Recording.within (.cls c) recorded) s post
      fails := by
  have hpush : Compiling.onTrail (Trail.push (.cls c)) s.1 =
      .ok ⟨⟩ { s.1 with trail := Trail.along (c :: path) } := by
    apply Ends.eq_ok
    apply Compiling.onTrail_ends
    rw [hs]
    exact Trail.push_along_ends hc ⟨rfl, rfl⟩
  have hpop {p : Progress} (hp : p.trail = Trail.along (c :: path)) :
      Compiling.onTrail Trail.pop p = .ok (.cls c) { p with trail := Trail.along path } := by
    apply Ends.eq_ok
    apply Compiling.onTrail_ends
    rw [hp]
    exact Trail.pop_along_ends hc ⟨rfl, rfl⟩
  have hplain : Compiling.within (.cls c) plain s.1 =
      Compiling.thenLeave plain { s.1 with trail := Trail.along (c :: path) } := by
    simp only [Compiling.within, Bind.bind, EStateM.bind, hpush]
  have hrecorded : Recording.within (.cls c) recorded s = Recording.thenLeave recorded
      ({ s.1 with trail := Trail.along (c :: path) }, s.2.onPath (c :: path)) := by
    simp only [Recording.within, Bind.bind, EStateM.bind, Recording.plainly, hpush]
    rfl
  have hleave {s' : Progress × Record} (hs' : s'.1.trail = Trail.along (c :: path)) :
      Recording.leave s' = .ok ⟨⟩ ({ s'.1 with trail := Trail.along path }, s'.2.onPath path) := by
    simp only [Recording.leave, Bind.bind, EStateM.bind, Functor.discard, Functor.mapConst, EStateM.map,
      Function.comp, Recording.plainly, hpop hs']
    rfl
  unfold Follows Ends at h ⊢
  rw [hplain, hrecorded]
  unfold Compiling.thenLeave Recording.thenLeave
  cases hr : recorded ({ s.1 with trail := Trail.along (c :: path) }, s.2.onPath (c :: path)) with
  | ok a s' =>
      rw [hr] at h
      obtain ⟨hp, hs', hpost⟩ := h
      simp only [hp, SeqRight.seqRight, EStateM.seqRight, hpop hs', hleave hs']
      exact ⟨rfl, hpost⟩
  | error fault s' =>
      rw [hr] at h
      obtain ⟨hp, hs', hfails⟩ := h
      simp only [SeqRight.seqRight, EStateM.seqRight, hleave hs']
      exact ⟨fun he => by simp only [hp he, hpop hs']; rfl, hfails⟩

theorem ends (h : Follows True plain recorded s (fun a s' => post' a s') fails) :
    Ends plain s.1 (fun a p => ∃ r, post' a (p, r)) (fun _ p => ∃ r, fails (p, r)) := by
  unfold Follows at h
  cases hr : recorded s with
  | ok a s' =>
      obtain ⟨hp, hpost⟩ := h.of_ok hr
      simpa only [Ends, hp] using ⟨s'.2, hpost⟩
  | error fault s' =>
      obtain ⟨hp, hf⟩ := h.of_error hr
      simpa only [Ends, hp trivial] using ⟨s'.2, hf⟩

end Follows

end ClassSchema
