import ClassSchema.Proofs.Descriptions

namespace ClassSchema

theorem bind_eq_error {ε α β : Type} {x : Except ε α} {next : α → Except ε β} {fault : ε} :
    x >>= next = .error fault ↔ x = .error fault ∨ ∃ a, x = .ok a ∧ next a = .error fault := by
  cases x with
  | error e => simp [bind, Except.bind]
  | ok a => simp [bind, Except.bind]

namespace Evaluator

variable {E : Evaluator} {declarer : ClassRef} {e : Raised}

/-- What can end the resolution of a type that `declarer` declares: an exception of evaluating a text,
or a result that cannot stand where it is wanted. -/
inductive Raises (E : Evaluator) (declarer : ClassRef) : Raised → Prop
  | compile {s e} : E.compile s = .error e → Raises E declarer e
  | value {s e} : E.value declarer s = .error e → Raises E declarer e
  | notType {items} : Raises E declarer (.notType items)
  | notArgument {t} : Raises E declarer (.notArgument t)
  | plainForm {t} : Raises E declarer (.plainForm t)
  | noModule {t} : Raises E declarer (.noModule t)
  | tooDeep : Raises E declarer .tooDeep

theorem checkTexts_error {ts : List TypeExpr} (h : E.checkTexts ts = .error e) :
    E.Raises declarer e := by
  induction ts with
  | nil => cases h
  | cons t ts ih =>
      cases t with
      | text s =>
          simp only [checkTexts] at h
          rcases bind_eq_error.mp h with h | ⟨_, _, h⟩
          · exact .compile h
          · exact ih h
      | _ => exact ih (by simpa only [checkTexts] using h)

theorem reannotate_error {metadata : List Value} {t : TypeExpr}
    (h : t.reannotate metadata = .error e) : E.Raises declarer e := by
  unfold TypeExpr.reannotate at h
  split at h
  next => cases h; exact .noModule
  next => cases h; exact .noModule
  next => cases h

theorem checked_error {whole : Bool} {t : TypeExpr} (h : t.checked whole = .error e) :
    E.Raises declarer e := by
  unfold TypeExpr.checked at h
  split at h
  next => cases h; exact .notType
  next =>
    split_ifs at h
    · cases h; exact .notArgument
    · cases h; exact .plainForm

section

variable {look : Bool → String → Except Raised TypeExpr}

mutual

theorem substitute_error (hlook : ∀ whole s e, look whole s = .error e → E.Raises declarer e)
    {whole : Bool} (t : TypeExpr) {e : Raised} (h : E.substitute look whole t = .error e) :
    E.Raises declarer e := by
  cases t with
  | forward s => exact hlook whole s e (by simpa only [substitute] using h)
  | text s => exact hlook whole s e (by simpa only [substitute] using h)
  | subscript head args =>
      simp only [substitute] at h
      rcases bind_eq_error.mp h with h | ⟨_, _, h⟩
      · exact checkTexts_error h
      rcases bind_eq_error.mp h with h | ⟨_, _, h⟩
      · exact substituteAll_error hlook args h
      · cases h
  | union native members =>
      simp only [substitute] at h
      rcases bind_eq_error.mp h with h | ⟨_, _, h⟩
      · exact substituteAll_error hlook members h
      · cases h
  | annotated base metadata =>
      simp only [substitute] at h
      rcases bind_eq_error.mp h with h | ⟨_, _, h⟩
      · exact substitute_error hlook base h
      · exact reannotate_error h
  | callable params result =>
      simp only [substitute] at h
      rcases bind_eq_error.mp h with h | ⟨_, _, h⟩
      · exact substituteAll_error hlook params h
      rcases bind_eq_error.mp h with h | ⟨_, _, h⟩
      · exact substitute_error hlook result h
      · cases h
  | qualified q base =>
      simp only [substitute] at h
      split_ifs at h
      rcases bind_eq_error.mp h with h | ⟨_, _, h⟩
      · exact substitute_error hlook base h
      · cases h
  | _ =>
      simp only [substitute] at h
      cases h

theorem substituteAll_error (hlook : ∀ whole s e, look whole s = .error e → E.Raises declarer e)
    (ts : List TypeExpr) {e : Raised} (h : E.substituteAll look ts = .error e) :
    E.Raises declarer e := by
  cases ts with
  | nil => cases h
  | cons t ts =>
      simp only [substituteAll] at h
      rcases bind_eq_error.mp h with h | ⟨_, _, h⟩
      · exact substitute_error hlook t h
      rcases bind_eq_error.mp h with h | ⟨_, _, h⟩
      · exact substituteAll_error hlook ts h
      · cases h

end

end

theorem lookUp_error {room : Nat} {seen : List String} {whole : Bool} {text : String}
    (h : E.lookUp declarer room seen whole text = .error e) : E.Raises declarer e := by
  induction room generalizing seen whole text e with
  | zero =>
      cases h
      exact .tooDeep
  | succ room ih =>
      unfold lookUp at h
      split_ifs at h with hs
      rcases bind_eq_error.mp h with h | ⟨_, _, h⟩
      · exact .compile h
      rcases bind_eq_error.mp h with h | ⟨t, _, h⟩
      · exact .value h
      rcases bind_eq_error.mp h with h | ⟨u, _, h⟩
      · exact checked_error h
      · exact substitute_error (fun _ _ _ => ih) u h

theorem resolve_error {t : TypeExpr} (h : E.resolve declarer t = .error e) : E.Raises declarer e :=
  substitute_error (fun _ _ _ => lookUp_error) t.asArgument h

end Evaluator

namespace Model

variable {M : Model} {e : Raised}

/-- The first of the declarations that does not resolve, where those before it do. -/
def FirstUnresolved (M : Model) (ds : List (ClassRef × String × TypeExpr)) (e : Raised) : Prop :=
  ∃ before d after, ds = before ++ d :: after ∧
    (∀ x ∈ before, ∃ u, M.resolve x.1 x.2.2 = .ok u) ∧ M.resolve d.1 d.2.2 = .error e

theorem resolveEach_error_iff {ds : List (ClassRef × String × TypeExpr)} :
    M.resolveEach ds = .error e ↔ M.FirstUnresolved ds e := by
  induction ds with
  | nil =>
      constructor
      · intro h
        cases h
      · rintro ⟨before, d, after, hds, _⟩
        cases before <;> cases hds
  | cons d ds ih =>
      rw [resolveEach, bind_eq_error]
      constructor
      · rintro (h | ⟨u, hu, h⟩)
        · exact ⟨[], d, ds, rfl, fun _ hx => absurd hx List.not_mem_nil, h⟩
        · rcases bind_eq_error.mp h with h | ⟨_, _, h⟩
          · obtain ⟨before, x, after, rfl, hbefore, hx⟩ := ih.mp h
            exact ⟨d :: before, x, after, rfl, List.forall_mem_cons.mpr ⟨⟨u, hu⟩, hbefore⟩, hx⟩
          · cases h
      · rintro ⟨before, x, after, hds, hbefore, hx⟩
        cases before with
        | nil =>
            cases hds
            exact Or.inl hx
        | cons y before =>
            cases hds
            obtain ⟨⟨u, hu⟩, hbefore⟩ := List.forall_mem_cons.mp hbefore
            refine Or.inr ⟨u, hu, bind_eq_error.mpr (Or.inl (ih.mpr ?_))⟩
            exact ⟨before, x, after, rfl, hbefore, hx⟩

theorem resolvedFields_error_iff {c : ClassRef} :
    M.resolvedFields c = .error e ↔ M.FirstUnresolved (M.declarations c) e := by
  have hpure : ¬ ∃ types, M.resolveEach (M.declarations c) = .ok types ∧
      (pure (putAll [] types) : Except Raised _) = .error e := by
    rintro ⟨_, _, h⟩
    cases h
  rw [resolvedFields, bind_eq_error, or_iff_left hpure, resolveEach_error_iff]

theorem FirstUnresolved.raises {ds : List (ClassRef × String × TypeExpr)} (h : M.FirstUnresolved ds e) :
    ∃ d ∈ ds, M.evaluator.Raises d.1 e := by
  obtain ⟨before, d, after, rfl, _, hd⟩ := h
  exact ⟨d, by simp, Evaluator.resolve_error hd⟩

end Model

end ClassSchema
