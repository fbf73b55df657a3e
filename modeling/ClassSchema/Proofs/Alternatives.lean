import ClassSchema.Proofs.Descriptions
import ClassSchema.Proofs.Unions

namespace ClassSchema

namespace TypeExpr

variable {t u : TypeExpr} {values : List Value} {whole : Bool}

theorem annotate_eq_annotated (t : TypeExpr) (values : List Value) :
    ∃ base metadata, t.annotate values = .annotated base metadata := by
  unfold annotate
  split <;> exact ⟨_, _, rfl⟩

theorem reannotate_ok (h : t.reannotate values = .ok u) : u = t.annotate values := by
  unfold reannotate at h
  split at h
  next => cases h
  next => cases h
  next =>
    cases h
    rfl

theorem checked_ok (h : t.checked whole = .ok u) :
    u = t.asArgument ∧ u.isForm whole = false ∧ u.isPlainForm whole = false := by
  unfold checked at h
  split at h
  next => cases h
  next =>
    split_ifs at h with hform hplain
    cases h
    exact ⟨rfl, by simpa using hform, by simpa using hplain⟩

theorem asArgument_ne_none (t : TypeExpr) : t.asArgument ≠ .none := by
  cases t <;> exact nofun

theorem isText_asArgument (t : TypeExpr) : t.asArgument.isText = false := by
  cases t <;> rfl

theorem isClassVar_asArgument (t : TypeExpr) : t.asArgument.isClassVar = t.isClassVar := by
  cases t <;> rfl

theorem isMade_asArgument (t : TypeExpr) : t.asArgument.isMade = t.isMade := by
  cases t <;> rfl

theorem isClassVar_of_checked (h : t.checked false = .ok u) : u.isClassVar = false := by
  obtain ⟨_, hform, hplain⟩ := checked_ok h
  cases u with
  | bareClassVar => cases hplain
  | qualified q base => cases q <;> first | rfl | cases hform
  | _ => rfl

def NoClassVar (t : TypeExpr) : Prop := ∀ x ∈ t.asArgument.alternatives, x.isClassVar = false

theorem noClassVar_of_isAlternative (h : t.isAlternative = true) : t.NoClassVar := by
  rw [NoClassVar, asArgument_of_isAlternative h, alternatives_of_isAlternative h]
  exact List.forall_mem_singleton.mpr (isClassVar_of_isAlternative h)

theorem NoClassVar.isClassVar (h : t.NoClassVar) : t.isClassVar = false := by
  cases t with
  | bareClassVar | qualified => exact h _ (List.mem_singleton_self _)
  | _ => rfl

end TypeExpr

namespace Evaluator

variable {E : Evaluator} {look : Bool → String → Except Raised TypeExpr} {whole : Bool}
  {t u : TypeExpr} {ts us : List TypeExpr} {values : List Value}

theorem substitute_subscript {head : Head} {args : List TypeExpr}
    (h : E.substitute look whole (.subscript head args) = .ok u) :
    ∃ us, E.substituteAll look args = .ok us ∧ u = .subscript head us := by
  simp only [substitute] at h
  obtain ⟨_, _, h⟩ := bind_eq_ok.mp h
  obtain ⟨us, hus, h⟩ := bind_eq_ok.mp h
  cases h
  exact ⟨us, hus, rfl⟩

theorem substitute_union {native : Bool} {members : List TypeExpr}
    (h : E.substitute look whole (.union native members) = .ok u) :
    ∃ us, E.substituteAll look members = .ok us ∧ u = TypeExpr.rebuilt native us := by
  simp only [substitute] at h
  obtain ⟨us, hus, h⟩ := bind_eq_ok.mp h
  cases h
  exact ⟨us, hus, rfl⟩

theorem substitute_callable {params : List TypeExpr} {result : TypeExpr}
    (h : E.substitute look whole (.callable params result) = .ok u) : ∃ us v, u = .callable us v := by
  simp only [substitute] at h
  obtain ⟨us, _, h⟩ := bind_eq_ok.mp h
  obtain ⟨v, _, h⟩ := bind_eq_ok.mp h
  cases h
  exact ⟨us, v, rfl⟩

theorem substitute_qualified {q : Qualifier} (h : E.substitute look whole (.qualified q t) = .ok u) :
    ∃ v, u = .qualified q v := by
  simp only [substitute] at h
  split at h
  next hq =>
    cases h
    exact ⟨t, rfl⟩
  next =>
    obtain ⟨v, _, h⟩ := bind_eq_ok.mp h
    cases h
    exact ⟨v, rfl⟩

theorem substitute_annotated (h : E.substitute look whole (.annotated t values) = .ok u) :
    ∃ base metadata, u = .annotated base metadata := by
  simp only [substitute] at h
  obtain ⟨v, _, h⟩ := bind_eq_ok.mp h
  rw [TypeExpr.reannotate_ok h]
  exact v.annotate_eq_annotated values

/-- What is found for each of the expressions. -/
theorem substituteAll_ok_iff : E.substituteAll look ts = .ok us ↔
    List.Forall₂ (fun t u => E.substitute look false t = .ok u) ts us := by
  induction ts generalizing us with
  | nil =>
      simp only [substituteAll, Except.ok.injEq, List.forall₂_nil_left_iff]
      exact eq_comm
  | cons t ts ih =>
      rw [substituteAll, bind_eq_ok]
      constructor
      · rintro ⟨u, hu, h⟩
        obtain ⟨us, hus, h⟩ := bind_eq_ok.mp h
        cases h
        exact .cons hu (ih.mp hus)
      · intro h
        cases h with
        | cons hu hus => exact ⟨_, hu, bind_eq_ok.mpr ⟨_, ih.mpr hus, rfl⟩⟩

theorem substituteAll_forall {P : TypeExpr → Prop}
    (h : ∀ t ∈ ts, ∀ u, E.substitute look false t = .ok u → P u)
    (hus : E.substituteAll look ts = .ok us) : ∀ u ∈ us, P u := by
  have hall := substituteAll_ok_iff.mp hus
  induction hall with
  | nil => exact fun _ hu => absurd hu List.not_mem_nil
  | cons hu hrest ih =>
      obtain ⟨ht, hts⟩ := List.forall_mem_cons.mp h
      exact List.forall_mem_cons.mpr ⟨ht _ hu, ih hts (substituteAll_ok_iff.mpr hrest)⟩

theorem substitute_isAlternative (ht : t.isAlternative = true) (hf : ∀ s, t ≠ .forward s)
    (h : E.substitute look whole t = .ok u) : u.isAlternative = true := by
  cases t with
  | forward s => exact absurd rfl (hf s)
  | subscript head args =>
      obtain ⟨_, _, rfl⟩ := substitute_subscript h
      rfl
  | annotated base metadata =>
      obtain ⟨_, _, rfl⟩ := substitute_annotated h
      rfl
  | callable params result =>
      obtain ⟨_, _, rfl⟩ := substitute_callable h
      rfl
  | qualified q base =>
      obtain ⟨_, rfl⟩ := substitute_qualified h
      cases q <;> first | rfl | cases ht
  | none | text | union | bareClassVar => cases ht
  | _ =>
      simp only [substitute] at h
      cases h
      rfl

structure Settles (look : Bool → String → Except Raised TypeExpr) : Prop where
  built : ∀ {whole s u}, look whole s = .ok u → u.Built
  noClassVar : ∀ {s u}, look false s = .ok u → u.NoClassVar

theorem substitute_built (hlook : ∀ {whole s u}, look whole s = .ok u → u.Built) (ht : t ≠ .none)
    (h : E.substitute look whole t = .ok u) : u.Built := by
  induction t using TypeExpr.induction generalizing whole u with
  | _ t ih =>
      cases t with
      | none => exact absurd rfl ht
      | forward s | text s => exact hlook (by simpa only [substitute] using h)
      | subscript head args =>
          obtain ⟨_, _, rfl⟩ := substitute_subscript h
          exact TypeExpr.built_of_isMember rfl
      | union native members =>
          obtain ⟨us, hus, rfl⟩ := substitute_union h
          refine (TypeExpr.joins_rebuilt native (substituteAll_forall (fun m hm u hu => ?_) hus)).built
          by_cases hnone : m = .none
          · subst hnone
            simp only [substitute] at hu
            cases hu
            exact TypeExpr.built_of_isMember rfl
          · have hbuilt := ih m hm hnone hu
            exact hbuilt.asArgument.symm ▸ hbuilt
      | annotated base metadata =>
          obtain ⟨_, _, rfl⟩ := substitute_annotated h
          exact TypeExpr.built_of_isMember rfl
      | callable params result =>
          obtain ⟨_, _, rfl⟩ := substitute_callable h
          exact TypeExpr.built_of_isMember rfl
      | qualified q base =>
          obtain ⟨_, rfl⟩ := substitute_qualified h
          exact TypeExpr.built_of_isMember rfl
      | _ =>
          simp only [substitute] at h
          cases h
          exact TypeExpr.built_of_isMember rfl

theorem substitute_asArgument_built (hlook : ∀ {whole s u}, look whole s = .ok u → u.Built)
    (h : E.substitute look whole t = .ok u) : u.asArgument.Built := by
  by_cases ht : t = .none
  · subst ht
    simp only [substitute] at h
    cases h
    exact TypeExpr.built_of_isMember rfl
  · have hbuilt := substitute_built hlook ht h
    exact hbuilt.asArgument.symm ▸ hbuilt

theorem Settles.joins (hlook : Settles look) (native : Bool) (h : E.substituteAll look ts = .ok us) :
    TypeExpr.Joins (TypeExpr.joined us) (TypeExpr.rebuilt native us) :=
  TypeExpr.joins_rebuilt native
    (substituteAll_forall (fun _ _ _ => substitute_asArgument_built hlook.built) h)

theorem Settles.noClassVar_of_isAlternative (hlook : Settles look) (ht : t.isAlternative = true)
    (h : E.substitute look false t = .ok u) : u.NoClassVar := by
  by_cases hf : ∃ s, t = .forward s
  · obtain ⟨s, rfl⟩ := hf
    exact hlook.noClassVar (by simpa only [substitute] using h)
  · exact TypeExpr.noClassVar_of_isAlternative
      (substitute_isAlternative ht (fun s hs => hf ⟨s, hs⟩) h)

theorem Settles.noClassVar_of_isMade (hlook : Settles look) (ht : t.isMade = true)
    (hc : t.isClassVar = false) (htext : t.isText = false)
    (h : E.substitute look false t = .ok u) : u.NoClassVar := by
  cases t with
  | none =>
      simp only [substitute] at h
      cases h
      exact List.forall_mem_singleton.mpr rfl
  | text s => cases htext
  | bareClassVar => cases hc
  | qualified q base =>
      refine hlook.noClassVar_of_isAlternative ?_ h
      cases q <;> first | rfl | cases hc
  | union native members =>
      obtain ⟨us, hus, rfl⟩ := substitute_union h
      have hjoins := hlook.joins native hus
      have hmembers : ∀ u ∈ us, u.NoClassVar := substituteAll_forall
        (fun m hm _ => hlook.noClassVar_of_isAlternative (List.all_eq_true.mp ht m hm)) hus
      intro x hx
      rw [hjoins.built.asArgument] at hx
      obtain ⟨v, hv, hx⟩ := List.mem_flatMap.mp (hjoins.thinned.subset hx)
      exact hmembers v hv x hx
  | _ => exact hlook.noClassVar_of_isAlternative rfl h

/-- Looking up neither makes a class variable of an annotation nor takes one away. -/
theorem Settles.isClassVar (hlook : Settles look) (ht : t.isMade = true) (htext : t.isText = false)
    (h : E.substitute look false t = .ok u) : u.isClassVar = t.isClassVar := by
  cases hc : t.isClassVar with
  | false => exact (hlook.noClassVar_of_isMade ht hc htext h).isClassVar
  | true =>
      cases t with
      | bareClassVar =>
          simp only [substitute] at h
          cases h
          rfl
      | qualified q base =>
          obtain ⟨_, rfl⟩ := substitute_qualified h
          cases q <;> first | rfl | cases hc
      | _ => cases hc

theorem lookUp_settles (E : Evaluator) (declarer : ClassRef) (room : Nat) (seen : List String) :
    Settles (E.lookUp declarer room seen) := by
  induction room generalizing seen with
  | zero => exact ⟨nofun, nofun⟩
  | succ room ih =>
      constructor
      · intro whole s u h
        unfold lookUp at h
        split at h
        next =>
          cases h
          exact TypeExpr.built_of_isMember rfl
        next =>
          obtain ⟨_, _, h⟩ := bind_eq_ok.mp h
          obtain ⟨v, _, h⟩ := bind_eq_ok.mp h
          obtain ⟨t, ht, h⟩ := bind_eq_ok.mp h
          exact substitute_built (ih _).built ((TypeExpr.checked_ok ht).1 ▸ v.asArgument_ne_none) h
      · intro s u h
        unfold lookUp at h
        split at h
        next =>
          cases h
          exact TypeExpr.noClassVar_of_isAlternative rfl
        next =>
          obtain ⟨_, _, h⟩ := bind_eq_ok.mp h
          obtain ⟨v, hv, h⟩ := bind_eq_ok.mp h
          obtain ⟨t, ht, h⟩ := bind_eq_ok.mp h
          have hself := (TypeExpr.checked_ok ht).1
          refine (ih _).noClassVar_of_isMade ?_ (TypeExpr.isClassVar_of_checked ht) ?_ h
          · rw [hself, TypeExpr.isMade_asArgument, E.made hv]
          · rw [hself, TypeExpr.isText_asArgument]

end Evaluator

namespace Model

variable {M : Model} {declarer : ClassRef}

theorem resolve_isClassVar {t u : TypeExpr} (ht : t.isMade = true) (htext : t.isText = false)
    (h : M.resolve declarer t = .ok u) : u.isClassVar = t.isClassVar := by
  rw [resolve, Evaluator.resolve, htext] at h
  have hsame := (M.evaluator.lookUp_settles declarer M.evaluator.depth []).isClassVar
    ((TypeExpr.isMade_asArgument t).trans ht) t.isText_asArgument h
  exact hsame.trans (TypeExpr.isClassVar_asArgument t)

end Model

end ClassSchema
