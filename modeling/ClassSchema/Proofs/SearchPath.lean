import ClassSchema.Proofs.LoadFaults

namespace ClassSchema

namespace Session

variable {ε α β : Type}

def left (step : EStateM ε Session α) (s : Session) : Session :=
  match step s with
  | .ok _ t | .error _ t => t

def KeepsPath (step : EStateM ε Session α) : Prop := ∀ s, (left step s).path = s.path

variable {step : EStateM ε Session α} {s : Session}

theorem left_bind {next : α → EStateM ε Session β} (h : ∀ a t, left (next a) t = t) :
    left (step >>= next) s = left step s := by
  simp only [left, Bind.bind, EStateM.bind] at h ⊢
  cases step s with
  | ok a t => exact h a t
  | error e t => rfl

theorem left_get_bind (next : Session → EStateM ε Session α) (s : Session) :
    left (get >>= next) s = left (next s) s := rfl

namespace KeepsPath

theorem of_pure (a : α) : KeepsPath (pure a : EStateM ε Session α) := fun _ => rfl

theorem of_throw (e : ε) : KeepsPath (throw e : EStateM ε Session α) := fun _ => rfl

theorem of_get : KeepsPath (get : EStateM ε Session Session) := fun _ => rfl

theorem of_modify {f : Session → Session} (h : ∀ s, (f s).path = s.path) :
    KeepsPath (modify f : EStateM ε Session PUnit) := h

theorem bind {next : α → EStateM ε Session β} (h : KeepsPath step) (hn : ∀ a, KeepsPath (next a)) :
    KeepsPath (step >>= next) := by
  intro s
  have hs := h s
  simp only [left, Bind.bind, EStateM.bind] at hs ⊢
  cases hstep : step s with
  | ok a t =>
      rw [hstep] at hs
      exact (hn a t).trans hs
  | error e t =>
      rw [hstep] at hs
      exact hs

theorem discard (h : KeepsPath step) : KeepsPath (Functor.discard step) := by
  intro s
  have hs := h s
  simp only [left, Functor.discard, Functor.mapConst, EStateM.map, Function.comp] at hs ⊢
  cases hstep : step s <;> simpa [hstep] using hs

end KeepsPath

theorem loadFrom_keepsPath (name : String) (place : Place) : KeepsPath (loadFrom name place) := by
  have hkeep (m : LoadedModule) : KeepsPath (keep m) := .bind (.of_modify fun _ => rfl) fun _ => .of_pure m
  cases place with
  | nowhere => exact .of_throw _
  | directories ds => exact hkeep _
  | file f =>
      cases hcontent : f.content with
      | failure kind message =>
          simp only [loadFrom, hcontent]
          exact .of_throw _
      | module index =>
          simp only [loadFrom, hcontent]
          exact hkeep _

theorem searched_keepsPath (front : List String) : KeepsPath (searched front) := by
  induction front with
  | nil => exact .bind .of_get fun _ => .of_pure _
  | cons last front ih =>
      unfold searched
      refine .bind .of_get fun s => ?_
      split
      next => exact .of_pure _
      next m _ =>
        split
        next => exact .of_pure _
        next =>
          refine .bind ih fun found => .bind .of_get fun t => ?_
          split
          next => exact .bind (.of_modify fun _ => rfl) fun _ => .of_pure _
          next => exact .of_pure _

theorem bindSubmodule_keepsPath (last : String) (front : List String) :
    KeepsPath (bindSubmodule last front) := by
  cases front with
  | nil => exact .of_pure _
  | cons => exact .of_modify fun _ => rfl

theorem importParts_keepsPath (parts : List String) : KeepsPath (importParts parts) := by
  induction parts with
  | nil => exact .of_throw _
  | cons last front ih =>
      have hfound (within : List Directory) : KeepsPath (do
          let m ← loadFrom (joined (last :: front)) ((← get).place last within)
          bindSubmodule last front
          return m) :=
        .bind .of_get fun _ => .bind (loadFrom_keepsPath _ _) fun m =>
          .bind (bindSubmodule_keepsPath last front) fun _ => .of_pure m
      unfold importParts
      refine .bind .of_get fun s => ?_
      dsimp only
      split
      next => exact .of_pure _
      next =>
        split
        next =>
          refine .bind ih.discard fun _ => .bind (searched_keepsPath front) fun within => ?_
          cases within with
          | none => exact .of_throw _
          | some within => exact hfound within
        next =>
          refine .bind (searched_keepsPath front) fun within => ?_
          cases within with
          | none => exact .of_throw _
          | some within => exact hfound within

end Session

namespace ClassName

open Session

variable {M : Model} {s : Session} {name module path : String} {search : List String}

/-- Each of the entries that were put in front is the first of its kind when it is taken off. -/
theorem removed_append (entries path : List String) : removed (entries ++ path) entries = path := by
  induction entries with
  | nil => rfl
  | cons p entries ih =>
      rw [removed, List.foldl_cons, List.cons_append, List.erase_cons_head]
      exact ih

theorem left_importWith (habsolute : module.toList.head? ≠ some '.') (search : List String) (s : Session) :
    left (importWith module search) s =
      { left (importModule module) { s with path := added s.path search ++ s.path } with
        path := s.path } := by
  have hkept := importParts_keepsPath (Name.dotted module).reverse
    { s with path := added s.path search ++ s.path }
  rw [← importModule] at hkept
  simp only [left] at hkept
  simp only [left, importWith, if_neg habsolute]
  cases himport : importModule module { s with path := added s.path search ++ s.path } with
  | ok m t =>
      rw [himport] at hkept
      simp only [hkept, removed_append]
  | error why t =>
      rw [himport] at hkept
      cases why with
      | missing | notPackage => simp only [hkept, removed_append]
      | failed kind message =>
          by_cases hkind : kind ∈ importKinds
          · simp only [if_pos hkind, hkept, removed_append]
          · simp only [if_neg hkind, hkept, removed_append]

theorem left_load (hcut : Cut name module path) :
    left (load M name search) s = left (importWith module search) s := by
  rw [load, hcut.split]
  refine left_bind fun m t => ?_
  rw [left_get_bind]
  cases follow M t (.module m) (Name.dotted path) with
  | none => rfl
  | some x =>
      cases x with
      | binding b => cases b <;> rfl
      | module | member | other => rfl

/-- What becomes of the path when a class is loaded. -/
structure Restores (M : Model) (name : String) (search : List String) (s : Session) : Prop where
  steady : (∀ parts, KeepsPath (importParts parts)) ∧ (∀ parts, KeepsPath (searched parts)) ∧
    ∀ name place, KeepsPath (loadFrom name place)
  /-- The module is imported with the absent entries in front of the path, and what the import leaves
  is left with the path as it was. -/
  imported : ∀ module path, Cut name module path → module.toList.head? ≠ some '.' →
    left (load M name search) s =
      { left (importModule module) { s with path := search.filter (· ∉ s.path) ++ s.path } with
        path := s.path }
  removable : ∀ before p after, search.filter (· ∉ s.path) = before ++ p :: after →
    p ∈ removed (search.filter (· ∉ s.path) ++ s.path) before
  restored : (left (load M name search) s).path = s.path

/-- However the loading of a class ends, the path is what it was. -/
theorem load_restores (M : Model) (name : String) (search : List String) (s : Session) :
    Restores M name search s where
  steady := ⟨importParts_keepsPath, searched_keepsPath, loadFrom_keepsPath⟩
  imported := fun _ _ hcut habsolute => (left_load hcut).trans (left_importWith habsolute search s)
  removable := by
    intro before p after hentries
    rw [hentries, List.append_assoc, removed_append]
    exact List.mem_cons_self
  restored := by
    rcases split_cases name with ⟨module, path, hcut⟩ | hbad
    · rw [left_load hcut]
      by_cases hrelative : module.toList.head? = some '.'
      · simp only [left, importWith, if_pos hrelative]
      · rw [left_importWith hrelative]
    · rw [load, hbad]
      rfl

example : added ["lib"] ["app", "lib", "app"] ++ ["lib"] = ["app", "app", "lib"] ∧
    removed ["app", "app", "lib"] ["app", "app"] = ["lib"] := by decide

end ClassName

end ClassSchema
