import ClassSchema.Proofs.ClassNames

namespace ClassSchema

namespace Session

variable {α β : Type} {s : Session} {parts : List String} {step : Importing α}

def FailsAt (s : Session) (parts : List String) (why : ImportFault) : Prop :=
  ∀ kind message, why = .failed kind message →
    ∃ f ∈ s.files, f.content = .failure kind message ∧ ∃ last ∈ parts, f.location.getLast? = some last

/-- The step leaves the files as they are, and no failure comes from elsewhere. -/
def Spares (parts : List String) (step : Importing α) (s : Session) : Prop :=
  match step s with
  | .ok _ t => t.files = s.files
  | .error why t => t.files = s.files ∧ FailsAt s parts why

namespace Spares

theorem of_pure (a : α) : Spares parts (pure a : Importing α) s := rfl

theorem of_throw {why : ImportFault} (h : FailsAt s parts why) :
    Spares parts (throw why : Importing α) s := ⟨rfl, h⟩

theorem of_modify {f : Session → Session} (h : (f s).files = s.files) :
    Spares parts (modify f : Importing PUnit) s := h

theorem bind {next : α → Importing β} (h : Spares parts step s)
    (hn : ∀ a t, t.files = s.files → Spares parts (next a) t) : Spares parts (step >>= next) s := by
  unfold Spares at h ⊢
  simp only [Bind.bind, EStateM.bind]
  cases hs : step s with
  | error why t =>
      rw [hs] at h
      exact h
  | ok a t =>
      rw [hs] at h
      have hrest := hn a t h
      unfold Spares FailsAt at hrest
      rw [h] at hrest
      exact hrest

theorem read {next : Session → Importing α} (h : Spares parts (next s) s) :
    Spares parts (get >>= next) s := h

theorem discard (h : Spares parts step s) : Spares parts (Functor.discard step) s := by
  unfold Spares at h ⊢
  simp only [Functor.discard, Functor.mapConst, EStateM.map, Function.comp]
  cases hs : step s <;> simpa [hs] using h

theorem mono {parts' : List String} (h : Spares parts step s) (hp : parts ⊆ parts') :
    Spares parts' step s := by
  unfold Spares at h ⊢
  split at h
  next => exact h
  next =>
    refine ⟨h.1, fun kind message hw => ?_⟩
    obtain ⟨f, hf, hcontent, last, hlast, hlocation⟩ := h.2 kind message hw
    exact ⟨f, hf, hcontent, last, hp hlast, hlocation⟩

end Spares

theorem fileIn?_eq_some {name : String} {d : Directory} {f : ModuleFile} (h : s.fileIn? name d = some f) :
    f ∈ s.files ∧ f.location = d ++ [name] := by
  have hmem : f ∈ (s.files.filter (·.location == d ++ [name])).reverse := by
    rcases Option.or_eq_some_iff.mp h with h | ⟨_, h⟩
    · exact List.mem_of_find?_eq_some h
    · exact List.mem_of_mem_head? h
  obtain ⟨hf, hlocation⟩ := List.mem_filter.mp (List.mem_reverse.mp hmem)
  exact ⟨hf, eq_of_beq hlocation⟩

theorem place_file {last : String} {within : List Directory} {f : ModuleFile}
    (h : s.place last within = .file f) : f ∈ s.files ∧ f.location.getLast? = some last := by
  unfold place at h
  split at h
  next g hg =>
    cases h
    obtain ⟨d, _, hd⟩ := List.exists_of_findSome?_eq_some hg
    obtain ⟨hf, hlocation⟩ := fileIn?_eq_some hd
    exact ⟨hf, by simp [hlocation]⟩
  next =>
    split at h <;> cases h

theorem loadFrom_spares (name : String) {last : String} {within : List Directory} (hlast : last ∈ parts) :
    Spares parts (loadFrom name (s.place last within)) s := by
  have hmissing : FailsAt s parts (.missing name) := fun _ _ h => by cases h
  cases hplace : s.place last within with
  | nowhere => exact .of_throw hmissing
  | directories ds => exact .bind (.of_modify rfl) (fun _ _ _ => .of_pure _)
  | file f =>
      obtain ⟨hf, hlocation⟩ := place_file hplace
      cases hcontent : f.content with
      | module index =>
          simp only [loadFrom, hcontent]
          exact .bind (.of_modify rfl) (fun _ _ _ => .of_pure _)
      | failure kind message =>
          simp only [loadFrom, hcontent]
          refine .of_throw fun _ _ h => ?_
          cases h
          exact ⟨f, hf, hcontent, last, hlast, hlocation⟩

theorem searched_spares (front : List String) (s : Session) : Spares parts (searched front) s := by
  induction front generalizing s with
  | nil => exact .read (.of_pure _)
  | cons last front ih =>
      unfold searched
      apply Spares.read
      split
      next => exact .of_pure _
      next m _ =>
        split
        next => exact .of_pure _
        next =>
          refine .bind (ih s) (fun found t _ => .read ?_)
          split
          next => exact .bind (.of_modify rfl) (fun _ _ _ => .of_pure _)
          next => exact .of_pure _

theorem bindSubmodule_spares (last : String) (front : List String) (s : Session) :
    Spares parts (bindSubmodule last front) s := by
  cases front with
  | nil => exact .of_pure _
  | cons => exact .of_modify rfl

theorem importParts_spares (parts : List String) (s : Session) : Spares parts (importParts parts) s := by
  induction parts generalizing s with
  | nil => exact .of_throw fun _ _ h => by cases h
  | cons last front ih =>
      have hfront : front ⊆ last :: front := List.subset_cons_self last front
      unfold importParts
      apply Spares.read
      dsimp only
      split
      next => exact .of_pure _
      next =>
        have hfound : ∀ within t, Spares (last :: front) (do
            let m ← loadFrom (joined (last :: front)) ((← get).place last within)
            bindSubmodule last front
            return m) t := fun within t =>
          .read (.bind (loadFrom_spares _ List.mem_cons_self) (fun m u _ =>
            .bind (bindSubmodule_spares last front u) (fun _ _ _ => .of_pure m)))
        split
        next =>
          refine .bind ((ih s).mono hfront).discard (fun _ t _ => ?_)
          refine .bind (searched_spares front t) (fun within u _ => ?_)
          cases within with
          | none => exact .of_throw fun _ _ h => by cases h
          | some within => exact hfound within u
        next =>
          refine .bind (searched_spares front s) (fun within u _ => ?_)
          cases within with
          | none => exact .of_throw fun _ _ h => by cases h
          | some within => exact hfound within u

end Session

namespace ClassName

/-- How a name is cut into a module and a path of attributes: at its first colon, or at its last dot
if it has no colon. -/
inductive Cut : (name module path : String) → Prop
  | colon {module path} : ':' ∉ module.toList → module ≠ "" → path ≠ "" →
      Cut (module ++ ":" ++ path) module path
  | dot {module path} : ':' ∉ module.toList → ':' ∉ path.toList → '.' ∉ path.toList → module ≠ "" →
      path ≠ "" → Cut (module ++ "." ++ path) module path

def Relative (name : String) : Prop :=
  ∃ module path, Cut name module path ∧ module.toList.head? = some '.'

def FailsOtherwise (s : Session) (module : String) (search : List String) : Prop :=
  ∃ kind message t, kind ∉ importKinds ∧
    Session.importModule module { s with path := added s.path search ++ s.path } =
      .error (.failed kind message) t

def BreaksOff (s : Session) (name : String) (search : List String) : Prop :=
  ∃ module path, Cut name module path ∧ FailsOtherwise s module search

/-- The module that the name gives can be imported, and its path leads from there to the class. -/
def Leads (M : Model) (s : Session) (name : String) (search : List String) (c : ClassRef) (t : Session) :
    Prop :=
  ∃ module path m u, Cut name module path ∧ Imports s module search m u ∧
    t = { u with path := removed u.path (added s.path search) } ∧
    follow M t (.module m) (Name.dotted path) = some (.binding (.cls c))

variable {M : Model} {s t : Session} {c : ClassRef} {name module path module' path' : String}
  {search : List String}

theorem Cut.split (h : Cut name module path) : split name = .ok (module, path) := by
  cases h with
  | colon hcolon hmodule hpath => exact split_colon hmodule hcolon hpath
  | dot hcolon hpathColon hdot hmodule hpath => exact split_dot hmodule hcolon hpath hdot hpathColon

theorem Cut.module_ne (h : Cut name module path) : module ≠ "" := by
  cases h <;> assumption

theorem Cut.unique (h : Cut name module path) (h' : Cut name module' path') :
    module = module' ∧ path = path' := by
  have hsplit := h.split.symm.trans h'.split
  exact Prod.mk.inj (Except.ok.inj hsplit)

theorem split_cases (name : String) :
    (∃ module path, Cut name module path) ∨ split name = .error (.badForm name) := by
  by_cases hcolon : ':' ∈ name.toList
  · obtain ⟨before, after, hcs, hnot⟩ := List.eq_append_cons_of_mem hcolon
    have hname : name = String.ofList before ++ ":" ++ String.ofList after := by
      simp [← String.toList_inj, hcs]
    by_cases hempty : before = [] ∨ after = []
    · right
      simp [split, hcs, Text.splitFirst_append hnot after, hempty]
    · left
      rw [not_or] at hempty
      refine ⟨String.ofList before, String.ofList after, ?_⟩
      rw [hname]
      exact .colon (by simpa using hnot) (by simpa using hempty.1) (by simpa using hempty.2)
  · by_cases hdot : '.' ∈ name.toList
    · obtain ⟨before, after, hcs, hnot⟩ := Text.exists_last hdot
      have hname : name = String.ofList before ++ "." ++ String.ofList after := by
        simp [← String.toList_inj, hcs]
      by_cases hempty : before = [] ∨ after = []
      · right
        simp only [split, if_neg hcolon]
        rw [hcs, Text.splitLast_append hnot before]
        simp [hempty]
      · left
        rw [not_or] at hempty
        rw [hcs] at hcolon
        refine ⟨String.ofList before, String.ofList after, ?_⟩
        rw [hname]
        exact .dot (by simp_all) (by simp_all) (by simpa using hnot) (by simpa using hempty.1)
          (by simpa using hempty.2)
    · right
      simp [split, hcolon, Text.splitLast_of_not_mem hdot]

theorem FailsOtherwise.exists_file (h : FailsOtherwise s module search) :
    ∃ f ∈ s.files, (∃ kind message, f.content = .failure kind message ∧ kind ∉ importKinds) ∧
      ∃ last ∈ Name.dotted module, f.location.getLast? = some last := by
  obtain ⟨kind, message, t, hkind, herror⟩ := h
  have hspares := Session.importParts_spares (Name.dotted module).reverse
    { s with path := added s.path search ++ s.path }
  rw [Session.importModule] at herror
  unfold Session.Spares at hspares
  rw [herror] at hspares
  obtain ⟨f, hf, hcontent, last, hlast, hlocation⟩ := hspares.2 kind message rfl
  exact ⟨f, hf, ⟨kind, message, hcontent, hkind⟩, last, List.mem_reverse.mp hlast, hlocation⟩

theorem importWith_cases (hne : module ≠ "") (search : List String) (s : Session) :
    (∃ m t, Imports s module search m t) ∨
      ∃ fault t, importWith module search s = .error fault t ∧
        (fault.isReported = false ↔ module.toList.head? = some '.' ∨ FailsOtherwise s module search) := by
  by_cases hrelative : module.toList.head? = some '.'
  · exact Or.inr ⟨.relative module, s, if_pos hrelative, by simp [LoadFault.isReported, hrelative]⟩
  cases himport : Session.importModule module { s with path := added s.path search ++ s.path } with
  | ok m t => exact Or.inl ⟨m, t, hne, hrelative, himport⟩
  | error why t =>
      right
      have hfails : FailsOtherwise s module search ↔
          ∃ kind message, why = .failed kind message ∧ kind ∉ importKinds := by
        simp only [FailsOtherwise, himport]
        constructor
        · rintro ⟨kind, message, _, hkind, h⟩
          cases h
          exact ⟨kind, message, rfl, hkind⟩
        · rintro ⟨kind, message, rfl, hkind⟩
          exact ⟨kind, message, t, hkind, rfl⟩
      simp only [importWith, himport, hfails, hrelative, false_or, if_false]
      cases why with
      | missing name | notPackage name parent => exact ⟨_, _, rfl, by simp [LoadFault.isReported]⟩
      | failed kind message =>
          by_cases hkind : kind ∈ importKinds
          · simp only [if_pos hkind]
            exact ⟨_, _, rfl, by simp [LoadFault.isReported, hkind]⟩
          · simp only [if_neg hkind]
            exact ⟨_, _, rfl, by simp [LoadFault.isReported, hkind]⟩

theorem load_of_imports (hcut : Cut name module path) {m : LoadedModule} {u : Session}
    (himports : Imports s module search m u) :
    (∃ c t, load M name search s = .ok c t ∧ Leads M s name search c t) ∨
      ∃ fault t, load M name search s = .error fault t ∧ fault.isReported = true := by
  have hget (t : Session) : (get : Loading Session) t = .ok t t := rfl
  simp only [load, hcut.split, bind, EStateM.bind, himports.importWith, hget]
  cases hfollow : follow M { u with path := removed u.path (added s.path search) } (.module m)
      (Name.dotted path) with
  | none => exact Or.inr ⟨_, _, rfl, rfl⟩
  | some x =>
      cases x with
      | binding b =>
          cases b with
          | cls c => exact Or.inl ⟨c, _, rfl, module, path, m, u, hcut, himports, rfl, hfollow⟩
          | newType tag base | value v => exact Or.inr ⟨_, _, rfl, rfl⟩
      | module m' | member | other => exact Or.inr ⟨_, _, rfl, rfl⟩

theorem Cut.relative_iff (h : Cut name module path) :
    Relative name ↔ module.toList.head? = some '.' := by
  constructor
  · rintro ⟨module', path', h', hrelative⟩
    rwa [(h.unique h').1]
  · exact fun hrelative => ⟨module, path, h, hrelative⟩

theorem Cut.breaksOff_iff (h : Cut name module path) :
    BreaksOff s name search ↔ FailsOtherwise s module search := by
  constructor
  · rintro ⟨module', path', h', hfails⟩
    rwa [(h.unique h').1]
  · exact fun hfails => ⟨module, path, h, hfails⟩

theorem Leads.load (h : Leads M s name search c t) : load M name search s = .ok c t := by
  obtain ⟨module, path, m, u, hcut, himports, rfl, hfollow⟩ := h
  exact load_of_split hcut.split himports.importWith hfollow

theorem load_cases (M : Model) (name : String) (search : List String) (s : Session) :
    (∃ c t, load M name search s = .ok c t ∧ Leads M s name search c t) ∨
      ∃ fault t, load M name search s = .error fault t ∧
        (fault.isReported = false ↔ Relative name ∨ BreaksOff s name search) := by
  rcases split_cases name with ⟨module, path, hcut⟩ | hbad
  · simp only [hcut.relative_iff, hcut.breaksOff_iff]
    rcases importWith_cases hcut.module_ne search s with ⟨m, u, himports⟩ | ⟨fault, t, hrun, hreported⟩
    · refine (load_of_imports hcut himports).imp_right ?_
      rintro ⟨fault, t, hload, hreported⟩
      have hfound : ¬ FailsOtherwise s module search := by
        rintro ⟨_, _, _, _, herror⟩
        rw [himports.found] at herror
        cases herror
      exact ⟨fault, t, hload, by simp [hreported, himports.absolute, hfound]⟩
    · refine Or.inr ⟨fault, t, ?_, hreported⟩
      simp only [load, hcut.split, bind, EStateM.bind, hrun]
  · have hnot : ∀ module path, ¬ Cut name module path := by
      intro module path hcut
      rw [hcut.split] at hbad
      cases hbad
    refine Or.inr ⟨.badForm name, s, by simp only [load, hbad]; rfl, ?_⟩
    simp [LoadFault.isReported, Relative, BreaksOff, hnot]

/-- By every name, loading comes to the class that the name leads to, or else to a fault. The fault is
reported unless the module is relative or a file breaks off, which takes a file that does. -/
theorem load_leads_or_faults (M : Model) (name : String) (search : List String) (s : Session) :
    (∃ c t, load M name search s = .ok c t ∧ Leads M s name search c t) ∨
      ∃ fault t, load M name search s = .error fault t ∧ (∀ c u, ¬ Leads M s name search c u) ∧
        (fault.isReported = false ↔ Relative name ∨ BreaksOff s name search) ∧
        ((∀ f ∈ s.files, ∀ kind message, f.content = .failure kind message → kind ∈ importKinds) →
          (fault.isReported = false ↔ Relative name)) := by
  refine (load_cases M name search s).imp_right ?_
  rintro ⟨fault, t, hload, hreported⟩
  refine ⟨fault, t, hload, fun c u hleads => ?_, hreported, fun hfiles => ?_⟩
  · rw [hleads.load] at hload
    cases hload
  · refine hreported.trans (or_iff_left ?_)
    rintro ⟨module, path, _, hfails⟩
    obtain ⟨f, hf, ⟨kind, message, hcontent, hkind⟩, _⟩ := hfails.exists_file
    exact hkind (hfiles f hf kind message hcontent)

theorem load_not_always_reported : ¬ ∀ (M : Model) (name : String) (search : List String) (s t : Session)
    (fault : LoadFault), load M name search s = .error fault t → fault.isReported = true := by
  intro hall
  have hload : load catalog ".models:Shape" [] catalogSession = .error (.relative ".models") catalogSession :=
    rfl
  cases hall _ _ _ _ _ _ hload

end ClassName

end ClassSchema
