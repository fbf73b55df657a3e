import ClassSchema.CommandLine.Run
import ClassSchema.Proofs.Cutting

namespace ClassSchema

theorem Name.dotted_intercalate {names : List String} (hne : names ≠ [])
    (h : ∀ n ∈ names, '.' ∉ n.toList) : dotted (".".intercalate names) = names := by
  have hdots : ∀ l ∈ names.map String.toList, '.' ∉ l := List.forall_mem_map.mpr h
  have hdot : ".".toList = ['.'] := rfl
  rw [dotted, Text.pieces_eq_splitOn, String.toList_intercalate, hdot,
    List.splitOn_intercalate '.' hdots (by simpa using hne), List.map_map]
  simp [Function.comp_def, String.ofList_toList]

namespace ClassName

/-- The class is what its simple name leads to in its encloser, and so are the classes around it, of
which the outermost is found in the module. A class is declared after its encloser. -/
inductive InPlace (M : Model) (s : Session) (m : LoadedModule) : Nat → Prop
  | outer {i} : (M.decl i).encloser = none →
      moduleAttribute? M s m (M.decl i).name = some (.binding (.cls (.declared i))) → InPlace M s m i
  | inner {i e} : (M.decl i).encloser = some e → e < i → InPlace M s m e →
      classAttribute? M (.declared e) (M.decl i).name = some (.binding (.cls (.declared i))) →
      InPlace M s m i

/-- Importing a module returns `m` and leads to the session `t`. A name that is empty, or relative to
some package, cannot be imported. -/
structure Imports (s : Session) (module : String) (search : List String) (m : LoadedModule)
    (t : Session) : Prop where
  ne : module ≠ ""
  absolute : module.toList.head? ≠ some '.'
  found : Session.importModule module { s with path := added s.path search ++ s.path } = .ok m t

variable {M : Model} {s t : Session} {m : LoadedModule} {c : ClassRef} {i e depth : Nat}
  {module path : String} {search : List String}

theorem split_colon (hmodule : module ≠ "") (hcolon : ':' ∉ module.toList) (hpath : path ≠ "") :
    split (module ++ ":" ++ path) = .ok (module, path) := by
  have hcs : (module ++ ":" ++ path).toList = module.toList ++ ':' :: path.toList := by
    simp [String.toList_append]
  simp [split, hcs, Text.splitFirst_append hcolon, hmodule, hpath]

theorem split_dot (hmodule : module ≠ "") (hcolon : ':' ∉ module.toList) (hpath : path ≠ "")
    (hpathDot : '.' ∉ path.toList) (hpathColon : ':' ∉ path.toList) :
    split (module ++ "." ++ path) = .ok (module, path) := by
  have hcs : (module ++ "." ++ path).toList = module.toList ++ '.' :: path.toList := by
    simp [String.toList_append]
  simp [split, hcs, hcolon, hpathColon, Text.splitLast_append hpathDot, hmodule, hpath]

theorem load_of_split {name : String} (hsplit : split name = .ok (module, path))
    (himport : importWith module search s = .ok m t)
    (hfollow : follow M t (.module m) (Name.dotted path) = some (.binding (.cls c))) :
    load M name search s = .ok c t := by
  have hget : (get : Loading Session) t = .ok t t := rfl
  simp only [load, hsplit, bind, EStateM.bind, himport, hget, hfollow]
  rfl

theorem follow_append (s : Session) (x : Entity) (names rest : List String) :
    follow M s x (names ++ rest) = (follow M s x names).bind (fun y => follow M s y rest) := by
  induction names generalizing x with
  | nil => rfl
  | cons name names ih =>
      simp only [List.cons_append, follow, ih, Option.bind_assoc]

theorem InPlace.enclosing (h : InPlace M s m i) (hd : i < depth) : M.enclosing depth i = M.namePath i := by
  induction h generalizing depth with
  | @outer i hnone _ =>
      obtain ⟨depth, rfl⟩ := Nat.exists_eq_add_of_lt hd
      simp only [Model.namePath, Model.enclosing, hnone]
  | @inner i e he hlt _ _ ih =>
      obtain ⟨k, rfl⟩ := Nat.exists_eq_add_of_lt hd
      simp only [Model.namePath, Model.enclosing, he]
      rw [ih (by omega), ih hlt]

theorem InPlace.namePath_inner (h : InPlace M s m e) (he : (M.decl i).encloser = some e) (hlt : e < i) :
    M.namePath i = M.namePath e ++ [(M.decl i).name] := by
  have hunfold : M.namePath i = M.enclosing i e ++ [(M.decl i).name] := by
    simp only [Model.namePath, Model.enclosing, he]
  rw [hunfold, h.enclosing hlt]

theorem namePath_outer (h : (M.decl i).encloser = none) : M.namePath i = [(M.decl i).name] := by
  simp only [Model.namePath, Model.enclosing, h]

theorem InPlace.namePath_ne (h : InPlace M s m i) : M.namePath i ≠ [] := by
  cases h with
  | outer hnone _ =>
      rw [namePath_outer hnone]
      exact List.cons_ne_nil _ _
  | inner he hlt hplace _ =>
      rw [hplace.namePath_inner he hlt]
      exact List.concat_ne_nil _ _

theorem InPlace.follow_namePath (h : InPlace M s m i) :
    follow M s (.module m) (M.namePath i) = some (.binding (.cls (.declared i))) := by
  induction h with
  | outer hnone hfound => simp [namePath_outer hnone, follow, attribute?, hfound]
  | @inner i e he hlt hplace hfound ih =>
      rw [hplace.namePath_inner he hlt, follow_append, ih]
      simp [follow, attribute?, hfound]

theorem InPlace.repath (h : InPlace M t m i) (path : List String) : InPlace M { t with path } m i := by
  induction h with
  | outer hnone hfound => exact .outer hnone hfound
  | inner he hlt _ hfound ih => exact .inner he hlt ih hfound

theorem Imports.importWith (h : Imports s module search m t) :
    importWith module search s = .ok m { t with path := removed t.path (added s.path search) } := by
  simp only [ClassName.importWith, if_neg h.absolute, h.found]

/-- Written with a colon, or with a dot if nothing encloses it, the name of a class loads the class. So
what is asked for by the one name comes to the same by the other. -/
theorem load_qualifiedName (himports : Imports s (M.homeOf (.declared i)) search m t)
    (hcolon : ':' ∉ (M.homeOf (.declared i)).toList) (hplace : InPlace M t m i)
    (hnames : ∀ n ∈ M.namePath i, n ≠ "" ∧ '.' ∉ n.toList ∧ ':' ∉ n.toList) :
    let colon := M.homeOf (.declared i) ++ ":" ++ M.localName (.declared i)
    let dot := M.homeOf (.declared i) ++ "." ++ M.simpleName (.declared i)
    ∃ u, load M colon search s = .ok (.declared i) u ∧
      ((M.decl i).encloser = none → load M dot search s = .ok (.declared i) u ∧
        ∀ files settings, let w : Workspace := ⟨M, s, files⟩
          CommandLine.schemaOf w ⟨dot, search⟩ settings = CommandLine.schemaOf w ⟨colon, search⟩ settings ∧
            CommandLine.summaryOf w ⟨dot, search⟩ = CommandLine.summaryOf w ⟨colon, search⟩) := by
  intro colon dot
  have hfollow := (hplace.repath (removed t.path (added s.path search))).follow_namePath
  have hdotted : Name.dotted (M.localName (.declared i)) = M.namePath i :=
    Name.dotted_intercalate hplace.namePath_ne fun n hn => (hnames n hn).2.1
  have hlocal : M.localName (.declared i) ≠ "" := by
    intro h
    have hblank : M.namePath i = [""] := by rw [← hdotted, h]; rfl
    exact (hnames "" (by rw [hblank]; exact List.mem_singleton_self _)).1 rfl
  have hload : load M colon search s = .ok (.declared i) _ :=
    load_of_split (split_colon himports.ne hcolon hlocal) himports.importWith (hdotted ▸ hfollow)
  refine ⟨_, hload, fun hnone => ?_⟩
  have hsole := namePath_outer hnone
  obtain ⟨hne, hdot, hcolon'⟩ := hnames (M.decl i).name (by rw [hsole]; exact List.mem_singleton_self _)
  have hlocal' : M.localName (.declared i) = M.simpleName (.declared i) := by
    simp [Model.localName, Model.simpleName, hsole]
  have hload' : load M dot search s = .ok (.declared i) _ :=
    load_of_split (split_dot himports.ne hcolon hne hdot hcolon') himports.importWith
      (hlocal' ▸ hdotted ▸ hfollow)
  refine ⟨hload', fun files settings => ?_⟩
  have htarget : CommandLine.loadTarget ⟨M, s, files⟩ ⟨dot, search⟩ =
      CommandLine.loadTarget ⟨M, s, files⟩ ⟨colon, search⟩ := by
    simp only [CommandLine.loadTarget, hload, hload']
  exact ⟨by simp only [CommandLine.schemaOf, htarget], by simp only [CommandLine.summaryOf, htarget]⟩

def catalog : Model where
  modules := [{ name := "shop.models", bindings := [("Catalog", .cls (.declared 0)), ("Shape", .cls (.declared 2))] }]
  classes := [
    { name := "Catalog", bindings := [("Shape", .cls (.declared 1))] },
    { name := "Shape", encloser := some 0, body := .enumeration .distinct [("ROUND", .int 1)] },
    { name := "Shape", body := .record .dataclass [] [("size", .builtin .int)] }]

def catalogSession : Session where
  files := [{ location := ["lib", "shop", "models"], isPackage := false, content := .module 0 }]

theorem catalog_loaded : ∃ m t u u', Imports catalogSession "shop.models" ["lib"] m t ∧
    InPlace catalog t m 1 ∧ InPlace catalog t m 2 ∧
      load catalog "shop.models:Catalog.Shape" ["lib"] catalogSession = .ok (.declared 1) u ∧
      load catalog "shop.models:Shape" ["lib"] catalogSession = .ok (.declared 2) u' ∧
      load catalog "shop.models.Shape" ["lib"] catalogSession = .ok (.declared 2) u' := by
  obtain ⟨m, t, himports, houter, hinner⟩ : ∃ m t, Imports catalogSession "shop.models" ["lib"] m t ∧
      InPlace catalog t m 2 ∧ InPlace catalog t m 1 :=
    ⟨_, _, ⟨by decide, by decide, by rfl⟩, .outer rfl (by rfl),
      .inner rfl (by decide) (.outer rfl (by rfl)) (by rfl)⟩
  obtain ⟨u, hinside, _⟩ := load_qualifiedName (i := 1) himports (by decide) hinner (by decide)
  obtain ⟨u', hcolon, hdot⟩ := load_qualifiedName (i := 2) himports (by decide) houter (by decide)
  exact ⟨m, t, u, u', himports, hinner, houter, hinside, hcolon, (hdot rfl).1⟩

end ClassName

end ClassSchema
