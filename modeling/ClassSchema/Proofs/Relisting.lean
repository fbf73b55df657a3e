import ClassSchema.Proofs.Constants
import ClassSchema.Proofs.Restyling.Invariance
import ClassSchema.Proofs.Scopes

namespace ClassSchema

/-- Only the members of an enum differ, and its constants do not. -/
inductive BodyRelisted : ClassBody → ClassBody → Prop
  | same {body} : BodyRelisted body body
  | enumeration {style members members'} :
      (EnumStyle.canonical style members').map Prod.fst = (EnumStyle.canonical style members).map Prod.fst →
      BodyRelisted (.enumeration style members) (.enumeration style members')

structure DeclRelisted (d d' : ClassDecl) : Prop where
  name : d'.name = d.name
  home : d'.home = d.home
  bindings : d'.bindings = d.bindings
  body : BodyRelisted d.body d'.body

structure ModelRelisted (M M' : Model) : Prop where
  modules : M'.modules = M.modules
  evaluator : M'.evaluator = M.evaluator
  classes : List.Forall₂ DeclRelisted M.classes M'.classes

theorem BodyRelisted.constants? {body body' : ClassBody} (h : BodyRelisted body body') :
    body'.constants? = body.constants? := by
  cases h with
  | same => rfl
  | enumeration hlist => exact congrArg some hlist

theorem DeclRelisted.refl (d : ClassDecl) : DeclRelisted d d := ⟨rfl, rfl, rfl, .same⟩

namespace Heritage

variable {stores : ClassRef → TypeExpr → Bool}

theorem ofDecl_relisted {d d' : ClassDecl} (h : DeclRelisted d d') (rows : List Heritage) :
    ofDecl stores rows d' = ofDecl stores rows d := by
  have hbody := h.body
  unfold ofDecl
  generalize d.body = body at hbody
  generalize d'.body = body' at hbody
  cases hbody <;> rfl

theorem table_relisted {decls decls' : List ClassDecl} (h : List.Forall₂ DeclRelisted decls decls') :
    table stores decls' = table stores decls := by
  have hfold : ∀ rows, decls'.foldl (fun rows d => rows ++ [ofDecl stores rows d]) rows =
      decls.foldl (fun rows d => rows ++ [ofDecl stores rows d]) rows := by
    induction h with
    | nil => exact fun _ => rfl
    | cons hd _ ih => exact fun rows => by rw [List.foldl_cons, List.foldl_cons, ofDecl_relisted hd, ih]
  exact hfold []

end Heritage

namespace ModelRelisted

variable {M M' : Model} (h : ModelRelisted M M')
include h

theorem heritage : M'.heritage = M.heritage := by
  have hstores : M'.stores = M.stores := Model.stores_congr h.evaluator
  funext c
  simp only [Model.heritage, hstores, Heritage.table_relisted h.classes]

theorem decl (i : Nat) : DeclRelisted (M.decl i) (M'.decl i) :=
  forall₂_getD h.classes (.refl default) i

theorem simpleName : M'.simpleName = M.simpleName :=
  Model.simpleName_congr fun i => (h.decl i).name

theorem isEnumClass : M'.isEnumClass = M.isEnumClass :=
  Model.isEnumClass_congr fun i => (h.decl i).body.constants?

theorem constants : M'.constants = M.constants :=
  Model.constants_congr fun i => (h.decl i).body.constants?

theorem layoutOf : M'.layoutOf = M.layoutOf := by
  have henum : M'.isEnum = M.isEnum := by
    funext t
    cases t <;> simp only [Model.isEnum, h.isEnumClass]
  funext t
  simp only [Model.layoutOf, henum]

theorem describeField : M'.describeField = M.describeField := by
  have hname : M'.requireName = M.requireName := by
    funext t
    cases t <;> simp only [Model.requireName, Model.nameOf?, h.simpleName]
  funext owner name t
  simp only [Model.describeField, hname, h.layoutOf]

theorem resolvedFields : M'.resolvedFields = M.resolvedFields := by
  have heach (ds : List (ClassRef × String × TypeExpr)) : M'.resolveEach ds = M.resolveEach ds := by
    induction ds with
    | nil => rfl
    | cons d ds ih => simp only [Model.resolveEach, Model.resolve_congr h.evaluator, ih]
  funext c
  simp only [Model.resolvedFields, Model.declarations, h.heritage, heach]

theorem describeClass : M'.describeClass = M.describeClass := by
  have hfields (c : ClassRef) (types : List (String × TypeExpr)) (names : List String) :
      M'.describeFields c types names = M.describeFields c types names := by
    induction names with
    | nil => rfl
    | cons name names ih => simp only [Model.describeFields, h.describeField, ih]
  funext c
  simp only [Model.describeClass, h.isEnumClass, h.constants, h.resolvedFields, Model.fieldNames,
    h.heritage, hfields]

theorem mirrors : M.Mirrors M' False where
  simpleName := h.simpleName
  isEnumClass := h.isEnumClass
  constants := h.constants
  described := by
    intro c d hd
    refine ⟨d, h.describeClass ▸ hd, List.forall₂_same.mpr fun f hf => ?_⟩
    have hl := (Model.describeClass_field hd hf).2
    exact ⟨nofun, rfl, rfl, hl, h.layoutOf ▸ hl, Or.inl rfl, fun _ => rfl, .refl _, .refl _⟩
  undescribed := fun _ _ _ hf => hf.elim

end ModelRelisted

namespace Model

def withMembers (M : Model) (i : Nat) (style : EnumStyle) (members : List (String × Value)) : Model :=
  { M with classes := M.classes.set i { M.decl i with body := .enumeration style members } }

theorem forall₂_set {α : Type} {R : α → α → Prop} (hrefl : ∀ a, R a a) (l : List α) (i : Nat)
    {a default : α} (h : R (l.getD i default) a) : List.Forall₂ R l (l.set i a) := by
  induction l generalizing i with
  | nil => exact .nil
  | cons b l ih =>
      cases i with
      | zero => exact .cons h (List.forall₂_same.mpr fun b _ => hrefl b)
      | succ i => exact .cons (hrefl b) (ih i h)

theorem withMembers_relisted {M : Model} {i : Nat} {style : EnumStyle} {members members' : List (String × Value)}
    (hi : (M.decl i).body = .enumeration style members)
    (h : (style.canonical members').map Prod.fst = (style.canonical members).map Prod.fst) :
    ModelRelisted M (M.withMembers i style members') where
  modules := rfl
  evaluator := rfl
  classes := forall₂_set DeclRelisted.refl M.classes i ⟨rfl, rfl, rfl, hi ▸ .enumeration h⟩

end Model

/-- A member that is not listed where it stands may be left out, or put in. -/
theorem Compiler.compile_withMembers {M : Model} {o : Options} {t : TypeExpr} {doc : Document} {i : Nat}
    {style : EnumStyle} {before after : List (String × Value)} {m : String × Value}
    (hi : (M.decl i).body = .enumeration style (before ++ after)) (hm : style.lists before m = false)
    (h : compile M o t = .ok doc) :
    compile (M.withMembers i style (before ++ m :: after)) o t = .ok doc := by
  have hcanonical := congrArg (List.map Prod.fst) (EnumStyle.canonical_insert hm after)
  exact compile_of_mirrors (Model.withMembers_relisted hi hcanonical).mirrors List.length_set h

end ClassSchema
