import ClassSchema.Proofs.Containers
import ClassSchema.Proofs.Unions
import Mathlib.Data.List.Forall2
import Mathlib.Logic.Relation

namespace ClassSchema

inductive Layer where
  | metadata (values : List Value)
  | newType (tag : NewTypeTag)
  | optional
  /-- The alternative of absence, written with a bar. -/
  | bar

def Layer.on : Layer → TypeExpr → TypeExpr
  | metadata values, t => t.annotate values
  | newType tag, t => .newType tag t
  | optional, t => t.optional
  | bar, t => t.bar .none

namespace TypeExpr

inductive Plain : TypeExpr → Prop
  | none : Plain .none
  | ellipsis : Plain .ellipsis
  | cls {c} : Plain (.cls c)
  | marker {m} : Plain (.marker m)
  | newType {tag base} : Plain (.newType tag base)
  | alias {a} : Plain (.alias a)
  | bareClassVar : Plain .bareClassVar
  | literal {v} : Plain (.literal v)
  | choice {values} : Plain (.choice values)
  | variable {name} : Plain (.variable name)
  | subscript {head args} : (∀ t ∈ args, Plain t) → Plain (.subscript head args)
  | union {native members} : Members native members → (∀ t ∈ members, Plain t) →
      Plain (.union native members)
  | annotated {base metadata} : base.isValue = false →
      base.annotate metadata = .annotated base metadata → Plain base → Plain (.annotated base metadata)
  | callable {params result} : (∀ t ∈ params, Plain t) → Plain result → Plain (.callable params result)
  | qualified {q base} : Plain base → Plain (.qualified q base)

end TypeExpr

/-- What a layer can be put around, absence and what is no type of a field apart. The language puts
no metadata on plain values. -/
structure Layer.Fits (layer : Layer) (t : TypeExpr) : Prop where
  plain : t.Plain
  present : t.asArgument.isPresent = true
  stored : t.isStored = true
  valued : ∀ values, layer = .metadata values → t.isValue = false

inductive Place where
  /-- A whole annotation, or an element, a key or a value of a container. -/
  | position
  /-- A further argument of a tuple, which goes on where that is an ellipsis. -/
  | further
  | inside

/-- What a layer can be put around at a place. -/
def Place.Admits : Place → TypeExpr → Prop
  | .position, _ => True
  | .further, t => t.isValue = false
  | .inside, _ => False

def Head.place (head : Head) (i : Nat) : Place :=
  if head.shape? = some .array ∧ 0 < i then .further else .position

structure Mergeable (native : Bool) (ts : List TypeExpr) : Prop where
  alternative : ∀ t ∈ ts, t.isAlternative = true
  native : native = true → ∀ t ∈ ts, t.isNativeOperand = true

/-- Members of unions that correspond. How a union is written changes with its members alone. -/
structure Counterparts (native native' : Bool) (members members' : List TypeExpr) : Prop where
  left : Mergeable native members
  right : Mergeable native' members'
  length : members'.length = members.length
  written : members' = members → native' = native

def TypeExpr.SoleAlike (t t' : TypeExpr) : Prop := t'.isSole = t.isSole

/-- One annotation is the other with positions in it written in another way. The unions around them
are `joint`. Those in the base of a new type are left as they are written. -/
inductive Restyled : (joint : TypeExpr → TypeExpr → Prop) → Place → TypeExpr → TypeExpr → Prop
  | same {joint place t} : Restyled joint place t t
  | layer {joint place} {layer : Layer} {t t'} : Restyled joint place t t' → layer.Fits t' →
      place.Admits t' → Restyled joint place t (layer.on t')
  | head {joint place head head' shape shape' t t'} : head.shape? = some shape → shape.isSequence = true →
      head'.shape? = some shape' → shape'.isSequence = true → t ≠ .none →
      Restyled joint .position t t' → Restyled joint place (.sequenceOf head t) (.sequenceOf head' t')
  | subscript {joint place} {head : Head} {args args' : List TypeExpr} : args'.length = args.length →
      (∀ (i : Nat) t t', args[i]? = some t → args'[i]? = some t' → Restyled joint (head.place i) t t') →
      Restyled joint place (.subscript head args) (.subscript head args')
  | newType {joint place tag t t'} : Restyled TypeExpr.SoleAlike .inside t t' →
      Restyled joint place (.newType tag t) (.newType tag t')
  | annotated {joint place values t t'} : Restyled joint .inside t t' →
      Restyled joint place (.annotated t values) (.annotated t' values)
  | qualified {joint place q t t'} : Restyled joint .inside t t' →
      Restyled joint place (.qualified q t) (.qualified q t')
  | callable {joint place t t'} {params params' : List TypeExpr} : params'.length = params.length →
      (∀ (i : Nat) p p', params[i]? = some p → params'[i]? = some p' → Restyled joint .inside p p') →
      Restyled joint .inside t t' → Restyled joint place (.callable params t) (.callable params' t')
  | union {joint place native native' members members'} : Counterparts native native' members members' →
      (∀ (i : Nat) m m', members[i]? = some m → members'[i]? = some m' → Restyled joint .inside m m') →
      joint (.unionOf native members) (.unionOf native' members') →
      Restyled joint place (.unionOf native members) (.unionOf native' members')

def FieldRestyled (joint : TypeExpr → TypeExpr → Prop) (f f' : String × TypeExpr) : Prop :=
  f'.1 = f.1 ∧ Restyled joint .position f.2 f'.2

inductive BodyRestyled (joint : TypeExpr → TypeExpr → Prop) : ClassBody → ClassBody → Prop
  | enumeration {style members} :
      BodyRestyled joint (.enumeration style members) (.enumeration style members)
  | record {style bases fields fields'} : List.Forall₂ (FieldRestyled joint) fields fields' →
      BodyRestyled joint (.record style bases fields) (.record style bases fields')

structure DeclRestyled (joint : TypeExpr → TypeExpr → Prop) (d d' : ClassDecl) : Prop where
  name : d'.name = d.name
  encloser : d'.encloser = d.encloser
  home : d'.home = d.home
  bindings : d'.bindings = d.bindings
  body : BodyRestyled joint d.body d'.body

/-- The models differ only in how the annotations of fields are written. Which unions are joint is up
to the class that declares them. -/
structure ModelRestyled (joint : ClassRef → TypeExpr → TypeExpr → Prop) (M M' : Model) : Prop where
  modules : M'.modules = M.modules
  evaluator : M'.evaluator = M.evaluator
  length : M'.classes.length = M.classes.length
  decl : ∀ i, DeclRestyled (joint (.declared i)) (M.decl i) (M'.decl i)

/-- A typed dict copies the fields of its bases. -/
def Model.CopiedBy (M : Model) (b c : ClassRef) : Prop :=
  ∃ i exprs fields, c = .declared i ∧ (M.decl i).body = .record .typedDict exprs fields ∧
    b ∈ exprs.filterMap TypeExpr.baseClass?

/-- Both unions stand for one alternative besides absence, or neither does, in the class that declares
them, and in the typed dicts that copy them from it. -/
def Model.StaySole (M : Model) (declarer : ClassRef) (t t' : TypeExpr) : Prop :=
  ∀ c u u', Relation.ReflTransGen M.CopiedBy declarer c → M.resolve c t = .ok u →
    M.resolve c t' = .ok u' → u.SoleAlike u'

theorem Restyled.mono {joint joint' : TypeExpr → TypeExpr → Prop} {place : Place} {a b : TypeExpr}
    (h : Restyled joint place a b) (hj : ∀ t t', joint t t' → joint' t t') :
    Restyled joint' place a b := by
  induction h with
  | same => exact .same
  | layer _ hf hplace ih => exact .layer (ih hj) hf hplace
  | head hs hseq hs' hseq' ht _ ih => exact .head hs hseq hs' hseq' ht (ih hj)
  | subscript hlength _ ih => exact .subscript hlength fun i t t' ht ht' => ih i t t' ht ht' hj
  | newType h _ => exact .newType h
  | annotated _ ih => exact .annotated (ih hj)
  | qualified _ ih => exact .qualified (ih hj)
  | callable hlength _ _ ihp ihr =>
      exact .callable hlength (fun i p p' hp hp' => ihp i p p' hp hp' hj) (ihr hj)
  | union hc _ hjoint ih => exact .union hc (fun i m m' hm hm' => ih i m m' hm hm' hj) (hj _ _ hjoint)

namespace Evaluator

variable {E : Evaluator} {t : TypeExpr} {ts : List TypeExpr}
  {look : Bool → String → Except Raised TypeExpr}

theorem substituteAll_plain (h : ∀ t ∈ ts, E.substitute look false t = .ok t) :
    E.substituteAll look ts = .ok ts := by
  induction ts with
  | nil => rfl
  | cons t ts ih =>
      obtain ⟨ht, hts⟩ := List.forall_mem_cons.mp h
      simp only [substituteAll, ht, ih hts]
      rfl

theorem checkTexts_plain (h : ∀ t ∈ ts, ∀ s, t ≠ .text s) : E.checkTexts ts = .ok () := by
  induction ts with
  | nil => rfl
  | cons t ts ih =>
      obtain ⟨ht, hts⟩ := List.forall_mem_cons.mp h
      cases t with
      | text s => exact absurd rfl (ht s)
      | _ => simpa only [checkTexts] using ih hts

end Evaluator

namespace TypeExpr

variable {t u base : TypeExpr} {ts : List TypeExpr}

theorem Plain.ne_text (h : Plain t) (s : String) : t ≠ .text s := by
  rintro rfl
  cases h

theorem Plain.substitute (h : Plain t) (E : Evaluator) (look : Bool → String → Except Raised TypeExpr)
    (whole : Bool) : E.substitute look whole t = .ok t := by
  induction h generalizing whole with
  | subscript hargs ih =>
      rw [Evaluator.substitute, Evaluator.checkTexts_plain fun t ht => (hargs t ht).ne_text,
        Evaluator.substituteAll_plain fun t ht => ih t ht false]
      rfl
  | union hmembers _ ih =>
      rw [Evaluator.substitute, Evaluator.substituteAll_plain fun t ht => ih t ht false, ← hmembers.rebuilt]
      rfl
  | @annotated base metadata hval hann _ ih =>
      rw [Evaluator.substitute, ih true, ← hann]
      cases base <;> first | rfl | cases hval
  | callable _ _ ihp ihr =>
      rw [Evaluator.substitute, Evaluator.substituteAll_plain fun t ht => ihp t ht false, ihr false]
      rfl
  | @qualified q base _ ih =>
      simp only [Evaluator.substitute, ih false]
      split <;> rfl
  | _ => simp only [Evaluator.substitute]

theorem eq_initVar (h : t.isAlternative = true) (hs : t.isStored = false) :
    ∃ i base, t = .qualified (.initVar i) base := by
  cases t with
  | bareClassVar => cases h
  | qualified q base =>
      cases q with
      | initVar i => exact ⟨i, base, rfl⟩
      | classVar => cases h
      | _ => cases hs
  | _ => cases hs

theorem Plain.sequenceOf (h : t.Plain) (head : Head) : (sequenceOf head t).Plain := by
  have harg : (head.argument t).Plain := by
    unfold Head.argument
    split
    next => exact h
    next => cases h <;> first | exact .cls | (constructor <;> assumption)
  rw [sequenceOf_eq]
  refine .subscript fun x hx => ?_
  split at hx
  next =>
    rcases List.mem_cons.mp hx with rfl | hx
    · exact harg
    · exact List.mem_singleton.mp hx ▸ .ellipsis
  next => exact List.mem_singleton.mp hx ▸ harg

theorem annotate_append {metadata : List Value} (h : t.annotate metadata = .annotated t metadata)
    (values : List Value) : t.annotate (metadata ++ values) = .annotated t (metadata ++ values) := by
  unfold annotate at *
  split at h
  next inner earlier ht =>
    obtain ⟨hinner, hearlier⟩ := TypeExpr.annotated.inj h
    rw [← List.append_assoc, hearlier, hinner]
  next => rw [(TypeExpr.annotated.inj h).1]

theorem annotate_of_asArgument (ht : t.asArgument = t) (hne : ∀ inner earlier, t ≠ .annotated inner earlier)
    (values : List Value) : t.annotate values = .annotated t values := by
  unfold annotate
  split
  next inner earlier h => exact absurd (ht.symm.trans h) (hne inner earlier)
  next => rw [ht]

theorem Plain.operand (h : t.Plain) (hp : t.asArgument.isPresent = true) (hs : t.isStored = true) :
    t.Operand := by
  cases h with
  | none => cases hp
  | bareClassVar => cases hs
  | union hmembers _ => exact operand_union hmembers
  | @qualified q base _ =>
      cases q <;> first | exact operand_of_isAlternative rfl hp | cases hs
  | _ => exact operand_of_isAlternative rfl hp

theorem Plain.alternatives (h : t.Plain) : ∀ x ∈ t.alternatives, x.Plain := by
  cases h with
  | union _ hplain => exact hplain
  | _ => exact List.forall_mem_singleton.mpr (by constructor <;> assumption)

theorem Plain.union_withNone {native : Bool} (h : t.Plain) (ho : t.Operand)
    (hn : native = true → t.isNativeOperand = true) : (unionOf native [t, .none]).Plain := by
  rw [ho.unionOf_none hn]
  refine .union (ho.members hn) fun x hx => ?_
  rcases mem_withNone hx with hx | rfl
  · exact h.alternatives x hx
  · exact .cls

theorem Plain.annotate (h : t.Plain) (ht : t.asArgument = t) (hval : t.isValue = false)
    (values : List Value) : (t.annotate values).Plain := by
  cases h with
  | annotated hbase hann hplain => exact .annotated hbase (annotate_append hann values) hplain
  | _ =>
      have hann := annotate_of_asArgument ht (fun _ _ => by simp) values
      rw [hann]
      exact .annotated hval hann (by constructor <;> assumption)

theorem unwrap_annotate (ht : t.asArgument = t) (values : List Value) :
    (t.annotate values).unwrap = t.unwrap := by
  unfold annotate
  rw [ht]
  split <;> simp only [unwrap]

end TypeExpr

namespace Layer

variable {layer : Layer} {t : TypeExpr}

theorem Fits.operand (h : layer.Fits t) : t.Operand := h.plain.operand h.present h.stored

theorem Fits.plain_on (h : layer.Fits t) : (layer.on t).Plain := by
  cases layer with
  | metadata values => exact h.plain.annotate h.operand.asArgument (h.valued values rfl) values
  | newType tag => exact .newType
  | optional => exact h.plain.union_withNone h.operand (by simp)
  | bar => exact h.plain.union_withNone h.operand (fun hn => (Bool.and_eq_true_iff.mp hn).1)

end Layer

namespace Mergeable

variable {native : Bool} {members : List TypeExpr} (h : Mergeable native members)
include h

theorem distinct (hne : members ≠ []) (hseveral : ∀ a, TypeExpr.distinct members ≠ [a]) :
    TypeExpr.Members native (TypeExpr.distinct members) where
  several := by
    obtain ⟨m, hm⟩ := List.exists_mem_of_ne_nil _ hne
    obtain ⟨x, hx, _⟩ := (TypeExpr.thinned_distinct members).kept m hm
    match hd : TypeExpr.distinct members with
    | [] => exact absurd (hd ▸ hx) List.not_mem_nil
    | [a] => exact absurd hd (hseveral a)
    | _ :: _ :: _ => simp
  apart := TypeExpr.pairwise_distinct members
  alternative := fun m hm => h.alternative m ((TypeExpr.thinned_distinct members).subset hm)
  native := fun hn m hm => h.native hn m ((TypeExpr.thinned_distinct members).subset hm)

theorem unionOf_eq : TypeExpr.unionOf native members =
    match TypeExpr.distinct members with | [a] => a | ms => .union native ms := by
  change (match TypeExpr.distinct (TypeExpr.joined members) with | [a] => a | ms => .union native ms) = _
  rw [TypeExpr.joined_of_isAlternative h.alternative]

/-- A union that is no type of a field has no members that are. -/
theorem not_stored (hs : (TypeExpr.unionOf native members).isStored = false) :
    ∀ m ∈ members, m.isStored = false := by
  intro m hm
  obtain ⟨x, hx, hxm⟩ := (TypeExpr.joins_members native h.alternative).thinned.kept m hm
  have hsingle : (TypeExpr.unionOf native members).alternatives = [.unionOf native members] := by
    generalize TypeExpr.unionOf native members = t at hs
    cases t <;> first | rfl | cases hs
  rw [hsingle] at hx
  rw [(TypeExpr.kindred_of_same hxm).stored, List.mem_singleton.mp hx, hs]

/-- A union of what only initializes a class is not looked into. It stands for one alternative where
it collapses, and is then no type of a field. -/
theorem initVars (hne : members ≠ []) (hs : ∀ m ∈ members, m.isStored = false) :
    (∀ (E : Evaluator) look whole, E.substitute look whole (TypeExpr.unionOf native members).asArgument =
      .ok (.unionOf native members)) ∧
    (TypeExpr.unionOf native members).isSole = !(TypeExpr.unionOf native members).isStored := by
  have hinit : ∀ m ∈ TypeExpr.distinct members, ∃ i base, m = .qualified (.initVar i) base := fun m hm =>
    have hm := (TypeExpr.thinned_distinct members).subset hm
    TypeExpr.eq_initVar (h.alternative m hm) (hs m hm)
  have hself : ∀ (E : Evaluator) look whole, ∀ m ∈ TypeExpr.distinct members,
      E.substitute look whole m = .ok m := by
    intro E look whole m hm
    obtain ⟨i, base, rfl⟩ := hinit m hm
    simp only [Evaluator.substitute, Qualifier.isInitVar, if_true]
  rw [(TypeExpr.joins_members native h.alternative).built.asArgument, h.unionOf_eq]
  split
  next a ha =>
    have hmem : a ∈ TypeExpr.distinct members := ha ▸ List.mem_singleton_self a
    refine ⟨fun E look whole => hself E look whole a hmem, ?_⟩
    obtain ⟨i, base, rfl⟩ := hinit a hmem
    rfl
  next hseveral =>
    have hmembers := h.distinct hne hseveral
    have hpresents : (TypeExpr.union native (TypeExpr.distinct members)).presents =
        TypeExpr.distinct members := by
      refine List.filter_eq_self.mpr fun m hm => ?_
      obtain ⟨i, base, rfl⟩ := hinit m hm
      rfl
    constructor
    · intro E look whole
      rw [Evaluator.substitute, Evaluator.substituteAll_plain (hself E look false), ← hmembers.rebuilt]
      rfl
    · have hlength := hmembers.several
      rw [TypeExpr.isSole, hpresents]
      exact beq_false_of_ne (by omega)

end Mergeable

/-- Unions that hold nothing to look up are joined only if they stand for one alternative on both
sides or on neither. -/
def Conservative (joint : TypeExpr → TypeExpr → Prop) : Prop :=
  ∀ t t', joint t t' →
    (∀ (E : Evaluator) look whole, E.substitute look whole t.asArgument = .ok t) →
    (∀ (E : Evaluator) look whole, E.substitute look whole t'.asArgument = .ok t') → t.SoleAlike t'

theorem Model.staySole_conservative (M : Model) (declarer : ClassRef) :
    Conservative (M.StaySole declarer) :=
  fun _ _ hj ht ht' => hj declarer _ _ .refl (ht _ _ _) (ht' _ _ _)

theorem Counterparts.isStored {native native' : Bool} {members members' : List TypeExpr}
    {joint : TypeExpr → TypeExpr → Prop} (h : Counterparts native native' members members')
    (hmembers : ∀ (i : Nat) m m', members[i]? = some m → members'[i]? = some m' →
      m'.isStored = m.isStored)
    (hj : joint (.unionOf native members) (.unionOf native' members')) (hjoint : Conservative joint) :
    (TypeExpr.unionOf native' members').isStored = (TypeExpr.unionOf native members).isStored := by
  have hmap : members'.map TypeExpr.isStored = members.map TypeExpr.isStored := by
    refine List.ext_getElem (by simp [h.length]) fun i hi' hi => ?_
    simp only [List.length_map] at hi hi'
    rw [List.getElem_map, List.getElem_map]
    exact hmembers i _ _ (List.getElem?_eq_getElem hi) (List.getElem?_eq_getElem hi')
  have hall : (∀ m ∈ members', m.isStored = false) ↔ ∀ m ∈ members, m.isStored = false := by
    have hforall (ms : List TypeExpr) :
        (∀ stored ∈ ms.map TypeExpr.isStored, stored = false) ↔ ∀ m ∈ ms, m.isStored = false :=
      List.forall_mem_map
    rw [← hforall, ← hforall, hmap]
  by_cases hs : ∀ m ∈ members, m.isStored = false
  · by_cases hne : members = []
    · subst hne
      obtain rfl := List.eq_nil_of_length_eq_zero h.length
      rw [h.written rfl]
    · have hne' : members' ≠ [] := fun hnil => hne (List.eq_nil_of_length_eq_zero (by simp [← h.length, hnil]))
      obtain ⟨hself, hsole⟩ := h.left.initVars hne hs
      obtain ⟨hself', hsole'⟩ := h.right.initVars hne' (hall.mpr hs)
      have halike := hjoint _ _ hj hself hself'
      rw [TypeExpr.SoleAlike, hsole, hsole'] at halike
      exact Bool.not_inj halike
  · have hstored := mt h.left.not_stored hs
    have hstored' := mt h.right.not_stored (mt hall.mp hs)
    rw [Bool.not_eq_false] at hstored hstored'
    rw [hstored, hstored']

theorem mergeable_pair {x y : TypeExpr} (hx : x.isAlternative = true) (hy : y.isAlternative = true) :
    Mergeable false [x, y] where
  alternative := List.forall_mem_cons.mpr ⟨hx, List.forall_mem_singleton.mpr hy⟩
  native := nofun

theorem Restyled.pair {joint : TypeExpr → TypeExpr → Prop} {place : Place} {native native' : Bool}
    {x x' y y' : TypeExpr} (hx : Restyled joint .inside x x') (hy : Restyled joint .inside y y')
    (h : Counterparts native native' [x, y] [x', y'])
    (hj : joint (.unionOf native [x, y]) (.unionOf native' [x', y'])) :
    Restyled joint place (.unionOf native [x, y]) (.unionOf native' [x', y']) := by
  refine .union h (fun i m m' hm hm' => ?_) hj
  match i with
  | 0 =>
      cases hm
      cases hm'
      exact hx
  | 1 =>
      cases hm
      cases hm'
      exact hy
  | i + 2 => cases hm

theorem Restyled.optional {joint : TypeExpr → TypeExpr → Prop} {place : Place} {t t' : TypeExpr}
    (h : Restyled joint .inside t t') (ht : t.isAlternative = true ∧ t.isPresent = true)
    (ht' : t'.isAlternative = true ∧ t'.isPresent = true) (hj : joint t.optional t'.optional) :
    Restyled joint place t.optional t'.optional := by
  have hoptional (t : TypeExpr) : t.optional = .unionOf false [t, .builtin .noneType] := rfl
  rw [hoptional, hoptional] at hj ⊢
  exact h.pair .same ⟨mergeable_pair ht.1 rfl, mergeable_pair ht'.1 rfl, rfl, fun _ => rfl⟩ hj

end ClassSchema
