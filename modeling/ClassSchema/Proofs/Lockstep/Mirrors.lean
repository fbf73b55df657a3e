import ClassSchema.Proofs.Lockstep.Basic
import ClassSchema.Proofs.Traversal
import Mathlib.Data.List.Nodup

namespace ClassSchema

/-- An operand that is an element says the same on both sides. -/
structure MirrorsOperand (x x' : Option TypeExpr) : Prop where
  isSome : x'.isSome = x.isSome
  unwrap : ∀ e t, x = some e → e.unwrap = .ok t → t.isElement = true →
    ∃ e', x' = some e' ∧ e'.unwrap = .ok t

/-- A field of one model does in a compilation what that of the other does. An `exact` mirror is
the same field. -/
structure MirrorsField (M M' : Model) (exact : Prop) (f f' : Field) : Prop where
  same : exact → f' = f
  owner : f'.owner = f.owner
  name : f'.name = f.name
  layout : M.layoutOf f.declared = .ok f.layout
  layout' : M'.layoutOf f'.declared = .ok f'.layout
  shape : f'.shape = f.shape ∨ f.shape.isSequence = true ∧ f'.shape.isSequence = true
  plain : f.shape.isContainer = false → f'.declared = f.declared
  key : MirrorsOperand f.key f'.key
  element : MirrorsOperand f.element f'.element

/-- The models have the same classes, but for the fields of one that mirror those of the other. -/
structure Model.Mirrors (M M' : Model) (exact : Prop) : Prop where
  simpleName : M'.simpleName = M.simpleName
  isEnumClass : M'.isEnumClass = M.isEnumClass
  constants : M'.constants = M.constants
  described : ∀ c d, M.describeClass c = .ok d → ∃ d', M'.describeClass c = .ok d' ∧
    List.Forall₂ (MirrorsField M M' exact) d.fields d'.fields
  undescribed : ∀ c fault, M.describeClass c = .error fault → exact → M'.describeClass c = .error fault

variable {M M' : Model} {exact : Prop} {f f' : Field} {t : TypeExpr}

theorem MirrorsOperand.refl (x : Option TypeExpr) : MirrorsOperand x x :=
  ⟨rfl, fun e _ he ht _ => ⟨e, he, ht⟩⟩

theorem MirrorsField.refl (h : M.layoutOf f.declared = .ok f.layout) : MirrorsField M M exact f f :=
  ⟨fun _ => rfl, rfl, rfl, h, h, Or.inl rfl, fun _ => rfl, .refl _, .refl _⟩

theorem Model.Mirrors.refl (M : Model) (exact : Prop) : M.Mirrors M exact where
  simpleName := rfl
  isEnumClass := rfl
  constants := rfl
  described := fun _ d h => ⟨d, h, List.forall₂_same.mpr fun _ hf => .refl (describeClass_field h hf).2⟩
  undescribed := fun _ _ h _ => h

theorem Model.Mirrors.requireName (h : M.Mirrors M' exact) : M'.requireName = M.requireName := by
  funext t
  cases t <;> simp [Model.requireName, Model.nameOf?, h.simpleName]

theorem Model.Mirrors.isEnum (h : M.Mirrors M' exact) : M'.isEnum = M.isEnum := by
  funext t
  cases t <;> simp [Model.isEnum, h.isEnumClass]

/-- The calls that a record tells of are legal, each class is called once, and no class stands on a
stack twice. -/
structure Record.Sane (legal : List ClassRef → Prop) (r : Record) : Prop where
  calls : ∀ k ∈ r.calls, ∃ path, k = path.map .cls ∧ legal path
  once : (r.calls.map List.head?).Nodup
  trails : ∀ k ∈ r.trails, k.Nodup

theorem Trail.stack_nodup {path : List ClassRef} (h : path.Nodup) : (Trail.along path).stack.Nodup :=
  List.nodup_reverse.mpr (h.map fun _ _ he => TypeExpr.cls.inj he)

theorem Record.Sane.onPath {legal : List ClassRef → Prop} {r : Record} {path : List ClassRef}
    (h : r.Sane legal) (hp : path.Nodup) : (r.onPath path).Sane legal where
  calls := h.calls
  once := h.once
  trails := List.forall_mem_cons.mpr ⟨Trail.stack_nodup hp, h.trails⟩

namespace Compiler

open Compiling

variable (M : Model) (o : Options) (root : ClassRef)

/-- The state of a compilation inside the classes of `path`, where those `known` have names. -/
structure Steady (path : List ClassRef) (known : ClassRef → Prop) (s : Progress) : Prop where
  trail : s.trail = Trail.along path
  registry : s.registry.Knows known (className M o root)
  draft : s.draft.Consistent
  messages : s.draft.pending.map OpenMessage.name = path.map (messageName M o root)
  parts : ∀ c, known c → ∃ p, M.part? (.cls c) = some p
  composite : ∀ c ∈ path, M.isComposite c = true
  opened : ∀ c ∈ path, known c
  nodup : path.Nodup
  rooted : path = [] ∨ root ∈ path

structure Keeps (legal : List ClassRef → Prop) (path : List ClassRef) (known : ClassRef → Prop)
    (s : Progress × Record) : Prop where
  steady : Steady M o root path known s.1
  sane : s.2.Sane legal
  begun : ∀ k ∈ s.2.calls, ∀ c, k.head? = some (.cls c) → known c

/-- A step has come to more classes that are known, and to the open messages `pending`. -/
def Gains (legal : List ClassRef → Prop) (path : List ClassRef) (known : ClassRef → Prop)
    (pending : List OpenMessage) (s : Progress × Record) : Prop :=
  ∃ known', (∀ c, known c → known' c) ∧ Keeps M o root legal path known' s ∧
    s.1.draft.pending = pending

def Quits (legal : List ClassRef → Prop) (path : List ClassRef) (s : Progress × Record) : Prop :=
  s.1.trail = Trail.along path ∧ s.2.Sane legal

variable {M M' : Model} {o : Options} {root c d e : ClassRef} {legal : List ClassRef → Prop}
  {path : List ClassRef} {known : ClassRef → Prop} {s : Progress × Record} {p : Progress}
  {pending : List OpenMessage} {exact : Prop} {f f' : Field} {t : TypeExpr}

theorem Steady.start : Steady M o root [] (fun _ => False) {} where
  trail := rfl
  registry := Registry.Knows.empty fun _ => id
  draft := Draft.Consistent.empty
  messages := rfl
  parts := fun _ hc => hc.elim
  composite := fun _ hc => absurd hc List.not_mem_nil
  opened := fun _ hc => absurd hc List.not_mem_nil
  nodup := List.nodup_nil
  rooted := Or.inl rfl

theorem Steady.keeps (h : Steady M o root path known p) : Keeps M o root legal path known (p, {}) where
  steady := h
  sane :=
    { calls := fun _ hk => absurd hk List.not_mem_nil
      once := List.nodup_nil
      trails := fun _ hk => absurd hk List.not_mem_nil }
  begun := fun _ hk => absurd hk List.not_mem_nil

theorem Steady.exists_pending (h : Steady M o root (c :: path) known p) :
    ∃ m rest, p.draft.pending = m :: rest ∧ m.name = messageName M o root c := by
  have hmessages := h.messages
  cases hp : p.draft.pending with
  | nil => simp [hp] at hmessages
  | cons m rest =>
      rw [hp, List.map_cons, List.map_cons] at hmessages
      exact ⟨m, rest, rfl, (List.cons.inj hmessages).1⟩

theorem Keeps.gains (h : Keeps M o root legal path known s) :
    Gains M o root legal path known s.1.draft.pending s :=
  ⟨known, fun _ h => h, h, rfl⟩

theorem Keeps.quits (h : Keeps M o root legal path known s) : Quits legal path s :=
  ⟨h.steady.trail, h.sane⟩

theorem Gains.mono {known' : ClassRef → Prop} (h : Gains M o root legal path known pending s)
    (hk : ∀ c, known' c → known c) : Gains M o root legal path known' pending s := by
  obtain ⟨known₁, hk₁, h₁, hp⟩ := h
  exact ⟨known₁, fun c hc => hk₁ c (hk c hc), h₁, hp⟩

theorem Steady.contains_of_part?_eq_none (h : Steady M o root path known p) (ht : M.part? t = none) :
    p.registry.contains t = false := by
  cases t with
  | cls c =>
      rw [Bool.eq_false_iff]
      intro hc
      obtain ⟨q, hq⟩ := h.parts c ((h.registry.contains_cls c).mp hc)
      rw [ht] at hq
      cases hq
  | _ => exact h.registry.contains_of_not_class rfl

theorem Steady.not_mem_of_enum (h : Steady M o root path known p) (he : M.isEnumClass e = true) :
    e ∉ path := by
  intro hp
  rw [(Model.isComposite_iff.mp (h.composite e hp)).2.2.1] at he
  cases he

theorem Steady.redraft {d : Draft} (h : Steady M o root path known p) (hd : d.Consistent)
    (hm : d.pending.map OpenMessage.name = p.draft.pending.map OpenMessage.name) :
    Steady M o root path known { p with draft := d } :=
  { h with draft := hd, messages := hm.trans h.messages }

theorem Keeps.redraft {d : Draft} (h : Keeps M o root legal path known s) (hd : d.Consistent)
    (hm : d.pending.map OpenMessage.name = s.1.draft.pending.map OpenMessage.name) :
    Keeps M o root legal path known ({ s.1 with draft := d }, s.2) :=
  { h with steady := h.steady.redraft hd hm }

theorem Steady.reregister {r : Registry} (h : Steady M o root path known p)
    (hr : r.Knows (fun x => x = c ∨ known x) (className M o root)) {q : Part}
    (hc : M.part? (.cls c) = some q) :
    Steady M o root path (fun x => x = c ∨ known x) { p with registry := r } :=
  { h with
    registry := hr
    parts := by
      rintro x (rfl | hx)
      · exact ⟨q, hc⟩
      · exact h.parts x hx
    opened := fun x hx => Or.inr (h.opened x hx) }

variable (M) in
theorem failField_state {α : Type} {fault : String → String → Fault} {post : α → Progress → Prop} :
    Ends (failField M f fault) p post (fun _ p' => p' = p) := by
  unfold failField
  cases M.requireName f.owner <;> rfl

theorem checkCycle_state (h : p.trail = Trail.along path) :
    Ends (checkCycle M f (.cls d)) p (fun _ p' => p' = p ∧ d ∉ path) (fun _ p' => p' = p) := by
  unfold checkCycle
  apply Ends.bind
  apply Ends.of_get
  simp only [h, Trail.contains_along, decide_eq_true_eq]
  by_cases hm : d ∈ path
  · rw [if_pos hm]
    obtain ⟨_, _, _, hchain, text, htext⟩ := Trail.chain_along M hm
    rw [hchain, htext]
    cases M.requireName f.owner <;> rfl
  · rw [if_neg hm]
    exact Ends.of_pure ⟨rfl, hm⟩

variable (hM : M.Mirrors M' exact)
include hM

theorem failField_congr {α : Type} {fault : String → String → Fault} :
    (failField M' f fault : Compiling α) = failField M f fault := by
  unfold failField
  rw [hM.requireName]

theorem checkCycle_congr (howner : f'.owner = f.owner) (hname : f'.name = f.name) :
    checkCycle M' f' t = checkCycle M f t := by
  unfold checkCycle Trail.chainText
  rw [hM.requireName, howner, hname]

theorem registerHere_congr {name : String} : registerHere M' t name = registerHere M t name := by
  unfold registerHere Trail.path
  rw [hM.requireName]

end Compiler

end ClassSchema
