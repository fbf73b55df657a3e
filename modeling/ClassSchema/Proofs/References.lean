import ClassSchema.Compiler.Options
import ClassSchema.Proofs.Descriptions
import Mathlib.Logic.Relation
import Mathlib.Tactic.SplitIfs

namespace ClassSchema

namespace TypeExpr

def class? : TypeExpr → Option ClassRef
  | .cls c => some c
  | _ => Option.none

def isElement (t : TypeExpr) : Bool :=
  t.isAny || t.isScalar || (t.isClass && t.containerShape?.isNone)

theorem exists_of_isClass {t : TypeExpr} (h : t.isClass = true) : ∃ c, t = .cls c := by
  cases t with
  | cls c => exact ⟨c, rfl⟩
  | _ => cases h

end TypeExpr

/-- The expressions inside a field that its line, or the entry written for it, names. -/
def Field.operands (f : Field) : List (Option TypeExpr) :=
  match f.shape with
  | .scalar | .enum | .composite => [some f.declared]
  | .list | .array | .collection => [f.element]
  | .map => [f.key, f.element]

theorem Field.operands_of_plain {f : Field} (hs : f.shape.isContainer = false) :
    f.operands = [some f.declared] := by
  unfold operands
  cases hsh : f.shape <;> simp_all [Shape.isContainer]

theorem Field.operands_of_sequence {f : Field} (hs : f.shape.isSequence = true) :
    f.operands = [f.element] := by
  unfold operands
  cases hsh : f.shape <;> simp_all [Shape.isSequence]

theorem Field.operands_of_map {f : Field} (hs : f.shape = .map) : f.operands = [f.key, f.element] := by
  simp only [operands, hs]

def Field.Uses (f : Field) (t : TypeExpr) : Prop := ∃ e, some e ∈ f.operands ∧ e.unwrap = .ok t

def Field.uses (f : Field) : List TypeExpr :=
  f.operands.filterMap (fun operand => operand.bind (fun e => e.unwrap.toOption))

theorem Field.mem_uses {f : Field} {t : TypeExpr} (h : f.Uses t) : t ∈ f.uses := by
  obtain ⟨e, he, ht⟩ := h
  exact List.mem_filterMap.mpr ⟨some e, he, by simp [ht, Except.toOption]⟩

/-- A part of a document. A map field is told by its owner and its name. -/
inductive Part where
  | message (c : ClassRef)
  | enumeration (e : ClassRef)
  | entry (owner : ClassRef) (field : String)
  deriving DecidableEq

def Part.kind : Part → BlockKind
  | message _ => .message
  | enumeration _ => .enum
  | entry .. => .entry

namespace Model

variable (M : Model)

/-- The fields of a class, of which there are none if it cannot be described. -/
def fieldsOf (c : ClassRef) : List Field :=
  match M.describeClass c with
  | .ok d => d.fields
  | .error _ => []

def Mentions (c : ClassRef) (t : TypeExpr) : Prop := ∃ f ∈ M.fieldsOf c, f.Uses t

def Refers (c d : ClassRef) : Prop := M.Mentions c (.cls d) ∧ M.isComposite d = true

def Reachable (root c : ClassRef) : Prop := Relation.ReflTransGen M.Refers root c

def mentioned (c : ClassRef) : List ClassRef :=
  (M.fieldsOf c).flatMap (fun f => f.uses.filterMap TypeExpr.class?)

def part? : TypeExpr → Option Part
  | .cls c =>
    if M.isEnumClass c then some (.enumeration c)
    else if M.isComposite c then some (.message c) else none
  | _ => none

/-- The parts of a document about the root: what it reaches, and an entry for every map. -/
def Needs (root : ClassRef) : Part → Prop
  | .message c => M.Reachable root c
  | .enumeration e => M.isEnumClass e = true ∧ ∃ c, M.Reachable root c ∧ M.Mentions c (.cls e)
  | .entry c name => M.Reachable root c ∧ ∃ f ∈ M.fieldsOf c, f.shape = .map ∧ f.name = name

end Model

namespace Compiler

variable (M : Model) (o : Options) (root : ClassRef)

/-- The root alone carries the configured affix. -/
def messageName (c : ClassRef) : String :=
  (if c = root then Name.Policy.root else .nested).messageName (M.simpleName c) o.affix

def className (c : ClassRef) : String :=
  if M.isEnumClass c then Name.enumName (M.simpleName c) o.affix else messageName M o root c

def partNames : Part → List String
  | .message c => [messageName M o root c, Name.wrapperName (messageName M o root c)]
  | .enumeration e => [Name.enumName (M.simpleName e) o.affix]
  | .entry c field => [Name.entryName (messageName M o root c) field]

def typeName? (t : TypeExpr) : Option String :=
  if t.isAny then none
  else
    match t.keyword? with
    | some keyword => some keyword
    | none => t.class?.map (className M o root)

/-- The type name of an element or a key. -/
def operandType? (operand : Option TypeExpr) : Option String :=
  operand.bind (fun e => e.unwrap.toOption.bind (typeName? M o root))

end Compiler

namespace Model

variable {M : Model} {root c d : ClassRef} {t : TypeExpr} {f : Field}

theorem fieldsOf_of_describeClass {x : Description} (h : M.describeClass c = .ok x) :
    M.fieldsOf c = x.fields := by
  simp only [fieldsOf, h]

theorem describeClass_of_field (hf : f ∈ M.fieldsOf c) :
    ∃ x, M.describeClass c = .ok x ∧ f ∈ x.fields := by
  cases hx : M.describeClass c with
  | ok x => exact ⟨x, rfl, fieldsOf_of_describeClass hx ▸ hf⟩
  | error fault => simp [fieldsOf, hx] at hf

theorem owner_of_field (hf : f ∈ M.fieldsOf c) : f.owner = .cls c := by
  obtain ⟨x, hx, hfx⟩ := describeClass_of_field hf
  exact (describeClass_field hx hfx).1

theorem layout_of_field (hf : f ∈ M.fieldsOf c) : M.layoutOf f.declared = .ok f.layout := by
  obtain ⟨x, hx, hfx⟩ := describeClass_of_field hf
  exact (describeClass_field hx hfx).2

theorem class_of_composite (hf : f ∈ M.fieldsOf c) (hs : f.shape = .composite) :
    ∃ d, f.declared = .cls d ∧ M.isComposite d = true := by
  have hcases := layoutOf_cases (layout_of_field hf)
  rw [show f.layout.shape = .composite from hs] at hcases
  simpa [Shape.isContainer] using hcases

theorem class_of_enum (hf : f ∈ M.fieldsOf c) (hs : f.shape = .enum) :
    ∃ e, f.declared = .cls e ∧ M.isEnumClass e = true := by
  have hcases := layoutOf_cases (layout_of_field hf)
  rw [show f.layout.shape = .enum from hs] at hcases
  simpa [Shape.isContainer] using hcases

theorem Mentions.declared (h : M.Mentions c t) : ∃ i < M.classes.length, c = .declared i := by
  obtain ⟨f, hf, _⟩ := h
  obtain ⟨x, hx, hfx⟩ := describeClass_of_field hf
  exact declared_of_field hx hfx

theorem Mentions.mem_mentioned (h : M.Mentions c (.cls d)) : d ∈ M.mentioned c := by
  obtain ⟨f, hf, hu⟩ := h
  exact List.mem_flatMap.mpr ⟨f, hf, List.mem_filterMap.mpr ⟨.cls d, Field.mem_uses hu, rfl⟩⟩

theorem mentions_of_mem (h : d ∈ M.mentioned c) : M.Mentions c (.cls d) := by
  obtain ⟨f, hf, hd⟩ := List.mem_flatMap.mp h
  obtain ⟨t, ht, hclass⟩ := List.mem_filterMap.mp hd
  obtain ⟨operand, ho, hu⟩ := List.mem_filterMap.mp ht
  obtain ⟨e, rfl, he⟩ := Option.bind_eq_some_iff.mp hu
  cases t with
  | cls c' =>
      cases hclass
      exact ⟨f, hf, e, ho, eq_ok_of_toOption he⟩
  | _ => cases hclass

theorem Reachable.mem (h : M.Reachable root c) {cs : List ClassRef} (hroot : root ∈ cs)
    (hcs : ∀ x ∈ cs, ∀ y ∈ M.mentioned x, y ∈ cs) : c ∈ cs := by
  induction h with
  | refl => exact hroot
  | tail _ hr ih => exact hcs _ ih _ hr.1.mem_mentioned

theorem isComposite_iff {M : Model} {c : ClassRef} :
    M.isComposite c = true ↔ (TypeExpr.cls c).isAny = false ∧ (TypeExpr.cls c).isScalar = false ∧
      M.isEnumClass c = false ∧ (TypeExpr.cls c).containerShape? = none := by
  simp [isComposite, and_assoc]

theorem part?_composite (h : M.isComposite c = true) : M.part? (.cls c) = some (.message c) := by
  simp [part?, h, (isComposite_iff.mp h).2.2.1]

theorem part?_enum (h : M.isEnumClass c = true) : M.part? (.cls c) = some (.enumeration c) := by
  simp [part?, h]

theorem isClass_of_isEnum (h : M.isEnum t = true) : t.isClass = true := by
  cases t with
  | cls c => rfl
  | _ => cases h

theorem part?_of_scalar (h : t.isAny = true ∨ t.isScalar = true) : M.part? t = none := by
  cases t with
  | cls c =>
      cases c with
      | builtin b =>
          cases b <;>
            simp_all [TypeExpr.isAny, TypeExpr.isScalar, TypeExpr.keyword?, Builtin.keyword?, part?,
              isEnumClass, isComposite]
      | declared i => simp [TypeExpr.isAny, TypeExpr.isScalar, TypeExpr.keyword?] at h
  | _ => rfl

theorem part?_of_container {s : Shape} (h : t.containerShape? = some s) : M.part? t = none := by
  cases t with
  | cls c =>
      have hc : M.isComposite c = false := by simp [isComposite, h]
      have he : M.isEnumClass c = false := by
        cases c with
        | builtin b => cases b <;> simp_all [TypeExpr.containerShape?, TypeExpr.origin?, Builtin.shape?,
            isEnumClass]
        | declared i => simp [TypeExpr.containerShape?, TypeExpr.origin?] at h
      simp [part?, he, hc]
  | _ => rfl

theorem unwrap_of_scalar (h : t.isAny = true ∨ t.isScalar = true) : t.unwrap = .ok t := by
  cases t <;> simp_all [TypeExpr.isAny, TypeExpr.isScalar, TypeExpr.keyword?, TypeExpr.unwrap]

theorem unwrap_cls (c : ClassRef) : (TypeExpr.cls c).unwrap = .ok (.cls c) := by
  simp [TypeExpr.unwrap]

theorem isElement_composite (h : M.isComposite c = true) : (TypeExpr.cls c).isElement = true := by
  simp [TypeExpr.isElement, TypeExpr.isClass, (isComposite_iff.mp h).2.2.2]

theorem enum_facts (h : M.isEnumClass c = true) :
    (TypeExpr.cls c).isAny = false ∧ (TypeExpr.cls c).keyword? = none ∧
      (TypeExpr.cls c).containerShape? = none := by
  cases c with
  | builtin b => cases b <;> simp_all [isEnumClass, TypeExpr.isAny, TypeExpr.keyword?, Builtin.keyword?,
      TypeExpr.containerShape?, TypeExpr.origin?, Builtin.shape?]
  | declared i => exact ⟨rfl, rfl, rfl⟩

theorem part?_inj {p : Part} (hc : M.part? (.cls c) = some p) (hd : M.part? (.cls d) = some p) :
    c = d := by
  simp only [part?] at hc hd
  split_ifs at hc hd <;> cases hc <;> cases hd <;> rfl

theorem composite_of_part? (h : M.part? t = some (.message d)) : t = .cls d ∧ M.isComposite d = true := by
  unfold part? at h
  split at h
  next c =>
    split_ifs at h with he hc
    · cases h
    · cases h
      exact ⟨rfl, hc⟩
  next => cases h

theorem part?_ne_entry {name : String} : M.part? t ≠ some (.entry d name) := by
  intro h
  unfold part? at h
  split at h
  next => split_ifs at h <;> cases h
  next => cases h

end Model

namespace Compiler

variable {M : Model} {o : Options} {root c : ClassRef}

theorem className_of_composite (h : M.isComposite c = true) :
    className M o root c = messageName M o root c := by
  simp [className, (Model.isComposite_iff.mp h).2.2.1]

theorem className_of_enum (h : M.isEnumClass c = true) :
    className M o root c = Name.enumName (M.simpleName c) o.affix := by
  simp [className, h]

theorem messageName_root : messageName M o root root = o.affix ++ M.simpleName root := by
  simp [messageName, Name.Policy.messageName]

theorem messageName_of_ne (h : c ≠ root) : messageName M o root c = M.simpleName c := by
  simp [messageName, h, Name.Policy.messageName]

end Compiler

end ClassSchema
