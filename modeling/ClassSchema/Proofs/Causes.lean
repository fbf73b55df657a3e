import ClassSchema.Compiler.Schema
import ClassSchema.Proofs.Bookkeeping
import ClassSchema.Proofs.References
import Mathlib.Data.List.Chain
import Mathlib.Data.List.Perm.Subperm

namespace ClassSchema

/-- A way from the root through references, which meets no class twice. The innermost class comes
first. -/
inductive Model.Way (M : Model) (root : ClassRef) : List ClassRef → Prop
  | root : Way M root [root]
  | into {c d path} : Way M root (c :: path) → M.Refers c d → d ∉ c :: path →
      Way M root (d :: c :: path)

namespace Model.Way

variable {M : Model} {root c d : ClassRef} {path : List ClassRef}

theorem nodup (h : M.Way root path) : path.Nodup := by
  induction h with
  | root => simp
  | into _ _ hd ih => exact List.nodup_cons.mpr ⟨hd, ih⟩

theorem root_mem (h : M.Way root path) : root ∈ path := by
  induction h with
  | root => exact List.mem_singleton_self root
  | into _ _ _ ih => exact List.mem_cons_of_mem _ ih

theorem reachable (h : M.Way root path) : ∀ x ∈ path, M.Reachable root x := by
  induction h with
  | root => exact fun x hx => List.mem_singleton.mp hx ▸ .refl
  | into _ hr _ ih => exact List.forall_mem_cons.mpr ⟨(ih _ List.mem_cons_self).tail hr, ih⟩

theorem leads (h : M.Way root (c :: path)) : ∀ x ∈ c :: path, M.Reachable x c := by
  induction path generalizing c with
  | nil => exact fun x hx => List.mem_singleton.mp hx ▸ .refl
  | cons b path ih =>
      cases h with
      | into h hr _ => exact List.forall_mem_cons.mpr ⟨.refl, fun x hx => (ih h x hx).tail hr⟩

theorem composite (hroot : M.isComposite root = true) (h : M.Way root path) :
    ∀ x ∈ path, M.isComposite x = true := by
  induction h with
  | root => exact fun x hx => List.mem_singleton.mp hx ▸ hroot
  | into _ hr _ ih => exact List.forall_mem_cons.mpr ⟨hr.2, ih⟩

theorem isChain (h : M.Way root path) : path.IsChain (fun a b => M.Refers b a) := by
  induction h with
  | root => exact .singleton _
  | into _ hr _ ih => exact .cons_cons hr ih

theorem refers_of_mem_tail (h : M.Way root path) : ∀ x ∈ path.tail, ∃ d, M.Refers x d := by
  induction h with
  | root => exact fun x hx => absurd hx List.not_mem_nil
  | into _ hr _ ih => exact List.forall_mem_cons.mpr ⟨⟨_, hr⟩, ih⟩

/-- All classes on a way but the innermost are declared, so a way is not longer than the model. -/
theorem length_le (h : M.Way root (c :: path)) : path.length ≤ M.classes.length := by
  have hsub : path ⊆ (List.range M.classes.length).map .declared := by
    intro x hx
    obtain ⟨d, hd, _⟩ := h.refers_of_mem_tail x hx
    obtain ⟨i, hi, rfl⟩ := hd.declared
    exact List.mem_map_of_mem (List.mem_range.mpr hi)
  have hle := (List.subperm_of_subset h.nodup.of_cons hsub).length_le
  simpa using hle

end Model.Way

namespace Compiler

variable (M : Model) (o : Options) (root : ClassRef)

inductive Cause : Fault → Prop
  | undescribed {c fault} : M.Reachable root c → M.describeClass c = .error fault → Cause fault
  | noMapTypes {c f} : M.Reachable root c → f ∈ M.fieldsOf c → f.shape = .map → none ∈ f.operands →
      Cause (.noMapTypes (M.simpleName c) f.name)
  | noElementType {c f} : M.Reachable root c → f ∈ M.fieldsOf c → none ∈ f.operands →
      Cause (.noElementType (M.simpleName c) f.name)
  | unsupported {c f e why} : M.Reachable root c → f ∈ M.fieldsOf c → some e ∈ f.operands →
      e.unwrap = .error why → Cause (.unsupported (M.simpleName c) f.name why)
  | nestedContainer {c f t} : M.Reachable root c → f ∈ M.fieldsOf c → f.Uses t →
      t.containerShape?.isSome = true → Cause (.nestedContainer (M.simpleName c) f.name f.declared)
  | unsupportedElement {c f t} : M.Reachable root c → f ∈ M.fieldsOf c → f.Uses t →
      t.isElement = false → Cause (.unsupportedElement (M.simpleName c) f.name t)
  | cycle {c f chain d} : M.Reachable root d → f ∈ M.fieldsOf c → f.Uses (.cls d) →
      (d :: chain).getLast? = some c → (d :: chain ++ [d]).IsChain M.Refers →
      Cause (.cycle (M.simpleName c) f.name (.cls d) ((d :: chain ++ [d]).map .cls))
  | emptyEnum {e} : M.Needs root (.enumeration e) → M.constants e = [] →
      Cause (.emptyEnum (Name.enumName (M.simpleName e) o.affix))
  | illegalFieldName {c f} : M.Reachable root c → f ∈ M.fieldsOf c → Name.sanitize f.name = "" →
      Cause (.illegalFieldName f.name)
  | illegalMessageName {c} : M.Reachable root c →
      Name.sanitize (Name.lowerFirst (messageName M o root c)) = "" →
      Cause (.illegalFieldName (Name.lowerFirst (messageName M o root c)))
  | nameClash {p q name} : M.Needs root p → M.Needs root q → p ≠ q →
      ¬ (p.kind = .message ∧ q.kind = .message) → name ∈ partNames M o root p →
      name ∈ partNames M o root q → Cause (.nameClash q.kind name p.kind)

end Compiler

end ClassSchema
