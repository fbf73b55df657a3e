import ClassSchema.Proofs.Coverage
import ClassSchema.Proofs.Faults
import ClassSchema.Proofs.Lockstep.Messages
import Mathlib.Data.Set.Card

namespace ClassSchema

/-- The composite classes that a root reaches, itself among them. -/
def Model.composites (M : Model) (root : TypeExpr) : Set ClassRef :=
  {c | ∃ r, root = .cls r ∧ M.isComposite r = true ∧ M.Reachable r c}

namespace Compiler

def compileWithin (M : Model) (o : Options) (levels : Nat) (root : TypeExpr) : Except Fault Document := do
  checkRoot M root
  match buildMessage M o levels root .root {} with
  | .ok _ s => return documentOf o s
  | .error fault _ => throw fault

/-- The calls of a compilation are of composite classes, each of which is called once, and no class
is on the stack twice. -/
structure Tame (M : Model) (root : TypeExpr) (r : Record) : Prop where
  calls : ∀ k ∈ r.calls, ∀ t ∈ k, ∃ c ∈ M.composites root, t = .cls c
  depth : ∀ k ∈ r.calls, k.length ≤ (M.composites root).ncard
  once : (r.calls.map List.head?).Nodup
  trails : ∀ k ∈ r.trails, k.Nodup

/-- With room for as many classes inside each other as the root reaches, a compilation is not
limited by its room. -/
structure Terminates (M : Model) (o : Options) (root : TypeExpr) : Prop where
  finite : (M.composites root).Finite
  ended : compile M o root ≠ .error .outOfRoom
  unlimited : ∀ levels, (M.composites root).ncard ≤ levels →
    compileWithin M o levels root = compile M o root
  recorded : ∀ levels, (M.composites root).ncard ≤ levels →
    (Recording.compile M o levels root).1 = compile M o root
  tame : ∀ levels, (M.composites root).ncard ≤ levels →
    Tame M root (Recording.compile M o levels root).2

end Compiler

variable {M : Model} {o : Options} {root c : ClassRef} {path : List ClassRef} {levels levels' : Nat}

namespace Model

theorem composites_cls (h : M.isComposite root = true) :
    M.composites (.cls root) = {c | M.Reachable root c} := by
  ext c
  simp [composites, h]

theorem Reachable.mem_classes (h : M.Reachable root c) :
    c ∈ root :: (List.range M.classes.length).flatMap (fun i => M.mentioned (.declared i)) := by
  cases h with
  | refl => exact List.mem_cons_self
  | tail _ hr =>
      obtain ⟨i, hi, rfl⟩ := hr.1.declared
      exact List.mem_cons_of_mem _
        (List.mem_flatMap.mpr ⟨i, List.mem_range.mpr hi, hr.1.mem_mentioned⟩)

theorem finite_composites (root : TypeExpr) : (M.composites root).Finite := by
  by_cases h : ∃ r, root = .cls r ∧ M.isComposite r = true
  · obtain ⟨r, rfl, hr⟩ := h
    rw [composites_cls hr]
    exact (List.finite_toSet _).subset fun c hc => hc.mem_classes
  · refine Set.finite_empty.subset ?_
    rintro c ⟨r, hroot, hr, _⟩
    exact h ⟨r, hroot, hr⟩

theorem Way.length_le_ncard (hroot : M.isComposite root = true) (h : M.Way root path) :
    path.length ≤ (M.composites (.cls root)).ncard := by
  rw [← List.toFinset_card_of_nodup h.nodup, ← Set.ncard_coe_finset]
  refine Set.ncard_le_ncard ?_ (finite_composites _)
  intro c hc
  rw [composites_cls hroot]
  exact h.reachable c (List.mem_toFinset.mp hc)

theorem describeClass_ne_outOfRoom : M.describeClass c ≠ .error .outOfRoom := by
  intro h
  obtain ⟨_, hf⟩ := describeClass_error h
  generalize hfault : Fault.outOfRoom = fault at hf
  cases hf with
  | unresolved =>
      rcases unresolvedFault_cases c _ with ⟨_, hu⟩ | ⟨_, hu⟩ <;> rw [hu] at hfault <;> cases hfault
  | unsupported | unknownField => cases hfault

theorem legal_way (M : Model) (root : ClassRef) : Compiler.Legal M (M.Way root) :=
  fun _ _ _ h hr hout => .into h hr hout

end Model

namespace Compiler

theorem roomy_way (hroot : M.isComposite root = true)
    (h : (M.composites (.cls root)).ncard ≤ levels) (h' : ∀ p, M.Way root p → p.length ≤ levels') :
    Roomy (M.Way root) [] levels levels' :=
  Or.inr fun p hp => ⟨(hp.length_le_ncard hroot).trans h, h' p hp⟩

theorem buildRoot_follows {M' : Model} {exact : Prop} (hM : M.Mirrors M' exact)
    (hroot : M.isComposite root = true) (h : Roomy (M.Way root) [] levels levels') :
    Follows exact (buildMessage M' o levels' (.cls root) .root)
      (Recording.buildMessage M o levels [] (.cls root) .root) ({}, {})
      (fun _ s => s.2.Sane (M.Way root)) (fun s => s.2.Sane (M.Way root)) := by
  refine (buildMessage_follows hM (M.legal_way root) h Steady.start.keeps .root hroot
    List.not_mem_nil id (List.mem_singleton_self root) ?_).mono ?_ (fun _ h => h.2)
  · rw [messageName_root]
    rfl
  · rintro _ s ⟨_, _, hkeeps, _⟩
    exact hkeeps.sane

theorem length_le_levels {p : List ClassRef} (h : M.Way root p) : p.length ≤ Compiler.levels M := by
  cases p with
  | nil => exact Nat.zero_le _
  | cons c p => exact Nat.succ_le_succ h.length_le

theorem tame_of_sane {r : Record} (hroot : M.isComposite root = true) (h : r.Sane (M.Way root)) :
    Tame M (.cls root) r where
  calls := by
    intro k hk t ht
    obtain ⟨path, rfl, hway⟩ := h.calls k hk
    obtain ⟨c, hc, rfl⟩ := List.mem_map.mp ht
    exact ⟨c, ⟨root, rfl, hroot, hway.reachable c hc⟩, rfl⟩
  depth := by
    intro k hk
    obtain ⟨path, rfl, hway⟩ := h.calls k hk
    rw [List.length_map]
    exact hway.length_le_ncard hroot
  once := h.once
  trails := h.trails

/-- The recorded compilation and the plain one end alike, where both have room enough. -/
theorem recorded_compile (hroot : M.isComposite root = true)
    (h : Roomy (M.Way root) [] levels levels') :
    (Recording.compile M o levels (.cls root)).1 = compileWithin M o levels' (.cls root) ∧
      Tame M (.cls root) (Recording.compile M o levels (.cls root)).2 := by
  have hfollows := buildRoot_follows (o := o) (.refl M True) hroot h
  simp only [Recording.compile, compileWithin, checkRoot_composite hroot]
  cases hr : Recording.buildMessage M o levels [] (.cls root) .root ({}, {}) with
  | ok name s =>
      obtain ⟨hp, hs⟩ := hfollows.of_ok hr
      simp only [hp]
      exact ⟨rfl, tame_of_sane hroot hs⟩
  | error fault s =>
      obtain ⟨hp, hs⟩ := hfollows.of_error hr
      simp only [hp trivial]
      exact ⟨rfl, tame_of_sane hroot hs⟩

theorem Tame.empty (root : TypeExpr) : Tame M root {} where
  calls := fun _ hk => absurd hk List.not_mem_nil
  depth := fun _ hk => absurd hk List.not_mem_nil
  once := List.nodup_nil
  trails := fun _ hk => absurd hk List.not_mem_nil

theorem compile_ne_outOfRoom (root : TypeExpr) : compile M o root ≠ .error .outOfRoom := by
  intro h
  rcases compile_fault h with (hf | hf) | ⟨r, _, hcause⟩
  · cases hf
  · cases hf
  · cases hcause with
    | undescribed _ hx => exact Model.describeClass_ne_outOfRoom hx

theorem terminates_of_refused {root : TypeExpr} {fault : Fault} (h : checkRoot M root = .error fault) :
    Terminates M o root where
  finite := Model.finite_composites root
  ended := compile_ne_outOfRoom root
  unlimited := fun _ _ => by simp only [compileWithin, compile, h, bind, Except.bind]
  recorded := fun _ _ => by simp only [Recording.compile, compile, h, bind, Except.bind]
  tame := fun _ _ => by
    simp only [Recording.compile, h]
    exact .empty root

/-- Every compilation terminates, also where classes refer to each other in cycles. -/
theorem compile_terminates (M : Model) (o : Options) (root : TypeExpr) : Terminates M o root := by
  cases hc : checkRoot M root with
  | error fault => exact terminates_of_refused hc
  | ok _ =>
      obtain ⟨r, rfl, hroot⟩ := checkRoot_ok hc
      have hlevels : ∀ p, M.Way r p → p.length ≤ Compiler.levels M := fun p => length_le_levels
      refine ⟨Model.finite_composites _, compile_ne_outOfRoom _, ?_, ?_, ?_⟩
      · intro levels h
        have hl := fun p (hp : M.Way r p) => (hp.length_le_ncard hroot).trans h
        have hleft := (recorded_compile (o := o) hroot (roomy_way hroot h hl)).1
        exact hleft.symm.trans (recorded_compile hroot (roomy_way hroot h hlevels)).1
      · exact fun levels h => (recorded_compile hroot (roomy_way hroot h hlevels)).1
      · exact fun levels h => (recorded_compile (o := o) hroot (roomy_way hroot h hlevels)).2

/-- Items are compiled while the order is, and not again for the fields after the first. -/
example : (Recording.compile .shop default 2 (.cls (.declared 2))).2.calls.map
    (List.filterMap TypeExpr.class?) = [[.declared 1, .declared 2], [.declared 2]] := by
  decide +kernel

end Compiler

end ClassSchema
