import ClassSchema.Proofs.Lockstep.Messages

namespace ClassSchema

namespace Compiler

open Compiling

variable (M : Model) (o : Options) (root : ClassRef)

def enter (t : TypeExpr) (policy : Name.Policy) : Compiling Unit := do
  let d ← fromResult (M.describe t)
  let name := policy.messageName (M.simpleName d.type) o.affix
  onTrail (Trail.push t)
  registerHere M t name
  onDraft (Draft.beginMessage name true)

/-- The state is one that a compilation of the root comes through while the innermost class of the
path has its message open: when the class has been entered, and when a field of it, an operand of
a field or the entry of one has been dealt with. -/
inductive Inside : List ClassRef → Progress → Prop
  | root {s} : M.isComposite root = true → enter M o (.cls root) .root {} = .ok ⟨⟩ s → Inside [root] s
  | into {c d path s s'} : Inside (c :: path) s → M.Refers c d → s.trail.contains (.cls d) = false →
      s.registry.contains (.cls d) = false → enter M o (.cls d) .nested s = .ok ⟨⟩ s' →
      Inside (d :: c :: path) s'
  | operand {c path s s' levels f operand name?} : Inside (c :: path) s → f ∈ M.fieldsOf c →
      operand ∈ f.operands →
      resolveElement M o (fun u => buildMessage M o levels u .nested) f operand s = .ok name? s' →
      Inside (c :: path) s'
  | entry {c path s s' levels f name} : Inside (c :: path) s → f ∈ M.fieldsOf c → f.shape = .map →
      buildEntry M o (fun u => buildMessage M o levels u .nested) f s = .ok name s' →
      Inside (c :: path) s'
  | field {c path s s' levels f ordinal} : Inside (c :: path) s → f ∈ M.fieldsOf c →
      classifyField M o (fun u => buildMessage M o levels u .nested) f ordinal s = .ok ⟨⟩ s' →
      Inside (c :: path) s'

variable {M : Model} {o : Options} {root c d : ClassRef} {path : List ClassRef}
  {known : ClassRef → Prop} {s : Progress} {f : Field}

abbrev anyPath : List ClassRef → Prop := fun _ => True

theorem nested_follows (levels : Nat) (hrooted : root ∈ path) :
    FollowsNested M o root True anyPath path (fun u => buildMessage M o levels u .nested)
      (fun u => Recording.buildMessage M o levels (path.map .cls) u .nested) := by
  intro d known s _ hd hout hnew h
  have hne : d ≠ root := fun he => hout (he ▸ hrooted)
  refine buildMessage_follows (.refl M True) (fun _ _ _ _ _ _ => trivial) (Or.inl rfl) h trivial hd hout
    hnew (List.mem_cons_of_mem d hrooted) ?_
  rw [messageName_of_ne hne]
  rfl

theorem writable_self (howner : f.owner = .cls c) (hlayout : M.layoutOf f.declared = .ok f.layout) :
    Writable M M True anyPath c path f f :=
  ⟨.refl hlayout, howner, fun _ _ _ _ => trivial⟩

theorem writable_of_field (hf : f ∈ M.fieldsOf c) : Writable M M True anyPath c path f f :=
  writable_self (Model.owner_of_field hf) (Model.layout_of_field hf)

theorem Steady.enter_ends {policy : Name.Policy} (h : Steady M o root path known s) (hout : c ∉ path)
    (hc : M.isComposite c = true) (hnew : ¬ known c) (hrooted : root ∈ c :: path)
    (hname : policy.messageName (M.simpleName c) o.affix = messageName M o root c) :
    Ends (enter M o (.cls c) policy) s
      (fun _ s' => Steady M o root (c :: path) (fun x => x = c ∨ known x) s')
      (fun fault _ => M.describeClass c = .error fault) := by
  unfold enter
  cases hx : M.describeClass c with
  | error fault =>
      simp only [Model.describe, hx]
      exact Ends.bind rfl
  | ok x =>
      simp only [Model.describe, hx, fromResult_ok, (Model.describeClass_ok hx).1, hname]
      refine Ends.bind (onTrail_ends ?_)
      rw [h.trail]
      refine Trail.push_along_ends hout ?_
      rw [← className_of_composite hc]
      have htrail : ({ s with trail := Trail.along (c :: path) } : Progress).trail =
          Trail.along (c :: path) := rfl
      refine (registerHere_ends htrail h.registry hnew).andThen ?_
      rintro _ _ ⟨r, rfl, hr⟩
      refine onDraft_ends ((Draft.beginMessage_ends h.draft _ true).mono ?_ (fun _ _ hf => hf))
      rintro _ d ⟨hd, _, hp⟩
      rw [className_of_composite hc] at hp
      have hkeeps : Keeps M o root anyPath path known (s, {}) := h.keeps
      exact (hkeeps.opens hout hc hnew hrooted trivial hr hd hp).steady

theorem enterRoot_ends (hroot : M.isComposite root = true) :
    Ends (enter M o (.cls root) .root) {} (fun _ s => Steady M o root [root] (fun x => x = root ∨ False) s)
      (fun fault _ => M.describeClass root = .error fault) := by
  refine Steady.start.enter_ends List.not_mem_nil hroot id (List.mem_singleton_self root) ?_
  rw [messageName_root]
  rfl

theorem Inside.exists_root (hroot : M.isComposite root = true) {x : Description}
    (hx : M.describeClass root = .ok x) : ∃ s, Inside M o root [root] s := by
  cases hrun : enter M o (.cls root) .root {} with
  | ok _ s => exact ⟨s, .root hroot hrun⟩
  | error fault s =>
      have hfault := (enterRoot_ends hroot).of_error hrun
      rw [hx] at hfault
      cases hfault

theorem Inside.steady (h : Inside M o root path s) :
    root ∈ path ∧ ∃ known, Steady M o root path known s := by
  induction h with
  | root hroot henter =>
      exact ⟨List.mem_singleton_self root, _, (enterRoot_ends hroot).of_ok henter⟩
  | @into c d path s s' _ hr htrail hreg henter ih =>
      obtain ⟨hrooted, known, h⟩ := ih
      rw [h.trail, Trail.contains_along, decide_eq_false_iff_not] at htrail
      have hnew : ¬ known d := fun hk => by
        rw [(h.registry.contains_cls d).mpr hk] at hreg
        cases hreg
      have hne : d ≠ root := fun he => htrail (he ▸ hrooted)
      refine ⟨List.mem_cons_of_mem d hrooted, _, (h.enter_ends htrail hr.2 hnew
        (List.mem_cons_of_mem d hrooted) ?_).of_ok henter⟩
      rw [messageName_of_ne hne]
      rfl
  | @operand c path s s' levels f operand name? _ hf ho hrun ih =>
      obtain ⟨hrooted, known, h⟩ := ih
      have hends := (resolveElement_follows (.refl M True) h.keeps (nested_follows levels hrooted)
        (fun _ => ⟨rfl, rfl⟩) rfl rfl (.refl operand) (f := f) (fun _ _ _ _ _ _ => trivial)).ends
      obtain ⟨_, _, known', _, h', _⟩ := hends.of_ok hrun
      exact ⟨hrooted, known', h'.steady⟩
  | @entry c path s s' levels f name _ hf hm hrun ih =>
      obtain ⟨hrooted, known, h⟩ := ih
      have hends := (buildEntry_follows (.refl M True) h.keeps (nested_follows levels hrooted)
        (writable_of_field hf) hm).ends
      obtain ⟨_, ⟨known', _, h', _⟩, _⟩ := hends.of_ok hrun
      exact ⟨hrooted, known', h'.steady⟩
  | @field c path s s' levels f ordinal _ hf hrun ih =>
      obtain ⟨hrooted, known, h⟩ := ih
      obtain ⟨m, rest, hp, _⟩ := h.exists_pending
      obtain ⟨_, _, known', _, h', _⟩ := (classifyField_follows (.refl M True) h.keeps hp
        (nested_follows levels hrooted) (writable_of_field hf)).ends.of_ok hrun
      exact ⟨hrooted, known', h'.steady⟩

end Compiler

end ClassSchema
