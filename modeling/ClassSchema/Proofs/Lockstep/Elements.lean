import ClassSchema.Proofs.Elements
import ClassSchema.Proofs.Lockstep.Mirrors

namespace ClassSchema

namespace Compiler

open Compiling

def FollowsNested (M : Model) (o : Options) (root : ClassRef) (exact : Prop)
    (legal : List ClassRef → Prop) (path : List ClassRef) (plain : TypeExpr → Compiling String)
    (recorded : TypeExpr → Recording String) : Prop :=
  ∀ d known s, legal (d :: path) → M.isComposite d = true → d ∉ path → ¬ known d →
    Keeps M o root legal path known s →
    Follows exact (plain (.cls d)) (recorded (.cls d)) s
      (fun _ s' => Gains M o root legal path (fun c => c = d ∨ known c) s.1.draft.pending s')
      (Quits legal path)

variable {M M' : Model} {o : Options} {root c d e : ClassRef} {legal : List ClassRef → Prop}
  {path : List ClassRef} {known : ClassRef → Prop} {s : Progress × Record} {exact : Prop} {f f' : Field}
  {t : TypeExpr} {α : Type} {plain : TypeExpr → Compiling String}
  {recorded : TypeExpr → Recording String} {m : OpenMessage} {rest : List OpenMessage} {ordinal : Int}

theorem isRegistered_follows {fails : Progress × Record → Prop} :
    Follows exact (isRegistered t) (Recording.plainly (isRegistered t)) s
      (fun b s' => b = s.1.registry.contains t ∧ s' = s) fails :=
  .of_ends (isRegistered_ends ⟨rfl, rfl⟩)

theorem registeredName_follows {fails : Progress × Record → Prop}
    (h : Keeps M o root legal path known s) (hc : known c) :
    Follows exact (registeredName (.cls c)) (Recording.plainly (registeredName (.cls c))) s
      (fun name s' => name = className M o root c ∧ s' = s) fails :=
  .of_ends (registeredName_ends (h.steady.registry.nameOf_cls hc) ⟨rfl, rfl⟩)

theorem failField_follows {fault : String → String → Fault} {step : Compiling α}
    {post : α → Progress × Record → Prop} (h : Keeps M o root legal path known s)
    (hstep : exact → step = failField M f fault) :
    Follows exact step (Recording.plainly (failField M f fault)) s post (Quits legal path) := by
  by_cases he : exact
  · rw [hstep he]
    refine .of_ends ((failField_state M).mono (fun _ _ h => h) ?_)
    rintro _ _ rfl
    exact h.quits
  · refine .of_fails he (Recording.plainly_ends ((failField_state M).mono (fun _ _ h => h) ?_))
    rintro _ _ rfl
    exact h.quits

theorem ensureEnum_follows (hM : M.Mirrors M' exact) (h : Keeps M o root legal path known s)
    (he : M.isEnumClass e = true) :
    Follows exact (ensureEnum M' o (.cls e)) (Recording.ensureEnum M o (.cls e)) s
      (fun name s' => name = className M o root e ∧
        Gains M o root legal path (fun c => c = e ∨ known c) s.1.draft.pending s')
      (Quits legal path) := by
  have hdescribe : M'.describe (.cls e) = M.describe (.cls e) := by
    simp only [Model.describe, Model.describeClass, hM.isEnumClass, he, hM.constants, if_true]
  unfold ensureEnum Recording.ensureEnum
  simp only [hdescribe, hM.simpleName, registerHere_congr hM]
  refine Follows.bind isRegistered_follows ?_
  rintro _ s' ⟨rfl, hs⟩
  rw [hs]
  by_cases hreg : s.1.registry.contains (.cls e) = true
  · have hk := (h.steady.registry.contains_cls e).mp hreg
    rw [if_pos hreg, if_pos hreg]
    refine (registeredName_follows h hk).mono ?_ (fun _ h => h)
    rintro name s' ⟨hname, rfl⟩
    refine ⟨hname, h.gains.mono ?_⟩
    rintro c (rfl | hc)
    · exact hk
    · exact hc
  · rw [if_neg hreg, if_neg hreg]
    rw [h.steady.registry.contains_cls] at hreg
    obtain ⟨x, hx, hxt, hxc⟩ := Model.describeClass_enum he
    have hname : className M o root e = Name.enumName (M.simpleName e) o.affix := className_of_enum he
    refine Follows.bind (q := fun a s' => a = x ∧ s' = s) (.of_ends ?_) ?_
    · rw [Model.describe, hx]
      exact Ends.of_pure ⟨rfl, rfl⟩
    rintro _ s' ⟨rfl, hs⟩
    rw [hs]
    simp only [hxt, hxc, ← hname]
    refine Follows.bind (q := fun _ s' => Keeps M o root legal path (fun c => c = e ∨ known c) s' ∧
      s'.1.draft = s.1.draft) (.within h.steady.trail (h.steady.not_mem_of_enum he) (.of_ends ?_)) ?_
    · have htrail : ({ s.1 with trail := Trail.along (e :: path) } : Progress).trail =
          Trail.along (e :: path) := rfl
      refine (registerHere_ends htrail h.steady.registry hreg).mono ?_ (fun _ _ hf => hf)
      rintro _ _ ⟨r, rfl, hr⟩
      refine ⟨rfl, ⟨?_, ?_, fun k hk c hc => Or.inr (h.begun k hk c hc)⟩, rfl⟩
      · rw [← h.steady.trail]
        exact h.steady.reregister hr (Model.part?_enum he)
      · refine Record.Sane.onPath (h.sane.onPath ?_) h.steady.nodup
        exact List.nodup_cons.mpr ⟨h.steady.not_mem_of_enum he, h.steady.nodup⟩
    rintro _ s' ⟨h', hdraft⟩
    refine Follows.bind (q := fun _ s'' =>
      Gains M o root legal path (fun c => c = e ∨ known c) s.1.draft.pending s'') (.of_ends ?_)
      (fun _ _ hg => .of_pure ⟨rfl, hg⟩)
    refine onDraft_ends ((Draft.emitEnum_ends h'.steady.draft _ _).mono ?_ (fun _ _ _ => h'.quits))
    rintro _ d ⟨_, hd, _, hp⟩
    exact ⟨_, fun _ hc => hc, h'.redraft hd (by rw [hp]), hp.trans (by rw [hdraft])⟩

theorem meetClass_follows {first : Compiling α} {second : Recording α}
    {post : α → Progress × Record → Prop} (h : Keeps M o root legal path known s)
    (hn : FollowsNested M o root exact legal path plain recorded) (hd : M.isComposite d = true)
    (hout : d ∉ path) (hlegal : legal (d :: path))
    (hrest : ∀ s', Gains M o root legal path (fun c => c = d ∨ known c) s.1.draft.pending s' →
      Follows exact first second s' post (Quits legal path)) :
    Follows exact
      (do if !(← isRegistered (.cls d)) then discard (plain (.cls d))
          first)
      (do if !(← isRegistered (.cls d)) then discard (recorded (.cls d))
          second) s post (Quits legal path) := by
  refine Follows.bind isRegistered_follows ?_
  rintro _ s' ⟨rfl, hs⟩
  rw [hs]
  by_cases hreg : s.1.registry.contains (.cls d) = true
  · rw [hreg]
    have hk := (h.steady.registry.contains_cls d).mp hreg
    refine hrest s (h.gains.mono ?_)
    rintro c (rfl | hc)
    · exact hk
    · exact hc
  · have hnot : ¬ known d := fun hk => hreg ((h.steady.registry.contains_cls d).mpr hk)
    rw [Bool.not_eq_true] at hreg
    rw [hreg]
    exact Follows.bind (.discard (hn d known s hlegal hd hout hnot h)) (fun _ => hrest)

theorem elementName_follows (hM : M.Mirrors M' exact) (h : Keeps M o root legal path known s)
    (hn : FollowsNested M o root exact legal path plain recorded) (hsame : exact → f' = f)
    (howner : f'.owner = f.owner) (hname : f'.name = f.name)
    (hlegal : ∀ d, t = .cls d → M.isComposite d = true → d ∉ path → legal (d :: path)) :
    Follows exact (elementName M' o plain f' t) (Recording.elementName M o recorded f t) s
      (fun name? s' => name? = typeName? M o root t ∧
        Gains M o root legal path known s.1.draft.pending s')
      (Quits legal path) := by
  unfold elementName Recording.elementName
  rw [hM.isEnum, checkCycle_congr hM howner hname]
  by_cases hcont : t.containerShape?.isSome = true
  · rw [if_pos hcont, if_pos hcont]
    exact failField_follows h (fun he => by rw [hsame he, failField_congr hM])
  rw [if_neg hcont, if_neg hcont]
  by_cases hany : t.isAny = true
  · rw [if_pos hany, if_pos hany]
    exact .of_pure ⟨(typeName?_of_isAny hany).symm, h.gains⟩
  rw [if_neg hany, if_neg hany]
  rw [Bool.not_eq_true] at hany
  cases hkey : t.keyword? with
  | some keyword => exact .of_pure ⟨(typeName?_of_keyword hany hkey).symm, h.gains⟩
  | none =>
      by_cases he : M.isEnum t = true
      · obtain ⟨e, rfl⟩ := TypeExpr.exists_of_isClass (Model.isClass_of_isEnum he)
        simp only [he, if_true, typeName?_cls hany hkey]
        refine Follows.bind (ensureEnum_follows hM h he) ?_
        rintro _ s' ⟨rfl, hg⟩
        exact .of_pure ⟨rfl, hg.mono fun c hc => Or.inr hc⟩
      · by_cases hclass : t.isClass = true
        · obtain ⟨d, rfl⟩ := TypeExpr.exists_of_isClass hclass
          have hd : M.isComposite d = true := by
            simp_all [Model.isComposite, Model.isEnum, TypeExpr.isScalar]
          simp only [he, hclass, typeName?_cls hany hkey]
          refine Follows.bind (q := fun _ s' => s' = s ∧ d ∉ path) (.of_ends ?_) ?_
          · refine (checkCycle_state h.steady.trail).mono ?_ ?_
            · rintro _ _ ⟨rfl, hout⟩
              exact ⟨rfl, hout⟩
            · rintro _ _ rfl
              exact h.quits
          rintro _ s' ⟨hs, hout⟩
          rw [hs]
          refine meetClass_follows h hn hd hout (hlegal d rfl hd hout) ?_
          rintro s' ⟨known', hk, h', hp⟩
          refine Follows.bind (registeredName_follows h' (hk d (Or.inl rfl))) ?_
          rintro _ s'' ⟨rfl, hs'⟩
          rw [hs']
          exact .of_pure ⟨rfl, known', fun c hc => hk c (Or.inr hc), h', hp⟩
        · rw [Bool.not_eq_true] at hclass
          simp only [he, hclass, Bool.not_false, if_true, Bool.false_eq_true, if_false]
          exact failField_follows h (fun he => by rw [hsame he, failField_congr hM])

theorem exists_failField (f : Field) (o : Options) (ht : t.isElement = false) :
    ∃ fault, (∀ M nested, elementName M o nested f t = failField M f fault) ∧
      ∀ M nested, Recording.elementName M o nested f t = Recording.plainly (failField M f fault) := by
  simp only [TypeExpr.isElement, TypeExpr.isScalar, Bool.or_eq_false_iff, Bool.and_eq_false_iff,
    Option.isSome_eq_false_iff, Option.isNone_iff_eq_none] at ht
  obtain ⟨⟨hany, hkey⟩, hclass⟩ := ht
  by_cases hcont : t.containerShape?.isSome = true
  · refine ⟨fun owner field => .nestedContainer owner field f.declared, fun M nested => ?_,
      fun M nested => ?_⟩
    · rw [elementName, if_pos hcont]
    · rw [Recording.elementName, if_pos hcont]
      rfl
  · have hclass : t.isClass = false := hclass.resolve_right (by simpa using hcont)
    have henum (M : Model) : M.isEnum t = false := by
      cases t <;> first | rfl | cases hclass
    refine ⟨fun owner field => .unsupportedElement owner field t, fun M nested => ?_,
      fun M nested => ?_⟩
    · simp [elementName, hcont, hany, hkey, henum, hclass]
    · simp [Recording.elementName, hcont, hany, hkey, henum, hclass]
      rfl

theorem resolveElement_follows {x x' : Option TypeExpr} (hM : M.Mirrors M' exact)
    (h : Keeps M o root legal path known s)
    (hn : FollowsNested M o root exact legal path plain recorded) (hsame : exact → f' = f ∧ x' = x)
    (howner : f'.owner = f.owner) (hname : f'.name = f.name) (hx : MirrorsOperand x x')
    (hlegal : ∀ e d, x = some e → e.unwrap = .ok (.cls d) → M.isComposite d = true → d ∉ path →
      legal (d :: path)) :
    Follows exact (resolveElement M' o plain f' x') (Recording.resolveElement M o recorded f x) s
      (fun name? s' => name? = operandType? M o root x ∧
        Gains M o root legal path known s.1.draft.pending s')
      (Quits legal path) := by
  cases x with
  | none =>
      refine failField_follows h (fun he => ?_)
      obtain ⟨rfl, rfl⟩ := hsame he
      rw [resolveElement, failField_congr hM]
  | some e =>
      simp only [Recording.resolveElement]
      cases hu : e.unwrap with
      | error why =>
          refine failField_follows h (fun he => ?_)
          obtain ⟨rfl, rfl⟩ := hsame he
          simp only [resolveElement, hu, failField_congr hM]
      | ok t =>
          rw [operandType?_of_unwrap hu]
          cases hel : t.isElement with
          | true =>
              obtain ⟨e', rfl, hu'⟩ := hx.unwrap e t rfl hu hel
              simp only [resolveElement, hu']
              exact elementName_follows hM h hn (fun he => (hsame he).1) howner hname
                (fun d hd => hlegal e d rfl (hd ▸ hu))
          | false =>
              obtain ⟨fault, hplain, hrecorded⟩ := exists_failField f o hel
              simp only [hrecorded]
              refine failField_follows h (fun he => ?_)
              obtain ⟨rfl, rfl⟩ := hsame he
              simp only [resolveElement, hu, hplain, failField_congr hM]

structure Writable (M M' : Model) (exact : Prop) (legal : List ClassRef → Prop) (c : ClassRef)
    (path : List ClassRef) (f f' : Field) : Prop where
  mirrors : MirrorsField M M' exact f f'
  owner : f.owner = .cls c
  legal : ∀ d, f.Uses (.cls d) → M.isComposite d = true → d ∉ c :: path → legal (d :: c :: path)

theorem Writable.operand {x : Option TypeExpr} (h : Writable M M' exact legal c path f f')
    (hx : x ∈ f.operands) : ∀ e d, x = some e → e.unwrap = .ok (.cls d) → M.isComposite d = true →
      d ∉ c :: path → legal (d :: c :: path) := by
  rintro e d rfl hu
  exact h.legal d ⟨e, hx, hu⟩

theorem buildEntry_follows (hM : M.Mirrors M' exact) (h : Keeps M o root legal (c :: path) known s)
    (hn : FollowsNested M o root exact legal (c :: path) plain recorded)
    (hf : Writable M M' exact legal c path f f') (hm : f.shape = .map) :
    Follows exact (buildEntry M' o plain f') (Recording.buildEntry M o recorded f) s
      (fun _ s' => Gains M o root legal (c :: path) known s.1.draft.pending s' ∧
        ∃ name key, s'.1.draft.blocks.getLast? =
          some (.mapEntry name key ((operandType? M o root f.element).getD defaultType)))
      (Quits legal (c :: path)) := by
  have hops := Field.operands_of_map hm
  unfold buildEntry Recording.buildEntry
  by_cases hk : f.key.isNone = true
  · have hk' : f'.key.isNone = true := by
      rw [← Option.not_isSome, hf.mirrors.key.isSome, Option.not_isSome, hk]
    rw [if_pos hk, if_pos hk']
    exact failField_follows h (fun he => by rw [hf.mirrors.same he, failField_congr hM])
  have hk' : ¬ f'.key.isNone = true := by
    rw [← Option.not_isSome, hf.mirrors.key.isSome, Option.not_isSome]
    exact hk
  rw [if_neg hk, if_neg hk', hf.mirrors.owner, hf.mirrors.name, hf.owner]
  have hsame (he : exact) : f' = f ∧ f'.key = f.key ∧ f'.element = f.element := by
    rw [hf.mirrors.same he]
    exact ⟨rfl, rfl, rfl⟩
  refine Follows.bind (resolveElement_follows hM h hn (fun he => ⟨(hsame he).1, (hsame he).2.1⟩)
    hf.mirrors.owner hf.mirrors.name hf.mirrors.key (hf.operand (by simp [hops]))) ?_
  rintro _ s₁ ⟨rfl, known₁, hk₁, h₁, hp₁⟩
  refine Follows.bind (resolveElement_follows hM h₁ hn (fun he => ⟨(hsame he).1, (hsame he).2.2⟩)
    hf.mirrors.owner hf.mirrors.name hf.mirrors.element (hf.operand (by simp [hops]))) ?_
  rintro _ s₂ ⟨rfl, known₂, hk₂, h₂, hp₂⟩
  refine Follows.bind (registeredName_follows h₂ (h₂.steady.opened c List.mem_cons_self)) ?_
  rintro _ s₃ ⟨rfl, hs⟩
  rw [hs]
  refine Follows.bind (q := fun _ s' => Gains M o root legal (c :: path) known s.1.draft.pending s' ∧
      ∃ name key, s'.1.draft.blocks.getLast? =
        some (.mapEntry name key ((operandType? M o root f.element).getD defaultType)))
    (.of_ends (onDraft_ends ((Draft.emitEntry_ends h₂.steady.draft _ _ _).mono ?_
      (fun _ _ _ => h₂.quits)))) (fun _ _ hg => .of_pure hg)
  rintro _ d ⟨hd, hb, hp⟩
  have hlast := congrArg List.getLast? hb
  rw [List.getLast?_concat] at hlast
  exact ⟨⟨known₂, fun x hx => hk₂ x (hk₁ x hx), h₂.redraft hd (by rw [hp]),
    hp.trans (hp₂.trans hp₁)⟩, _, _, hlast⟩

end Compiler

end ClassSchema
