import ClassSchema.Proofs.Lockstep.Fields

namespace ClassSchema

namespace Compiler

open Compiling

variable {M M' : Model} {o : Options} {root c d e : ClassRef} {legal : List ClassRef → Prop}
  {path : List ClassRef} {known : ClassRef → Prop} {s : Progress × Record} {exact : Prop} {f f' : Field}
  {t : TypeExpr} {α : Type} {plain : TypeExpr → Compiling String}
  {recorded : TypeExpr → Recording String} {m : OpenMessage} {rest : List OpenMessage} {ordinal : Int}

/-- Which paths may be gone into: with a class on one, the classes that it refers to. -/
def Legal (M : Model) (legal : List ClassRef → Prop) : Prop :=
  ∀ c d path, legal (c :: path) → M.Refers c d → d ∉ c :: path → legal (d :: c :: path)

/-- Both sides have the same room, or room for every legal path. -/
def Roomy (legal : List ClassRef → Prop) (path : List ClassRef) (levels levels' : Nat) : Prop :=
  levels = levels' ∨ ∀ p, legal p → p.length ≤ levels + path.length ∧ p.length ≤ levels' + path.length

theorem Roomy.succ {levels levels' : Nat} (h : Roomy legal path (levels + 1) (levels' + 1)) :
    Roomy legal (c :: path) levels levels' := by
  refine h.imp Nat.succ.inj fun h p hp => ?_
  obtain ⟨hl, hl'⟩ := h p hp
  rw [List.length_cons]
  omega

theorem Keeps.call (h : Keeps M o root legal path known s) (hc : ¬ known c) (hl : legal (c :: path)) :
    ({ s.2 with calls := ((c :: path).map TypeExpr.cls) :: s.2.calls } : Record).Sane legal where
  calls := List.forall_mem_cons.mpr ⟨⟨_, rfl, hl⟩, h.sane.calls⟩
  once := by
    refine List.nodup_cons.mpr ⟨fun hmem => ?_, h.sane.once⟩
    obtain ⟨k, hk, hhead⟩ := List.mem_map.mp hmem
    exact hc (h.begun k hk c hhead)
  trails := h.sane.trails

theorem Keeps.opens {r : Registry} {d : Draft} {wrapped : Bool}
    (h : Keeps M o root legal path known s) (hout : c ∉ path) (hc : M.isComposite c = true)
    (hnew : ¬ known c) (hrooted : root ∈ c :: path) (hl : legal (c :: path))
    (hr : r.Knows (fun x => x = c ∨ known x) (className M o root)) (hd : d.Consistent)
    (hp : d.pending = { name := messageName M o root c, wrapped } :: s.1.draft.pending) :
    Keeps M o root legal (c :: path) (fun x => x = c ∨ known x)
      ({ registry := r, trail := Trail.along (c :: path), draft := d },
        { s.2 with calls := ((c :: path).map TypeExpr.cls) :: s.2.calls }.onPath (c :: path)) where
  steady :=
    { trail := rfl
      registry := hr
      draft := hd
      messages := by rw [hp, List.map_cons, h.steady.messages, List.map_cons]
      parts := by
        rintro x (rfl | hx)
        · exact ⟨_, Model.part?_composite hc⟩
        · exact h.steady.parts x hx
      composite := List.forall_mem_cons.mpr ⟨hc, h.steady.composite⟩
      opened := List.forall_mem_cons.mpr ⟨Or.inl rfl, fun x hx => Or.inr (h.steady.opened x hx)⟩
      nodup := List.nodup_cons.mpr ⟨hout, h.steady.nodup⟩
      rooted := Or.inr hrooted }
  sane := (h.call hnew hl).onPath (List.nodup_cons.mpr ⟨hout, h.steady.nodup⟩)
  begun := by
    intro k hk x hx
    rcases List.mem_cons.mp hk with rfl | hk
    · cases hx
      exact Or.inl rfl
    · exact Or.inr (h.begun k hk x hx)

theorem Keeps.closes {d : Draft} (h : Keeps M o root legal (c :: path) known s) (hd : d.Consistent)
    (hm : s.1.draft.pending = m :: rest) (hp : d.pending = rest) (hrooted : path = [] ∨ root ∈ path) :
    Keeps M o root legal path known
      ({ s.1 with trail := Trail.along path, draft := d }, s.2.onPath path) where
  steady :=
    { trail := rfl
      registry := h.steady.registry
      draft := hd
      messages := by
        have hmessages := h.steady.messages
        rw [hm, List.map_cons, List.map_cons] at hmessages
        rw [hp]
        exact (List.cons.inj hmessages).2
      parts := h.steady.parts
      composite := fun x hx => h.steady.composite x (List.mem_cons_of_mem c hx)
      opened := fun x hx => h.steady.opened x (List.mem_cons_of_mem c hx)
      nodup := h.steady.nodup.of_cons
      rooted := hrooted }
  sane := h.sane.onPath h.steady.nodup.of_cons
  begun := h.begun

theorem insideClass_follows {fs fs' : List Field} (hM : M.Mirrors M' exact)
    (h : Keeps M o root legal path known s)
    (hn : FollowsNested M o root exact legal (c :: path) plain recorded) (hout : c ∉ path)
    (hc : M.isComposite c = true) (hnew : ¬ known c) (hrooted : root ∈ c :: path)
    (hl : legal (c :: path)) (hf : List.Forall₂ (Writable M M' exact legal c path) fs fs') :
    Follows exact
      (do
        registerHere M' (.cls c) (messageName M o root c)
        onDraft (Draft.beginMessage (messageName M o root c) true)
        classifyFields M' o plain 1 fs'
        discard (onDraft Draft.endMessage))
      (do
        registerHere M (.cls c) (messageName M o root c)
        onDraft (Draft.beginMessage (messageName M o root c) true)
        Recording.classifyFields M o recorded 1 fs
        discard (onDraft Draft.endMessage))
      ({ s.1 with trail := Trail.along (c :: path) },
        { s.2 with calls := ((c :: path).map TypeExpr.cls) :: s.2.calls }.onPath (c :: path))
      (fun _ s' => s'.1.trail = Trail.along (c :: path) ∧
        Gains M o root legal path (fun x => x = c ∨ known x) s.1.draft.pending
          ({ s'.1 with trail := Trail.along path }, s'.2.onPath path))
      (fun s' => s'.1.trail = Trail.along (c :: path) ∧
        Quits legal path ({ s'.1 with trail := Trail.along path }, s'.2.onPath path)) := by
  have hsane : Record.Sane legal
      ({ s.2 with calls := ((c :: path).map TypeExpr.cls) :: s.2.calls }.onPath (c :: path)) :=
    (h.call hnew hl).onPath (List.nodup_cons.mpr ⟨hout, h.steady.nodup⟩)
  have hquits {s' : Progress × Record} (hq : Quits legal (c :: path) s') :
      s'.1.trail = Trail.along (c :: path) ∧
        Quits legal path ({ s'.1 with trail := Trail.along path }, s'.2.onPath path) :=
    ⟨hq.1, rfl, hq.2.onPath h.steady.nodup⟩
  rw [registerHere_congr hM, ← className_of_composite hc]
  refine Follows.bind (q := fun _ s' => ∃ r, r.Knows (fun x => x = c ∨ known x) (className M o root) ∧
    s' = ({ registry := r, trail := Trail.along (c :: path), draft := s.1.draft },
      { s.2 with calls := ((c :: path).map TypeExpr.cls) :: s.2.calls }.onPath (c :: path)))
    (.of_ends ?_) ?_
  · have htrail : ({ s.1 with trail := Trail.along (c :: path) } : Progress).trail =
        Trail.along (c :: path) := rfl
    refine (registerHere_ends htrail h.steady.registry hnew).mono ?_ (fun _ _ hf => hf)
    rintro _ _ ⟨r, rfl, hr⟩
    exact ⟨r, hr, rfl⟩
  rintro _ _ ⟨r, hr, rfl⟩
  refine Follows.bind (q := fun _ s' => Keeps M o root legal (c :: path) (fun x => x = c ∨ known x) s' ∧
    s'.1.draft.pending = { name := messageName M o root c, wrapped := true } :: s.1.draft.pending)
    (.of_ends (onDraft_ends ((Draft.beginMessage_ends h.steady.draft _ true).mono ?_
      (fun _ _ hf => hf)))) ?_
  · rintro _ d ⟨hd, _, hp⟩
    rw [className_of_composite hc] at hp
    exact ⟨h.opens hout hc hnew hrooted hl hr hd hp, hp⟩
  rintro _ s₁ ⟨h₁, hp₁⟩
  refine Follows.bind ((classifyFields_follows hM h₁ hp₁ hn hf).mono (fun _ _ hg => hg)
    (fun _ hq => hquits hq)) ?_
  rintro _ s₂ ⟨lines, known₂, hk₂, h₂, hp₂⟩
  refine Follows.discard (.of_ends (onDraft_ends ((Draft.endMessage_ends h₂.steady.draft hp₂ rfl
    rfl).mono ?_ (fun _ _ _ => hquits h₂.quits))))
  rintro _ d ⟨_, hd, _, hp⟩
  exact ⟨h₂.steady.trail, known₂, hk₂, h₂.closes hd hp₂ hp h.steady.rooted, hp⟩

theorem writable_of_described {x x' : Description} (hlegal : Legal M legal) (hl : legal (c :: path))
    (hx : M.describeClass c = .ok x)
    (hfields : List.Forall₂ (MirrorsField M M' exact) x.fields x'.fields) :
    List.Forall₂ (Writable M M' exact legal c path) x.fields x'.fields := by
  have hmem : ∀ f ∈ x.fields, f.owner = .cls c ∧
      ∀ d, f.Uses (.cls d) → M.isComposite d = true → d ∉ c :: path → legal (d :: c :: path) := by
    intro f hf
    refine ⟨(Model.describeClass_field hx hf).1, fun d hu hd hout => ?_⟩
    rw [← Model.fieldsOf_of_describeClass hx] at hf
    exact hlegal c d path hl ⟨⟨f, hf, hu⟩, hd⟩ hout
  refine List.Forall₂.imp ?_ ((List.forall₂_and_left _ _).mpr ⟨hmem, hfields⟩)
  rintro f f' ⟨⟨howner, hl⟩, hf⟩
  exact ⟨hf, howner, hl⟩

theorem fromResult_ok {β : Type} {a : α} {next : α → Compiling β} :
    (fromResult (.ok a) >>= next) = next a := rfl

theorem Recording.fromResult_ok {β : Type} {a : α} {next : α → Recording β} :
    ((liftM (fromResult (.ok a)) : Recording α) >>= next) = next a := rfl

theorem fromResult_follows {x y : Except Fault α} {fault : Fault} {post : α → Progress × Record → Prop}
    {fails : Progress × Record → Prop} (hx : x = .error fault) (hy : exact → y = .error fault)
    (h : fails s) : Follows exact (fromResult y) (Recording.plainly (fromResult x)) s post fails := by
  subst hx
  by_cases he : exact
  · rw [hy he]
    exact .of_ends h
  · exact .of_fails he (Recording.plainly_ends h)

theorem buildMessage_follows {levels levels' : Nat} {policy : Name.Policy} (hM : M.Mirrors M' exact)
    (hlegal : Legal M legal) (hroom : Roomy legal path levels levels')
    (h : Keeps M o root legal path known s) (hl : legal (c :: path)) (hc : M.isComposite c = true)
    (hout : c ∉ path) (hnew : ¬ known c) (hrooted : root ∈ c :: path)
    (hname : policy.messageName (M.simpleName c) o.affix = messageName M o root c) :
    Follows exact (buildMessage M' o levels' (.cls c) policy)
      (Recording.buildMessage M o levels (path.map .cls) (.cls c) policy) s
      (fun _ s' => Gains M o root legal path (fun x => x = c ∨ known x) s.1.draft.pending s')
      (Quits legal path) := by
  induction levels generalizing c path known s policy levels' with
  | zero =>
      cases levels' with
      | zero => exact .noteCall (.of_throw ⟨h.steady.trail, h.call hnew hl⟩)
      | succ levels' =>
          have hlength := ((hroom.resolve_left (by simp)) _ hl).1
          rw [List.length_cons] at hlength
          omega
  | succ levels ih =>
      cases levels' with
      | zero =>
          have hlength := ((hroom.resolve_left (by simp)) _ hl).2
          rw [List.length_cons] at hlength
          omega
      | succ levels' =>
          have hn : FollowsNested M o root exact legal (c :: path)
              (fun u => buildMessage M' o levels' u .nested)
              (fun u => Recording.buildMessage M o levels ((c :: path).map .cls) u .nested) := by
            intro d known s hl' hd hout' hnew' h'
            have hne : d ≠ root := fun he => hout' (he ▸ hrooted)
            refine ih hroom.succ h' hl' hd hout' hnew' (List.mem_cons_of_mem d hrooted) ?_
            rw [messageName_of_ne hne]
            rfl
          unfold buildMessage Recording.buildMessage
          refine .noteCall ?_
          cases hx : M.describeClass c with
          | error fault =>
              refine Follows.bind (q := fun _ _ => False) ?_ (fun _ _ hf => hf.elim)
              refine fromResult_follows hx (fun he => ?_) ⟨h.steady.trail, h.call hnew hl⟩
              rw [Model.describe, hM.undescribed c fault hx he]
          | ok x =>
              obtain ⟨x', hx', hfields⟩ := hM.described c x hx
              simp only [Model.describe, hx, hx', fromResult_ok, Recording.fromResult_ok, hM.simpleName,
                (Model.describeClass_ok hx).1, (Model.describeClass_ok hx').1, hname]
              refine Follows.bind (.within h.steady.trail hout (insideClass_follows hM h hn hout hc hnew
                hrooted hl (writable_of_described hlegal hl hx hfields))) ?_
              exact fun _ _ hg => .of_pure hg

end Compiler

end ClassSchema
