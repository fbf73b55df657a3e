import ClassSchema.Proofs.Causes
import ClassSchema.Proofs.Visits

namespace ClassSchema

/-- Pieces have been added. Of the entries of the open classes, only `new` ones. -/
structure Grown (path : List ClassRef) (new : List Part) (ps ps' : List Piece) : Prop where
  suffix : ps <:+ ps'
  entries : ∀ c ∈ path, ∀ name, .entry c name ∈ parts ps' →
    .entry c name ∈ parts ps ∨ .entry c name ∈ new

namespace Grown

variable {path : List ClassRef} {new new' : List Part} {ps ps' ps'' : List Piece}

theorem refl : Grown path [] ps ps := ⟨List.suffix_rfl, fun _ _ _ h => Or.inl h⟩

theorem trans (h : Grown path new ps ps') (h' : Grown path new' ps' ps'') :
    Grown path (new ++ new') ps ps'' where
  suffix := h.suffix.trans h'.suffix
  entries := by
    intro c hc name hp
    rcases h'.entries c hc name hp with hp | hp
    · exact (h.entries c hc name hp).imp_right (List.mem_append_left _)
    · exact Or.inr (List.mem_append_right _ hp)

theorem mono (h : Grown path new ps ps') (hn : new ⊆ new') : Grown path new' ps ps' where
  suffix := h.suffix
  entries := fun c hc name hp => (h.entries c hc name hp).imp_right (fun hp => hn hp)

theorem cons {p : Piece} (h : Grown path new ps ps')
    (hp : ∀ c ∈ path, ∀ name, p.part = .entry c name → p.part ∈ new) : Grown path new ps (p :: ps') where
  suffix := h.suffix.trans (List.suffix_cons _ _)
  entries := by
    intro c hc name hmem
    rcases List.mem_cons.mp hmem with hmem | hmem
    · exact Or.inr (hmem ▸ hp c hc name hmem.symm)
    · exact h.entries c hc name hmem

theorem entries_new {c : ClassRef} {f : Field} {fs : List Field}
    (h : Grown (c :: path) [.entry c f.name] ps ps') (hout : f.name ∉ fs.map Field.name)
    (hnew : ∀ g ∈ fs, .entry c g.name ∉ parts ps) : ∀ g ∈ fs, .entry c g.name ∉ parts ps' := by
  intro g hg hp
  rcases h.entries c List.mem_cons_self _ hp with hp | hp
  · exact hnew g hg hp
  · have hname : g.name = f.name := (Part.entry.inj (List.mem_singleton.mp hp)).2
    exact hout (hname ▸ List.mem_map_of_mem hg)

end Grown

namespace Compiler

open Compiling

variable (M : Model) (o : Options) (root : ClassRef)

/-- The class is open, or its part has been written. -/
def Met (path : List ClassRef) (ps : List Piece) (c : ClassRef) : Prop :=
  c ∈ path ∨ ∃ p, M.part? (.cls c) = some p ∧ p ∈ parts ps

/-- The state of a compilation that is inside the classes of `path` and has written the pieces `ps`,
with the messages `pending` open. -/
structure At (path : List ClassRef) (ps : List Piece) (pending : List OpenMessage) (s : Progress) :
    Prop where
  trail : s.trail = Trail.along path
  registry : s.registry.Knows (Met M path ps) (className M o root)
  draft : s.draft.Consistent
  blocks : s.draft.blocks = blocksOf M o root ps
  pending : s.draft.pending = pending
  sound : Sound M o root ps
  closed : ∀ c ∈ path, .message c ∉ parts ps
  entries : ∀ c name, .entry c name ∈ parts ps → c ∈ path ∨ .message c ∈ parts ps

/-- A step that started with the pieces `ps` has come to more of them, which meet `goal`. -/
def Advances (path : List ClassRef) (new : List Part) (ps : List Piece) (pending : List OpenMessage)
    (goal : List Piece → Prop) (s : Progress) : Prop :=
  ∃ ps', Grown path new ps ps' ∧ At M o root path ps' pending s ∧ goal ps'

/-- A step has failed for a cause, on the trail that it started on. -/
def Fails (path : List ClassRef) (fault : Fault) (s : Progress) : Prop :=
  s.trail = Trail.along path ∧ Cause M o root fault

/-- Compiling a class that is met for the first time adds what entering it does. -/
def Nests (nested : TypeExpr → Compiling String) (enter : List Piece → ClassRef → List Piece)
    (path : List ClassRef) : Prop :=
  ∀ d ps pending s, M.Way root (d :: path) → .message d ∉ parts ps → At M o root path ps pending s →
    Ends (nested (.cls d)) s
      (fun _ s' => Advances M o root path [] ps pending
        (fun ps' => ps' = enter ps d ∧ .message d ∈ parts ps') s')
      (Fails M o root path)

variable {M : Model} {o : Options} {root c d e : ClassRef} {path : List ClassRef} {ps : List Piece}
  {pending : List OpenMessage} {s : Progress} {f : Field} {t : TypeExpr}

theorem At.contains_cls (h : At M o root path ps pending s) (c : ClassRef) :
    s.registry.contains (.cls c) = true ↔ Met M path ps c :=
  h.registry.contains_cls c

theorem met_of_mem {p : Part} (hp : M.part? (.cls c) = some p) (h : p ∈ parts ps) : Met M path ps c :=
  Or.inr ⟨p, hp, h⟩

theorem Met.stands (h : Met M path ps c) (hc : c ∉ path) : M.Stands ps (.cls c) := by
  obtain ⟨p, hp, hps⟩ := h.resolve_left hc
  intro q hq
  rw [hp] at hq
  exact Option.some.inj hq ▸ hps

theorem met_cons {p : Piece} :
    Met M path (p :: ps) c ↔ M.part? (.cls c) = some p.part ∨ Met M path ps c := by
  constructor
  · rintro (hc | ⟨q, hq, hmem⟩)
    · exact Or.inr (Or.inl hc)
    · rcases List.mem_cons.mp hmem with rfl | hmem
      · exact Or.inl hq
      · exact Or.inr (met_of_mem hq hmem)
  · rintro (hc | hc | ⟨q, hq, hmem⟩)
    · exact met_of_mem hc List.mem_cons_self
    · exact Or.inl hc
    · exact met_of_mem hq (List.mem_cons_of_mem _ hmem)

theorem met_write {p : Piece} (hp : M.part? (.cls d) = some p.part) :
    Met M path (p :: ps) c ↔ c = d ∨ Met M path ps c := by
  rw [met_cons]
  exact or_congr_left ⟨fun hc => Model.part?_inj hc hp, fun hc => hc ▸ hp⟩

theorem At.contains_of_part?_eq_none (h : At M o root path ps pending s)
    (hpath : ∀ c ∈ path, M.isComposite c = true) (ht : M.part? t = none) :
    s.registry.contains t = false := by
  cases t with
  | cls c =>
      rw [Bool.eq_false_iff]
      intro hc
      rcases (h.contains_cls c).mp hc with hc | ⟨p, hp, _⟩
      · rw [Model.part?_composite (hpath c hc)] at ht
        cases ht
      · rw [hp] at ht
        cases ht
  | _ => exact h.registry.contains_of_not_class rfl

theorem isRegistered_ends {post : Bool → Progress → Prop} {fails : Fault → Progress → Prop}
    (h : post (s.registry.contains t) s) : Ends (isRegistered t) s post fails :=
  Ends.bind (Ends.of_get (Ends.of_pure h))

theorem registeredName_ends {name : String} {post : String → Progress → Prop}
    {fails : Fault → Progress → Prop} (hn : s.registry.nameOf t = .ok name) (h : post name s) :
    Ends (registeredName t) s post fails := by
  apply Ends.bind
  apply Ends.of_get
  rw [hn]
  exact Ends.of_pure h

theorem requireName_ends {post : String → Progress → Prop} {fails : Fault → Progress → Prop}
    (h : post (M.simpleName c) s) : Ends (fromResult (M.requireName (.cls c))) s post fails :=
  Ends.of_pure h

theorem failField_ends {α : Type} {fault : String → String → Fault} {post : α → Progress → Prop}
    (hf : f ∈ M.fieldsOf c) (hs : s.trail = Trail.along path)
    (hc : Cause M o root (fault (M.simpleName c) f.name)) :
    Ends (failField M f fault) s post (Fails M o root path) := by
  unfold failField
  rw [Model.owner_of_field hf]
  exact Ends.bind (requireName_ends (Ends.of_throw ⟨hs, hc⟩))

/-- The check passes for a class that is not on the trail, and else the trail shows a cycle. -/
theorem checkCycle_ends (hway : M.Way root (c :: path)) (h : At M o root (c :: path) ps pending s)
    (hf : f ∈ M.fieldsOf c) (hu : f.Uses (.cls d)) (hd : M.isComposite d = true) :
    Ends (checkCycle M f (.cls d)) s (fun _ s' => s' = s ∧ d ∉ c :: path)
      (Fails M o root (c :: path)) := by
  have hr : M.Refers c d := ⟨⟨f, hf, hu⟩, hd⟩
  unfold checkCycle
  apply Ends.bind
  apply Ends.of_get
  simp only [h.trail, Trail.contains_along, decide_eq_true_eq]
  by_cases hm : d ∈ c :: path
  · rw [if_pos hm]
    obtain ⟨outer, rest, hp, hchain, text, htext⟩ := Trail.chain_along M hm
    rw [Model.owner_of_field hf, htext, hchain]
    refine Ends.bind (requireName_ends (Ends.bind (Ends.discard (requireName_ends ?_))))
    refine Ends.bind (Ends.discard (Ends.of_pure (Ends.bind (Ends.of_pure (Ends.of_throw ?_)))))
    have hway' : (c :: path).reverse.IsChain M.Refers := List.isChain_reverse.mpr hway.isChain
    have hlast : (d :: rest).getLast? = some c := by
      have hl : (c :: path).reverse.getLast? = some c := by simp
      rw [hp, List.getLast?_append] at hl
      simpa using hl
    rw [hp] at hway'
    refine ⟨h.trail, Cause.cycle (hway.reachable d hm) hf hu hlast ?_⟩
    refine List.IsChain.append hway'.right_of_append (.singleton d) ?_
    intro x hx y hy
    rw [hlast] at hx
    cases hx
    cases hy
    exact hr
  · rw [if_neg hm]
    exact Ends.of_pure ⟨rfl, hm⟩

theorem registerHere_ends {known : ClassRef → Prop} {fails : Fault → Progress → Prop}
    (hs : s.trail = Trail.along path) (hr : s.registry.Knows known (className M o root))
    (hc : ¬ known c) :
    Ends (registerHere M (.cls c) (className M o root c)) s
      (fun _ s' => ∃ r, s' = { s with registry := r } ∧
        r.Knows (fun d => d = c ∨ known d) (className M o root)) fails := by
  obtain ⟨text, htext⟩ := Trail.path_along M path
  rw [← hs] at htext
  obtain ⟨r, hreg, hknows⟩ := hr.register hc text
  refine Ends.bind (Ends.of_get (Ends.bind ?_))
  rw [htext]
  refine Ends.of_pure (Ends.bind (Ends.of_get (Ends.bind ?_)))
  rw [hreg]
  exact Ends.of_pure (Ends.of_modify ⟨r, rfl, hknows⟩)

theorem cause_of_clashes {q : Part} {d : Draft} {name : String} {fault : Fault}
    (hb : d.blocks = blocksOf M o root ps) (hs : Sound M o root ps) (hq : M.Needs root q)
    (hnew : q ∉ parts ps) (hn : name ∈ partNames M o root q) (h : d.Clashes name q.kind fault) :
    Cause M o root fault := by
  obtain ⟨b, hmem, hbn, hk, rfl⟩ := h
  rw [hb, mem_blocksOf] at hmem
  obtain ⟨p, hp, hbp⟩ := hmem
  have hpart : p.part ∈ parts ps := List.mem_map_of_mem hp
  rw [pieceBlocks_kind p hbp] at hk ⊢
  refine Cause.nameClash (hs.needs _ hpart) hq (fun he => hnew (he ▸ hpart)) hk ?_ hn
  rw [← pieceBlocks_names, ← hbn]
  exact List.mem_map_of_mem hbp

theorem At.write {p : Piece} {r : Registry} {d : Draft} (h : At M o root path ps pending s)
    (hnew : p.part ∉ parts ps) (hn : M.Needs root p.part) (hf : Fits M o root ps p)
    (hr : r.Knows (Met M path (p :: ps)) (className M o root))
    (hd : d.Consistent) (hb : d.blocks = s.draft.blocks ++ pieceBlocks M o root p)
    (hp : d.pending = pending) (hm : ∀ c, p.part ≠ .message c)
    (he : ∀ c name, p.part = .entry c name → c ∈ path) :
    At M o root path (p :: ps) pending { s with registry := r, draft := d } where
  trail := h.trail
  registry := hr
  draft := hd
  blocks := by rw [blocksOf_cons, ← h.blocks]; exact hb
  pending := hp
  sound := .piece h.sound hnew hn hf
  closed := by
    intro c hc hmem
    rcases List.mem_cons.mp hmem with hmem | hmem
    · exact hm c hmem.symm
    · exact h.closed c hc hmem
  entries := by
    intro c name hmem
    rcases List.mem_cons.mp hmem with hmem | hmem
    · exact Or.inl (he c name hmem.symm)
    · exact (h.entries c name hmem).imp_right (List.mem_cons_of_mem _)

theorem writeEnum_ends {r : Registry} (h : At M o root path ps pending s)
    (hr : r.Knows (fun d => d = e ∨ Met M path ps d) (className M o root)) (he : M.isEnumClass e = true)
    (hneeds : M.Needs root (.enumeration e)) (hnew : .enumeration e ∉ parts ps) :
    Ends (onDraft (Draft.emitEnum (className M o root e) (M.constants e))) { s with registry := r }
      (fun _ s' => Advances M o root path [] ps pending
        (fun ps' => ps' = .enumeration e :: ps ∧ M.Stands ps' (.cls e)) s')
      (Fails M o root path) := by
  have hpart := Model.part?_enum he
  have hname : className M o root e = Name.enumName (M.simpleName e) o.affix := className_of_enum he
  have hnoMessage (d : ClassRef) : Part.enumeration e ≠ .message d := by simp
  have hnoEntry (d : ClassRef) (name : String) : Part.enumeration e ≠ .entry d name := by simp
  refine onDraft_ends ((Draft.emitEnum_ends h.draft _ _).mono ?_ ?_)
  · rintro _ d ⟨hne, hd, hb, hp⟩
    refine ⟨.enumeration e :: ps, Grown.refl.cons ?_, ?_, rfl, ?_⟩
    · exact fun d _ name hk => absurd hk (hnoEntry d name)
    · refine h.write hnew hneeds hne ?_ hd ?_ (hp.trans h.pending) hnoMessage
        (fun d name hk => absurd hk (hnoEntry d name))
      · exact hr.congr (fun _ => (met_write hpart).symm)
      · rw [hb, hname]
        rfl
    · intro q hq
      rw [hpart] at hq
      exact Option.some.inj hq ▸ List.mem_cons_self
  · rintro fault d (⟨hnil, rfl⟩ | hcl)
    · exact ⟨h.trail, hname ▸ Cause.emptyEnum hneeds hnil⟩
    · exact ⟨h.trail, cause_of_clashes h.blocks h.sound hneeds hnew (by simp [partNames, hname]) hcl⟩

theorem ensureEnum_ends (enter : List Piece → ClassRef → List Piece)
    (hroot : M.isComposite root = true) (hway : M.Way root (c :: path))
    (h : At M o root (c :: path) ps pending s) (he : M.isEnumClass e = true)
    (hm : M.Mentions c (.cls e)) :
    Ends (ensureEnum M o (.cls e)) s
      (fun name s' => name = className M o root e ∧
        Advances M o root (c :: path) [] ps pending
          (fun ps' => ps' = meet M enter ps (.cls e) ∧ M.Stands ps' (.cls e)) s')
      (Fails M o root (c :: path)) := by
  have hpart := Model.part?_enum he
  have hout : e ∉ c :: path := by
    intro hp
    rw [Model.part?_composite (hway.composite hroot e hp)] at hpart
    cases hpart
  unfold ensureEnum
  apply Ends.bind
  apply isRegistered_ends
  by_cases hreg : s.registry.contains (.cls e) = true
  · rw [if_pos hreg]
    have hmet := (h.contains_cls e).mp hreg
    have hst := hmet.stands hout
    exact registeredName_ends (h.registry.nameOf_cls hmet)
      ⟨rfl, ps, .refl, h, (meet_of_stands hst).symm, hst⟩
  · rw [if_neg hreg]
    rw [h.contains_cls] at hreg
    have hnew : Part.enumeration e ∉ parts ps := fun hp => hreg (met_of_mem hpart hp)
    have hneeds : M.Needs root (.enumeration e) :=
      ⟨he, c, hway.reachable c List.mem_cons_self, hm⟩
    have hname : className M o root e = Name.enumName (M.simpleName e) o.affix := className_of_enum he
    obtain ⟨x, hx, hxt, hxc⟩ := Model.describeClass_enum he
    simp only [Model.describe, hx, fromResult, pure_bind, hxt, hxc, ← hname]
    refine Ends.bind (within_ends h.trail hout ?_)
    have htrail : ({ s with trail := Trail.along (e :: c :: path) } : Progress).trail =
        Trail.along (e :: c :: path) := rfl
    refine (registerHere_ends htrail h.registry hreg).mono ?_ (fun _ _ hf => hf)
    rintro _ _ ⟨r, rfl, hr⟩
    rw [← h.trail]
    rw [meet_newEnum he hnew]
    refine ⟨rfl, (writeEnum_ends h hr he hneeds hnew).andThen ?_⟩
    exact fun _ s' hadv => Ends.of_pure ⟨rfl, hadv⟩

end Compiler

end ClassSchema
