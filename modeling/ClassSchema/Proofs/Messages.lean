import ClassSchema.Proofs.Fields

namespace ClassSchema

namespace Compiler

open Compiling

variable {M : Model} {o : Options} {root c d : ClassRef} {path : List ClassRef} {ps ps' : List Piece}
  {pending : List OpenMessage} {s : Progress}

theorem At.begin {r : Registry} {e : Draft} {m : OpenMessage} (h : At M o root path ps pending s)
    (hnew : .message c ∉ parts ps) (hr : r.Knows (fun d => d = c ∨ Met M path ps d) (className M o root))
    (he : e.Consistent) (hb : e.blocks = s.draft.blocks) (hp : e.pending = m :: pending) :
    At M o root (c :: path) ps (m :: pending)
      { registry := r, trail := Trail.along (c :: path), draft := e } where
  trail := rfl
  registry := hr.congr (fun d => by simp only [Met, List.mem_cons, or_assoc])
  draft := he
  blocks := hb.trans h.blocks
  pending := hp
  sound := h.sound
  closed := List.forall_mem_cons.mpr ⟨hnew, h.closed⟩
  entries := fun d name hmem => (h.entries d name hmem).imp_left (List.mem_cons_of_mem c)

theorem At.finish {lines : List Line} {e : Draft} (h : At M o root (c :: path) ps pending s)
    (hc : M.isComposite c = true) (hout : c ∉ path) (hreach : M.Reachable root c)
    (hfit : Fits M o root ps (.message c lines)) (he : e.Consistent)
    (hb : e.blocks = s.draft.blocks ++ pieceBlocks M o root (.message c lines)) :
    At M o root path (.message c lines :: ps) e.pending
      { s with trail := Trail.along path, draft := e } where
  trail := rfl
  registry := h.registry.congr (fun d => by
    rw [met_write (Model.part?_composite hc)]
    simp only [Met, List.mem_cons, or_assoc])
  draft := he
  blocks := by rw [blocksOf_cons, ← h.blocks]; exact hb
  pending := rfl
  sound := .piece h.sound (h.closed c List.mem_cons_self) hreach hfit
  closed := by
    intro d hd hmem
    rcases List.mem_cons.mp hmem with hmem | hmem
    · exact hout (Part.message.inj hmem ▸ hd)
    · exact h.closed d (List.mem_cons_of_mem c hd) hmem
  entries := by
    intro d name hmem
    rcases List.mem_cons.mp hmem with hmem | hmem
    · cases hmem
    · rcases h.entries d name hmem with hd | hd
      · rcases List.mem_cons.mp hd with rfl | hd
        · exact Or.inr List.mem_cons_self
        · exact Or.inl hd
      · exact Or.inr (List.mem_cons_of_mem _ hd)

theorem endMessage_ends {x : Description} {lines : List Line} (hroot : M.isComposite root = true)
    (hway : M.Way root (c :: path)) (hx : M.describeClass c = .ok x)
    (h : At M o root (c :: path) ps
      ({ name := messageName M o root c, wrapped := true, lines } :: pending) s)
    (hfill : Filled M o root c x.fields lines ps) :
    Ends (discard (onDraft Draft.endMessage)) s
      (fun _ s' => s'.trail = Trail.along (c :: path) ∧
        At M o root path (.message c lines :: ps) pending { s' with trail := Trail.along path })
      (Fails M o root (c :: path)) := by
  have hreach : M.Reachable root c := hway.reachable c List.mem_cons_self
  have hout : c ∉ path := (List.nodup_cons.mp hway.nodup).1
  have hclosed : .message c ∉ parts ps := h.closed c List.mem_cons_self
  refine Ends.discard (onDraft_ends ((Draft.endMessage_ends h.draft h.pending rfl rfl).mono ?_ ?_))
  · rintro _ d ⟨hlegal, hd, hb, hp⟩
    have hfit : Fits M o root ps (.message c lines) := ⟨hlegal, x, hx, hfill⟩
    refine ⟨h.trail, ?_⟩
    rw [← hp]
    exact h.finish (hway.composite hroot c List.mem_cons_self) hout hreach hfit hd hb
  · rintro fault d (hcl | hcl | ⟨hlegal, rfl⟩)
    · exact ⟨h.trail, cause_of_clashes (q := .message c) h.blocks h.sound hreach hclosed
        (by simp [partNames]) hcl⟩
    · exact ⟨h.trail, cause_of_clashes (q := .message c) h.blocks h.sound hreach hclosed
        (by simp [partNames]) hcl⟩
    · exact ⟨h.trail, Cause.illegalMessageName hreach hlegal⟩

theorem Grown.leave {fs : List Field} {lines : List Line}
    (h : Grown (c :: path) (fs.map (fun f => .entry c f.name)) ps ps') (hout : c ∉ path) :
    Grown path [] ps (.message c lines :: ps') where
  suffix := h.suffix.trans (List.suffix_cons _ _)
  entries := by
    intro d hd name hmem
    rcases List.mem_cons.mp hmem with hmem | hmem
    · cases hmem
    · refine Or.inl ((h.entries d (List.mem_cons_of_mem c hd) name hmem).resolve_right ?_)
      intro hnew
      obtain ⟨f, _, hf⟩ := List.mem_map.mp hnew
      exact hout ((Part.entry.inj hf).1 ▸ hd)

theorem not_met (hroot : M.isComposite root = true) (hway : M.Way root (c :: path))
    (hnew : .message c ∉ parts ps) : ¬ Met M path ps c := by
  intro hmet
  have hcomp := hway.composite hroot c List.mem_cons_self
  exact hnew (hmet.stands (List.nodup_cons.mp hway.nodup).1 _ (Model.part?_composite hcomp))

theorem At.entries_new (h : At M o root path ps pending s) (hout : c ∉ path)
    (hnew : .message c ∉ parts ps) (name : String) : .entry c name ∉ parts ps :=
  fun hmem => (h.entries c name hmem).elim hout hnew

theorem insideClass_ends {nested : TypeExpr → Compiling String} {x : Description}
    {enter : List Piece → ClassRef → List Piece} (hroot : M.isComposite root = true)
    (hway : M.Way root (c :: path)) (hn : Nests M o root nested enter (c :: path)) (hx : M.describeClass c = .ok x)
    (hnew : .message c ∉ parts ps) (h : At M o root path ps pending s) :
    Ends (do
        registerHere M (.cls c) (messageName M o root c)
        onDraft (Draft.beginMessage (messageName M o root c) true)
        classifyFields M o nested 1 x.fields
        discard (onDraft Draft.endMessage))
      { s with trail := Trail.along (c :: path) }
      (fun _ s' => s'.trail = Trail.along (c :: path) ∧
        Advances M o root path [] ps pending
          (fun ps' => ps' = .message c (linesFrom M o root enter c 0 ps x.fields) ::
            x.fields.foldl (meetField M enter c) ps)
          { s' with trail := Trail.along path })
      (Fails M o root (c :: path)) := by
  have hcomp : M.isComposite c = true := hway.composite hroot c List.mem_cons_self
  have hout : c ∉ path := (List.nodup_cons.mp hway.nodup).1
  have htrail : ({ s with trail := Trail.along (c :: path) } : Progress).trail =
      Trail.along (c :: path) := rfl
  have hfields : M.fieldsOf c = x.fields := Model.fieldsOf_of_describeClass hx
  rw [← className_of_composite hcomp]
  refine (registerHere_ends htrail h.registry (not_met hroot hway hnew)).andThen ?_
  rintro _ _ ⟨r, rfl, hr⟩
  refine Ends.bind (onDraft_ends ((Draft.beginMessage_ends h.draft _ true).mono ?_ (fun _ _ hf => hf)))
  rintro _ d ⟨hd, hb, hp⟩
  rw [h.pending] at hp
  have hat := h.begin hnew hr hd hb hp
  have hentries : ∀ f ∈ x.fields, .entry c f.name ∉ parts ps := fun f _ => h.entries_new hout hnew f.name
  refine (classifyFields_ends hroot hway hn x.fields hat (.none ps) (fun f hf => hfields ▸ hf)
    (Model.describeClass_nodup hx) hentries).andThen ?_
  rintro _ s₁ ⟨ps₁, lines, hgrown, h₁, hfill, hps, hlines⟩
  rw [className_of_composite hcomp] at h₁
  refine (endMessage_ends hroot hway hx h₁ hfill).mono ?_ (fun _ _ hf => hf)
  rintro _ s₂ ⟨ht, h₂⟩
  exact ⟨ht, .message c lines :: ps₁, Grown.leave hgrown hout, h₂, by rw [hps, hlines]; rfl⟩

/-- Every level that is left has a class to go into. -/
theorem buildMessage_ends (hroot : M.isComposite root = true) (levels : Nat) {policy : Name.Policy}
    (hlevels : levels + path.length = M.classes.length + 1) (hway : M.Way root (c :: path))
    (hname : policy.messageName (M.simpleName c) o.affix = messageName M o root c)
    (hnew : .message c ∉ parts ps) (h : At M o root path ps pending s) :
    Ends (buildMessage M o levels (.cls c) policy) s
      (fun _ s' => Advances M o root path [] ps pending
        (fun ps' => ps' = visit M o root levels ps c ∧ .message c ∈ parts ps') s')
      (Fails M o root path) := by
  induction levels generalizing c path ps pending s policy with
  | zero =>
      have hle := hway.length_le
      omega
  | succ levels ih =>
      have hout : c ∉ path := (List.nodup_cons.mp hway.nodup).1
      have hn : Nests M o root (fun u => buildMessage M o levels u .nested) (visit M o root levels)
          (c :: path) := by
        intro d ps pending s hway' hnew' h'
        have hne : d ≠ root := by
          rintro rfl
          exact (List.nodup_cons.mp hway'.nodup).1 hway.root_mem
        refine ih ?_ hway' ?_ hnew' h'
        · rw [List.length_cons]
          omega
        · rw [messageName_of_ne hne]
          rfl
      unfold buildMessage
      cases hx : M.describeClass c with
      | error fault =>
          simp only [Model.describe, hx]
          exact ⟨h.trail, Cause.undescribed (hway.reachable c List.mem_cons_self) hx⟩
      | ok x =>
          simp only [Model.describe, hx, fromResult, pure_bind, (Model.describeClass_ok hx).1, hname]
          refine Ends.bind (within_ends h.trail hout ?_)
          refine (insideClass_ends hroot hway hn hx hnew h).mono (fun _ s' hs => ?_) (fun _ _ hf => ?_)
          · obtain ⟨ht, ps', hgrown, h', hps⟩ := hs
            refine ⟨ht, Ends.of_pure ⟨ps', hgrown, h', ?_, hps ▸ List.mem_cons_self⟩⟩
            rw [hps, visit, Model.fieldsOf_of_describeClass hx]
          · exact ⟨hf.1, rfl, hf.2⟩

theorem checkRoot_ok {t : TypeExpr} (h : checkRoot M t = .ok ()) :
    ∃ c, t = .cls c ∧ M.isComposite c = true := by
  unfold checkRoot at h
  split at h
  next => cases h
  next =>
    split_ifs at h with hroot
    simp only [Bool.or_eq_true, Bool.not_eq_true', not_or, Bool.not_eq_true, Bool.not_eq_false] at hroot
    obtain ⟨⟨⟨⟨hany, hclass⟩, hscalar⟩, henum⟩, hcont⟩ := hroot
    obtain ⟨c, rfl⟩ := TypeExpr.exists_of_isClass hclass
    exact ⟨c, rfl, Model.isComposite_iff.mpr ⟨hany, hscalar, henum, by simpa using hcont⟩⟩

theorem checkRoot_composite (h : M.isComposite c = true) : checkRoot M (.cls c) = .ok () := by
  obtain ⟨hany, hscalar, henum, hcont⟩ := Model.isComposite_iff.mp h
  simp [checkRoot, TypeExpr.isClass, Model.isEnum, hany, hscalar, henum, hcont]

theorem At.start : At M o root [] [] [] {} where
  trail := rfl
  registry := Registry.Knows.empty (fun _ => by simp [Met, parts])
  draft := Draft.Consistent.empty
  blocks := rfl
  pending := rfl
  sound := .none
  closed := fun _ hc => absurd hc List.not_mem_nil
  entries := fun _ _ he => absurd he List.not_mem_nil

theorem buildRoot_ends (hroot : M.isComposite root = true) :
    Ends (buildMessage M o (levels M) (.cls root) .root) {}
      (fun _ s => Advances M o root [] [] [] []
        (fun ps => ps = visit M o root (levels M) [] root ∧ .message root ∈ parts ps) s)
      (Fails M o root []) := by
  refine buildMessage_ends hroot (levels M) rfl .root ?_ List.not_mem_nil .start
  rw [messageName_root]
  rfl

theorem compile_run {t : TypeExpr} {doc : Document} (h : compile M o t = .ok doc) :
    ∃ root name s, t = .cls root ∧ M.isComposite root = true ∧
      buildMessage M o (levels M) (.cls root) .root {} = .ok name s ∧ doc = documentOf o s := by
  obtain ⟨_, hc, h⟩ := bind_eq_ok.mp h
  obtain ⟨root, rfl, hroot⟩ := checkRoot_ok hc
  cases hb : buildMessage M o (levels M) (.cls root) .root {} with
  | ok name s =>
      rw [hb] at h
      cases h
      exact ⟨root, name, s, rfl, hroot, hb, rfl⟩
  | error fault s =>
      rw [hb] at h
      cases h

/-- A document holds the blocks of the pieces that a visit of the root writes, and these are sound. -/
theorem compile_visits {t : TypeExpr} {doc : Document} (h : compile M o t = .ok doc) :
    ∃ root s, t = .cls root ∧ M.isComposite root = true ∧
      At M o root [] (visit M o root (levels M) [] root) [] s ∧
      .message root ∈ parts (visit M o root (levels M) [] root) ∧ doc = documentOf o s := by
  obtain ⟨root, name, s, ht, hroot, hb, hdoc⟩ := compile_run h
  obtain ⟨_, _, hat, rfl, hmem⟩ := (buildRoot_ends hroot).of_ok hb
  exact ⟨root, s, ht, hroot, hat, hmem, hdoc⟩

theorem compile_ok {t : TypeExpr} {doc : Document} (h : compile M o t = .ok doc) :
    ∃ root ps s, t = .cls root ∧ M.isComposite root = true ∧ At M o root [] ps [] s ∧
      .message root ∈ parts ps ∧ doc = documentOf o s := by
  obtain ⟨root, s, ht, hroot, hat, hmem, hdoc⟩ := compile_visits h
  exact ⟨root, _, s, ht, hroot, hat, hmem, hdoc⟩

theorem compile_error {fault : Fault} (hroot : M.isComposite root = true)
    (h : compile M o (.cls root) = .error fault) : Cause M o root fault := by
  simp only [compile, checkRoot_composite hroot, bind, Except.bind] at h
  cases hb : buildMessage M o (levels M) (.cls root) .root {} with
  | ok name s =>
      rw [hb] at h
      cases h
  | error fault s =>
      rw [hb] at h
      cases h
      exact ((buildRoot_ends hroot).of_error hb).2

end Compiler

end ClassSchema
