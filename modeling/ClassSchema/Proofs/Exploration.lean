import ClassSchema.Proofs.Routes

namespace ClassSchema

namespace Compiler

variable (M : Model) (o : Options) (root : ClassRef)

/-- The message of a class stands on the pieces `earlier`. Before the field at place `i` there are the
pieces `done i`, whose messages are those to the left of the field, and its line is as they stand. -/
structure Placed (c : ClassRef) (ls : List Line) (earlier : List Piece) (r : List Step)
    (done : Nat → List Piece) : Prop where
  first : M.First root r c
  grows : ∀ i, done i <:+ done (i + 1)
  all : done (M.fieldsOf c).length = earlier
  length : ls.length = (M.fieldsOf c).length
  reached : ∀ i ≤ (M.fieldsOf c).length, ∀ d,
    .message d ∈ parts (done i) ↔ ∃ q, M.Route root q d ∧ LeftOf q (r ++ [⟨i, 0⟩])
  lines : ∀ (i : Nat) f, (M.fieldsOf c)[i]? = some f →
    ls[i]? = some (fieldLine M o root (parts (done i)) c (i + 1) f)

/-- The messages that have been written are those of the classes at the ends of certain routes. -/
structure Explored (through : List Step → Prop) (ps : List Piece) : Prop where
  reached : ∀ d, .message d ∈ parts ps ↔ ∃ q, M.Route root q d ∧ through q
  placed : ∀ later c ls earlier, ps = later ++ .message c ls :: earlier →
    ∃ r done, Placed M o root c ls earlier r done

/-- Entering a class from the class `c`, which has been come to along `r`. -/
def Explores (enter : List Piece → ClassRef → List Piece) (r : List Step) (c : ClassRef) : Prop :=
  ∀ s d ps, M.Leads c s d → .message d ∉ parts ps →
    Explored M o root (fun q => LeftOf q (r ++ [s])) ps →
    Explored M o root (Through (r ++ [s])) (enter ps d)

variable {M : Model} {o : Options} {root c d : ClassRef} {ps : List Piece} {r : List Step} {s : Step}
  {i j : Nat} {f : Field} {enter : List Piece → ClassRef → List Piece}

namespace Explored

variable {through through' : List Step → Prop}

theorem congr (h : Explored M o root through ps)
    (hq : ∀ q d, M.Route root q d → (through q ↔ through' q)) : Explored M o root through' ps where
  reached := by
    intro d
    rw [h.reached]
    exact exists_congr (fun q => and_congr_right (hq q d))
  placed := h.placed

theorem cons {p : Piece} (h : Explored M o root through ps) (hp : ∀ d, p.part ≠ .message d) :
    Explored M o root through (p :: ps) where
  reached := by
    intro d
    rw [← h.reached]
    exact List.mem_cons.trans (or_iff_right (fun hd => hp d hd.symm))
  placed := by
    rintro (_ | ⟨q, later⟩) d ls earlier heq
    · cases heq
      exact absurd rfl (hp d)
    · cases heq
      exact h.placed later d ls earlier rfl

theorem through_of_not_leads (hr : M.Route root r c)
    (h : Explored M o root (fun q => LeftOf q (r ++ [s])) ps) (hs : ∀ d, ¬ M.Leads c s d) :
    Explored M o root (Through (r ++ [s])) ps := by
  refine h.congr (fun q d hq => (or_iff_left ?_).symm)
  rintro ⟨u, rfl⟩
  rw [List.append_assoc] at hq
  obtain ⟨x, hx, _⟩ := hr.step hq
  exact hs x hx

theorem through_of_mem (hr : M.Route root r c)
    (h : Explored M o root (fun q => LeftOf q (r ++ [s])) ps) (hs : M.Leads c s d)
    (hd : .message d ∈ parts ps) : Explored M o root (Through (r ++ [s])) ps where
  reached := by
    intro e
    rw [h.reached]
    constructor
    · rintro ⟨q, hq, hl⟩
      exact ⟨q, hq, Or.inl hl⟩
    · rintro ⟨q, hq, hl | ⟨u, rfl⟩⟩
      · exact ⟨q, hq, hl⟩
      · rw [List.append_assoc] at hq
        obtain ⟨x, hx, hu⟩ := hr.step hq
        obtain ⟨q', hq', hl⟩ := (h.reached d).mp hd
        exact ⟨q' ++ u, Model.route_append.mpr ⟨d, hq', hs.unique hx ▸ hu⟩, hl.append u⟩
  placed := h.placed

theorem operand (hr : M.Route root r c) (henter : Explores M o root enter r c)
    (hf : (M.fieldsOf c)[s.field]? = some f) {operand : Option TypeExpr}
    (ho : f.operands[s.operand]? = some operand)
    (h : Explored M o root (fun q => LeftOf q (r ++ [s])) ps) :
    Explored M o root (Through (r ++ [s])) (meetOperand M enter ps operand) := by
  by_cases hs : ∃ d, M.Leads c s d
  · obtain ⟨d, hs⟩ := hs
    obtain ⟨e, rfl, hd, hcomp⟩ := hs.operand hf ho
    rw [meetOperand_of_unwrap hd]
    by_cases hmem : .message d ∈ parts ps
    · have hst : M.Stands ps (.cls d) := by
        intro p hp
        rw [Model.part?_composite hcomp] at hp
        exact Option.some.inj hp ▸ hmem
      rw [meet_of_stands hst]
      exact h.through_of_mem hr hs hmem
    · rw [meet_new hcomp hmem]
      exact henter s d ps hs hmem h
  · rw [not_exists] at hs
    have hplain : ∀ x d, operand = some x → x.unwrap = .ok (.cls d) → M.isComposite d = false := by
      rintro x d rfl hx
      rw [Bool.eq_false_iff]
      exact fun hcomp => hs d ⟨f, x, hf, ho, hx, hcomp⟩
    rcases meetOperand_plain enter ps hplain with heq | ⟨e, heq⟩
    · rw [heq]
      exact h.through_of_not_leads hr hs
    · rw [heq]
      exact (h.through_of_not_leads hr hs).cons (fun d hd => by cases hd)

theorem operands (hr : M.Route root r c) (henter : Explores M o root enter r c)
    (hf : (M.fieldsOf c)[i]? = some f) (h : Explored M o root (fun q => LeftOf q (r ++ [⟨i, 0⟩])) ps)
    (hj : j ≤ f.operands.length) :
    Explored M o root (fun q => LeftOf q (r ++ [⟨i, j⟩]))
      ((f.operands.take j).foldl (meetOperand M enter) ps) := by
  induction j with
  | zero => exact h
  | succ j ih =>
      have ho : f.operands[j]? = some f.operands[j] := List.getElem?_eq_getElem hj
      rw [List.take_succ_eq_append_getElem hj, List.foldl_append]
      refine (operand hr henter hf ho (ih (Nat.le_of_succ_le hj))).congr ?_
      exact fun q d _ => leftOf_next.symm

theorem field (hr : M.Route root r c) (henter : Explores M o root enter r c)
    (hf : (M.fieldsOf c)[i]? = some f) (h : Explored M o root (fun q => LeftOf q (r ++ [⟨i, 0⟩])) ps) :
    Explored M o root (fun q => LeftOf q (r ++ [⟨i + 1, 0⟩])) (meetField M enter c ps f) := by
  -- No step lies between the end of a field and the next field.
  have hend (x : Step) (d : ClassRef) (hx : M.Leads c x d) :
      x.Before ⟨i, f.operands.length⟩ ↔ x.Before ⟨i + 1, 0⟩ := by
    have hlt (hxi : x.field = i) : x.operand < f.operands.length := hx.operand_lt (hxi ▸ hf)
    simp only [Step.Before]
    omega
  have hops := operands hr henter hf h (Nat.le_refl _)
  rw [List.take_length] at hops
  replace hops := hops.congr (fun q d hq => hr.leftOf_congr hq hend)
  unfold meetField
  split_ifs
  · exact hops.cons (fun d hd => by cases hd)
  · exact hops

theorem fields (hr : M.Route root r c) (henter : Explores M o root enter r c)
    (h : Explored M o root (fun q => LeftOf q r) ps) (hi : i ≤ (M.fieldsOf c).length) :
    Explored M o root (fun q => LeftOf q (r ++ [⟨i, 0⟩]))
      (((M.fieldsOf c).take i).foldl (meetField M enter c) ps) := by
  induction i with
  | zero => exact h.congr (fun q d _ => leftOf_first.symm)
  | succ i ih =>
      rw [List.take_succ_eq_append_getElem hi, List.foldl_append]
      exact field hr henter (List.getElem?_eq_getElem hi) (ih (Nat.le_of_succ_le hi))

/-- All routes through a class are those to its place past the last field, and the one to itself. -/
theorem through_message (hr : M.Route root r c) {ls : List Line} {done : Nat → List Piece}
    (h : Explored M o root (fun q => LeftOf q (r ++ [⟨(M.fieldsOf c).length, 0⟩])) ps)
    (hplaced : Placed M o root c ls ps r done) :
    Explored M o root (Through r) (.message c ls :: ps) where
  reached := by
    intro d
    have hmem : .message d ∈ parts (.message c ls :: ps) ↔ d = c ∨ .message d ∈ parts ps := by
      simp [parts, Piece.part]
    rw [hmem, h.reached]
    constructor
    · rintro (rfl | ⟨q, hq, hl⟩)
      · exact ⟨r, hr, Or.inr List.prefix_rfl⟩
      · refine ⟨q, hq, (LeftOf.concat_iff.mp hl).imp_right ?_⟩
        rintro ⟨t, u, rfl, _⟩
        exact List.prefix_append _ _
    · rintro ⟨q, hq, hl | ⟨u, rfl⟩⟩
      · exact Or.inr ⟨q, hq, LeftOf.concat_iff.mpr (Or.inl hl)⟩
      · cases u with
        | nil =>
            rw [List.append_nil] at hq
            exact Or.inl (hq.unique hr)
        | cons t u =>
            obtain ⟨x, hx, _⟩ := hr.step hq
            exact Or.inr ⟨_, hq, LeftOf.concat_iff.mpr (Or.inr ⟨t, u, rfl, Or.inl hx.field_lt⟩)⟩
  placed := by
    rintro (_ | ⟨q, later⟩) d ls' earlier heq
    · cases heq
      exact ⟨r, done, hplaced⟩
    · cases heq
      exact h.placed later d ls' earlier rfl

theorem message (hr : M.Route root r c) (henter : Explores M o root enter r c)
    (hsuffix : ∀ ps d, ps <:+ enter ps d) (h : Explored M o root (fun q => LeftOf q r) ps)
    (hnew : .message c ∉ parts ps) (hacyclic : ¬ Relation.TransGen M.Refers c c) :
    Explored M o root (Through r) (.message c (linesFrom M o root enter c 0 ps (M.fieldsOf c)) ::
      (M.fieldsOf c).foldl (meetField M enter c) ps) := by
  have hplaced : Placed M o root c (linesFrom M o root enter c 0 ps (M.fieldsOf c))
      ((M.fieldsOf c).foldl (meetField M enter c) ps) r
      (fun i => ((M.fieldsOf c).take i).foldl (meetField M enter c) ps) := by
    refine ⟨?_, ?_, ?_, length_linesFrom _ _, fun i hi => (fields hr henter h hi).reached, ?_⟩
    · exact (Model.first_iff hr hacyclic).mpr ((h.reached c).not.mp hnew)
    · intro i
      rw [List.take_add_one, List.foldl_append]
      exact suffix_foldl (suffix_meetField hsuffix c) _ _
    · rw [List.take_length]
    · intro i f hf
      simp [linesFrom_getElem?, hf]
  have hall := fields hr henter h (Nat.le_refl _)
  rw [List.take_length] at hall
  exact hall.through_message hr hplaced

end Explored

/-- A visit keeps to the order of the routes. -/
theorem visit_explored (hacyclic : ∀ c, M.Reachable root c → ¬ Relation.TransGen M.Refers c c)
    (levels : Nat) {path : List ClassRef} (hlevels : levels + path.length = M.classes.length + 1)
    (hway : M.Way root (c :: path)) (hr : M.Route root r c)
    (h : Explored M o root (fun q => LeftOf q r) ps) (hnew : .message c ∉ parts ps) :
    Explored M o root (Through r) (visit M o root levels ps c) := by
  induction levels generalizing c path ps r with
  | zero =>
      -- The classes of a way differ, so there is a level for each of them.
      have hle := hway.length_le
      omega
  | succ levels ih =>
      have henter : Explores M o root (visit M o root levels) r c := by
        intro s d ps hs hnew' h'
        refine ih ?_ (.into hway hs.refers ?_) (hr.concat hs) h' hnew'
        · rw [List.length_cons]
          omega
        · -- A class that is open leads to `c`, and would be met again only from a cycle.
          intro hd
          exact hacyclic c hr.reachable (.head' hs.refers (hway.leads d hd))
      exact Explored.message hr henter (suffix_visit levels) h hnew (hacyclic c hr.reachable)

theorem visit_root_explored
    (hacyclic : ∀ c, M.Reachable root c → ¬ Relation.TransGen M.Refers c c) :
    Explored M o root (Through []) (visit M o root (levels M) [] root) := by
  have hroute : M.Route root [] root := rfl
  refine visit_explored hacyclic (levels M) rfl .root hroute ⟨?_, ?_⟩ List.not_mem_nil
  · refine fun d => ⟨fun hd => absurd hd List.not_mem_nil, ?_⟩
    rintro ⟨q, _, hl⟩
    cases hl
  · intro later c ls earlier heq
    exact absurd heq.symm (List.append_ne_nil_of_right_ne_nil _ (List.cons_ne_nil _ _))

end Compiler

end ClassSchema
