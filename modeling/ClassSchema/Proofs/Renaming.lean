import ClassSchema.Proofs.Faults
import ClassSchema.Proofs.Imports
import ClassSchema.Proofs.Words

namespace ClassSchema

inductive Subject where
  | message (c : ClassRef)
  | wrapper (c : ClassRef)
  | enumeration (e : ClassRef)
  | entry (c : ClassRef) (f : Field)

def Subject.Carries (root : ClassRef) : Subject → Prop
  | message c | wrapper c | entry c _ => c = root
  | enumeration _ => True

def Part.subject? : Part → Option Subject
  | message c => some (.message c)
  | enumeration e => some (.enumeration e)
  | entry .. => none

def Piece.subjects : Piece → List Subject
  | message c _ => [.message c, .wrapper c]
  | enumeration e => [.enumeration e]
  | entry c f => [.entry c f]

namespace Model

variable (M : Model)

/-- What the block is about that the type of an element or a key names. -/
def operandSubject? (operand : Option TypeExpr) : Option Subject :=
  operand.bind (fun e => e.unwrap.toOption.bind (fun t => (M.part? t).bind Part.subject?))

def fieldSubject? (c : ClassRef) (f : Field) : Option Subject :=
  match f.shape with
  | .scalar | .enum | .composite => M.operandSubject? (some f.declared)
  | .list | .array | .collection => M.operandSubject? f.element
  | .map => some (.entry c f)

def lineSubjects : Subject → List (Option Subject)
  | .message c => (M.fieldsOf c).map (M.fieldSubject? c)
  | .wrapper c => [some (.message c)]
  | .enumeration _ => []
  | .entry _ f => [M.operandSubject? f.key, M.operandSubject? f.element]

end Model

theorem Model.enum_of_part? {M : Model} {t : TypeExpr} {e : ClassRef}
    (h : M.part? t = some (.enumeration e)) : t = .cls e ∧ M.isEnumClass e = true := by
  unfold part? at h
  split at h
  next c =>
    split_ifs at h with he hc
    · cases h
      exact ⟨rfl, he⟩
    · cases h
  next => cases h

theorem Model.needs_of_part? {M : Model} {root c : ClassRef} {t : TypeExpr} {p : Part}
    (hc : M.Reachable root c) (hm : M.Mentions c t) (hp : M.part? t = some p) : M.Needs root p := by
  cases p with
  | message d =>
      obtain ⟨rfl, hd⟩ := composite_of_part? hp
      exact hc.tail ⟨hm, hd⟩
  | enumeration e =>
      obtain ⟨rfl, he⟩ := enum_of_part? hp
      exact ⟨he, c, hc, hm⟩
  | entry d name => exact absurd hp part?_ne_entry

inductive Alongside {α β γ : Type} (R : α → β → γ → Prop) : List α → List β → List γ → Prop
  | nil : Alongside R [] [] []
  | cons {a b c as bs cs} : R a b c → Alongside R as bs cs → Alongside R (a :: as) (b :: bs) (c :: cs)

structure Options.EqualButAffix (o o' : Options) : Prop where
  version : o'.version = o.version
  package : o'.package = o.package
  indent : o'.indent = o.indent
  heading : o'.heading = o.heading

/-- Two names, the same behind the affixes `p` and `q` if they carry these, and else the same. -/
structure Affixed (p q : String) (carries : Prop) (x y : String) : Prop where
  carried : carries → ∃ s, Name.isWord s = true ∧ x = p ++ s ∧ y = q ++ s
  bare : ¬ carries → x = y

structure LineRenamed (p q : String) (root : ClassRef) (keepsName : Prop) (named : Option Subject)
    (l l' : Line) : Prop where
  multiplicity : l.multiplicity = l'.multiplicity
  ordinal : l.ordinal = l'.ordinal
  name : keepsName → l.name = l'.name
  type : Affixed p q (∃ s, named = some s ∧ s.Carries root) l.type l'.type

def Block.constants : Block → List String
  | message .. | entry .. => []
  | enum _ constants => constants

/-- Of all field names, only the one in the wrapper of the root changes. -/
structure Renamed (M : Model) (p q : String) (root : ClassRef) (s : Subject) (b b' : Block) : Prop where
  kind : b.kind = b'.kind
  name : Affixed p q (s.Carries root) b.name b'.name
  constants : b.constants = b'.constants
  lines : Alongside (LineRenamed p q root (s ≠ .wrapper root)) (M.lineSubjects s) b.lines b'.lines

namespace Alongside

variable {α β γ ι : Type} {R : α → β → γ → Prop} {as as' : List α} {bs bs' : List β} {cs cs' : List γ}

theorem append (h : Alongside R as bs cs) (h' : Alongside R as' bs' cs') :
    Alongside R (as ++ as') (bs ++ bs') (cs ++ cs') := by
  induction h with
  | nil => exact h'
  | cons hr _ ih => exact .cons hr ih

theorem flatMap {xs : List ι} {f : ι → List α} {g : ι → List β} {k : ι → List γ}
    (h : ∀ x ∈ xs, Alongside R (f x) (g x) (k x)) :
    Alongside R (xs.flatMap f) (xs.flatMap g) (xs.flatMap k) := by
  induction xs with
  | nil => exact .nil
  | cons x xs ih =>
      obtain ⟨hx, hxs⟩ := List.forall_mem_cons.mp h
      exact hx.append (ih hxs)

theorem any_iff {p : β → Prop} {q : γ → Prop} (h : Alongside R as bs cs)
    (hr : ∀ a b c, R a b c → (p b ↔ q c)) : (∃ b ∈ bs, p b) ↔ ∃ c ∈ cs, q c := by
  induction h with
  | nil => simp
  | cons hrel _ ih => simp only [List.mem_cons, exists_eq_or_imp, hr _ _ _ hrel, ih]

end Alongside

namespace Affixed

variable {p q x y t : String} {carries : Prop}

theorem of_eq (h : ¬ carries) (hxy : x = y) : Affixed p q carries x y where
  carried := fun hc => absurd hc h
  bare := fun _ => hxy

theorem of_carried {s : String} (h : carries) (hs : Name.isWord s = true) :
    Affixed p q carries (p ++ s) (q ++ s) where
  carried := fun _ => ⟨s, hs, rfl, rfl⟩
  bare := fun hc => absurd h hc

theorem append (h : Affixed p q carries x y) (ht : ∀ c ∈ t.toList, Name.isTame c = true) :
    Affixed p q carries (x ++ t) (y ++ t) where
  carried := by
    intro hc
    obtain ⟨s, hs, rfl, rfl⟩ := h.carried hc
    exact ⟨s ++ t, Name.isWord_append_tame hs ht, String.append_assoc, String.append_assoc⟩
  bare := fun hc => by rw [h.bare hc]

theorem congr {carries' : Prop} (h : Affixed p q carries x y) (hc : carries' ↔ carries) :
    Affixed p q carries' x y := by
  rwa [propext hc]

theorem timestamp_iff (h : Affixed p q carries x y) (hp : ∀ c ∈ p.toList, Name.isTame c = true)
    (hq : ∀ c ∈ q.toList, Name.isTame c = true) : x = timestamp ↔ y = timestamp := by
  by_cases hc : carries
  · obtain ⟨s, hs, rfl, rfl⟩ := h.carried hc
    have hne : ∀ r : String, (∀ c ∈ r.toList, Name.isTame c = true) → r ++ s ≠ timestamp := by
      intro r hr heq
      have hword := Name.isWord_append hr hs
      rw [heq, Name.timestamp_not_word] at hword
      cases hword
    exact iff_of_false (hne p hp) (hne q hq)
  · rw [h.bare hc]

end Affixed

namespace Compiler

variable {M : Model} {o o' : Options} {root c d : ClassRef} {ps : List Piece} {f : Field}

def reline (M : Model) (o : Options) (root c : ClassRef) (f : Field) (l : Line) : Line :=
  { l with type := (fieldType? M o root c f).getD defaultType }

def restyle (M : Model) (o : Options) (root : ClassRef) : Piece → Piece
  | .message c ls => .message c (List.zipWith (reline M o root c) (M.fieldsOf c) ls)
  | p => p

theorem part_restyle (p : Piece) : (restyle M o root p).part = p.part := by
  cases p <;> rfl

theorem parts_restyle (ps : List Piece) : parts (ps.map (restyle M o root)) = parts ps := by
  simp only [parts, List.map_map, Function.comp_def, part_restyle]

theorem foldl_restyle {α : Type} {step step' : List Piece → α → List Piece}
    (hstep : ∀ ps x, step' (ps.map (restyle M o' root)) x = (step ps x).map (restyle M o' root))
    (xs : List α) (ps : List Piece) :
    xs.foldl step' (ps.map (restyle M o' root)) = (xs.foldl step ps).map (restyle M o' root) := by
  induction xs generalizing ps with
  | nil => rfl
  | cons x xs ih => rw [List.foldl_cons, List.foldl_cons, hstep, ih]

section Restyle

variable {enter enter' : List Piece → ClassRef → List Piece}
  (henter : ∀ ps d, enter' (ps.map (restyle M o' root)) d = (enter ps d).map (restyle M o' root))
include henter

theorem meet_restyle (ps : List Piece) (t : TypeExpr) :
    meet M enter' (ps.map (restyle M o' root)) t = (meet M enter ps t).map (restyle M o' root) := by
  unfold meet
  rw [parts_restyle]
  split
  next d _ =>
    split_ifs
    · rfl
    · exact henter ps d
  next =>
    split_ifs
    · rfl
    · rfl
  next => rfl

theorem meetOperand_restyle (ps : List Piece) (operand : Option TypeExpr) :
    meetOperand M enter' (ps.map (restyle M o' root)) operand =
      (meetOperand M enter ps operand).map (restyle M o' root) := by
  unfold meetOperand
  split
  next t _ => exact meet_restyle henter ps t
  next => rfl

theorem meetField_restyle (c : ClassRef) (ps : List Piece) (f : Field) :
    meetField M enter' c (ps.map (restyle M o' root)) f =
      (meetField M enter c ps f).map (restyle M o' root) := by
  unfold meetField
  rw [foldl_restyle (meetOperand_restyle henter)]
  split_ifs
  · rfl
  · rfl

theorem linesFrom_restyle (c : ClassRef) (i : Nat) (ps : List Piece) (fs : List Field) :
    linesFrom M o' root enter' c i (ps.map (restyle M o' root)) fs =
      List.zipWith (reline M o' root c) fs (linesFrom M o root enter c i ps fs) := by
  induction fs generalizing i ps with
  | nil => rfl
  | cons f fs ih =>
      rw [linesFrom, linesFrom, List.zipWith_cons_cons, meetField_restyle henter, ih, parts_restyle]
      rfl

end Restyle

theorem visit_restyle (levels : Nat) (ps : List Piece) (c : ClassRef) :
    visit M o' root levels (ps.map (restyle M o' root)) c =
      (visit M o root levels ps c).map (restyle M o' root) := by
  induction levels generalizing ps c with
  | zero => rfl
  | succ levels ih =>
      rw [visit, visit, List.map_cons, foldl_restyle (meetField_restyle ih c),
        linesFrom_restyle ih (o := o)]
      rfl

theorem visit_restyle_nil (o o' : Options) (levels : Nat) (c : ClassRef) :
    visit M o' root levels [] c = (visit M o root levels [] c).map (restyle M o' root) :=
  visit_restyle levels [] c

theorem typeName?_composite (h : M.isComposite c = true) :
    typeName? M o root (.cls c) = some (messageName M o root c) := by
  obtain ⟨hany, hscalar, _, _⟩ := Model.isComposite_iff.mp h
  rw [typeName?_cls hany (by simpa [TypeExpr.isScalar] using hscalar), className_of_composite h]

theorem typeName?_enum (h : M.isEnumClass c = true) :
    typeName? M o root (.cls c) = some (Name.enumName (M.simpleName c) o.affix) := by
  obtain ⟨hany, hkey, _⟩ := Model.enum_facts h
  rw [typeName?_cls hany hkey, className_of_enum h]

theorem typeName?_of_part?_eq_none {t : TypeExpr} (hroot : M.isComposite root = true)
    (h : M.part? t = none) : typeName? M o root t = typeName? M o' root t := by
  cases t with
  | cls c =>
      have henum : M.isEnumClass c = false := by
        rw [← Bool.not_eq_true]
        intro he
        simp [Model.part?_enum he] at h
      have hne : c ≠ root := by
        rintro rfl
        simp [Model.part?_composite hroot] at h
      simp [typeName?, TypeExpr.class?, className, henum, messageName_of_ne hne]
  | _ => rfl

section Names

variable (hworded : M.Worded root)
include hworded

theorem messageName_affixed (hc : M.Reachable root c) :
    Affixed o.affix o'.affix (c = root) (messageName M o root c) (messageName M o' root c) := by
  by_cases h : c = root
  · subst h
    rw [messageName_root, messageName_root]
    exact .of_carried rfl (hworded (.message c) hc)
  · rw [messageName_of_ne h, messageName_of_ne h]
    exact .of_eq h rfl

theorem wrapperName_affixed (hc : M.Reachable root c) :
    Affixed o.affix o'.affix (c = root) (Name.wrapperName (messageName M o root c))
      (Name.wrapperName (messageName M o' root c)) :=
  (messageName_affixed hworded hc).append (List.all_eq_true.mp (by decide))

theorem entryName_affixed (hc : M.Reachable root c) (name : String) :
    Affixed o.affix o'.affix (c = root) (Name.entryName (messageName M o root c) name)
      (Name.entryName (messageName M o' root c) name) :=
  ((messageName_affixed hworded hc).append (Name.pascalCase_sanitize_tame name)).append
    (List.all_eq_true.mp (by decide))

theorem typeName?_affixed {t : TypeExpr} (hroot : M.isComposite root = true)
    (hneeds : ∀ p, M.part? t = some p → M.Needs root p) :
    Affixed o.affix o'.affix (∃ s, (M.part? t).bind Part.subject? = some s ∧ s.Carries root)
      ((typeName? M o root t).getD defaultType) ((typeName? M o' root t).getD defaultType) := by
  cases hp : M.part? t with
  | some p =>
      have hn := hneeds p hp
      cases p with
      | message d =>
          obtain ⟨rfl, hd⟩ := Model.composite_of_part? hp
          simp only [typeName?_composite hd, Option.getD_some]
          exact (messageName_affixed hworded hn).congr (by simp [Part.subject?, Subject.Carries])
      | enumeration e =>
          obtain ⟨rfl, he⟩ := Model.enum_of_part? hp
          simp only [typeName?_enum he, Option.getD_some]
          exact .of_carried ⟨_, rfl, trivial⟩ (hworded (.enumeration e) hn)
      | entry c name => exact absurd hp Model.part?_ne_entry
  | none => exact .of_eq (by simp) (by rw [typeName?_of_part?_eq_none hroot hp])

theorem operandType?_affixed {operand : Option TypeExpr} (hroot : M.isComposite root = true)
    (hc : M.Reachable root c) (hf : f ∈ M.fieldsOf c) (ho : operand ∈ f.operands) :
    Affixed o.affix o'.affix (∃ s, M.operandSubject? operand = some s ∧ s.Carries root)
      ((operandType? M o root operand).getD defaultType)
      ((operandType? M o' root operand).getD defaultType) := by
  cases operand with
  | none => exact .of_eq (by simp [Model.operandSubject?]) rfl
  | some e =>
      cases hu : e.unwrap with
      | error why =>
          exact .of_eq (by simp [Model.operandSubject?, hu, Except.toOption])
            (by simp [operandType?, hu, Except.toOption])
      | ok t =>
          rw [operandType?_of_unwrap hu, operandType?_of_unwrap hu]
          refine (typeName?_affixed hworded hroot fun p hp => ?_).congr ?_
          · exact Model.needs_of_part? hc ⟨f, hf, e, ho, hu⟩ hp
          · simp [Model.operandSubject?, hu, Except.toOption]

theorem fieldType?_affixed (hroot : M.isComposite root = true) (hc : M.Reachable root c)
    (hf : f ∈ M.fieldsOf c) :
    Affixed o.affix o'.affix (∃ s, M.fieldSubject? c f = some s ∧ s.Carries root)
      ((fieldType? M o root c f).getD defaultType) ((fieldType? M o' root c f).getD defaultType) := by
  cases hs : f.shape with
  | scalar | enum | composite | list | array | collection =>
      simp only [fieldType?, Model.fieldSubject?, hs]
      exact operandType?_affixed hworded hroot hc hf (by simp [Field.operands, hs])
  | map =>
      simp only [fieldType?, Model.fieldSubject?, hs, Option.getD_some]
      exact (entryName_affixed hworded hc f.name).congr (by simp [Subject.Carries])

theorem relines_alongside {keepsName : Prop} (hroot : M.isComposite root = true) (hc : M.Reachable root c)
    {fs : List Field} (hfs : ∀ f ∈ fs, f ∈ M.fieldsOf c) {ls : List Line} (hlen : ls.length = fs.length) :
    Alongside (LineRenamed o.affix o'.affix root keepsName) (fs.map (M.fieldSubject? c))
      (List.zipWith (reline M o root c) fs ls) (List.zipWith (reline M o' root c) fs ls) := by
  induction fs generalizing ls with
  | nil => exact .nil
  | cons f fs ih =>
      obtain ⟨hf, hfs⟩ := List.forall_mem_cons.mp hfs
      cases ls with
      | nil => cases hlen
      | cons l ls =>
          refine .cons ⟨rfl, rfl, fun _ => rfl, fieldType?_affixed hworded hroot hc hf⟩ ?_
          exact ih hfs (Nat.succ.inj hlen)

theorem wrapper_renamed (hc : M.Reachable root c) :
    Renamed M o.affix o'.affix root (.wrapper c) (.wrapper (messageName M o root c))
      (.wrapper (messageName M o' root c)) where
  kind := rfl
  name := wrapperName_affixed hworded hc
  constants := rfl
  lines := by
    refine .cons ⟨rfl, rfl, fun hk => ?_, ?_⟩ .nil
    · have hne : c ≠ root := fun h => hk (h ▸ rfl)
      rw [messageName_of_ne hne, messageName_of_ne hne]
    · exact (messageName_affixed hworded hc).congr (by simp [Subject.Carries])

theorem entry_renamed (hroot : M.isComposite root = true) (hc : M.Reachable root c)
    (hf : f ∈ M.fieldsOf c) (hm : f.shape = .map) :
    Alongside (Renamed M o.affix o'.affix root) [.entry c f] (pieceBlocks M o root (.entry c f))
      (pieceBlocks M o' root (.entry c f)) := by
  have hkey : f.key ∈ f.operands := by simp [Field.operands_of_map hm]
  have helement : f.element ∈ f.operands := by simp [Field.operands_of_map hm]
  refine .cons ⟨rfl, entryName_affixed hworded hc f.name, rfl, ?_⟩ .nil
  refine .cons ⟨rfl, rfl, fun _ => rfl, operandType?_affixed hworded hroot hc hf hkey⟩ ?_
  exact .cons ⟨rfl, rfl, fun _ => rfl, operandType?_affixed hworded hroot hc hf helement⟩ .nil

theorem piece_renamed {p : Piece} (hroot : M.isComposite root = true) (hn : M.Needs root p.part)
    (hfixed : restyle M o root p = p)
    (hentry : ∀ c f, p = .entry c f → f ∈ M.fieldsOf c ∧ f.shape = .map)
    (hlines : ∀ c ls, p = .message c ls → ls.length = (M.fieldsOf c).length) :
    Alongside (Renamed M o.affix o'.affix root) p.subjects (pieceBlocks M o root p)
      (pieceBlocks M o' root (restyle M o' root p)) := by
  cases p with
  | message c ls =>
      have hls : List.zipWith (reline M o root c) (M.fieldsOf c) ls = ls := (Piece.message.inj hfixed).2
      have hrenamed : Alongside (LineRenamed o.affix o'.affix root (Subject.message c ≠ .wrapper root))
          (M.lineSubjects (.message c)) (List.zipWith (reline M o root c) (M.fieldsOf c) ls)
          (List.zipWith (reline M o' root c) (M.fieldsOf c) ls) :=
        relines_alongside hworded hroot hn (fun f hf => hf) (hlines c ls rfl)
      rw [hls] at hrenamed
      exact .cons ⟨rfl, messageName_affixed hworded hn, rfl, hrenamed⟩
        (.cons (wrapper_renamed hworded hn) .nil)
  | enumeration e =>
      exact .cons ⟨rfl, .of_carried trivial (hworded _ hn), rfl, .nil⟩ .nil
  | entry c f =>
      obtain ⟨hf, hm⟩ := hentry c f rfl
      exact entry_renamed hworded hroot hn.1 hf hm

theorem visit_renamed (o o' : Options) (hroot : M.isComposite root = true)
    (hcovers : M.Covers root (visit M o root (levels M) [] root).reverse) :
    Alongside (Renamed M o.affix o'.affix root)
      ((visit M o root (levels M) [] root).reverse.flatMap Piece.subjects)
      (blocksOf M o root (visit M o root (levels M) [] root))
      (blocksOf M o' root (visit M o' root (levels M) [] root)) := by
  have hfixed : ∀ p ∈ visit M o root (levels M) [] root, restyle M o root p = p := by
    have hmap : visit M o root (levels M) [] root =
        (visit M o root (levels M) [] root).map (restyle M o root) := visit_restyle_nil o o (levels M) root
    exact List.map_inj_left.mp (hmap.symm.trans (List.map_id _).symm)
  rw [visit_restyle_nil o o', blocksOf, blocksOf, ← List.map_reverse, List.flatMap_map]
  refine Alongside.flatMap fun p hp => ?_
  refine piece_renamed hworded hroot ?_ (hfixed p (List.mem_reverse.mp hp)) ?_ ?_
  · exact (hcovers.needed _).mp (List.mem_map_of_mem hp)
  · rintro c f rfl
    exact hcovers.entries c f hp
  · rintro c ls rfl
    simpa using congrArg List.length (hcovers.lines c ls hp)

end Names

theorem Renamed.timestamp_iff {bs bs' : List Block} {ss : List Subject}
    (h : Alongside (Renamed M o.affix o'.affix root) ss bs bs') :
    timestamp ∈ (bs.flatMap Block.lines).map Line.type ↔
      timestamp ∈ (bs'.flatMap Block.lines).map Line.type := by
  have htypes : ∀ bs : List Block, timestamp ∈ (bs.flatMap Block.lines).map Line.type ↔
      ∃ b ∈ bs, ∃ l ∈ b.lines, l.type = timestamp := by
    intro bs
    simp only [List.mem_map, List.mem_flatMap]
    constructor
    · rintro ⟨l, ⟨b, hb, hl⟩, ht⟩
      exact ⟨b, hb, l, hl, ht⟩
    · rintro ⟨b, hb, l, hl, ht⟩
      exact ⟨l, ⟨b, hb, hl⟩, ht⟩
  rw [htypes, htypes]
  exact h.any_iff fun s b b' hb => hb.lines.any_iff fun _ l l' hl =>
    hl.type.timestamp_iff o.affix_tame o'.affix_tame

/-- Of the faults, the affix can bring about those of names only. -/
theorem Cause.of_affix {fault : Fault} (h : Acceptable M o root) (hcause : Cause M o' root fault) :
    fault.family = .nameCollision ∨ o'.affix = "" ∧ fault.family = .invalidInput := by
  cases hcause with
  | undescribed hc hx => exact absurd (.undescribed hc hx) (h.not_cause _)
  | noMapTypes hc hf hm ho => exact absurd (.noMapTypes hc hf hm ho) (h.not_cause _)
  | noElementType hc hf ho => exact absurd (.noElementType hc hf ho) (h.not_cause _)
  | unsupported hc hf ho hu => exact absurd (.unsupported hc hf ho hu) (h.not_cause _)
  | nestedContainer hc hf hu hcont => exact absurd (.nestedContainer hc hf hu hcont) (h.not_cause _)
  | unsupportedElement hc hf hu hel => exact absurd (.unsupportedElement hc hf hu hel) (h.not_cause _)
  | cycle hd hf hu hl hchain => exact absurd (.cycle hd hf hu hl hchain) (h.not_cause _)
  | emptyEnum he hnil => exact absurd (.emptyEnum he hnil) (h.not_cause _)
  | illegalFieldName hc hf hl => exact absurd (.illegalFieldName hc hf hl) (h.not_cause _)
  | @illegalMessageName c hc hl =>
      by_cases hcr : c = root
      · subst hcr
        refine Or.inr ⟨o'.affix_cases.resolve_right fun ha => ?_, rfl⟩
        rw [messageName_root] at hl
        exact Name.sanitize_lowerFirst_ne ha hl
      · have hl' : Name.sanitize (Name.lowerFirst (messageName M o root c)) = "" := by
          rwa [messageName_of_ne hcr] at hl ⊢
        exact absurd (.illegalMessageName hc hl') (h.not_cause _)
  | nameClash => exact Or.inl rfl

/-- Under another affix, a document is the same but for the affix in the names that carry it. There
may be none, since names clash, or since the name of the root has no legal character of its own. -/
theorem compile_renamed {doc : Document} (hworded : M.Worded root)
    (hothers : o.EqualButAffix o')
    (h : compile M o (.cls root) = .ok doc) :
    (∀ doc', compile M o' (.cls root) = .ok doc' →
      doc'.heading = doc.heading ∧ doc'.indent = doc.indent ∧ doc'.imports = doc.imports ∧
        ∃ pieces, M.Covers root pieces ∧ doc.blocks = pieces.flatMap (pieceBlocks M o root) ∧
          Alongside (Renamed M o.affix o'.affix root) (pieces.flatMap Piece.subjects) doc.blocks
            doc'.blocks) ∧
      ∀ fault, compile M o' (.cls root) = .error fault →
        fault.family = .nameCollision ∨ o'.affix = "" ∧ fault.family = .invalidInput := by
  have himports := compile_imports h
  obtain ⟨_, s, heq, hroot, hat, hmem, rfl⟩ := compile_visits h
  cases heq
  refine ⟨fun doc' h' => ?_, fun fault h' => ?_⟩
  · have himports' := compile_imports h'
    obtain ⟨_, s', heq, _, hat', _, rfl⟩ := compile_visits h'
    cases heq
    have hcovers := hat.sound.covers hmem
    have hblocks := visit_renamed hworded o o' hroot hcovers
    rw [← hat.blocks, ← hat'.blocks] at hblocks
    -- The imports depend on whether a line names the well-known type, and no affix makes or unmakes it.
    have heq : s'.draft.imports = s.draft.imports :=
      himports'.unique himports (Renamed.timestamp_iff hblocks).symm
    refine ⟨?_, hothers.indent, heq, _, hcovers, hat.blocks, hblocks⟩
    simp only [documentOf, hothers.version, hothers.package, hothers.heading, heq]
  · have hapart := hat.draft.apart
    rw [hat.blocks] at hapart
    exact Cause.of_affix (hat.sound.acceptable hapart hmem) (compile_error hroot h')

theorem shop_renamed : ∃ (o o' : Options) (doc doc' : Document),
    o.affix = "Grpc" ∧ o'.affix = "" ∧ Model.shop.Worded (.declared 2) ∧ o.EqualButAffix o' ∧
      compile .shop o (.cls (.declared 2)) = .ok doc ∧ compile .shop o' (.cls (.declared 2)) = .ok doc' ∧
      ∃ pieces, Model.shop.Covers (.declared 2) pieces ∧
        Alongside (Renamed .shop "Grpc" "" (.declared 2)) (pieces.flatMap Piece.subjects) doc.blocks
          doc'.blocks := by
  let o' : Options := { affix := "", accepted := by decide }
  obtain ⟨doc, h⟩ : ∃ doc, compile .shop default (.cls (.declared 2)) = .ok doc :=
    exists_of_isSome (by decide +kernel)
  obtain ⟨doc', h'⟩ : ∃ doc', compile .shop o' (.cls (.declared 2)) = .ok doc' :=
    exists_of_isSome (by decide +kernel)
  have hworded : Model.shop.Worded (.declared 2) :=
    .of_closed [.declared 0, .declared 1, .declared 2, .builtin .str] (by decide) (by decide +kernel)
      (by decide +kernel)
  have hothers : Options.EqualButAffix default o' := ⟨rfl, rfl, rfl, rfl⟩
  obtain ⟨_, _, _, pieces, hcovers, _, hrenamed⟩ := (compile_renamed hworded hothers h).1 doc' h'
  exact ⟨default, o', doc, doc', rfl, rfl, hworded, hothers, h, h', pieces, hcovers, hrenamed⟩

end Compiler

end ClassSchema
