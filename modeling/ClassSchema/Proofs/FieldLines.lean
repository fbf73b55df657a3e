import ClassSchema.Proofs.Acceptance
import ClassSchema.Proofs.Exploration
import Mathlib.Data.List.Nodup

namespace ClassSchema

theorem Model.fieldsOf_nodup (M : Model) (c : ClassRef) : ((M.fieldsOf c).map Field.name).Nodup := by
  unfold fieldsOf
  split
  next x hx => exact describeClass_nodup hx
  next => exact List.nodup_nil

theorem Model.Covers.entry {M : Model} {root c : ClassRef} {pieces : List Piece} {f : Field}
    (h : M.Covers root pieces) (hc : M.Reachable root c) (hf : f ∈ M.fieldsOf c) (hs : f.shape = .map) :
    .entry c f ∈ pieces := by
  obtain ⟨p, hp, hpart⟩ := List.mem_map.mp ((h.needed (.entry c f.name)).mpr ⟨hc, f, hf, hs, rfl⟩)
  cases p with
  | entry c' g =>
      obtain ⟨rfl, hname⟩ := Part.entry.inj hpart
      have hg := (h.entries c' g hp).1
      exact List.inj_on_of_nodup_map (M.fieldsOf_nodup c') hg hf hname ▸ hp
  | message c' ls => cases hpart
  | enumeration e => cases hpart

namespace Compiler

/-- The type name of an unwrapped expression, where a composite class is not the root. -/
inductive Named (M : Model) (o : Options) : TypeExpr → String → Prop
  | any {t} : t.isAny = true → Named M o t "string"
  | keyword {t name} : t.keyword? = some name → Named M o t name
  | enumeration {e} : M.isEnumClass e = true → Named M o (.cls e) (o.affix ++ M.simpleName e)
  | composite {d} : M.isComposite d = true → Named M o (.cls d) (M.simpleName d)

/-- What the line of the field `f` reads, which is at place `i` of the class `c`. The class is come to
first along `r`, and the document has grown from `before` to `after` for the field. -/
structure Reads (M : Model) (o : Options) (root : ClassRef) (pieces : List Piece) (c : ClassRef)
    (r : List Step) (before after : List Piece) (i : Nat) (f : Field) (l : Line) : Prop where
  text : l.text o.indent = o.indent ++ l.multiplicity ++ " " ++ l.type ++ " " ++ Name.sanitize f.name
    ++ " = " ++ toString (i + 1) ++ ";\n"
  plain : f.shape = .scalar ∨ f.shape = .enum →
    l.multiplicity = Multiplicity.optional ∧ Named M o f.declared l.type
  sequence : f.shape.isSequence = true → l.multiplicity = Multiplicity.repeated ∧
    ∃ e t, f.element = some e ∧ e.unwrap = .ok t ∧ Named M o t l.type
  map : f.shape = .map → l.multiplicity = Multiplicity.repeated ∧
    l.type = Name.entryName (messageName M o root c) f.name ∧ .entry c f ∈ pieces
  /-- A composite class is repeated where the first route to it goes through the field. Its message
  is then written for the field, and else it is there before. -/
  composite : f.shape = .composite → ∃ d, f.declared = .cls d ∧ Named M o f.declared l.type ∧
    (M.First root (r ++ [⟨i, 0⟩]) d ∧ .message d ∉ parts before ∧ .message d ∈ parts after ∧
        l.multiplicity = Multiplicity.repeated ∨
      ¬ M.First root (r ++ [⟨i, 0⟩]) d ∧ .message d ∈ parts before ∧
        l.multiplicity = Multiplicity.optional)

variable {M : Model} {o : Options} {root c d : ClassRef} {t : TypeExpr} {f : Field} {ps : List Piece}
  {r : List Step} {i : Nat}

theorem named_typeName (hroot : ∀ d, t = .cls d → d ≠ root) (hel : t.isElement = true) :
    Named M o t ((typeName? M o root t).getD defaultType) := by
  by_cases hany : t.isAny = true
  · rw [typeName?_of_isAny hany]
    exact .any hany
  rw [Bool.not_eq_true] at hany
  cases hkey : t.keyword? with
  | some keyword =>
      rw [typeName?_of_keyword hany hkey]
      exact .keyword hkey
  | none =>
      have hscalar : t.isScalar = false := by simp [TypeExpr.isScalar, hkey]
      obtain ⟨hclass, hcont⟩ : t.isClass = true ∧ t.containerShape? = none := by
        simpa [TypeExpr.isElement, hany, hscalar] using hel
      obtain ⟨d, rfl⟩ := TypeExpr.exists_of_isClass hclass
      rw [typeName?_cls hany hkey, Option.getD_some]
      by_cases he : M.isEnumClass d = true
      · rw [className_of_enum he]
        exact .enumeration he
      · rw [Bool.not_eq_true] at he
        have hd : M.isComposite d = true := Model.isComposite_iff.mpr ⟨hany, hscalar, he, hcont⟩
        rw [className_of_composite hd, messageName_of_ne (hroot d rfl)]
        exact .composite hd

theorem Acceptable.named (h : Acceptable M o root) (hroot : M.isComposite root = true)
    (hc : M.Reachable root c) (hf : f ∈ M.fieldsOf c) {e : TypeExpr} (he : some e ∈ f.operands)
    (ht : e.unwrap = .ok t) : Named M o t ((typeName? M o root t).getD defaultType) := by
  refine named_typeName ?_ (h.supported.isElement hc hf ⟨e, he, ht⟩)
  rintro d rfl rfl
  exact h.acyclic d .refl (.tail' hc ⟨⟨f, hf, e, he, ht⟩, hroot⟩)

theorem unwrap_declared (hf : f ∈ M.fieldsOf c) (hs : f.shape.isContainer = false) :
    f.declared.unwrap = .ok f.declared := by
  rcases Model.layoutOf_cases (Model.layout_of_field hf) with
    ⟨_, hd⟩ | ⟨_, e, hd, _⟩ | ⟨hcont, _⟩ | ⟨_, d, hd, _⟩
  · exact Model.unwrap_of_scalar hd
  · rw [hd]
    exact Model.unwrap_cls e
  · rw [hs] at hcont
    cases hcont
  · rw [hd]
    exact Model.unwrap_cls d

theorem Acceptable.named_plain (h : Acceptable M o root) (hroot : M.isComposite root = true)
    (hc : M.Reachable root c) (hf : f ∈ M.fieldsOf c) (hs : f.shape.isContainer = false) :
    Named M o f.declared ((fieldType? M o root c f).getD defaultType) := by
  have hu := unwrap_declared hf hs
  have hops : some f.declared ∈ f.operands := by simp [Field.operands_of_plain hs]
  have htype : fieldType? M o root c f = typeName? M o root f.declared := by
    rw [← operandType?_of_unwrap hu]
    cases hsh : f.shape <;> simp_all [fieldType?, Shape.isContainer]
  rw [htype]
  exact h.named hroot hc hf hops hu

theorem Acceptable.named_sequence (h : Acceptable M o root) (hroot : M.isComposite root = true)
    (hc : M.Reachable root c) (hf : f ∈ M.fieldsOf c) (hs : f.shape.isSequence = true) :
    ∃ e t, f.element = some e ∧ e.unwrap = .ok t ∧
      Named M o t ((fieldType? M o root c f).getD defaultType) := by
  have hops : f.element ∈ f.operands := by simp [Field.operands_of_sequence hs]
  obtain ⟨e, t, he, ht, _⟩ := h.supported.operand hc hf _ hops
  have htype : fieldType? M o root c f = typeName? M o root t := by
    rw [← operandType?_of_unwrap ht, ← he]
    cases hsh : f.shape <;> simp_all [fieldType?, Shape.isSequence]
  rw [htype]
  exact ⟨e, t, he, ht, h.named hroot hc hf (he ▸ hops) ht⟩

theorem mem_parts_reverse {p : Part} : p ∈ parts ps.reverse ↔ p ∈ parts ps := by
  rw [parts, List.map_reverse, List.mem_reverse, parts]

theorem leads_of_composite (hi : (M.fieldsOf c)[i]? = some f) (hs : f.shape = .composite)
    (hd : f.declared = .cls d) (hcomp : M.isComposite d = true) : M.Leads c ⟨i, 0⟩ d := by
  have hops : f.operands = [some (.cls d)] := by simp only [Field.operands, hs, hd]
  exact ⟨f, .cls d, hi, by rw [hops]; rfl, Model.unwrap_cls d, hcomp⟩

theorem Acceptable.reads (h : Acceptable M o root) (hroot : M.isComposite root = true)
    {pieces : List Piece} (hcovers : M.Covers root pieces) {earlier : List Piece} {ls : List Line}
    {done : Nat → List Piece} (hplaced : Placed M o root c ls earlier r done)
    (hi : (M.fieldsOf c)[i]? = some f) :
    Reads M o root pieces c r (done i).reverse (done (i + 1)).reverse i f
      (fieldLine M o root (parts (done i)) c (i + 1) f) where
  text := rfl
  plain := by
    intro hs
    have hcont : f.shape.isContainer = false := by rcases hs with hs | hs <;> rw [hs] <;> rfl
    refine ⟨?_, h.named_plain hroot hplaced.first.route.reachable (List.mem_of_getElem? hi) hcont⟩
    rcases hs with hs | hs <;> simp only [fieldLine, multiplicity, hs]
  sequence := by
    intro hs
    exact ⟨multiplicity_of_sequence hs,
      h.named_sequence hroot hplaced.first.route.reachable (List.mem_of_getElem? hi) hs⟩
  map := by
    intro hs
    refine ⟨by simp only [fieldLine, multiplicity, hs], by simp [fieldLine, fieldType?, hs], ?_⟩
    exact hcovers.entry hplaced.first.route.reachable (List.mem_of_getElem? hi) hs
  composite := by
    intro hs
    have hf := List.mem_of_getElem? hi
    have hlt : i < (M.fieldsOf c).length := (List.getElem?_eq_some_iff.mp hi).1
    obtain ⟨d, hd, hcomp⟩ := Model.class_of_composite hf hs
    have hr := hplaced.first.route.concat (leads_of_composite hi hs hd hcomp)
    have hfirst : M.First root (r ++ [⟨i, 0⟩]) d ↔ .message d ∉ parts (done i) := by
      rw [Model.first_iff hr (h.acyclic d hr.reachable), ← hplaced.reached i (Nat.le_of_lt hlt)]
    have hafter : .message d ∈ parts (done (i + 1)) := by
      rw [hplaced.reached (i + 1) hlt]
      exact ⟨_, hr, LeftOf.concat_iff.mpr (Or.inr ⟨⟨i, 0⟩, [], rfl, Or.inl (Nat.lt_succ_self i)⟩)⟩
    refine ⟨d, hd, h.named_plain hroot hplaced.first.route.reachable hf (by rw [hs]; rfl), ?_⟩
    rw [hfirst, not_not, mem_parts_reverse, mem_parts_reverse]
    by_cases hmem : .message d ∈ parts (done i)
    · exact Or.inr ⟨hmem, hmem, by simp [fieldLine, multiplicity, hs, hd, TypeExpr.class?, hmem]⟩
    · exact Or.inl ⟨hmem, hmem, hafter,
        by simp [fieldLine, multiplicity, hs, hd, TypeExpr.class?, hmem]⟩

/-- The line at place `i` of the message of `c` repeats the composite class `d`. -/
def Repeats (M : Model) (c : ClassRef) (ls : List Line) (i : Nat) (d : ClassRef) : Prop :=
  ∃ f l, (M.fieldsOf c)[i]? = some f ∧ f.shape = .composite ∧ f.declared = .cls d ∧
    ls[i]? = some l ∧ l.multiplicity = Multiplicity.repeated

/-- The message of a class has one line for each field, in the order of the fields. Before the field
at place `i`, the document has come to the pieces `done i`. -/
structure WritesLines (M : Model) (o : Options) (root : ClassRef) (pieces earlier : List Piece)
    (c : ClassRef) (ls : List Line) (x : Description) (r : List Step) (done : Nat → List Piece) :
    Prop where
  described : M.describe (.cls c) = .ok x
  first : M.First root r c
  grows : ∀ i, done i <+: done (i + 1)
  all : done x.fields.length = earlier
  length : ls.length = x.fields.length
  lines : ∀ (i : Nat) f l, x.fields[i]? = some f → ls[i]? = some l →
    Reads M o root pieces c r (done i) (done (i + 1)) i f l

/-- All messages among the pieces have the lines of their fields, and of all lines one at most
repeats a composite class. -/
structure WritesFields (M : Model) (o : Options) (root : ClassRef) (pieces : List Piece) : Prop where
  lines : ∀ earlier c ls later, pieces = earlier ++ .message c ls :: later →
    ∃ x r done, WritesLines M o root pieces earlier c ls x r done
  once : ∀ c ls i c' ls' i' d, .message c ls ∈ pieces → .message c' ls' ∈ pieces →
    Repeats M c ls i d → Repeats M c' ls' i' d → c = c' ∧ i = i'

variable {pieces : List Piece}

theorem WritesLines.first_of_repeats {earlier : List Piece} {ls : List Line} {x : Description}
    {done : Nat → List Piece} (h : WritesLines M o root pieces earlier c ls x r done)
    (hd : Repeats M c ls i d) : M.First root (r ++ [⟨i, 0⟩]) d := by
  obtain ⟨f, l, hf, hs, hd, hl, hmult⟩ := hd
  rw [Model.fieldsOf_of_describeClass h.described] at hf
  obtain ⟨d', hd', _, hcases⟩ := (h.lines i f l hf hl).composite hs
  cases hd.symm.trans hd'
  rcases hcases with ⟨hfirst, _⟩ | ⟨_, _, hoptional⟩
  · exact hfirst
  · rw [hmult] at hoptional
    exact absurd hoptional (by decide)

theorem Acceptable.writesLines (h : Acceptable M o root) (hroot : M.isComposite root = true)
    (hcovers : M.Covers root pieces) {earlier : List Piece} {ls : List Line} {done : Nat → List Piece}
    (hplaced : Placed M o root c ls earlier r done) :
    ∃ x, WritesLines M o root pieces earlier.reverse c ls x r (fun i => (done i).reverse) := by
  obtain ⟨x, hx⟩ := h.described c hplaced.first.route.reachable
  have hfields := Model.fieldsOf_of_describeClass hx
  refine ⟨x, hx, hplaced.first, fun i => List.reverse_prefix.mpr (hplaced.grows i), ?_,
    hfields ▸ hplaced.length, fun i f l hf hl => ?_⟩
  · rw [← hfields, hplaced.all]
  · rw [← hfields] at hf
    rw [hplaced.lines i f hf] at hl
    exact Option.some.inj hl ▸ h.reads hroot hcovers hplaced hf

/-- The first routes to a class are one, so no two lines repeat it. -/
theorem Acceptable.writesFields (h : Acceptable M o root) (hroot : M.isComposite root = true)
    (hcovers : M.Covers root pieces) (hexplored : Explored M o root (Through []) pieces.reverse) :
    WritesFields M o root pieces := by
  have hlines : ∀ earlier c ls later, pieces = earlier ++ .message c ls :: later →
      ∃ x r done, WritesLines M o root pieces earlier c ls x r done := by
    intro earlier c ls later hpieces
    obtain ⟨r, done, hplaced⟩ := hexplored.placed later.reverse c ls earlier.reverse (by simp [hpieces])
    obtain ⟨x, hwrites⟩ := h.writesLines hroot hcovers hplaced
    rw [List.reverse_reverse] at hwrites
    exact ⟨x, r, _, hwrites⟩
  refine ⟨hlines, fun c ls i c' ls' i' d hmem hmem' hd hd' => ?_⟩
  obtain ⟨earlier, later, hpieces⟩ := List.append_of_mem hmem
  obtain ⟨earlier', later', hpieces'⟩ := List.append_of_mem hmem'
  obtain ⟨x, r, done, hwrites⟩ := hlines earlier c ls later hpieces
  obtain ⟨x', r', done', hwrites'⟩ := hlines earlier' c' ls' later' hpieces'
  have heq := (hwrites.first_of_repeats hd).unique (hwrites'.first_of_repeats hd')
  obtain ⟨rfl, hstep⟩ := List.append_inj' heq rfl
  cases hstep
  exact ⟨hwrites.first.route.unique hwrites'.first.route, rfl⟩

/-- A document gives every field of every class that it is about its line. -/
theorem compile_writesFields {doc : Document} (h : compile M o t = .ok doc) :
    ∃ root pieces, t = .cls root ∧ M.Covers root pieces ∧
      doc.blocks = pieces.flatMap (pieceBlocks M o root) ∧ doc.indent = o.indent ∧
      WritesFields M o root pieces := by
  obtain ⟨root, s, rfl, hroot, hat, hmem, rfl⟩ := compile_visits h
  have hapart := hat.draft.apart
  rw [hat.blocks] at hapart
  have hacceptable := hat.sound.acceptable hapart hmem
  have hcovers := hat.sound.covers hmem
  refine ⟨root, _, rfl, hcovers, hat.blocks, rfl, hacceptable.writesFields hroot hcovers ?_⟩
  rw [List.reverse_reverse]
  exact visit_root_explored hacceptable.acyclic

theorem compile_writesFields_shop : ∃ doc root pieces,
    compile .shop default (.cls (.declared 2)) = .ok doc ∧ TypeExpr.cls (.declared 2) = .cls root ∧
      Model.shop.Covers root pieces ∧ doc.blocks = pieces.flatMap (pieceBlocks .shop default root) ∧
      doc.indent = "\t" ∧ WritesFields .shop default root pieces := by
  obtain ⟨doc, h⟩ : ∃ doc, compile .shop default (.cls (.declared 2)) = .ok doc :=
    exists_of_isSome (by decide +kernel)
  obtain ⟨root, pieces, hroot, hcovers, hblocks, hindent, hwrites⟩ := compile_writesFields h
  exact ⟨doc, root, pieces, h, hroot, hcovers, hblocks, hindent, hwrites⟩

end Compiler

end ClassSchema
