import ClassSchema.Proofs.Drafting
import ClassSchema.Proofs.References
import Mathlib.Data.List.Pairwise

namespace ClassSchema

inductive Piece where
  | message (c : ClassRef) (lines : List Line)
  | enumeration (e : ClassRef)
  | entry (owner : ClassRef) (f : Field)

def Piece.part : Piece → Part
  | message c _ => .message c
  | enumeration e => .enumeration e
  | entry c f => .entry c f.name

def parts (ps : List Piece) : List Part := ps.map Piece.part

/-- The part of what an unwrapped expression stands for is there. -/
def Model.Stands (M : Model) (ps : List Piece) (t : TypeExpr) : Prop :=
  ∀ p, M.part? t = some p → p ∈ parts ps

/-- The operand of a field is an element whose part is there. -/
def Model.Resolved (M : Model) (ps : List Piece) (operand : Option TypeExpr) : Prop :=
  ∃ e t, operand = some e ∧ e.unwrap = .ok t ∧ t.isElement = true ∧ M.Stands ps t

namespace Compiler

variable (M : Model) (o : Options) (root : ClassRef)

def pieceBlocks : Piece → List Block
  | .message c lines => [.message (messageName M o root c) lines, .wrapper (messageName M o root c)]
  | .enumeration e => [.enum (Name.enumName (M.simpleName e) o.affix) (M.constants e)]
  | .entry c f =>
    [.mapEntry (Name.entryName (messageName M o root c) f.name)
      ((operandType? M o root f.key).getD defaultType)
      ((operandType? M o root f.element).getD defaultType)]

def blocksOf (ps : List Piece) : List Block := ps.reverse.flatMap (pieceBlocks M o root)

/-- A composite class is repeated where it is first met. -/
def multiplicity (met : List Part) (f : Field) : String :=
  match f.shape with
  | .scalar | .enum => Multiplicity.optional
  | .composite =>
    if f.declared.class?.any (fun d => Part.message d ∈ met) then Multiplicity.optional
    else Multiplicity.repeated
  | .list | .array | .collection | .map => Multiplicity.repeated

def fieldType? (c : ClassRef) (f : Field) : Option String :=
  match f.shape with
  | .scalar | .enum | .composite => operandType? M o root (some f.declared)
  | .list | .array | .collection => operandType? M o root f.element
  | .map => some (Name.entryName (messageName M o root c) f.name)

/-- The line of a field in the message of its class, where `met` has been written before. -/
def fieldLine (met : List Part) (c : ClassRef) (ordinal : Int) (f : Field) : Line :=
  ⟨multiplicity met f, (fieldType? M o root c f).getD defaultType, Name.sanitize f.name, ordinal⟩

/-- The pieces that the line of a field needs are there, and nothing about the field is refused. -/
structure Settled (ps : List Piece) (c : ClassRef) (f : Field) : Prop where
  legal : Name.sanitize f.name ≠ ""
  operands : ∀ operand ∈ f.operands, M.Resolved ps operand
  entry : f.shape = .map → .entry c f.name ∈ parts ps

/-- The lines of the first fields of a class, once the last of the pieces has been written. The
pieces have grown from field to field. -/
inductive Filled (c : ClassRef) : List Field → List Line → List Piece → Prop
  | none (ps) : Filled c [] [] ps
  | field {fs ls ps ps' f} : Filled c fs ls ps → ps <:+ ps' → Settled M ps' c f →
      Filled c (fs ++ [f]) (ls ++ [fieldLine M o root (parts ps) c (fs.length + 1) f]) ps'

/-- A piece is right where it stands, after the earlier ones. -/
def Fits (earlier : List Piece) : Piece → Prop
  | .message c lines =>
    Name.sanitize (Name.lowerFirst (messageName M o root c)) ≠ "" ∧
      ∃ d, M.describeClass c = .ok d ∧ Filled M o root c d.fields lines earlier
  | .enumeration e => M.constants e ≠ []
  | .entry c f =>
    f ∈ M.fieldsOf c ∧ f.shape = .map ∧ ∀ operand ∈ f.operands, M.Resolved earlier operand

inductive Sound : List Piece → Prop
  | none : Sound []
  | piece {p earlier} : Sound earlier → p.part ∉ parts earlier → M.Needs root p.part →
      Fits M o root earlier p → Sound (p :: earlier)

end Compiler

variable {M : Model} {o : Options} {root c : ClassRef} {ps ps' : List Piece} {p : Part}

theorem parts_mono (h : ps <:+ ps') (hp : p ∈ parts ps) : p ∈ parts ps' :=
  (h.map Piece.part).subset hp

theorem Model.Stands.of_none {t : TypeExpr} (h : M.part? t = none) (ps : List Piece) :
    M.Stands ps t := by
  intro p hp
  rw [h] at hp
  cases hp

theorem Model.Stands.mono {t : TypeExpr} (h : M.Stands ps t) (hs : ps <:+ ps') : M.Stands ps' t :=
  fun p hp => parts_mono hs (h p hp)

theorem Model.Resolved.mono {operand : Option TypeExpr} (h : M.Resolved ps operand) (hs : ps <:+ ps') :
    M.Resolved ps' operand := by
  obtain ⟨e, t, he, ht, hel, hst⟩ := h
  exact ⟨e, t, he, ht, hel, hst.mono hs⟩

namespace Compiler

theorem multiplicity_of_sequence {met : List Part} {f : Field} (hs : f.shape.isSequence = true) :
    multiplicity met f = Multiplicity.repeated := by
  unfold multiplicity
  cases hsh : f.shape <;> simp_all [Shape.isSequence]

theorem blocksOf_cons (p : Piece) (ps : List Piece) :
    blocksOf M o root (p :: ps) = blocksOf M o root ps ++ pieceBlocks M o root p := by
  simp [blocksOf]

theorem pieceBlocks_names (p : Piece) :
    (pieceBlocks M o root p).map Block.name = partNames M o root p.part := by
  cases p <;> rfl

theorem pieceBlocks_kind (p : Piece) {b : Block} (hb : b ∈ pieceBlocks M o root p) :
    b.kind = p.part.kind := by
  cases p <;> simp only [pieceBlocks, List.mem_cons, List.not_mem_nil, or_false] at hb
  case message c lines => rcases hb with rfl | rfl <;> rfl
  case enumeration e => exact hb ▸ rfl
  case entry c f => exact hb ▸ rfl

theorem mem_blocksOf {b : Block} :
    b ∈ blocksOf M o root ps ↔ ∃ p ∈ ps, b ∈ pieceBlocks M o root p := by
  simp [blocksOf]

theorem forall_of_pairwise {R : Block → Block → Prop} (hsymm : ∀ a b, R a b → R b a)
    (h : (blocksOf M o root ps).Pairwise R) {x y : Piece} (hx : x ∈ ps) (hy : y ∈ ps) (hne : x ≠ y) :
    ∀ a ∈ pieceBlocks M o root x, ∀ b ∈ pieceBlocks M o root y, R a b := by
  have hsymm' : Std.Symm (fun x y : Piece =>
      ∀ a ∈ pieceBlocks M o root x, ∀ b ∈ pieceBlocks M o root y, R a b) :=
    ⟨fun x y h b hb a ha => hsymm a b (h a ha b hb)⟩
  exact (List.pairwise_flatMap.mp h).2.forall (List.mem_reverse.mpr hx) (List.mem_reverse.mpr hy) hne

theorem Settled.mono {f : Field} (h : Settled M ps c f) (hs : ps <:+ ps') : Settled M ps' c f where
  legal := h.legal
  operands := fun operand ho => (h.operands operand ho).mono hs
  entry := fun hm => parts_mono hs (h.entry hm)

theorem Settled.stands {f : Field} {t : TypeExpr} (h : Settled M ps c f) (hu : f.Uses t) :
    M.Stands ps t := by
  obtain ⟨e, he, ht⟩ := hu
  obtain ⟨_, u, heq, hu, _, hst⟩ := h.operands _ he
  cases heq
  rw [ht] at hu
  cases hu
  exact hst

theorem Filled.settled {fs : List Field} {ls : List Line} (h : Filled M o root c fs ls ps) :
    ∀ f ∈ fs, Settled M ps c f := by
  induction h with
  | none ps => exact fun f hf => absurd hf List.not_mem_nil
  | field _ hs hf ih =>
      intro g hg
      rcases List.mem_append.mp hg with hg | hg
      · exact (ih g hg).mono hs
      · exact List.mem_singleton.mp hg ▸ hf

theorem Filled.names {fs : List Field} {ls : List Line} (h : Filled M o root c fs ls ps) :
    ls.map Line.name = fs.map (fun f => Name.sanitize f.name) := by
  induction h with
  | none ps => rfl
  | field _ _ _ ih => simp [ih, fieldLine]

theorem Sound.nodup (h : Sound M o root ps) : (parts ps).Nodup := by
  induction h with
  | none => exact List.nodup_nil
  | piece _ hp _ _ ih => exact List.nodup_cons.mpr ⟨hp, ih⟩

theorem Sound.needs (h : Sound M o root ps) : ∀ p ∈ parts ps, M.Needs root p := by
  induction h with
  | none => exact fun p hp => absurd hp List.not_mem_nil
  | piece _ _ hn _ ih => exact List.forall_mem_cons.mpr ⟨hn, ih⟩

theorem Sound.exists_part (h : Sound M o root ps) {b : Block} (hb : b ∈ blocksOf M o root ps) :
    ∃ p, M.Needs root p ∧ b.name ∈ partNames M o root p := by
  obtain ⟨p, hp, hbp⟩ := mem_blocksOf.mp hb
  exact ⟨p.part, h.needs _ (List.mem_map_of_mem hp), pieceBlocks_names p ▸ List.mem_map_of_mem hbp⟩

theorem Sound.fits {later earlier : List Piece} {p : Piece} (h : Sound M o root (later ++ p :: earlier)) :
    Sound M o root earlier ∧ p.part ∉ parts earlier ∧ Fits M o root earlier p := by
  induction later with
  | nil =>
      cases h with
      | piece hs hp _ hf => exact ⟨hs, hp, hf⟩
  | cons q later ih =>
      cases h with
      | piece hs _ _ _ => exact ih hs

end Compiler

end ClassSchema
