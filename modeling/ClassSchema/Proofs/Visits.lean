import ClassSchema.Proofs.Pieces

namespace ClassSchema

namespace Compiler

variable (M : Model) (o : Options) (root : ClassRef) (enter : List Piece → ClassRef → List Piece)

/-- What is added for an unwrapped expression, unless it is there already. A composite class is
entered. -/
def meet (ps : List Piece) (t : TypeExpr) : List Piece :=
  match M.part? t with
  | some (.message d) => if .message d ∈ parts ps then ps else enter ps d
  | some (.enumeration e) => if .enumeration e ∈ parts ps then ps else .enumeration e :: ps
  | _ => ps

def meetOperand (ps : List Piece) (operand : Option TypeExpr) : List Piece :=
  match operand.bind (fun e => e.unwrap.toOption) with
  | some t => meet M enter ps t
  | none => ps

def meetField (c : ClassRef) (ps : List Piece) (f : Field) : List Piece :=
  if f.shape = .map then .entry c f :: f.operands.foldl (meetOperand M enter) ps
  else f.operands.foldl (meetOperand M enter) ps

/-- The lines of the fields from place `i` on. Each is as the pieces stand when its turn comes. -/
def linesFrom (c : ClassRef) : (i : Nat) → List Piece → List Field → List Line
  | _, _, [] => []
  | i, ps, f :: fs =>
    fieldLine M o root (parts ps) c (i + 1) f :: linesFrom c (i + 1) (meetField M enter c ps f) fs

/-- The message of a class is written after all that its fields meet. -/
def visit : (levels : Nat) → List Piece → ClassRef → List Piece
  | 0, ps, _ => ps
  | levels + 1, ps, c =>
    .message c (linesFrom M o root (visit levels) c 0 ps (M.fieldsOf c)) ::
      (M.fieldsOf c).foldl (meetField M (visit levels) c) ps

variable {M : Model} {o : Options} {root c d e : ClassRef} {ps : List Piece} {t : TypeExpr}
  {enter : List Piece → ClassRef → List Piece}

theorem suffix_foldl {α β : Type} {step : List β → α → List β} (h : ∀ ps x, ps <:+ step ps x)
    (xs : List α) (ps : List β) : ps <:+ xs.foldl step ps := by
  induction xs generalizing ps with
  | nil => exact List.suffix_rfl
  | cons x xs ih => exact (h ps x).trans (ih _)

theorem meet_of_stands (h : M.Stands ps t) : meet M enter ps t = ps := by
  unfold meet
  split
  next d hd => exact if_pos (h _ hd)
  next e he => exact if_pos (h _ he)
  next => rfl

theorem meet_new (hc : M.isComposite d = true) (h : .message d ∉ parts ps) :
    meet M enter ps (.cls d) = enter ps d := by
  simp only [meet, Model.part?_composite hc, if_neg h]

theorem meet_newEnum (he : M.isEnumClass e = true) (h : .enumeration e ∉ parts ps) :
    meet M enter ps (.cls e) = .enumeration e :: ps := by
  simp only [meet, Model.part?_enum he, if_neg h]

theorem meetOperand_of_unwrap {x : TypeExpr} (h : x.unwrap = .ok t) :
    meetOperand M enter ps (some x) = meet M enter ps t := by
  simp [meetOperand, h, Except.toOption]

theorem meetOperand_of_stands {x : TypeExpr} (h : x.unwrap = .ok t) (hst : M.Stands ps t) :
    meetOperand M enter ps (some x) = ps := by
  rw [meetOperand_of_unwrap h, meet_of_stands hst]

theorem meetOperand_plain (enter : List Piece → ClassRef → List Piece) (ps : List Piece)
    {operand : Option TypeExpr}
    (h : ∀ x d, operand = some x → x.unwrap = .ok (.cls d) → M.isComposite d = false) :
    meetOperand M enter ps operand = ps ∨ ∃ e, meetOperand M enter ps operand = .enumeration e :: ps := by
  unfold meetOperand
  split
  next t ht =>
    obtain ⟨x, rfl, hx⟩ := Option.bind_eq_some_iff.mp ht
    unfold meet
    split
    next d hd =>
      obtain ⟨rfl, hcomp⟩ := Model.composite_of_part? hd
      rw [h x d rfl (eq_ok_of_toOption hx)] at hcomp
      cases hcomp
    next e _ =>
      split
      next => exact Or.inl rfl
      next => exact Or.inr ⟨e, rfl⟩
    next => exact Or.inl rfl
  next => exact Or.inl rfl

theorem meetField_sole {f : Field} {operand : Option TypeExpr} (h : f.operands = [operand]) :
    meetField M enter c ps f = meetOperand M enter ps operand := by
  have hmap : f.shape ≠ .map := by
    intro hm
    simp [Field.operands_of_map hm] at h
  simp only [meetField, if_neg hmap, h, List.foldl_cons, List.foldl_nil]

section Suffix

variable (henter : ∀ ps d, ps <:+ enter ps d)
include henter

theorem suffix_meet (ps : List Piece) (t : TypeExpr) : ps <:+ meet M enter ps t := by
  unfold meet
  split
  next d _ =>
    split_ifs
    · exact List.suffix_rfl
    · exact henter ps d
  next =>
    split_ifs
    · exact List.suffix_rfl
    · exact List.suffix_cons _ _
  next => exact List.suffix_rfl

theorem suffix_meetOperand (ps : List Piece) (operand : Option TypeExpr) :
    ps <:+ meetOperand M enter ps operand := by
  unfold meetOperand
  split
  next t _ => exact suffix_meet henter ps t
  next => exact List.suffix_rfl

theorem suffix_meetField (c : ClassRef) (ps : List Piece) (f : Field) :
    ps <:+ meetField M enter c ps f := by
  have hops := suffix_foldl (suffix_meetOperand (M := M) henter) f.operands ps
  unfold meetField
  split_ifs
  · exact hops.trans (List.suffix_cons _ _)
  · exact hops

end Suffix

theorem suffix_visit (levels : Nat) (ps : List Piece) (c : ClassRef) :
    ps <:+ visit M o root levels ps c := by
  induction levels generalizing ps c with
  | zero => exact List.suffix_rfl
  | succ levels ih =>
      exact (suffix_foldl (suffix_meetField ih c) (M.fieldsOf c) ps).trans (List.suffix_cons _ _)

theorem length_linesFrom (i : Nat) (fs : List Field) :
    (linesFrom M o root enter c i ps fs).length = fs.length := by
  induction fs generalizing i ps with
  | nil => rfl
  | cons f fs ih => rw [linesFrom, List.length_cons, List.length_cons, ih]

theorem linesFrom_getElem? (i k : Nat) (fs : List Field) :
    (linesFrom M o root enter c i ps fs)[k]? = fs[k]?.map (fun f =>
      fieldLine M o root (parts ((fs.take k).foldl (meetField M enter c) ps)) c (i + k + 1) f) := by
  induction fs generalizing i k ps with
  | nil => rfl
  | cons f fs ih =>
      cases k with
      | zero => rfl
      | succ k =>
          have hk : ((i + 1 : Nat) : Int) + k + 1 = i + (k + 1 : Nat) + 1 := by omega
          simp only [linesFrom, List.getElem?_cons_succ, ih, List.take_succ_cons, List.foldl_cons, hk]

end Compiler

end ClassSchema
