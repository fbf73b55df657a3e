import ClassSchema.Proofs.Coverage

namespace ClassSchema

def Block.DistinctLines (b : Block) : Prop := (b.lines.map Line.name).Nodup

instance (b : Block) : Decidable b.DistinctLines := inferInstanceAs (Decidable (List.Nodup _))

/-- Different fields of the class have different names also without their illegal characters. -/
def Model.KeepsApart (M : Model) (c : ClassRef) : Prop :=
  (M.fieldsOf c).Pairwise (fun f g => Name.sanitize f.name ≠ Name.sanitize g.name)

instance (M : Model) (c : ClassRef) : Decidable (M.KeepsApart c) :=
  inferInstanceAs (Decidable (List.Pairwise _ _))

variable {M : Model} {o : Options} {root c : ClassRef} {ps : List Piece}

theorem Model.Covers.message_iff (h : M.Covers root ps) :
    (∃ ls, .message c ls ∈ ps) ↔ M.Reachable root c := by
  rw [← show M.Needs root (.message c) ↔ M.Reachable root c from Iff.rfl, ← h.needed]
  constructor
  · rintro ⟨ls, hls⟩
    exact List.mem_map_of_mem hls
  · intro hc
    obtain ⟨p, hp, hpart⟩ := List.mem_map.mp hc
    cases p with
    | message d ls => cases hpart; exact ⟨ls, hp⟩
    | enumeration e => cases hpart
    | entry d f => cases hpart

namespace Compiler

theorem wrapper_distinctLines (message : String) : (Block.wrapper message).DistinctLines :=
  List.pairwise_singleton _ _

theorem mapEntry_distinctLines (name key value : String) :
    (Block.mapEntry name key value).DistinctLines := by
  simp [Block.DistinctLines, Block.mapEntry, Block.lines]

theorem keepsApart_iff_nodup {ls : List Line}
    (h : ls.map Line.name = (M.fieldsOf c).map (fun f => Name.sanitize f.name)) :
    (ls.map Line.name).Nodup ↔ M.KeepsApart c := by
  rw [h, List.Nodup, List.pairwise_map]
  rfl

/-- Of the blocks of a piece, only the message of a class can have two lines of one name. -/
theorem pieceBlocks_distinctLines_iff (p : Piece) :
    (∀ b ∈ pieceBlocks M o root p, b.DistinctLines) ↔
      ∀ c ls, p = .message c ls → (ls.map Line.name).Nodup := by
  cases p with
  | message c ls =>
      simp only [pieceBlocks, List.forall_mem_cons]
      constructor
      · rintro ⟨h, _⟩ _ _ he
        cases he
        exact h
      · exact fun h => ⟨h c ls rfl, wrapper_distinctLines _, fun _ hb => absurd hb List.not_mem_nil⟩
  | enumeration e =>
      refine iff_of_true (List.forall_mem_singleton.mpr List.nodup_nil) ?_
      exact fun _ _ he => by cases he
  | entry c f =>
      refine iff_of_true (List.forall_mem_singleton.mpr (mapEntry_distinctLines _ _ _)) ?_
      exact fun _ _ he => by cases he

/-- The lines of each block of a document have different names exactly when the root reaches no
class with fields whose names differ in illegal characters alone. -/
theorem distinctLines_iff {doc : Document} (h : compile M o (.cls root) = .ok doc) :
    (∀ b ∈ doc.blocks, b.DistinctLines) ↔ ∀ c, M.Reachable root c → M.KeepsApart c := by
  obtain ⟨_, ps, hroot, hcovers, hblocks⟩ := compile_covers h
  cases hroot
  have hpieces : (∀ b ∈ doc.blocks, b.DistinctLines) ↔
      ∀ p ∈ ps, ∀ c ls, p = .message c ls → (ls.map Line.name).Nodup := by
    rw [hblocks, List.forall_mem_flatMap]
    exact forall₂_congr fun p _ => pieceBlocks_distinctLines_iff p
  rw [hpieces]
  constructor
  · intro hall c hc
    obtain ⟨ls, hls⟩ := hcovers.message_iff.mpr hc
    exact (keepsApart_iff_nodup (hcovers.lines c ls hls)).mp (hall _ hls c ls rfl)
  · rintro hall _ hp c ls rfl
    exact (keepsApart_iff_nodup (hcovers.lines c ls hp)).mpr (hall c (hcovers.message_iff.mp ⟨ls, hp⟩))

theorem shop_distinctLines : ∃ doc, compile .shop default (.cls (.declared 2)) = .ok doc ∧
    (∀ b ∈ doc.blocks, b.DistinctLines) ∧
      ∀ c, Model.shop.Reachable (.declared 2) c → Model.shop.KeepsApart c := by
  obtain ⟨doc, h, hlines⟩ : ∃ doc, compile .shop default (.cls (.declared 2)) = .ok doc ∧
      decide (∀ b ∈ doc.blocks, b.DistinctLines) = true :=
    exists_of_any (by decide +kernel)
  exact ⟨doc, h, of_decide_eq_true hlines, (distinctLines_iff h).mp (of_decide_eq_true hlines)⟩

def church : Model where
  classes := [
    { name := "Church", body := .record .dataclass []
        [("nave", .builtin .str), ("na\u00efve", .builtin .bool)] }]

theorem not_always_distinctLines :
    ¬ ∀ (M : Model) (o : Options) (root : TypeExpr) (doc : Document),
      compile M o root = .ok doc → ∀ b ∈ doc.blocks, b.DistinctLines := by
  intro hall
  obtain ⟨doc, h, hdup⟩ : ∃ doc, compile church default (.cls (.declared 0)) = .ok doc ∧
      decide (¬ ∀ b ∈ doc.blocks, b.DistinctLines) = true :=
    exists_of_any (by decide +kernel)
  exact of_decide_eq_true hdup (hall church default _ doc h)

end Compiler

end ClassSchema
