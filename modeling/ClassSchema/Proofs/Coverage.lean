import ClassSchema.Proofs.Messages

namespace ClassSchema

/-- The pieces are exactly those that a document about the root needs. -/
structure Model.Covers (M : Model) (root : ClassRef) (pieces : List Piece) : Prop where
  nodup : (pieces.map Piece.part).Nodup
  needed : ∀ p, p ∈ pieces.map Piece.part ↔ M.Needs root p
  entries : ∀ c f, .entry c f ∈ pieces → f ∈ M.fieldsOf c ∧ f.shape = .map
  lines : ∀ c ls, .message c ls ∈ pieces →
    ls.map Line.name = (M.fieldsOf c).map (fun f => Name.sanitize f.name)

def Model.shop : Model where
  classes := [
    { name := "Color", body := .enumeration .distinct [("RED", .int 1), ("BLUE", .int 2)] },
    { name := "Item", body := .record .dataclass []
        [("label", .builtin .str), ("color", .cls (.declared 0))] },
    { name := "Order", body := .record .dataclass []
        [("items", .subscript (.cls (.builtin .list)) [.cls (.declared 1)]),
         ("first", .cls (.declared 1)),
         ("stock", .subscript (.cls (.builtin .dict)) [.builtin .str, .cls (.declared 1)])] }]

namespace Compiler

variable {M : Model} {o : Options} {root c d : ClassRef} {ps : List Piece}

theorem exists_split {p : Part} (h : p ∈ parts ps) :
    ∃ later q earlier, ps = later ++ q :: earlier ∧ q.part = p := by
  obtain ⟨q, hq, hp⟩ := List.mem_map.mp h
  obtain ⟨later, earlier, hs⟩ := List.append_of_mem hq
  exact ⟨later, q, earlier, hs, hp⟩

theorem Sound.message (h : Sound M o root ps) (hc : .message c ∈ parts ps) :
    ∃ earlier, earlier <:+ ps ∧ Sound M o root earlier ∧ .message c ∉ parts earlier ∧
      Name.sanitize (Name.lowerFirst (messageName M o root c)) ≠ "" ∧
      (∃ x, M.describeClass c = .ok x) ∧ ∀ f ∈ M.fieldsOf c, Settled M earlier c f := by
  obtain ⟨later, q, earlier, hs, hq⟩ := exists_split hc
  subst hs
  obtain ⟨hsound, hnot, hfit⟩ := h.fits
  cases q with
  | message c' lines =>
      cases hq
      obtain ⟨hlegal, x, hx, hfill⟩ := hfit
      refine ⟨earlier, ⟨later ++ [.message c lines], by simp⟩, hsound, hnot, hlegal, ⟨x, hx⟩, ?_⟩
      rw [Model.fieldsOf_of_describeClass hx]
      exact hfill.settled
  | enumeration e => cases hq
  | entry c' f => cases hq

theorem Sound.refers (h : Sound M o root ps) (hc : .message c ∈ parts ps) (hr : M.Refers c d) :
    .message d ∈ parts ps := by
  obtain ⟨earlier, hsuffix, _, _, _, _, hset⟩ := h.message hc
  obtain ⟨⟨f, hf, hu⟩, hd⟩ := hr
  exact parts_mono hsuffix ((hset f hf).stands hu _ (Model.part?_composite hd))

theorem Sound.reaches (h : Sound M o root ps) (hc : .message c ∈ parts ps) (hr : M.Reachable c d) :
    .message d ∈ parts ps := by
  induction hr with
  | refl => exact hc
  | tail _ hr ih => exact h.refers ih hr

theorem Sound.complete (h : Sound M o root ps) (hroot : .message root ∈ parts ps) {p : Part}
    (hp : M.Needs root p) : p ∈ parts ps := by
  cases p with
  | message c => exact h.reaches hroot hp
  | enumeration e =>
      obtain ⟨he, c, hc, f, hf, hu⟩ := hp
      obtain ⟨earlier, hsuffix, _, _, _, _, hset⟩ := h.message (h.reaches hroot hc)
      exact parts_mono hsuffix ((hset f hf).stands hu _ (Model.part?_enum he))
  | entry c name =>
      obtain ⟨hc, f, hf, hm, rfl⟩ := hp
      obtain ⟨earlier, hsuffix, _, _, _, _, hset⟩ := h.message (h.reaches hroot hc)
      exact parts_mono hsuffix ((hset f hf).entry hm)

theorem Sound.covers (h : Sound M o root ps) (hroot : .message root ∈ parts ps) :
    M.Covers root ps.reverse where
  nodup := by
    rw [List.map_reverse]
    exact (List.reverse_perm _).nodup_iff.mpr h.nodup
  needed := by
    intro p
    rw [List.map_reverse, List.mem_reverse]
    exact ⟨h.needs p, h.complete hroot⟩
  entries := by
    intro c f hmem
    obtain ⟨later, earlier, hs⟩ := List.append_of_mem (List.mem_reverse.mp hmem)
    obtain ⟨_, _, hf, hm, _⟩ := (hs ▸ h).fits
    exact ⟨hf, hm⟩
  lines := by
    intro c ls hmem
    obtain ⟨later, earlier, hs⟩ := List.append_of_mem (List.mem_reverse.mp hmem)
    obtain ⟨_, _, _, x, hx, hfill⟩ := (hs ▸ h).fits
    rw [Model.fieldsOf_of_describeClass hx]
    exact hfill.names

/-- A document is made of the pieces that its root needs, each once: a message with the message
that collects a list of it, an enum, or an entry. -/
theorem compile_covers {t : TypeExpr} {doc : Document} (h : compile M o t = .ok doc) :
    ∃ root pieces, t = .cls root ∧ M.Covers root pieces ∧
      doc.blocks = pieces.flatMap (pieceBlocks M o root) := by
  obtain ⟨root, ps, s, rfl, _, hat, hroot, rfl⟩ := compile_ok h
  exact ⟨root, ps.reverse, rfl, hat.sound.covers hroot, hat.blocks⟩

theorem compile_covers_shop : ∃ doc root pieces,
    compile .shop default (.cls (.declared 2)) = .ok doc ∧ TypeExpr.cls (.declared 2) = .cls root ∧
      Model.shop.Covers root pieces ∧ doc.blocks = pieces.flatMap (pieceBlocks .shop default root) := by
  obtain ⟨doc, h⟩ : ∃ doc, compile .shop default (.cls (.declared 2)) = .ok doc :=
    exists_of_isSome (by decide +kernel)
  obtain ⟨root, pieces, hroot, hcovers, hblocks⟩ := compile_covers h
  exact ⟨doc, root, pieces, h, hroot, hcovers, hblocks⟩

end Compiler

end ClassSchema
