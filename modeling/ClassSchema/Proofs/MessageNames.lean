import ClassSchema.Proofs.Acceptance

namespace ClassSchema

/-- The blocks are not two messages of one name, where an entry is a message too. -/
def Block.Distinct (a b : Block) : Prop := a.kind ≠ .enum → b.kind ≠ .enum → a.name ≠ b.name

theorem Block.Distinct.symm {a b : Block} (h : a.Distinct b) : b.Distinct a :=
  fun hb ha hn => h ha hb hn.symm

theorem Name.wrapperName_inj {a b : String} (h : wrapperName a = wrapperName b) : a = b :=
  (String.append_left_inj "s").mp h

theorem Draft.Consistent.messages_nodup {d : Draft} (h : d.Consistent) :
    d.messages.Nodup ↔ d.blocks.Pairwise Block.Distinct := by
  rw [h.messages, List.Nodup, List.pairwise_map, List.pairwise_filter]
  simp only [decide_eq_true_eq]
  rfl

def Model.DistinctNames (M : Model) (root : ClassRef) : Prop :=
  ∀ c d, M.Reachable root c → M.Reachable root d → M.simpleName c = M.simpleName d → c = d

theorem Model.DistinctNames.of_closed {M : Model} {root : ClassRef} (cs : List ClassRef)
    (hroot : root ∈ cs) (hclosed : ∀ x ∈ cs, ∀ y ∈ M.mentioned x, y ∈ cs)
    (hcs : ∀ c ∈ cs, ∀ d ∈ cs, M.simpleName c = M.simpleName d → c = d) : M.DistinctNames root :=
  fun c d hc hd => hcs c (hc.mem hroot hclosed) d (hd.mem hroot hclosed)

namespace Compiler

variable {M : Model} {o : Options} {root c d : ClassRef} {ps : List Piece}

/-- The wrapper of one class has the name of the message of another. -/
def WrapperClash (M : Model) (o : Options) (root : ClassRef) : Prop :=
  ∃ c d, M.Reachable root c ∧ M.Reachable root d ∧
    messageName M o root c = Name.wrapperName (messageName M o root d)

/-- A class has the simple name that the message of the root has with its prefix. -/
def RootClash (M : Model) (o : Options) (root : ClassRef) : Prop :=
  ∃ c, M.Reachable root c ∧ c ≠ root ∧ M.simpleName c = o.affix ++ M.simpleName root

theorem messageName_inj (hsimple : M.DistinctNames root) (hno : ¬ RootClash M o root)
    (hc : M.Reachable root c) (hd : M.Reachable root d)
    (h : messageName M o root c = messageName M o root d) : c = d := by
  by_cases hcr : c = root
  · by_cases hdr : d = root
    · rw [hcr, hdr]
    · rw [hcr, messageName_root, messageName_of_ne hdr] at h
      exact absurd ⟨d, hd, hdr, h.symm⟩ hno
  · by_cases hdr : d = root
    · rw [hdr, messageName_root, messageName_of_ne hcr] at h
      exact absurd ⟨c, hc, hcr, h⟩ hno
    · rw [messageName_of_ne hcr, messageName_of_ne hdr] at h
      exact hsimple c d hc hd h

theorem pieceBlocks_distinct (p : Piece) : (pieceBlocks M o root p).Pairwise Block.Distinct := by
  cases p with
  | message c ls =>
      apply List.pairwise_pair.mpr
      exact fun _ _ => Name.ne_wrapperName _
  | enumeration e => exact List.pairwise_singleton _ _
  | entry c f => exact List.pairwise_singleton _ _

theorem distinct_of_not_clash (hsimple : M.DistinctNames root) (hroot : ¬ RootClash M o root)
    (hwrap : ¬ WrapperClash M o root) (hc : M.Reachable root c) (hd : M.Reachable root d)
    (hne : c ≠ d) : ∀ n ∈ partNames M o root (.message c), n ∉ partNames M o root (.message d) := by
  have hmessage : messageName M o root c ≠ messageName M o root d :=
    fun h => hne (messageName_inj hsimple hroot hc hd h)
  intro n hn hn'
  simp only [partNames, List.mem_cons, List.not_mem_nil, or_false] at hn hn'
  rcases hn with rfl | rfl <;> rcases hn' with h | h
  · exact hmessage h
  · exact hwrap ⟨c, d, hc, hd, h⟩
  · exact hwrap ⟨d, c, hd, hc, h.symm⟩
  · exact hmessage (Name.wrapperName_inj h)

theorem Sound.distinct (h : Sound M o root ps) (hb : (blocksOf M o root ps).Pairwise Block.Apart)
    (hsimple : M.DistinctNames root) (hroot : ¬ RootClash M o root)
    (hwrap : ¬ WrapperClash M o root) : (blocksOf M o root ps).Pairwise Block.Distinct := by
  refine List.pairwise_flatMap.mpr ⟨fun p _ => pieceBlocks_distinct p, List.pairwise_reverse.mpr ?_⟩
  have hnodup : ps.Pairwise (fun x y => x.part ≠ y.part) := List.pairwise_map.mp h.nodup
  apply hnodup.imp_of_mem
  intro x y hx hy hne a ha b hb' _ _ hn
  have hxp : x.part ∈ parts ps := List.mem_map_of_mem hx
  have hyp : y.part ∈ parts ps := List.mem_map_of_mem hy
  have han : a.name ∈ partNames M o root y.part := by
    rw [← pieceBlocks_names]
    exact List.mem_map_of_mem ha
  have hbn : a.name ∈ partNames M o root x.part := by
    rw [hn, ← pieceBlocks_names]
    exact List.mem_map_of_mem hb'
  cases hpx : x.part with
  | message c =>
      cases hpy : y.part with
      | message d =>
          rw [hpx] at hxp hbn hne
          rw [hpy] at hyp han hne
          exact distinct_of_not_clash hsimple hroot hwrap (h.needs _ hxp) (h.needs _ hyp)
            (fun he => hne (congrArg Part.message he)) _ hbn han
      | enumeration e | entry c f =>
          exact Sound.apart hb hyp hxp hne.symm (by simp [hpy, Part.kind]) han hbn
  | enumeration e | entry c f =>
      exact Sound.apart hb hxp hyp hne (by simp [hpx, Part.kind]) hbn han

theorem Sound.not_distinct (h : Sound M o root ps) (hmem : .message root ∈ parts ps)
    (hb : (blocksOf M o root ps).Pairwise Block.Distinct) (hc : M.Reachable root c)
    (hd : M.Reachable root d) (hne : c ≠ d) :
    ∀ n ∈ partNames M o root (.message c), n ∉ partNames M o root (.message d) := by
  intro n hn hn'
  obtain ⟨x, hx, hxp⟩ := List.mem_map.mp (h.reaches hmem hc)
  obtain ⟨y, hy, hyp⟩ := List.mem_map.mp (h.reaches hmem hd)
  have hxy : x ≠ y := by
    rintro rfl
    exact hne (Part.message.inj (hxp.symm.trans hyp))
  rw [← hxp, ← pieceBlocks_names] at hn
  rw [← hyp, ← pieceBlocks_names] at hn'
  obtain ⟨a, ha, han⟩ := List.mem_map.mp hn
  obtain ⟨b, hb', hbn⟩ := List.mem_map.mp hn'
  have hak : a.kind ≠ .enum := by simp [pieceBlocks_kind x ha, hxp, Part.kind]
  have hbk : b.kind ≠ .enum := by simp [pieceBlocks_kind y hb', hyp, Part.kind]
  exact forall_of_pairwise (fun _ _ => Block.Distinct.symm) hb hx hy hxy a ha b hb' hak hbk
    (han.trans hbn.symm)

/-- Where reachable classes have different simple names, two messages of a document share a name
exactly when a wrapper meets a message or the message of the root meets that of another class. -/
theorem messages_nodup_iff {doc : Document} (h : compile M o (.cls root) = .ok doc)
    (hsimple : M.DistinctNames root) :
    doc.messages.Nodup ↔ ¬ WrapperClash M o root ∧ ¬ RootClash M o root := by
  obtain ⟨root', ps, s, heq, _, hat, hmem, rfl⟩ := compile_ok h
  cases heq
  have hblocks := hat.draft.messages_nodup
  rw [hat.blocks] at hblocks
  refine hblocks.trans ⟨fun hb => ⟨?_, ?_⟩, fun ⟨hwrap, hroot⟩ => ?_⟩
  · rintro ⟨c, d, hc, hd, hn⟩
    have hne : c ≠ d := by
      rintro rfl
      exact Name.ne_wrapperName _ hn
    exact hat.sound.not_distinct hmem hb hc hd hne _ List.mem_cons_self (by simp [partNames, hn])
  · rintro ⟨c, hc, hne, hn⟩
    refine hat.sound.not_distinct hmem hb hc .refl hne _ List.mem_cons_self ?_
    simp [partNames, messageName_of_ne hne, messageName_root, hn]
  · have hapart := hat.draft.apart
    rw [hat.blocks] at hapart
    exact hat.sound.distinct hapart hsimple hroot hwrap

theorem shop_messages_nodup_iff : ∃ doc, compile .shop default (.cls (.declared 2)) = .ok doc ∧
    Model.shop.DistinctNames (.declared 2) ∧ doc.messages.Nodup ∧
      ¬ WrapperClash .shop default (.declared 2) ∧ ¬ RootClash .shop default (.declared 2) := by
  obtain ⟨doc, h, hnodup⟩ : ∃ doc, compile .shop default (.cls (.declared 2)) = .ok doc ∧
      decide doc.messages.Nodup = true :=
    exists_of_any (by decide +kernel)
  have hsimple : Model.shop.DistinctNames (.declared 2) :=
    .of_closed [.declared 0, .declared 1, .declared 2, .builtin .str] (by decide) (by decide +kernel)
      (by decide)
  have hmessages : doc.messages.Nodup := of_decide_eq_true hnodup
  exact ⟨doc, h, hsimple, hmessages, (messages_nodup_iff h hsimple).mp hmessages⟩

def plurals : Model where
  classes := [
    { name := "Item", body := .record .dataclass [] [("name", .builtin .str)] },
    { name := "Items", body := .record .dataclass [] [("count", .builtin .int)] },
    { name := "Box", body := .record .dataclass []
        [("first", .cls (.declared 0)), ("rest", .cls (.declared 1))] }]

theorem messages_not_always_nodup :
    ¬ ∀ (M : Model) (o : Options) (root : ClassRef) (doc : Document), M.DistinctNames root →
      compile M o (.cls root) = .ok doc → doc.messages.Nodup := by
  intro hall
  obtain ⟨doc, h, hdup⟩ : ∃ doc, compile plurals default (.cls (.declared 2)) = .ok doc ∧
      decide (¬ doc.messages.Nodup) = true :=
    exists_of_any (by decide +kernel)
  have hsimple : plurals.DistinctNames (.declared 2) :=
    .of_closed [.declared 0, .declared 1, .declared 2, .builtin .str, .builtin .int] (by decide)
      (by decide +kernel) (by decide)
  exact of_decide_eq_true hdup (hall plurals default (.declared 2) doc hsimple h)

end Compiler

end ClassSchema
