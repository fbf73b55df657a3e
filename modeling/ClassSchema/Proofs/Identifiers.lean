import ClassSchema.Proofs.Coverage
import ClassSchema.Proofs.Words

namespace ClassSchema

namespace Name

variable {s t owner simple : String}

theorem isIdentifier_append (hs : isIdentifier s = true) (ht : ∀ c ∈ t.toList, isWordChar c = true) :
    isIdentifier (s ++ t) = true := by
  have hall := isWordChar_of_isIdentifier hs
  unfold isIdentifier at hs ⊢
  rw [String.toList_append]
  cases hc : s.toList with
  | nil => simp [hc, isIdentifierChars] at hs
  | cons c cs =>
      rw [hc] at hs hall
      simp only [isIdentifierChars, Bool.and_eq_true] at hs
      simp only [List.cons_append, isIdentifierChars, Bool.and_eq_true, List.all_eq_true]
      exact ⟨hs.1, List.forall_mem_append.mpr ⟨(List.forall_mem_cons.mp hall).2, ht⟩⟩

theorem wrapperName_isIdentifier (h : isIdentifier owner = true) :
    isIdentifier (wrapperName owner) = true :=
  isIdentifier_append h (List.all_eq_true.mp (by decide))

/-- The owner comes first, so what is left of a field name may be empty or begin with a digit. -/
theorem entryName_isIdentifier (h : isIdentifier owner = true) (field : String) :
    isIdentifier (entryName owner field) = true := by
  have hentry : ∀ c ∈ "Entry".toList, isWordChar c = true := List.all_eq_true.mp (by decide)
  exact isIdentifier_append (isIdentifier_append h (pascalCase_sanitize_isWordChar field)) hentry

end Name

theorem Options.affix_append_isIdentifier (o : Options) {simple : String}
    (h : Name.isIdentifier simple = true) : Name.isIdentifier (o.affix ++ simple) = true := by
  rcases o.affix_cases with ha | ha
  · rwa [ha, String.empty_append]
  · exact Name.isIdentifier_append ha (Name.isWordChar_of_isIdentifier h)

def Model.Identified (M : Model) (root : ClassRef) : Prop :=
  ∀ p, M.Needs root p → Name.isIdentifier (M.simpleName p.about) = true

theorem Model.Identified.of_closed {M : Model} {root : ClassRef} (cs : List ClassRef)
    (hroot : root ∈ cs) (hclosed : ∀ x ∈ cs, ∀ y ∈ M.mentioned x, y ∈ cs)
    (hcs : ∀ c ∈ cs, Name.isIdentifier (M.simpleName c) = true) : M.Identified root :=
  fun _ hp => hcs _ (hp.about_mem hroot hclosed)

namespace Compiler

variable {M : Model} {o : Options} {root c : ClassRef} {ps : List Piece}

theorem messageName_isIdentifier (h : Name.isIdentifier (M.simpleName c) = true) :
    Name.isIdentifier (messageName M o root c) = true := by
  by_cases hc : c = root
  · rw [hc] at h ⊢
    rw [messageName_root]
    exact o.affix_append_isIdentifier h
  · rwa [messageName_of_ne hc]

theorem partNames_isIdentifier {p : Part} (h : Name.isIdentifier (M.simpleName p.about) = true) :
    ∀ name ∈ partNames M o root p, Name.isIdentifier name = true := by
  cases p with
  | message c =>
      have hm : Name.isIdentifier (messageName M o root c) = true := messageName_isIdentifier h
      exact List.forall_mem_cons.mpr
        ⟨hm, List.forall_mem_singleton.mpr (Name.wrapperName_isIdentifier hm)⟩
  | enumeration e => exact List.forall_mem_singleton.mpr (o.affix_append_isIdentifier h)
  | entry c field =>
      exact List.forall_mem_singleton.mpr
        (Name.entryName_isIdentifier (messageName_isIdentifier h) field)

theorem Sound.isIdentifier (h : Sound M o root ps) (hnames : M.Identified root) :
    ∀ b ∈ blocksOf M o root ps, Name.isIdentifier b.name = true := by
  intro b hb
  obtain ⟨p, hneeds, hname⟩ := h.exists_part hb
  exact partNames_isIdentifier (hnames p hneeds) _ hname

theorem Sound.entry_mem (h : Sound M o root ps) (hroot : .message root ∈ parts ps)
    (hc : M.Reachable root c) {f : Field} (hf : f ∈ M.fieldsOf c) (hmap : f.shape = .map) :
    ∃ b ∈ blocksOf M o root ps, b.kind = .entry ∧
      b.name = Name.entryName (messageName M o root c) f.name := by
  have hpart : Part.entry c f.name ∈ parts ps := h.complete hroot ⟨hc, f, hf, hmap, rfl⟩
  obtain ⟨p, hp, hpart⟩ := List.mem_map.mp hpart
  cases p with
  | message d ls => cases hpart
  | enumeration e => cases hpart
  | entry d g =>
      obtain ⟨rfl, hname⟩ := Part.entry.inj hpart
      exact ⟨_, mem_blocksOf.mpr ⟨_, hp, List.mem_singleton_self _⟩, rfl, by rw [← hname]; rfl⟩

/-- Every message, enum and entry of a document has an identifier for a name, where the classes and
enums do. Of the field of a map, only what follows the name of its class comes into it. -/
theorem compile_identifiers {t : TypeExpr} {doc : Document} (h : compile M o t = .ok doc) :
    ∃ root, t = .cls root ∧ (M.Identified root →
      (∀ name ∈ doc.messages ++ doc.enums, Name.isIdentifier name = true) ∧
        ∀ c, M.Reachable root c → ∀ f ∈ M.fieldsOf c, f.shape = .map →
          Name.entryName (messageName M o root c) f.name ∈ doc.messages) := by
  obtain ⟨root, ps, s, rfl, _, hat, hroot, rfl⟩ := compile_ok h
  refine ⟨root, rfl, fun hnames => ⟨?_, ?_⟩⟩
  · show ∀ name ∈ s.draft.messages ++ s.draft.enums, Name.isIdentifier name = true
    have hblocks := hat.sound.isIdentifier hnames
    rw [← hat.blocks] at hblocks
    have hnamed (keep : Block → Bool) : ∀ name ∈ (s.draft.blocks.filter keep).map Block.name,
        Name.isIdentifier name = true := by
      intro name hname
      obtain ⟨b, hb, rfl⟩ := List.mem_map.mp hname
      exact hblocks b (List.mem_of_mem_filter hb)
    rw [hat.draft.messages, hat.draft.enums]
    exact List.forall_mem_append.mpr ⟨hnamed _, hnamed _⟩
  · intro c hc f hf hmap
    obtain ⟨b, hb, hkind, hname⟩ := hat.sound.entry_mem hroot hc hf hmap
    show _ ∈ s.draft.messages
    rw [hat.draft.messages, ← hname, hat.blocks]
    exact List.mem_map_of_mem (List.mem_filter.mpr ⟨hb, by simp [hkind]⟩)

def shelf : Model where
  classes := [
    { name := "Book", body := .record .dataclass [] [("title", .builtin .str)] },
    { name := "Shelf", body := .record .plain []
        [("-_-", .subscript (.cls (.builtin .dict)) [.builtin .str, .builtin .int]),
         ("9über-lang__--ß x!", .subscript (.cls (.builtin .dict)) [.builtin .int, .cls (.declared 0)])] }]

theorem shelf_identifiers : ∃ doc, compile shelf default (.cls (.declared 1)) = .ok doc ∧
    shelf.Identified (.declared 1) ∧
      (∀ name ∈ doc.messages ++ doc.enums, Name.isIdentifier name = true) ∧
      doc.messages = ["GrpcShelfEntry", "Book", "Books", "GrpcShelf9berLangXEntry", "GrpcShelf",
        "GrpcShelfs"] := by
  obtain ⟨doc, h, hmessages⟩ : ∃ doc, compile shelf default (.cls (.declared 1)) = .ok doc ∧
      decide (doc.messages = ["GrpcShelfEntry", "Book", "Books", "GrpcShelf9berLangXEntry",
        "GrpcShelf", "GrpcShelfs"]) = true :=
    exists_of_any (by decide +kernel)
  have hnames : shelf.Identified (.declared 1) :=
    .of_closed [.declared 0, .declared 1, .builtin .str, .builtin .int] (by decide)
      (by decide +kernel) (by decide)
  obtain ⟨root, hroot, hidentifiers⟩ := compile_identifiers h
  cases hroot
  exact ⟨doc, h, hnames, (hidentifiers hnames).1, of_decide_eq_true hmessages⟩

end Compiler

end ClassSchema
