import ClassSchema.Proofs.Acceptance

namespace ClassSchema

namespace Name

def isTame (c : Char) : Bool := isWordChar c || 0x80 ≤ c.toNat

def isWord (s : String) : Bool := s ≠ "" && s.toList.all isTame

theorem toNat_lt_of_isAlphanum {c : Char} (h : c.isAlphanum = true) : c.toNat < 0x80 := by
  rcases Bool.or_eq_true_iff.mp h with h | h
  · rcases Bool.or_eq_true_iff.mp h with h | h
    · have hle : c.toNat ≤ 'Z'.toNat := UInt32.le_iff_toNat_le.mp (of_decide_eq_true h).2
      exact Nat.lt_of_le_of_lt hle (by decide)
    · have hle : c.toNat ≤ 'z'.toNat :=
        UInt32.le_iff_toNat_le.mp (of_decide_eq_true (Bool.and_eq_true_iff.mp h).2)
      exact Nat.lt_of_le_of_lt hle (by decide)
  · have hle : c.toNat ≤ '9'.toNat :=
      UInt32.le_iff_toNat_le.mp (of_decide_eq_true (Bool.and_eq_true_iff.mp h).2)
    exact Nat.lt_of_le_of_lt hle (by decide)

theorem forall_alphanum {p : Char → Bool}
    (h : ∀ n : Fin 0x80, (Char.ofNat n).isAlphanum = true → p (Char.ofNat n) = true) {c : Char}
    (hc : c.isAlphanum = true) : p c = true := by
  have hn := h ⟨c.toNat, toNat_lt_of_isAlphanum hc⟩
  rw [Char.ofNat_toNat] at hn
  exact hn hc

theorem isTame_of_isWordChar {c : Char} (h : isWordChar c = true) : isTame c = true := by
  simp [isTame, h]

theorem isWordChar_of_isLegal {c : Char} (h : isLegal c = true) (hs : isSeparator c = false) :
    isWordChar c = true := by
  simp only [isLegal, hs, Bool.or_false] at h
  simp [isWordChar, h]

theorem upper_of_isAlphanum {c : Char} (h : c.isAlphanum = true) : Text.upper c = [c.toUpper] :=
  if_pos (toNat_lt_of_isAlphanum h)

theorem upper_isWordChar {c : Char} (h : isLegal c = true) (hs : isSeparator c = false) :
    ∀ x ∈ Text.upper c, isWordChar x = true := by
  simp only [isLegal, hs, Bool.or_false] at h
  rw [upper_of_isAlphanum h, List.forall_mem_singleton]
  exact forall_alphanum (p := fun c => isWordChar c.toUpper) (by decide +kernel) h

theorem raiseParts_isWordChar (start : Bool) {cs : List Char} (h : ∀ c ∈ cs, isLegal c = true) :
    ∀ c ∈ raiseParts start cs, isWordChar c = true := by
  induction cs generalizing start with
  | nil => exact fun c hc => absurd hc List.not_mem_nil
  | cons c cs ih =>
      obtain ⟨hc, hcs⟩ := List.forall_mem_cons.mp h
      unfold raiseParts
      split
      next => exact ih true hcs
      next hs =>
        rw [Bool.not_eq_true] at hs
        intro x hx
        rcases List.mem_append.mp hx with hx | hx
        · cases start with
          | true => exact upper_isWordChar hc hs x hx
          | false => exact List.mem_singleton.mp hx ▸ isWordChar_of_isLegal hc hs
        · exact ih false hcs x hx

theorem sanitize_isLegal (s : String) : ∀ c ∈ (sanitize s).toList, isLegal c = true := by
  rw [sanitize, String.toList_ofList]
  exact fun c hc => (List.mem_filter.mp hc).2

/-- Whatever the characters of a name are, the legal ones come out as a part of an identifier. -/
theorem pascalCase_sanitize_isWordChar (s : String) :
    ∀ c ∈ (pascalCase (sanitize s)).toList, isWordChar c = true := by
  rw [pascalCase, String.toList_ofList]
  exact raiseParts_isWordChar true (sanitize_isLegal s)

theorem pascalCase_sanitize_tame (s : String) :
    ∀ c ∈ (pascalCase (sanitize s)).toList, isTame c = true :=
  fun c hc => isTame_of_isWordChar (pascalCase_sanitize_isWordChar s c hc)

theorem isWord_iff {s : String} : isWord s = true ↔ s ≠ "" ∧ ∀ c ∈ s.toList, isTame c = true := by
  simp [isWord]

theorem isWord_append {s t : String} (hs : ∀ c ∈ s.toList, isTame c = true) (ht : isWord t = true) :
    isWord (s ++ t) = true := by
  obtain ⟨hne, ht⟩ := isWord_iff.mp ht
  refine isWord_iff.mpr ⟨fun h => hne (String.append_eq_empty_iff.mp h).2, ?_⟩
  rw [String.toList_append]
  exact List.forall_mem_append.mpr ⟨hs, ht⟩

theorem isWord_append_tame {s t : String} (hs : isWord s = true) (ht : ∀ c ∈ t.toList, isTame c = true) :
    isWord (s ++ t) = true := by
  obtain ⟨hne, hs⟩ := isWord_iff.mp hs
  refine isWord_iff.mpr ⟨fun h => hne (String.append_eq_empty_iff.mp h).1, ?_⟩
  rw [String.toList_append]
  exact List.forall_mem_append.mpr ⟨hs, ht⟩

theorem isWordChar_of_isIdentifier {s : String} (h : isIdentifier s = true) :
    ∀ c ∈ s.toList, isWordChar c = true := by
  unfold isIdentifier at h
  cases hs : s.toList with
  | nil => exact fun c hc => absurd hc List.not_mem_nil
  | cons c cs =>
      rw [hs] at h
      simp only [isIdentifierChars, Bool.and_eq_true, Bool.or_eq_true, List.all_eq_true] at h
      refine List.forall_mem_cons.mpr ⟨?_, h.2⟩
      rcases h.1 with h | h <;> simp [isWordChar, Char.isAlphanum, h]

theorem tame_of_isIdentifier {s : String} (h : isIdentifier s = true) :
    ∀ c ∈ s.toList, isTame c = true :=
  fun c hc => isTame_of_isWordChar (isWordChar_of_isIdentifier h c hc)

theorem sanitize_lowerFirst_ne {s t : String} (h : isIdentifier s = true) :
    sanitize (lowerFirst (s ++ t)) ≠ "" := by
  unfold isIdentifier at h
  cases hs : s.toList with
  | nil => simp [hs, isIdentifierChars] at h
  | cons c cs =>
      rw [hs] at h
      simp only [isIdentifierChars, Bool.and_eq_true] at h
      have hlower : ∃ x, Text.lower c = [x] ∧ isLegal x = true := by
        rcases Bool.or_eq_true_iff.mp h.1 with h | h
        · have hc : c.isAlphanum = true := by simp [Char.isAlphanum, h]
          exact ⟨_, if_pos (toNat_lt_of_isAlphanum hc),
            forall_alphanum (p := fun c => isLegal c.toLower) (by decide +kernel) hc⟩
        · cases eq_of_beq h
          exact ⟨'_', rfl, rfl⟩
      obtain ⟨x, hx, hlegal⟩ := hlower
      simp [sanitize, lowerFirst, String.toList_append, hs, hx, hlegal]

theorem timestamp_not_word : isWord timestamp = false := by decide +kernel

end Name

def Part.about : Part → ClassRef
  | message c | enumeration c | entry c _ => c

def Model.Worded (M : Model) (root : ClassRef) : Prop :=
  ∀ p, M.Needs root p → Name.isWord (M.simpleName p.about) = true

theorem Model.Needs.about_mem {M : Model} {root : ClassRef} {p : Part} (hp : M.Needs root p)
    {cs : List ClassRef} (hroot : root ∈ cs) (hclosed : ∀ x ∈ cs, ∀ y ∈ M.mentioned x, y ∈ cs) :
    p.about ∈ cs := by
  cases p with
  | message c => exact Reachable.mem hp hroot hclosed
  | enumeration e =>
      obtain ⟨_, c, hc, hm⟩ := hp
      exact hclosed c (hc.mem hroot hclosed) e hm.mem_mentioned
  | entry c name => exact hp.1.mem hroot hclosed

theorem Model.Worded.of_closed {M : Model} {root : ClassRef} (cs : List ClassRef) (hroot : root ∈ cs)
    (hclosed : ∀ x ∈ cs, ∀ y ∈ M.mentioned x, y ∈ cs)
    (hcs : ∀ c ∈ cs, Name.isWord (M.simpleName c) = true) : M.Worded root :=
  fun _ hp => hcs _ (hp.about_mem hroot hclosed)

theorem Options.affix_cases (o : Options) : o.affix = "" ∨ Name.isIdentifier o.affix = true := by
  have h := o.accepted
  unfold Settings.fault? at h
  split at h
  next => cases h
  next ha =>
    rw [not_and_or, not_not] at ha
    simpa using ha

theorem Options.affix_tame (o : Options) : ∀ c ∈ o.affix.toList, Name.isTame c = true := by
  rcases o.affix_cases with h | h
  · simp [h]
  · exact Name.tame_of_isIdentifier h

namespace Compiler

variable {M : Model} {o : Options} {root c : ClassRef}

theorem messageName_word (h : Name.isWord (M.simpleName c) = true) :
    Name.isWord (messageName M o root c) = true := by
  by_cases hc : c = root
  · rw [hc] at h ⊢
    rw [messageName_root]
    exact Name.isWord_append o.affix_tame h
  · rwa [messageName_of_ne hc]

theorem partNames_word {p : Part} (h : Name.isWord (M.simpleName p.about) = true) :
    ∀ name ∈ partNames M o root p, Name.isWord name = true := by
  cases p with
  | message c =>
      have hs : ∀ c ∈ "s".toList, Name.isTame c = true := List.all_eq_true.mp (by decide)
      have hm : Name.isWord (messageName M o root c) = true := messageName_word h
      simp only [partNames, List.forall_mem_cons]
      exact ⟨hm, Name.isWord_append_tame hm hs, fun _ hx => absurd hx List.not_mem_nil⟩
  | enumeration e => exact List.forall_mem_singleton.mpr (Name.isWord_append o.affix_tame h)
  | entry c name =>
      have hs : ∀ c ∈ "Entry".toList, Name.isTame c = true := List.all_eq_true.mp (by decide)
      refine List.forall_mem_singleton.mpr (Name.isWord_append_tame (Name.isWord_append_tame ?_ ?_) hs)
      · exact messageName_word h
      · exact Name.pascalCase_sanitize_tame name

end Compiler

end ClassSchema
