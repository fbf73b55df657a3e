import ClassSchema.Proofs.Words

namespace ClassSchema

namespace Text

def CaseRun.spans (r : CaseRun) (n : Nat) : Bool := r.first + r.shift ≤ n && n ≤ r.last + r.shift

theorem CaseRun.spans_image {r : CaseRun} {n : Nat} (h : r.covers n = true) (hpos : 0 < r.image n) :
    r.spans (r.image n) = true := by
  simp only [covers, Bool.and_eq_true, decide_eq_true_eq] at h
  simp only [image] at hpos ⊢
  simp only [spans, Bool.and_eq_true, decide_eq_true_eq]
  omega

end Text

namespace Name

theorem eq_of_isSeparator_ofNat {n : Nat} (h : isSeparator (Char.ofNat n) = true) : n = 0x2D ∨ n = 0x5F := by
  by_cases hn : n.isValidChar
  · have hcode : (Char.ofNat n).toNat = n := congrArg Char.toNat (dif_pos hn)
    rw [← hcode]
    rcases Bool.or_eq_true_iff.mp h with h | h
    · exact Or.inr (congrArg Char.toNat (eq_of_beq h))
    · exact Or.inl (congrArg Char.toNat (eq_of_beq h))
  · have hzero : Char.ofNat n = '\x00' := dif_neg hn
    rw [hzero] at h
    exact absurd h (by decide)

theorem upper_not_separator {c : Char} (hc : isSeparator c = false) :
    ∀ x ∈ Text.upper c, isSeparator x = false := by
  intro x hx
  rw [Text.upper] at hx
  split at hx
  next hlt =>
    rw [List.mem_singleton.mp hx]
    have hall : ∀ n : Fin 0x80, isSeparator (Char.ofNat n) = false →
        isSeparator (Char.ofNat n).toUpper = false := by decide +kernel
    have hupper := hall ⟨c.toNat, hlt⟩
    rw [Char.ofNat_toNat] at hupper
    exact hupper hc
  next =>
    unfold Text.mapCase at hx
    split at hx
    next image hl =>
      have hall : ∀ e ∈ Text.upperSequences, ∀ n ∈ e.2, isSeparator (Char.ofNat n) = false := by
        decide +kernel
      obtain ⟨front, rest, htable, _⟩ := List.lookup_eq_some_iff.mp hl
      obtain ⟨n, hn, rfl⟩ := List.mem_map.mp hx
      exact hall (c.toNat, image) (htable ▸ List.mem_append_right front List.mem_cons_self) n hn
    next =>
      split at hx
      next r hr =>
        -- The images of a run lie between those of its ends, and no separator does.
        have hall : ∀ r ∈ Text.upperRuns, r.spans 0x2D = false ∧ r.spans 0x5F = false := by decide +kernel
        obtain ⟨hminus, hunderscore⟩ := hall r (List.mem_of_find?_eq_some hr)
        rw [List.mem_singleton.mp hx, ← Bool.not_eq_true]
        intro hsep
        have himage := eq_of_isSeparator_ofNat hsep
        have hcovers : r.covers c.toNat = true := by simpa using List.find?_some hr
        have hspans := Text.CaseRun.spans_image hcovers (by omega)
        rcases himage with himage | himage
        · rw [himage, hminus] at hspans
          cases hspans
        · rw [himage, hunderscore] at hspans
          cases hspans
      next => exact List.mem_singleton.mp hx ▸ hc

def parts (cs : List Char) : List (List Char) := (cs.splitOnP isSeparator).filter (!·.isEmpty)

def capital : List Char → List Char
  | [] => []
  | c :: cs => Text.upper c ++ cs

def capitals (s : String) : List Char := (parts s.toList).flatMap capital

theorem flatten_splitOnP {α : Type} (p : α → Bool) (xs : List α) :
    (xs.splitOnP p).flatten = xs.filter (!p ·) := by
  induction xs with
  | nil => rfl
  | cons x xs ih =>
      rw [List.splitOnP_cons_eq_if_modifyHead]
      split
      next hx => rw [List.flatten_cons, List.nil_append, ih, List.filter_cons_of_neg (by simp [hx])]
      next hx =>
        rw [List.filter_cons_of_pos (by simp [hx]), ← ih]
        cases hs : xs.splitOnP p with
        | nil => exact absurd hs (List.splitOnP_ne_nil p xs)
        | cons piece rest => rfl

variable {s : String} {cs run part : List Char} {c : Char}

theorem flatten_parts (cs : List Char) : (parts cs).flatten = cs.filter (!isSeparator ·) := by
  rw [parts, List.flatten_filter_not_isEmpty, flatten_splitOnP]

theorem mem_of_mem_parts (h : part ∈ parts cs) (hc : c ∈ part) : c ∈ cs ∧ isSeparator c = false := by
  have hmem : c ∈ (parts cs).flatten := List.mem_flatten.mpr ⟨part, h, hc⟩
  rw [flatten_parts, List.mem_filter] at hmem
  simpa using hmem

theorem parts_append_of_separators (h : ∀ c ∈ run, isSeparator c = true) (cs : List Char) :
    parts (run ++ cs) = parts cs := by
  induction run with
  | nil => rfl
  | cons c run ih =>
      obtain ⟨hc, hrun⟩ := List.forall_mem_cons.mp h
      rw [List.cons_append, parts, List.splitOnP_cons_eq_if_modifyHead, if_pos hc, ← ih hrun]
      rfl

theorem parts_append (hne : run ≠ []) (h : ∀ c ∈ run, isSeparator c = true) (as bs : List Char) :
    parts (as ++ run ++ bs) = parts as ++ parts bs := by
  cases run with
  | nil => exact absurd rfl hne
  | cons c run =>
      obtain ⟨hc, hrun⟩ := List.forall_mem_cons.mp h
      rw [← parts_append_of_separators hrun bs, List.append_assoc, List.cons_append, parts,
        List.splitOnP_append_cons _ _ hc, List.filter_append]
      rfl

theorem flatMap_capital_filter (pieces : List (List Char)) :
    (pieces.filter (!·.isEmpty)).flatMap capital = pieces.flatMap capital := by
  induction pieces with
  | nil => rfl
  | cons piece pieces ih => cases piece <;> simp [capital, ih]

/-- Raising begins with the first piece, unless that goes on. -/
theorem raiseParts_eq (start : Bool) (cs : List Char) : raiseParts start cs =
    match cs.splitOnP isSeparator with
    | [] => []
    | piece :: rest => (if start then capital piece else piece) ++ rest.flatMap capital := by
  induction cs generalizing start with
  | nil => cases start <;> rfl
  | cons c cs ih =>
      rw [raiseParts, List.splitOnP_cons_eq_if_modifyHead, ih true, ih false]
      cases hs : cs.splitOnP isSeparator with
      | nil => exact absurd hs (List.splitOnP_ne_nil _ _)
      | cons piece rest => split <;> cases start <;> simp [capital]

theorem toList_pascalCase (s : String) : (pascalCase s).toList = capitals s := by
  rw [pascalCase, String.toList_ofList, raiseParts_eq, capitals, parts, flatMap_capital_filter]
  cases s.toList.splitOnP isSeparator <;> rfl

theorem pascalCase_append {mid : String} (hne : mid ≠ "") (h : ∀ c ∈ mid.toList, isSeparator c = true)
    (s t : String) : pascalCase (s ++ mid ++ t) = pascalCase s ++ pascalCase t := by
  have hmid : mid.toList ≠ [] := fun hnil => hne (String.toList_eq_nil_iff.mp hnil)
  rw [← String.toList_inj, String.toList_append, toList_pascalCase, toList_pascalCase, toList_pascalCase,
    capitals, String.toList_append, String.toList_append, parts_append hmid h, List.flatMap_append]
  rfl

theorem capital_not_separator (h : ∀ c ∈ part, isSeparator c = false) :
    ∀ c ∈ capital part, isSeparator c = false := by
  cases part with
  | nil => exact h
  | cons c cs =>
      obtain ⟨hc, hcs⟩ := List.forall_mem_cons.mp h
      exact List.forall_mem_append.mpr ⟨upper_not_separator hc, hcs⟩

theorem capitals_not_separator (s : String) : ∀ c ∈ capitals s, isSeparator c = false := by
  intro c hc
  obtain ⟨part, hpart, hc⟩ := List.mem_flatMap.mp hc
  exact capital_not_separator (fun x hx => (mem_of_mem_parts hpart hx).2) c hc

theorem capitals_of_no_separator (h : ∀ c ∈ s.toList, isSeparator c = false) :
    capitals s = capital s.toList := by
  rw [capitals, parts, flatMap_capital_filter, List.splitOnP_eq_singleton h, List.flatMap_singleton]

theorem isAlphanum_eq_not_separator (h : isLegal c = true) : c.isAlphanum = !isSeparator c := by
  rcases Bool.or_eq_true_iff.mp h with h | h
  · rw [h]
    exact (forall_alphanum (p := fun c => !isSeparator c) (by decide +kernel) h).symm
  · rw [h]
    rcases Bool.or_eq_true_iff.mp h with h | h <;> rw [eq_of_beq h] <;> rfl

theorem upper_toUpper (h : c.isAlphanum = true) : Text.upper c.toUpper = [c.toUpper] := by
  have hupper : c.toUpper.isAlphanum = true :=
    forall_alphanum (p := fun c => c.toUpper.isAlphanum) (by decide +kernel) h
  have htwice : c.toUpper.toUpper = c.toUpper :=
    eq_of_beq (forall_alphanum (p := fun c => c.toUpper.toUpper == c.toUpper) (by decide +kernel) h)
  rw [upper_of_isAlphanum hupper, htwice]

theorem capital_of_isLegal (h : ∀ c ∈ cs, isLegal c = true) (hpart : part ∈ parts cs) :
    ∃ c rest, part = c :: rest ∧ c.isAlphanum = true ∧ capital part = c.toUpper :: rest := by
  cases part with
  | nil => simp [parts] at hpart
  | cons c rest =>
      obtain ⟨hmem, hsep⟩ := mem_of_mem_parts hpart List.mem_cons_self
      have hc : c.isAlphanum = true := by rw [isAlphanum_eq_not_separator (h c hmem), hsep]; rfl
      exact ⟨c, rest, rfl, hc, by rw [capital, upper_of_isAlphanum hc]; rfl⟩

theorem pascalCase_pascalCase (h : ∀ c ∈ s.toList, isLegal c = true) :
    pascalCase (pascalCase s) = pascalCase s := by
  -- The result is a single part, whose first letter has been raised.
  have hsep : ∀ c ∈ (pascalCase s).toList, isSeparator c = false :=
    toList_pascalCase s ▸ capitals_not_separator s
  rw [← String.toList_inj, toList_pascalCase, capitals_of_no_separator hsep, toList_pascalCase, capitals]
  cases hparts : parts s.toList with
  | nil => rfl
  | cons part rest =>
      obtain ⟨c, cs, rfl, hc, hcapital⟩ := capital_of_isLegal h (hparts ▸ List.mem_cons_self)
      rw [List.flatMap_cons, hcapital, List.cons_append, capital, upper_toUpper hc]
      rfl

theorem flatten_parts_of_isLegal (h : ∀ c ∈ cs, isLegal c = true) :
    (parts cs).flatten = cs.filter Char.isAlphanum := by
  rw [flatten_parts]
  exact List.filter_congr fun c hc => (isAlphanum_eq_not_separator (h c hc)).symm

/-- What Pascal case makes of a name. -/
structure Cased (s : String) : Prop where
  append : ∀ mid t : String, mid ≠ "" → (∀ c ∈ mid.toList, isSeparator c = true) →
    pascalCase (s ++ mid ++ t) = pascalCase s ++ pascalCase t
  not_separator : ∀ c ∈ (pascalCase s).toList, isSeparator c = false
  idempotent : pascalCase (pascalCase (sanitize s)) = pascalCase (sanitize s)
  /-- The letters and digits come in order, part by part. -/
  kept : (parts (sanitize s).toList).flatten = (sanitize s).toList.filter Char.isAlphanum
  raised : (pascalCase (sanitize s)).toList = (parts (sanitize s).toList).flatMap capital
  first : ∀ part ∈ parts (sanitize s).toList,
    ∃ c rest, part = c :: rest ∧ c.isAlphanum = true ∧ capital part = c.toUpper :: rest

theorem cased (s : String) : Cased s where
  append := fun _ t hne h => pascalCase_append hne h s t
  not_separator := toList_pascalCase s ▸ capitals_not_separator s
  idempotent := pascalCase_pascalCase (sanitize_isLegal s)
  kept := flatten_parts_of_isLegal (sanitize_isLegal s)
  raised := toList_pascalCase (sanitize s)
  first := fun _ hpart => capital_of_isLegal (sanitize_isLegal s) hpart

theorem entryName_inj {owner x y : String} :
    entryName owner x = entryName owner y ↔ capitals (sanitize x) = capitals (sanitize y) := by
  simp only [entryName, ← String.toList_inj, String.toList_append, List.append_cancel_right_eq,
    List.append_cancel_left_eq, toList_pascalCase]

end Name

namespace Compiler

open Compiling

variable {M : Model} {o : Options} {nested : TypeExpr → Compiling String} {f : Field} {s s' : Progress}
  {name : String}

theorem eq_of_registeredName {t : TypeExpr} (h : registeredName t s = .ok name s') :
    s' = s ∧ s.registry.nameOf t = .ok name := by
  obtain ⟨_, _, hget, hname⟩ := exists_of_bind h
  cases hget
  cases hn : s.registry.nameOf t with
  | ok owner =>
      rw [hn] at hname
      cases hname
      exact ⟨rfl, rfl⟩
  | error fault =>
      rw [hn] at hname
      cases hname

theorem registry_of_onDraft {α : Type} {step : Drafting α} {a : α} (h : onDraft step s = .ok a s') :
    s'.registry = s.registry := by
  unfold onDraft at h
  split at h
  next => cases h; rfl
  next => cases h

theorem buildEntry_named (h : buildEntry M o nested f s = .ok name s') :
    ∃ owner, s'.registry.nameOf f.owner = .ok owner ∧ name = Name.entryName owner f.name := by
  unfold buildEntry at h
  split at h
  next =>
    obtain ⟨_, _, _, hfail⟩ := exists_of_bind h
    cases hfail
  next =>
    obtain ⟨_, _, _, hvalue⟩ := exists_of_bind h
    obtain ⟨_, _, _, hnamed⟩ := exists_of_bind hvalue
    obtain ⟨owner, _, howner, hwritten⟩ := exists_of_bind hnamed
    obtain ⟨_, _, hdraft, hlast⟩ := exists_of_bind hwritten
    obtain ⟨rfl, hname⟩ := eq_of_registeredName howner
    cases hlast
    exact ⟨owner, registry_of_onDraft hdraft ▸ hname, rfl⟩

/-- Names in Pascal case run together where separators stood, and map fields whose owners are
registered under one name are given the same entry where that leaves no difference between them. -/
theorem pascalCase_entries : (∀ s, Name.Cased s) ∧
    ∀ (M : Model) (o : Options) (nested nested' : TypeExpr → Compiling String) (f g : Field)
      (s s' t t' : Progress) (name name' : String),
      buildEntry M o nested f s = .ok name s' → buildEntry M o nested' g t = .ok name' t' →
      t'.registry.nameOf g.owner = s'.registry.nameOf f.owner →
      (name' = name ↔ Name.capitals (Name.sanitize g.name) = Name.capitals (Name.sanitize f.name)) := by
  refine ⟨Name.cased, fun M o nested nested' f g s s' t t' name name' hf hg howner => ?_⟩
  obtain ⟨owner, hname, rfl⟩ := buildEntry_named hf
  obtain ⟨owner', hname', rfl⟩ := buildEntry_named hg
  rw [hname, hname'] at howner
  cases howner
  exact Name.entryName_inj

def amounts (name : String) : Field where
  owner := .cls (.declared 0)
  name
  declared := .subscript (.cls (.builtin .dict)) [.builtin .str, .builtin .int]
  layout := { shape := .map, key := some (.builtin .str), element := some (.builtin .int) }

def stocked : Progress where
  registry := ⟨[(.cls (.declared 0), ⟨"Stock", "Stock"⟩)]⟩

def buildAmounts (name : String) : Compiling String :=
  buildEntry {} default (fun _ => throw .outOfRoom) (amounts name)

theorem amounts_by_day : ∃ d d',
    buildAmounts "by_day" stocked = .ok "StockByDayEntry" { stocked with draft := d } ∧
    buildAmounts "-by__day" stocked = .ok "StockByDayEntry" { stocked with draft := d' } ∧
    Name.capitals (Name.sanitize "-by__day") = Name.capitals (Name.sanitize "by_day") := by
  obtain ⟨d, hd⟩ : ∃ d, buildAmounts "by_day" stocked = .ok "StockByDayEntry" { stocked with draft := d } :=
    ⟨_, by with_unfolding_all rfl⟩
  obtain ⟨d', hd'⟩ :
      ∃ d', buildAmounts "-by__day" stocked = .ok "StockByDayEntry" { stocked with draft := d' } :=
    ⟨_, by with_unfolding_all rfl⟩
  exact ⟨d, d', hd, hd', (pascalCase_entries.2 _ _ _ _ _ _ _ _ _ _ _ _ hd hd' rfl).mp rfl⟩

end Compiler

end ClassSchema
