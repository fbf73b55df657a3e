import ClassSchema.Compiler.Schema
import ClassSchema.Document.Reading
import Mathlib.Data.List.Basic
import Std.Data.String.ToInt

namespace ClassSchema

def Document.reading (d : Document) : Reading where
  version := if d.heading.shown then some d.heading.version else none
  package := if d.heading.shown then d.heading.package else none
  imports := if d.heading.shown then d.heading.imports else []
  passages := d.blocks.map Block.passage

structure IsToken (s : String) : Prop where
  ne : s ≠ ""
  plain : ∀ c ∈ s.toList, c ≠ ' ' ∧ c ≠ '\t' ∧ c ≠ '\n'

instance (s : String) : Decidable (IsToken s) :=
  decidable_of_iff (s ≠ "" ∧ s.toList.all (fun c => c ≠ ' ' ∧ c ≠ '\t' ∧ c ≠ '\n') = true)
    ⟨fun h => ⟨h.1, by simpa using h.2⟩, fun h => ⟨h.ne, by simpa using h.plain⟩⟩

structure Line.Legible (l : Line) : Prop where
  multiplicity : IsToken l.multiplicity
  type : IsToken l.type
  name : IsToken l.name

structure Block.Legible (b : Block) : Prop where
  name : IsToken b.name
  lines : ∀ l ∈ b.lines, l.Legible
  constants : ∀ name constants, b = .enum name constants → ∀ c ∈ constants, IsToken c

/-- What a document can be read back under. -/
structure Document.Legible (d : Document) : Prop where
  version : '\n' ∉ d.heading.version.toList
  package : ∀ package, d.heading.package = some package → IsToken package
  imports : ∀ file ∈ d.heading.imports, '\n' ∉ file.toList
  indent : ∀ c ∈ d.indent.toList, c = ' ' ∨ c = '\t'
  blocks : ∀ b ∈ d.blocks, b.Legible

def Line.shown (indent : String) (l : Line) : String :=
  indent ++ (l.multiplicity ++ " " ++ (l.type ++ " " ++ (l.name ++ " " ++ ("=" ++ " " ++
    (toString l.ordinal ++ ";")))))

def shownConstant (indent : String) (constant : String) (i : Nat) : String :=
  indent ++ (constant ++ " " ++ ("=" ++ " " ++ (toString (i : Int) ++ ";")))

def Block.shownLines (indent : String) : Block → List String
  | message _ lines | entry _ lines => lines.map (Line.shown indent)
  | enum _ constants => constants.zipIdx.map (fun c => shownConstant indent c.1 c.2)

def Block.paragraph (indent : String) (b : Block) : List String :=
  (b.keyword ++ " " ++ (b.name ++ " " ++ "\x7b")) :: (b.shownLines indent ++ ["\x7d"])

namespace Heading

def packageParagraphs (package : Option String) : List (List String) :=
  package.toList.map fun package => ["package " ++ package ++ ";"]

def importsParagraphs (imports : List String) : List (List String) :=
  if imports = [] then [] else [imports.map fun file => "import \"" ++ file ++ "\";"]

def paragraphs (h : Heading) : List (List String) :=
  ["syntax = \"" ++ h.version ++ "\";"] :: (packageParagraphs h.package ++ importsParagraphs h.imports)

end Heading

theorem IsToken.newline_not_mem {s : String} (h : IsToken s) : '\n' ∉ s.toList :=
  fun hc => (h.plain _ hc).2.2 rfl

namespace Reading

def paragraphText (p : List String) : String := String.join (p.map (· ++ "\n")) ++ "\n"

theorem splitAt_append {c : Char} {sep s : String} (hsep : sep.toList = [c]) (hs : c ∉ s.toList)
    (t : String) : splitAt c (s ++ sep ++ t) = s :: splitAt c t := by
  simp only [splitAt, String.toList_append, hsep, List.append_assoc, List.singleton_append,
    List.splitOn_append_cons_self_of_not_mem hs, List.map_cons, String.ofList_toList]

theorem splitAt_of_not_mem {c : Char} {s : String} (hs : c ∉ s.toList) : splitAt c s = [s] := by
  simp only [splitAt, List.splitOn_eq_singleton hs, List.map_cons, String.ofList_toList, List.map_nil]

theorem splitAt_lines {ls : List String} (h : ∀ l ∈ ls, '\n' ∉ l.toList) :
    splitAt '\n' (String.join (ls.map (· ++ "\n"))) = ls ++ [""] := by
  induction ls with
  | nil => rfl
  | cons l ls ih =>
      obtain ⟨hl, hls⟩ := List.forall_mem_cons.mp h
      rw [List.map_cons, String.join_cons, splitAt_append rfl hl, ih hls]
      rfl

theorem splitOn_paragraphs {ps : List (List String)} (h : ∀ p ∈ ps, "" ∉ p) :
    (ps.flatMap (· ++ [""]) ++ [""]).splitOn "" = ps ++ [[], []] := by
  induction ps with
  | nil => rfl
  | cons p ps ih =>
      obtain ⟨hp, hps⟩ := List.forall_mem_cons.mp h
      rw [List.flatMap_cons, List.append_assoc, List.append_assoc, List.singleton_append,
        List.splitOn_append_cons_self_of_not_mem hp, ih hps]
      rfl

theorem join_paragraphText (ps : List (List String)) :
    String.join (ps.map paragraphText) = String.join ((ps.flatMap (· ++ [""])).map (· ++ "\n")) := by
  induction ps with
  | nil => rfl
  | cons p ps ih =>
      rw [List.map_cons, String.join_cons, ih, List.flatMap_cons, List.map_append, List.map_append,
        String.join_append, String.join_append]
      rfl

theorem paragraphs_join {ps : List (List String)} (h : ∀ p ∈ ps, ∀ l ∈ p, l ≠ "" ∧ '\n' ∉ l.toList) :
    paragraphs (String.join (ps.map paragraphText)) = ps.filter (· ≠ []) := by
  have hlines : ∀ l ∈ ps.flatMap (· ++ [""]), '\n' ∉ l.toList := by
    intro l hl
    obtain ⟨p, hp, hl⟩ := List.mem_flatMap.mp hl
    rcases List.mem_append.mp hl with hl | hl
    · exact (h p hp l hl).2
    · simp [List.mem_singleton.mp hl]
  have hblank : ∀ p ∈ ps, "" ∉ p := fun p hp hl => (h p hp "" hl).1 rfl
  rw [paragraphs, join_paragraphText, splitAt_lines hlines, splitOn_paragraphs hblank,
    List.filter_append]
  exact List.append_nil _

theorem between?_append (before after inside : String) :
    between? before after (before ++ (inside ++ after)) = some inside := by
  have hprefix : before.toList.isPrefixOf? (before ++ (inside ++ after)).toList =
      some (inside ++ after).toList :=
    List.isPrefixOf?_eq_some_iff_append_eq.mpr String.toList_append.symm
  have hsuffix : after.toList.isSuffixOf? (inside ++ after).toList = some inside.toList :=
    List.isSuffixOf?_eq_some_iff_append_eq.mpr String.toList_append.symm
  simp only [between?, hprefix, Option.bind_eq_bind, Option.bind_some, hsuffix, String.ofList_toList]
  rfl

theorem between?_eq_none {before after whole : String} {c : Char}
    (hb : before.toList.head? = some c) (hw : whole.toList.head? ≠ some c) :
    between? before after whole = none := by
  have hprefix : before.toList.isPrefixOf? whole.toList = none := by
    rw [Option.eq_none_iff_forall_ne_some]
    intro rest hrest
    rw [List.isPrefixOf?_eq_some_iff_append_eq] at hrest
    rw [← hrest, List.head?_append, hb] at hw
    exact hw rfl
  simp [between?, hprefix]

theorem ordinal?_toString (i : Int) : ordinal? (toString i ++ ";") = some i := by
  have hbetween : between? "" ";" (toString i ++ ";") = some (toString i) := by
    simpa using between?_append "" ";" (toString i)
  rw [ordinal?, hbetween, Option.bind_eq_bind, Option.bind_some, Int.toString_eq_repr, Int.toInt?_repr]

theorem isDigit_of_mem_repr {n : Nat} {c : Char} (h : c ∈ n.repr.toList) : c.isDigit = true := by
  rw [Nat.toList_repr] at h
  exact Nat.isDigit_of_mem_toDigits (by decide) (by decide) h

theorem mem_ordinal {i : Int} {c : Char} (h : c ∈ (toString i).toList) : c.isDigit = true ∨ c = '-' := by
  rw [Int.toString_eq_repr, Int.repr_eq_if] at h
  split_ifs at h
  · exact Or.inl (isDigit_of_mem_repr h)
  · rw [String.toList_append, List.mem_append] at h
    exact h.symm.imp isDigit_of_mem_repr List.mem_singleton.mp

theorem not_mem_ordinal (i : Int) {c : Char} (hc : c.isDigit = false ∧ c ≠ '-' ∧ c ≠ ';') :
    c ∉ (toString i ++ ";").toList := by
  rw [String.toList_append, List.mem_append]
  rintro (h | h)
  · rcases mem_ordinal h with h | h
    · rw [hc.1] at h
      cases h
    · exact hc.2.1 h
  · exact hc.2.2 (List.mem_singleton.mp h)

theorem splitAt_token {s : String} (hs : IsToken s) (t : String) :
    splitAt ' ' (s ++ " " ++ t) = s :: splitAt ' ' t :=
  splitAt_append rfl (fun hc => (hs.plain ' ' hc).1 rfl) t

theorem splitAt_ordinal (i : Int) :
    splitAt ' ' ("=" ++ " " ++ (toString i ++ ";")) = ["=", toString i ++ ";"] := by
  rw [splitAt_append rfl (by decide), splitAt_of_not_mem (not_mem_ordinal i (by decide))]

theorem words_indent {indent s : String} (hi : ∀ c ∈ indent.toList, c = ' ' ∨ c = '\t')
    (hs : IsToken s) (t : String) : words (indent ++ (s ++ " " ++ t)) = s :: splitAt ' ' t := by
  have hdrop : ((indent ++ (s ++ " " ++ t)).toList.dropWhile (fun c => c = ' ' ∨ c = '\t')) =
      (s ++ " " ++ t).toList := by
    rw [String.toList_append, List.dropWhile_append_of_pos (by simpa using hi)]
    cases hc : s.toList with
    | nil => exact absurd (String.toList_eq_nil_iff.mp hc) hs.ne
    | cons c cs =>
        obtain ⟨hspace, htab, _⟩ := hs.plain c (by simp [hc])
        simp [String.toList_append, hc, hspace, htab]
  rw [words, hdrop, String.ofList_toList, splitAt_token hs]

theorem line?_shown {indent : String} {l : Line} (hi : ∀ c ∈ indent.toList, c = ' ' ∨ c = '\t')
    (h : l.Legible) : line? (l.shown indent) = some l := by
  have hwords : words (l.shown indent) =
      [l.multiplicity, l.type, l.name, "=", toString l.ordinal ++ ";"] := by
    rw [Line.shown, words_indent hi h.multiplicity, splitAt_token h.type, splitAt_token h.name,
      splitAt_ordinal]
  simp only [line?, hwords, ordinal?_toString]
  rfl

theorem constant?_shown {indent constant : String} (hi : ∀ c ∈ indent.toList, c = ' ' ∨ c = '\t')
    (h : IsToken constant) (i : Nat) :
    constant? (shownConstant indent constant i) = some (constant, (i : Int)) := by
  have hwords : words (shownConstant indent constant i) = [constant, "=", toString (i : Int) ++ ";"] := by
    rw [shownConstant, words_indent hi h, splitAt_ordinal]
  simp only [constant?, hwords, ordinal?_toString]
  rfl

theorem mapM_of_forall {α β ι : Type} {item? : ι → Option α} {text : β → ι} {value : β → α}
    {xs : List β} (h : ∀ x ∈ xs, item? (text x) = some (value x)) :
    (xs.map text).mapM item? = some (xs.map value) := by
  induction xs with
  | nil => rfl
  | cons x xs ih =>
      obtain ⟨hx, hxs⟩ := List.forall_mem_cons.mp h
      simp [List.mapM_cons, hx, ih hxs]

theorem body?_of_forall {α β : Type} {item? : String → Option α} {text : β → String} {value : β → α}
    {xs : List β} (h : ∀ x ∈ xs, item? (text x) = some (value x)) :
    body? item? (xs.map text ++ ["\x7d"]) = some (xs.map value) := by
  rw [body?, List.getLast?_concat, if_pos rfl, List.dropLast_concat, mapM_of_forall h]

theorem splitAt_head {keyword name : String} (hk : IsToken keyword) (hn : IsToken name) :
    splitAt ' ' (keyword ++ " " ++ (name ++ " " ++ "\x7b")) = [keyword, name, "\x7b"] := by
  rw [splitAt_token hk, splitAt_token hn, splitAt_of_not_mem (by decide)]

theorem keyword_token (b : Block) : IsToken b.keyword := by
  cases b with
  | message name lines | entry name lines => exact (by decide : IsToken "message")
  | enum name constants => exact (by decide : IsToken "enum")

theorem passage?_paragraph {indent : String} {b : Block}
    (hi : ∀ c ∈ indent.toList, c = ' ' ∨ c = '\t') (h : b.Legible) :
    passage? (b.paragraph indent) = some b.passage := by
  have hhead := splitAt_head (keyword_token b) h.name
  cases b with
  | message name lines | entry name lines =>
      have hbody : body? line? (lines.map (Line.shown indent) ++ ["\x7d"]) =
          some (lines.map fun l => l) :=
        body?_of_forall fun l hl => line?_shown hi (h.lines l hl)
      rw [List.map_id'] at hbody
      rw [Block.paragraph, passage?, hhead]
      simp only [Block.shownLines, hbody]
      rfl
  | enum name constants =>
      have hbody : body? constant?
          (constants.zipIdx.map (fun c => shownConstant indent c.1 c.2) ++ ["\x7d"]) =
          some (constants.zipIdx.map fun c => (c.1, (c.2 : Int))) :=
        body?_of_forall fun c hc =>
          constant?_shown hi (h.constants name constants rfl c.1 (List.fst_mem_of_mem_zipIdx hc)) c.2
      rw [Block.paragraph, passage?, hhead]
      simp only [Block.shownLines, hbody]
      rfl

theorem line_text (indent : String) (l : Line) : l.text indent = l.shown indent ++ "\n" := by
  simp only [Line.text, Line.shown, String.append_assoc]
  rfl

theorem constantLines_eq (indent : String) (i : Nat) (constants : List String) :
    Block.constantLines indent i constants =
      (constants.zipIdx i).map (fun c => shownConstant indent c.1 c.2 ++ "\n") := by
  induction constants generalizing i with
  | nil => rfl
  | cons c cs ih =>
      rw [Block.constantLines, ih, List.zipIdx_cons, List.map_cons]
      simp only [shownConstant, String.append_assoc]
      rfl

theorem block_text (indent : String) (b : Block) :
    b.text indent = paragraphText (b.paragraph indent) := by
  have hbody : b.body indent = (b.shownLines indent).map (· ++ "\n") := by
    cases b with
    | message name lines | entry name lines =>
        rw [Block.body, Block.shownLines, List.map_map]
        exact List.map_congr_left fun l _ => line_text indent l
    | enum name constants =>
        simp only [Block.body, Block.shownLines, List.map_map, Function.comp_def, constantLines_eq]
  simp only [Block.text, Block.paragraph, paragraphText, hbody, List.map_cons, List.map_append,
    String.join_cons, String.join_append, String.append_assoc]
  rfl

theorem packageText_end {package : Option String} (h : package ≠ some "") :
    Heading.packageText package ++ "\n" = "\n" ++
      String.join ((Heading.packageParagraphs package).map paragraphText) := by
  have hstart : "\npackage " = "\n" ++ "package " := rfl
  have hend : ";\n" = ";" ++ "\n" := rfl
  cases package with
  | none => rfl
  | some package =>
      have hne : package ≠ "" := fun hp => h (hp ▸ rfl)
      simp only [Heading.packageText, if_neg hne, Heading.packageParagraphs, Option.toList_some,
        List.map_cons, List.map_nil, paragraphText, String.join_cons, String.join_nil, hstart, hend,
        String.append_assoc, String.append_empty]

theorem importsText_end (imports : List String) :
    Heading.importsText imports ++ "\n" = "\n" ++
      String.join ((Heading.importsParagraphs imports).map paragraphText) := by
  have hend : "\";\n" = "\";" ++ "\n" := rfl
  by_cases h : imports = []
  · subst h
    rfl
  · simp [Heading.importsText, Heading.importsParagraphs, h, paragraphText, hend, String.append_assoc,
      Function.comp_def]

/-- Without a heading, a blank line stands in its place. -/
theorem heading_document {h : Heading} (hp : h.package ≠ some "") (body : String) :
    h.document body =
      String.join ((if h.shown then h.paragraphs else [[]]).map paragraphText) ++ body := by
  have hend : "\";\n" = "\";" ++ "\n" := rfl
  cases hs : h.shown with
  | false =>
      simp only [Heading.document, Heading.text, hs, if_false, Bool.false_eq_true]
      rfl
  | true =>
      have hsyntax : paragraphText ["syntax = \"" ++ h.version ++ "\";"] =
          "syntax = \"" ++ h.version ++ "\";\n" ++ "\n" := by
        simp [paragraphText, hend, String.append_assoc]
      have hrest : Heading.packageText h.package ++ (Heading.importsText h.imports ++ "\n") =
          "\n" ++ String.join (h.paragraphs.tail.map paragraphText) := by
        rw [importsText_end, ← String.append_assoc, packageText_end hp, String.append_assoc,
          ← String.join_append, ← List.map_append]
        rfl
      have hfirst : h.paragraphs = ["syntax = \"" ++ h.version ++ "\";"] :: h.paragraphs.tail := rfl
      rw [if_pos rfl, hfirst, List.map_cons, String.join_cons, hsyntax]
      simp only [Heading.document, Heading.text, hs, if_true, String.append_assoc, hrest]

/-- All paragraphs of a document. An empty one stands for the heading where there is none. -/
theorem document_text {d : Document} (hp : d.heading.package ≠ some "") :
    d.text = String.join (((if d.heading.shown then d.heading.paragraphs else [[]]) ++
      d.blocks.map (Block.paragraph d.indent)).map paragraphText) := by
  have hblocks : d.blocks.map (Block.text d.indent) =
      (d.blocks.map (Block.paragraph d.indent)).map paragraphText := by
    rw [List.map_map]
    exact List.map_congr_left fun b _ => block_text d.indent b
  rw [Document.text, heading_document hp, hblocks, List.map_append, String.join_append]

theorem taking_of_some {α : Type} {item? : List String → Option α} {p : List String} {a : α}
    (h : item? p = some a) (ps : List (List String)) : taking item? (p :: ps) = (some a, ps) := by
  rw [taking, h]

theorem taking_of_none {α : Type} {item? : List String → Option α} {ps : List (List String)}
    (h : ∀ p ∈ ps, item? p = none) : taking item? ps = (none, ps) := by
  cases ps with
  | nil => rfl
  | cons p ps => rw [taking, h p List.mem_cons_self]

section Paragraphs

variable {indent : String} {bs : List Block}

theorem forall_paragraphs {α : Type} {item? : List String → Option α}
    (h : ∀ line next rest, line.toList.head? ≠ some 'i' → item? (line :: next :: rest) = none) :
    ∀ p ∈ bs.map (Block.paragraph indent), item? p = none := by
  intro p hp
  obtain ⟨b, _, rfl⟩ := List.mem_map.mp hp
  have hhead : (b.keyword ++ " " ++ (b.name ++ " " ++ "\x7b")).toList.head? ≠ some 'i' := by
    cases b <;> simp [Block.keyword]
  rw [Block.paragraph]
  cases b.shownLines indent with
  | nil => exact h _ "\x7d" [] hhead
  | cons line lines => exact h _ line (lines ++ ["\x7d"]) hhead

theorem version?_paragraphs : ∀ p ∈ bs.map (Block.paragraph indent), version? p = none :=
  forall_paragraphs fun _ _ _ _ => rfl

theorem package?_paragraphs : ∀ p ∈ bs.map (Block.paragraph indent), package? p = none :=
  forall_paragraphs fun _ _ _ _ => rfl

theorem imports?_paragraphs : ∀ p ∈ bs.map (Block.paragraph indent), imports? p = none := by
  refine forall_paragraphs fun line next rest hline => ?_
  rw [imports?, List.mapM_cons, between?_eq_none (c := 'i') rfl hline]
  rfl

theorem version?_line (version : String) :
    version? ["syntax = \"" ++ version ++ "\";"] = some version := by
  rw [version?, String.append_assoc]
  exact between?_append _ _ version

theorem taking_imports (imports : List String) :
    taking imports? (Heading.importsParagraphs imports ++ bs.map (Block.paragraph indent)) =
      (if imports = [] then none else some imports, bs.map (Block.paragraph indent)) := by
  unfold Heading.importsParagraphs
  by_cases hi : imports = []
  · rw [if_pos hi, if_pos hi]
    exact taking_of_none imports?_paragraphs
  · have hread : imports? (imports.map fun file => "import \"" ++ file ++ "\";") =
        some (imports.map fun file => file) := by
      refine mapM_of_forall fun file _ => ?_
      rw [String.append_assoc]
      exact between?_append _ _ file
    rw [List.map_id'] at hread
    rw [if_neg hi, if_neg hi]
    exact taking_of_some hread _

theorem taking_package (package : Option String) (imports : List String) :
    taking package? (Heading.packageParagraphs package ++
        (Heading.importsParagraphs imports ++ bs.map (Block.paragraph indent))) =
      (package, Heading.importsParagraphs imports ++ bs.map (Block.paragraph indent)) := by
  cases package with
  | some package =>
      refine taking_of_some ?_ _
      rw [package?, String.append_assoc]
      exact between?_append _ _ package
  | none =>
      -- What stands in the place of the package is the imports or a block.
      have hnone : Heading.packageParagraphs none = [] := rfl
      rw [hnone, List.nil_append]
      refine taking_of_none (List.forall_mem_append.mpr ⟨?_, package?_paragraphs⟩)
      unfold Heading.importsParagraphs
      split
      next => exact fun p hp => absurd hp List.not_mem_nil
      next =>
        refine List.forall_mem_singleton.mpr ?_
        match imports with
        | [] => rfl
        | [file] => exact between?_eq_none (c := 'p') rfl (by simp)
        | _ :: _ :: _ => rfl

end Paragraphs

def IsLine (l : String) : Prop := l ≠ "" ∧ '\n' ∉ l.toList

theorem isLine_append {s t : String} (hs : '\n' ∉ s.toList) (ht : IsLine t) : IsLine (s ++ t) := by
  refine ⟨fun h => ht.1 (String.append_eq_empty_iff.mp h).2, ?_⟩
  rw [String.toList_append, List.mem_append, not_or]
  exact ⟨hs, ht.2⟩

theorem isLine_token {s t : String} (hs : IsToken s) (ht : IsLine t) : IsLine (s ++ " " ++ t) := by
  rw [String.append_assoc]
  exact isLine_append hs.newline_not_mem (isLine_append (by decide) ht)

theorem isLine_ordinal (i : Int) : IsLine ("=" ++ " " ++ (toString i ++ ";")) := by
  refine isLine_append (by decide) ⟨fun h => ?_, not_mem_ordinal i (by decide)⟩
  exact absurd (String.append_eq_empty_iff.mp h).2 (by decide)

theorem isLine_paragraph {indent : String} {b : Block} (hi : '\n' ∉ indent.toList) (h : b.Legible) :
    ∀ l ∈ b.paragraph indent, IsLine l := by
  have hclose : IsLine "\x7d" := ⟨by decide, by decide⟩
  refine List.forall_mem_cons.mpr ⟨?_, List.forall_mem_append.mpr ⟨?_, List.forall_mem_singleton.mpr hclose⟩⟩
  · exact isLine_token (keyword_token b) (isLine_token h.name ⟨by decide, by decide⟩)
  · cases b with
    | message name lines | entry name lines =>
        refine List.forall_mem_map.mpr fun l hl => ?_
        have hlegible : l.Legible := h.lines l hl
        exact isLine_append hi (isLine_token hlegible.multiplicity (isLine_token hlegible.type
          (isLine_token hlegible.name (isLine_ordinal l.ordinal))))
    | enum name constants =>
        refine List.forall_mem_map.mpr fun c hc => ?_
        have htoken := h.constants name constants rfl c.1 (List.fst_mem_of_mem_zipIdx hc)
        exact isLine_append hi (isLine_token htoken (isLine_ordinal c.2))

end Reading

namespace Document.Legible

open Reading

variable {d : Document}

theorem isLine_heading (h : d.Legible) : ∀ p ∈ d.heading.paragraphs, p ≠ [] ∧ ∀ l ∈ p, IsLine l := by
  have hquoted {s t u : String} (hs : '\n' ∉ s.toList) (ht : '\n' ∉ t.toList) (hu : IsLine u) :
      IsLine (s ++ t ++ u) := by
    rw [String.append_assoc]
    exact isLine_append hs (isLine_append ht hu)
  have hend : IsLine "\";" := ⟨by decide, by decide⟩
  refine List.forall_mem_cons.mpr ⟨⟨List.cons_ne_nil _ _, ?_⟩, List.forall_mem_append.mpr ⟨?_, ?_⟩⟩
  · exact List.forall_mem_singleton.mpr (hquoted (by decide) h.version hend)
  · intro p hp
    obtain ⟨package, hpackage, rfl⟩ := List.mem_map.mp hp
    have htoken := h.package package (Option.mem_toList.mp hpackage)
    exact ⟨List.cons_ne_nil _ _, List.forall_mem_singleton.mpr
      (hquoted (by decide) htoken.newline_not_mem ⟨by decide, by decide⟩)⟩
  · unfold Heading.importsParagraphs
    split
    next => exact fun p hp => absurd hp List.not_mem_nil
    next hne =>
      refine List.forall_mem_singleton.mpr ⟨by simpa using hne, List.forall_mem_map.mpr ?_⟩
      exact fun file hf => hquoted (by decide) (h.imports file hf) hend

theorem paragraphs_text (h : d.Legible) : paragraphs d.text =
    (if d.heading.shown then d.heading.paragraphs else []) ++ d.blocks.map (Block.paragraph d.indent) := by
  have hpackage : d.heading.package ≠ some "" := fun hp => (h.package "" hp).ne rfl
  have hindent : '\n' ∉ d.indent.toList := fun hc => by rcases h.indent _ hc with hc | hc <;> cases hc
  have hblocks : ∀ p ∈ d.blocks.map (Block.paragraph d.indent), p ≠ [] ∧ ∀ l ∈ p, IsLine l := by
    refine List.forall_mem_map.mpr fun b hb => ⟨List.cons_ne_nil _ _, ?_⟩
    exact isLine_paragraph hindent (h.blocks b hb)
  have hfilter {ps : List (List String)} (hps : ∀ p ∈ ps, p ≠ [] ∧ ∀ l ∈ p, IsLine l) :
      ps.filter (· ≠ []) = ps :=
    List.filter_eq_self.mpr fun p hp => decide_eq_true (hps p hp).1
  rw [document_text hpackage, paragraphs_join, List.filter_append, hfilter hblocks]
  · cases d.heading.shown with
    | true => rw [if_pos rfl, if_pos rfl, hfilter h.isLine_heading]
    | false => rfl
  · refine List.forall_mem_append.mpr ⟨?_, fun p hp => (hblocks p hp).2⟩
    cases d.heading.shown with
    | true => exact fun p hp => (h.isLine_heading p hp).2
    | false => exact List.forall_mem_singleton.mpr fun l hl => absurd hl List.not_mem_nil

theorem passages (h : d.Legible) :
    (d.blocks.map (Block.paragraph d.indent)).mapM passage? = some (d.blocks.map Block.passage) :=
  mapM_of_forall fun b hb => passage?_paragraph h.indent (h.blocks b hb)

theorem ofText? (h : d.Legible) : Reading.ofText? d.text = some d.reading := by
  rw [Reading.ofText?, h.paragraphs_text]
  cases hs : d.heading.shown with
  | false =>
      simp only [Bool.false_eq_true, if_false, List.nil_append, taking_of_none version?_paragraphs,
        taking_of_none package?_paragraphs, taking_of_none imports?_paragraphs, h.passages]
      simp [Document.reading, hs]
  | true =>
      rw [if_pos rfl, Heading.paragraphs, List.cons_append, List.append_assoc]
      simp only [taking_of_some (version?_line _), taking_package, taking_imports, h.passages]
      by_cases hi : d.heading.imports = []
      · simp [Document.reading, hs, hi]
      · simp [Document.reading, hs, hi]

end Document.Legible

end ClassSchema
