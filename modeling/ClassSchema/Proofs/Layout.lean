import ClassSchema.Proofs.Legibility

namespace ClassSchema

/-- The heading that the options ask for, where the document imports the given files. -/
def Options.header (o : Options) (imports : List String) : String :=
  "syntax = \"" ++ o.version ++ "\";\n" ++
    (match o.package with
      | some package => "\npackage " ++ package ++ ";\n"
      | none => "") ++
    if imports = [] then ""
    else "\n" ++ String.join (imports.map fun file => "import \"" ++ file ++ "\";\n")

def Line.content (l : Line) : String :=
  l.multiplicity ++ " " ++ l.type ++ " " ++ l.name ++ " = " ++ toString l.ordinal ++ ";"

theorem Line.text_eq_content (indent : String) :
    Line.text indent = fun l => indent ++ l.content ++ "\n" := by
  funext l
  have hend : ";\n" = ";" ++ "\n" := rfl
  simp only [text, content, hend, String.append_assoc]

namespace Block

def contents : Block → List String
  | message _ lines | entry _ lines => lines.map Line.content
  | enum _ constants => constants.zipIdx.map fun c => c.1 ++ " = " ++ toString c.2 ++ ";"

/-- A block whose lines between the first and the last are indented. -/
def setIn (indent : String) (b : Block) : String :=
  b.keyword ++ " " ++ b.name ++ " \x7b\n" ++
    String.join (b.contents.map fun content => indent ++ content ++ "\n") ++ "\x7d\n\n"

theorem constantLines_contents (indent : String) (i : Nat) (constants : List String) :
    constantLines indent i constants = (constants.zipIdx i).map fun c =>
      indent ++ (c.1 ++ " = " ++ toString c.2 ++ ";") ++ "\n" := by
  induction constants generalizing i with
  | nil => rfl
  | cons c cs ih =>
      have hend : ";\n" = ";" ++ "\n" := rfl
      simp only [constantLines, List.zipIdx_cons, List.map_cons, ih, hend, String.append_assoc]

theorem text_eq_setIn (indent : String) : text indent = setIn indent := by
  funext b
  have hbody : b.body indent = b.contents.map fun content => indent ++ content ++ "\n" := by
    cases b with
    | message name lines | entry name lines =>
        simp only [body, contents, List.map_map, Function.comp_def, Line.text_eq_content]
    | enum name constants =>
        simp only [body, contents, List.map_map, Function.comp_def, constantLines_contents]
  rw [text, setIn, hbody]

end Block

def Options.setText (o : Options) (imports : List String) (blocks : List Block) : String :=
  (if o.heading then o.header imports else "") ++ "\n" ++ String.join (blocks.map (Block.setIn o.indent))

theorem Options.heading_text (o : Options) (imports : List String) :
    ({ version := o.version, package := o.package, imports, shown := o.heading } : Heading).text =
      if o.heading then o.header imports else "" := by
  have hpackage : Heading.packageText o.package =
      match o.package with
      | some package => "\npackage " ++ package ++ ";\n"
      | none => "" := by
    cases hp : o.package with
    | none => rfl
    | some package => rw [Heading.packageText, if_neg (o.package_token hp).ne]
  simp only [Heading.text, header, hpackage, Heading.importsText, List.isEmpty_iff]

namespace Compiler

variable (M : Model) {o o' : Options}

theorem documentOf_text (o : Options) (s : Progress) :
    (documentOf o s).text = o.setText s.draft.imports s.draft.blocks := by
  simp only [Document.text, documentOf, Heading.document, o.heading_text, Options.setText,
    Block.text_eq_setIn]

section Affix

variable (haffix : o'.affix = o.affix)
include haffix

theorem ensureEnum_congr : ensureEnum M o' = ensureEnum M o := by
  funext t
  simp only [ensureEnum, haffix]

theorem elementName_congr (nested : TypeExpr → Compiling String) :
    elementName M o' nested = elementName M o nested := by
  funext f t
  simp only [elementName, ensureEnum_congr M haffix]

theorem resolveElement_congr (nested : TypeExpr → Compiling String) :
    resolveElement M o' nested = resolveElement M o nested := by
  funext f operand
  cases operand with
  | none => rfl
  | some element => simp only [resolveElement, elementName_congr M haffix]

theorem buildEntry_congr (nested : TypeExpr → Compiling String) :
    buildEntry M o' nested = buildEntry M o nested := by
  funext f
  simp only [buildEntry, resolveElement_congr M haffix]

theorem classifyField_congr (nested : TypeExpr → Compiling String) :
    classifyField M o' nested = classifyField M o nested := by
  funext f ordinal
  simp only [classifyField, ensureEnum_congr M haffix, resolveElement_congr M haffix,
    buildEntry_congr M haffix]

theorem classifyFields_congr (nested : TypeExpr → Compiling String) (ordinal : Int) (fs : List Field) :
    classifyFields M o' nested ordinal fs = classifyFields M o nested ordinal fs := by
  induction fs generalizing ordinal with
  | nil => rfl
  | cons f fs ih => simp only [classifyFields, classifyField_congr M haffix, ih]

theorem buildMessage_congr (levels : Nat) : buildMessage M o' levels = buildMessage M o levels := by
  induction levels with
  | zero => rfl
  | succ levels ih =>
      funext t policy
      simp only [buildMessage, haffix, ih, classifyFields_congr M haffix]

theorem compile_congr (root : TypeExpr) :
    (∃ fault, compile M o root = .error fault ∧ compile M o' root = .error fault) ∨
      ∃ s, compile M o root = .ok (documentOf o s) ∧ compile M o' root = .ok (documentOf o' s) := by
  simp only [compile, buildMessage_congr M haffix]
  cases checkRoot M root with
  | error fault => exact Or.inl ⟨fault, rfl, rfl⟩
  | ok _ =>
      cases buildMessage M o (levels M) root .root {} with
      | error fault s => exact Or.inl ⟨fault, rfl, rfl⟩
      | ok name s => exact Or.inr ⟨s, rfl, rfl⟩

end Affix

/-- Under options with the same affix, a compilation fails in the same way, or its documents have the
same blocks. The options set each of the two texts, and setting the heading puts it before the rest. -/
theorem compile_layout (haffix : o'.affix = o.affix) (root : TypeExpr) :
    (∃ fault, compile M o root = .error fault ∧ compile M o' root = .error fault) ∨
      ∃ doc doc', compile M o root = .ok doc ∧ compile M o' root = .ok doc' ∧
        doc'.messages = doc.messages ∧ doc'.enums = doc.enums ∧ doc'.imports = doc.imports ∧
        doc.text = o.setText doc.imports doc.blocks ∧ doc'.text = o'.setText doc.imports doc.blocks ∧
        (o'.indent = o.indent → o.heading = true → o'.heading = false →
          doc.text = o.header doc.imports ++ doc'.text) := by
  rcases compile_congr M haffix root with hfails | ⟨s, h, h'⟩
  · exact Or.inl hfails
  · have htext := documentOf_text o s
    have htext' := documentOf_text o' s
    refine Or.inr ⟨_, _, h, h', rfl, rfl, rfl, htext, htext', fun hindent hshown hbare => ?_⟩
    rw [htext, htext', Options.setText, Options.setText, hshown, hbare, hindent]
    simp only [if_true, Bool.false_eq_true, if_false, String.empty_append, String.append_assoc]
    rfl

theorem shop_layout : ∃ (o' : Options) (doc doc' : Document),
    o'.affix = (default : Options).affix ∧ o'.version = "proto3" ∧ o'.package = some "shop.v1" ∧
      compile .shop default (.cls (.declared 2)) = .ok doc ∧ compile .shop o' (.cls (.declared 2)) = .ok doc' ∧
      doc'.messages = doc.messages ∧ doc.text = (default : Options).setText doc.imports doc.blocks ∧
      doc'.text = o'.setText doc.imports doc.blocks ∧
      doc.text = (default : Options).header doc.imports ++ doc'.text := by
  let o' : Options :=
    { version := "proto3", package := some "shop.v1", heading := false, accepted := by decide }
  obtain ⟨doc, h⟩ : ∃ doc, compile .shop default (.cls (.declared 2)) = .ok doc :=
    exists_of_isSome (by decide +kernel)
  have haffix : o'.affix = (default : Options).affix := rfl
  rcases compile_layout .shop haffix (.cls (.declared 2)) with
    ⟨fault, hfails, _⟩ | ⟨d, doc', hd, hd', hmessages, _, _, htext, htext', hheader⟩
  · rw [h] at hfails
    cases hfails
  · cases h.symm.trans hd
    exact ⟨o', doc, doc', haffix, rfl, rfl, h, hd', hmessages, htext, htext', hheader rfl rfl rfl⟩

end Compiler

end ClassSchema
