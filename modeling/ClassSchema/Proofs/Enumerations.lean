import ClassSchema.Proofs.Coverage
import ClassSchema.Proofs.Layout
import ClassSchema.Proofs.Relisting

namespace ClassSchema

def EnumStyle.listed (style : EnumStyle) (members : List (String × Value)) : List String :=
  (members.zipIdx.filter fun x => style.lists (members.take x.2) x.1).map fun x => x.1.1

def enumText (indent name : String) (constants : List String) : String :=
  "enum " ++ name ++ " \x7b\n" ++
    String.join (constants.zipIdx.map fun c => indent ++ c.1 ++ " = " ++ toString c.2 ++ ";\n") ++
    "\x7d\n\n"

/-- One block of the document has the name, and it is the enum with these constants. -/
structure Document.WritesEnum (d : Document) (indent name : String) (constants : List String) : Prop where
  once : ∃ before after, d.blocks = before ++ .enum name constants :: after ∧
    ∀ b ∈ before ++ after, b.name ≠ name
  text : ∃ before after, d.text = before ++ enumText indent name constants ++ after

theorem EnumStyle.canonical_names (style : EnumStyle) (members : List (String × Value)) :
    (style.canonical members).map Prod.fst = style.listed members := by
  rw [canonical_eq_listed, List.map_map]
  rfl

theorem Model.constants_of_enumeration {M : Model} {i : Nat} {style : EnumStyle}
    {members : List (String × Value)} (h : (M.decl i).body = .enumeration style members) :
    M.constants (.declared i) = style.listed members := by
  simp only [constants, h]
  exact style.canonical_names members

theorem Model.enumeration_of_constants {M : Model} {e : ClassRef} (he : M.isEnumClass e = true)
    (hc : M.constants e ≠ []) :
    ∃ i style members, e = .declared i ∧ (M.decl i).body = .enumeration style members := by
  cases e with
  | builtin b => exact absurd rfl hc
  | declared i =>
      cases hbody : (M.decl i).body with
      | enumeration style members => exact ⟨i, style, members, rfl, hbody⟩
      | record style bases fields => simp [isEnumClass, hbody] at he

theorem Block.setIn_enum (indent name : String) (constants : List String) :
    (Block.enum name constants).setIn indent = enumText indent name constants := by
  have hline : (fun c : String × Nat => indent ++ (c.1 ++ " = " ++ toString c.2 ++ ";") ++ "\n") =
      fun c => indent ++ c.1 ++ " = " ++ toString c.2 ++ ";\n" := by
    funext c
    have hend : ";\n" = ";" ++ "\n" := rfl
    simp only [hend, String.append_assoc]
  have hword : "enum " = "enum" ++ " " := rfl
  simp only [setIn, contents, List.map_map, Function.comp_def, hline, enumText, hword]
  rfl

theorem Block.Apart.sole {bs before after : List Block} {b : Block} (h : bs.Pairwise Block.Apart)
    (hs : bs = before ++ b :: after) (hb : b.kind ≠ .message) : ∀ b' ∈ before ++ after, b'.name ≠ b.name := by
  rw [hs, List.pairwise_append] at h
  obtain ⟨_, hafter, hbefore⟩ := h
  refine List.forall_mem_append.mpr ⟨fun b' hb' hname => ?_, fun b' hb' hname => ?_⟩
  · exact hb (hbefore b' hb' b List.mem_cons_self hname).2
  · exact hb (List.rel_of_pairwise_cons hafter hb' hname.symm).1

theorem Options.setText_append (o : Options) (imports : List String) (before after : List Block) (b : Block) :
    ∃ s s', o.setText imports (before ++ b :: after) = s ++ b.setIn o.indent ++ s' := by
  refine ⟨(if o.heading then o.header imports else "") ++ "\n" ++
    String.join (before.map (Block.setIn o.indent)), String.join (after.map (Block.setIn o.indent)), ?_⟩
  rw [setText, List.map_append, String.join_append, List.map_cons, String.join_cons]
  simp only [String.append_assoc]

namespace Compiler

variable {M : Model} {o : Options} {root e : ClassRef} {t : TypeExpr} {ps : List Piece} {s : Progress}

theorem At.writesEnum (h : At M o root [] ps [] s) (he : .enumeration e ∈ parts ps) :
    M.constants e ≠ [] ∧
      (documentOf o s).WritesEnum o.indent (Name.enumName (M.simpleName e) o.affix) (M.constants e) := by
  obtain ⟨later, p, earlier, hps, hp⟩ := exists_split he
  cases p with
  | enumeration e' =>
      cases hp
      have hblocks : s.draft.blocks = blocksOf M o root earlier ++
          .enum (Name.enumName (M.simpleName e) o.affix) (M.constants e) ::
            later.reverse.flatMap (pieceBlocks M o root) := by
        rw [h.blocks, hps]
        simp [blocksOf, pieceBlocks]
      refine ⟨(hps ▸ h.sound).fits.2.2, ⟨_, _, hblocks, ?_⟩, ?_⟩
      · exact Block.Apart.sole h.draft.apart hblocks (by simp [Block.kind])
      · rw [documentOf_text, hblocks, ← Block.setIn_enum]
        exact o.setText_append _ _ _ _
  | message c lines => cases hp
  | entry c f => cases hp

/-- Every enum class that the root refers to has one block, with the members that are listed where
they stand. A further member that is not listed where it is put leaves the document as it is. -/
theorem compile_enumerations {doc : Document} (h : compile M o t = .ok doc) :
    ∃ root, t = .cls root ∧ ∀ e, M.Needs root (.enumeration e) →
      ∃ i style members, e = .declared i ∧ (M.decl i).body = .enumeration style members ∧
        doc.WritesEnum o.indent (Name.enumName (M.simpleName e) o.affix) (style.listed members) ∧
        ∀ before after m, members = before ++ after → style.lists before m = false →
          compile (M.withMembers i style (before ++ m :: after)) o t = .ok doc := by
  obtain ⟨root, ps, s, rfl, _, hat, hroot, rfl⟩ := compile_ok h
  refine ⟨root, rfl, fun e he => ?_⟩
  obtain ⟨hconstants, hwrites⟩ := hat.writesEnum (hat.sound.complete hroot he)
  obtain ⟨i, style, members, rfl, hbody⟩ := Model.enumeration_of_constants he.1 hconstants
  rw [Model.constants_of_enumeration hbody] at hwrites
  refine ⟨i, style, members, rfl, hbody, hwrites, ?_⟩
  rintro before after m rfl hm
  exact compile_withMembers hbody hm h

end Compiler

def Model.palette : Model where
  classes := [
    { name := "Shade", body := .enumeration .distinct
        [("DARK", .int 1), ("BLACK", .bool true), ("LIGHT", .int 2)] },
    { name := "Mode", body := .enumeration .flags [("READ", .int 1), ("WRITE", .int 2)] },
    { name := "Paint", body := .record .dataclass []
        [("shades", .subscript (.cls (.builtin .list)) [.cls (.declared 0)]),
         ("stock", .subscript (.cls (.builtin .dict)) [.cls (.declared 0), .builtin .int]),
         ("mode", .cls (.declared 1))] }]

namespace Compiler

theorem palette_enumerations : ∃ doc, compile .palette default (.cls (.declared 2)) = .ok doc ∧
    doc.WritesEnum "\t" "GrpcShade" ["DARK", "LIGHT"] ∧
    compile (Model.palette.withMembers 0 .distinct [("DARK", .int 1), ("BLACK", .bool true),
      ("LIGHT", .int 2), ("DIM", .decimal ⟨false, 1, 0⟩)]) default (.cls (.declared 2)) = .ok doc ∧
    doc.WritesEnum "\t" "GrpcMode" ["READ", "WRITE"] ∧
    compile (Model.palette.withMembers 1 .flags [("READ", .int 1), ("BOTH", .int 3), ("WRITE", .int 2)])
      default (.cls (.declared 2)) = .ok doc := by
  obtain ⟨doc, h⟩ : ∃ doc, compile .palette default (.cls (.declared 2)) = .ok doc :=
    exists_of_isSome (by decide +kernel)
  obtain ⟨root, hroot, hall⟩ := compile_enumerations h
  cases hroot
  have hneeds (e : ClassRef) (he : Model.palette.isEnumClass e = true)
      (hm : e ∈ Model.palette.mentioned (.declared 2)) :
      Model.palette.Needs (.declared 2) (.enumeration e) :=
    ⟨he, _, .refl, Model.mentions_of_mem hm⟩
  obtain ⟨_, _, _, hi, hbody, hshade, hdim⟩ := hall (.declared 0) (hneeds _ rfl (by decide +kernel))
  cases hi
  cases hbody
  obtain ⟨_, _, _, hi, hbody, hmode, hboth⟩ := hall (.declared 1) (hneeds _ rfl (by decide +kernel))
  cases hi
  cases hbody
  refine ⟨doc, h, hshade, ?_, hmode, ?_⟩
  · exact hdim [("DARK", .int 1), ("BLACK", .bool true), ("LIGHT", .int 2)] [] _ rfl (by decide +kernel)
  · exact hboth [("READ", .int 1)] [("WRITE", .int 2)] _ rfl (by decide +kernel)

end Compiler

end ClassSchema
