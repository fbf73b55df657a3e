import ClassSchema.Proofs.Restyling.Models
import ClassSchema.Proofs.Termination

namespace ClassSchema

namespace Compiler

variable {M M' : Model} {o : Options}

theorem checkRoot_congr (hM : M.Mirrors M' False) (root : TypeExpr) : checkRoot M' root = checkRoot M root := by
  unfold checkRoot
  rw [hM.isEnum]

theorem compile_of_mirrors (hM : M.Mirrors M' False) (hl : M'.classes.length = M.classes.length)
    {root : TypeExpr} {doc : Document} (h : compile M o root = .ok doc) : compile M' o root = .ok doc := by
  obtain ⟨_, hroot, h⟩ := bind_eq_ok.mp h
  obtain ⟨r, rfl, hr⟩ := checkRoot_ok hroot
  have hlevels : levels M' = levels M := congrArg Nat.succ hl
  simp only [compile, checkRoot_congr hM, hroot, hlevels]
  cases hrun : Recording.buildMessage M o (levels M) [] (.cls r) .root ({}, {}) with
  | ok name s =>
      obtain ⟨hplain, _⟩ := (buildRoot_follows (.refl M True) hr (Or.inl rfl)).of_ok hrun
      obtain ⟨hplain', _⟩ := (buildRoot_follows hM hr (Or.inl rfl)).of_ok hrun
      rw [hplain] at h
      rw [hplain']
      exact h
  | error fault s =>
      obtain ⟨hplain, _⟩ := (buildRoot_follows (.refl M True) hr (Or.inl rfl)).of_error hrun
      rw [hplain trivial] at h
      cases h

/-- A document does not depend on how the annotations of its model are written. -/
theorem compile_restyled (h : ModelRestyled M.StaySole M M') (o : Options) (root : TypeExpr) (doc : Document) :
    compile M o root = .ok doc ↔ compile M' o root = .ok doc :=
  ⟨compile_of_mirrors h.mirrors h.length, compile_of_mirrors h.mirrored h.length.symm⟩

end Compiler

namespace Model

variable {t t' : TypeExpr}

theorem staySole_of_plain {M : Model} {declarer : ClassRef} (ht : t.Plain) (ht' : t'.Plain)
    (ha : t.asArgument = t) (ha' : t'.asArgument = t') (h : t'.isSole = t.isSole) :
    M.StaySole declarer t t' := by
  intro c u u' _ hu hu'
  rw [resolve, Evaluator.resolve, ha, ht.substitute] at hu
  rw [resolve, Evaluator.resolve, ha', ht'.substitute] at hu'
  cases hu
  cases hu'
  exact h

def holder (t : TypeExpr) : Model where
  classes := [{ name := "Holder", body := .record .dataclass [] [("content", t)] }]
  evaluator := Names.evaluator ⟨[], []⟩

theorem holder_restyled {joint : ClassRef → TypeExpr → TypeExpr → Prop}
    (h : Restyled (joint (.declared 0)) .position t t') : ModelRestyled joint (holder t) (holder t') where
  modules := rfl
  evaluator := rfl
  length := rfl
  decl
    | 0 => ⟨rfl, rfl, rfl, rfl, .record (.cons ⟨rfl, h⟩ .nil)⟩
    | _ + 1 => ⟨rfl, rfl, rfl, rfl, .record .nil⟩

end Model

namespace Compiler

open TypeExpr

def numbers : TypeExpr := .sequenceOf (.cls (.builtin .list)) (.builtin .int)

def tagged : TypeExpr := .sequenceOf (.cls (.builtin .tuple)) ((builtin .int).annotate [.text "id"])

theorem fits_int : (Layer.metadata [.text "id"]).Fits (.builtin .int) := ⟨.cls, rfl, rfl, fun _ _ => rfl⟩

theorem restyled_numbers :
    Restyled ((Model.holder numbers.optional).StaySole (.declared 0)) .position numbers.optional
      (.newType ⟨0, "m", "Numbers"⟩ tagged.optional) := by
  have hnumbers : Layer.optional.Fits numbers := ⟨Plain.cls.sequenceOf _, rfl, rfl, nofun⟩
  have htagged : Layer.optional.Fits tagged := ⟨fits_int.plain_on.sequenceOf _, rfl, rfl, nofun⟩
  have hcovered := htagged.covered
  have hj : (Model.holder numbers.optional).StaySole (.declared 0) numbers.optional tagged.optional := by
    refine Model.staySole_of_plain hnumbers.plain_on htagged.plain_on hnumbers.covered.asArgument
      hcovered.asArgument ?_
    rw [isSole_optional rfl rfl, isSole_optional rfl rfl]
  have hhead : Restyled ((Model.holder numbers.optional).StaySole (.declared 0)) .inside numbers tagged :=
    .head rfl rfl rfl rfl nofun (.layer .same fits_int trivial)
  have hnamed : (Layer.newType ⟨0, "m", "Numbers"⟩).Fits tagged.optional :=
    ⟨htagged.plain_on, (congrArg isPresent hcovered.asArgument).trans hcovered.present,
      hcovered.stored, nofun⟩
  exact .layer (hhead.optional ⟨rfl, rfl⟩ ⟨rfl, rfl⟩ hj) hnamed trivial

theorem compile_restyled_numbers : ∃ doc,
    compile (.holder numbers.optional) default (.cls (.declared 0)) = .ok doc ∧
      ModelRestyled (Model.holder numbers.optional).StaySole (.holder numbers.optional)
        (.holder (.newType ⟨0, "m", "Numbers"⟩ tagged.optional)) ∧
      compile (.holder (.newType ⟨0, "m", "Numbers"⟩ tagged.optional)) default (.cls (.declared 0)) =
        .ok doc := by
  obtain ⟨doc, h⟩ : ∃ doc, compile (.holder numbers.optional) default (.cls (.declared 0)) = .ok doc :=
    exists_of_isSome (by decide +kernel)
  have hr := Model.holder_restyled restyled_numbers
  exact ⟨doc, h, hr, (compile_restyled hr default _ doc).mp h⟩

def lists (t : TypeExpr) : TypeExpr :=
  unionOf false [.sequenceOf (.cls (.builtin .list)) t,
    .sequenceOf (.cls (.builtin .list)) (builtin .int).optional]

theorem restyled_lists : Restyled (fun _ _ => True) .position (lists (.builtin .int))
    (lists (builtin .int).optional) := by
  have hfits : Layer.optional.Fits (.builtin .int) := ⟨.cls, rfl, rfl, nofun⟩
  have hfirst : Restyled (fun _ _ => True) .inside (.sequenceOf (.cls (.builtin .list)) (.builtin .int))
      (.sequenceOf (.cls (.builtin .list)) (builtin .int).optional) :=
    .head rfl rfl rfl rfl nofun (.layer .same hfits trivial)
  exact hfirst.pair .same ⟨mergeable_pair rfl rfl, mergeable_pair rfl rfl, rfl, fun _ => rfl⟩ trivial

/-- A layer around one element lets the alternatives collapse, and a class that is refused compiles. -/
theorem not_always_restyled :
    ModelRestyled (fun _ _ _ => True) (.holder (lists (.builtin .int)))
        (.holder (lists (builtin .int).optional)) ∧
      (∃ doc, compile (.holder (lists (builtin .int).optional)) default (.cls (.declared 0)) = .ok doc) ∧
      ∀ doc, compile (.holder (lists (.builtin .int))) default (.cls (.declared 0)) ≠ .ok doc := by
  refine ⟨Model.holder_restyled restyled_lists, exists_of_isSome (by decide +kernel), fun doc h => ?_⟩
  have hnone : (compile (.holder (lists (.builtin .int))) default (.cls (.declared 0))).toOption.isSome =
      false := by decide +kernel
  rw [h] at hnone
  cases hnone

end Compiler

end ClassSchema
