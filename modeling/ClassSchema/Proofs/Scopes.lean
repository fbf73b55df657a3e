import ClassSchema.Model.Basic

namespace ClassSchema

namespace Model

theorem stores_congr {M M' : Model} (h : M'.evaluator = M.evaluator) : M'.stores = M.stores := by
  funext c t
  cases t <;> simp only [stores, h]

theorem resolve_congr {M M' : Model} (h : M'.evaluator = M.evaluator) : M'.resolve = M.resolve := by
  funext declarer t
  rw [resolve, resolve, h]

end Model

def ClassBody.constants? : ClassBody → Option (List String)
  | .enumeration style members => some ((style.canonical members).map Prod.fst)
  | .record .. => none

namespace Model

variable {M M' : Model}

theorem simpleName_congr (h : ∀ i, (M'.decl i).name = (M.decl i).name) :
    M'.simpleName = M.simpleName := by
  funext c
  cases c with
  | builtin b => rfl
  | declared i => exact h i

theorem isEnumClass_congr (h : ∀ i, (M'.decl i).body.constants? = (M.decl i).body.constants?) :
    M'.isEnumClass = M.isEnumClass := by
  have hbody (N : Model) (i : Nat) : N.isEnumClass (.declared i) = (N.decl i).body.constants?.isSome := by
    simp only [isEnumClass]
    cases (N.decl i).body <;> rfl
  funext c
  cases c with
  | builtin b => rfl
  | declared i => rw [hbody, hbody, h]

theorem constants_congr (h : ∀ i, (M'.decl i).body.constants? = (M.decl i).body.constants?) :
    M'.constants = M.constants := by
  have hbody (N : Model) (i : Nat) :
      N.constants (.declared i) = (N.decl i).body.constants?.getD [] := by
    simp only [constants]
    cases (N.decl i).body <;> rfl
  funext c
  cases c with
  | builtin b => rfl
  | declared i => rw [hbody, hbody, h]

end Model

end ClassSchema
