import ClassSchema.Proofs.Containers
import ClassSchema.Proofs.Equality
import ClassSchema.Proofs.Lineages

namespace ClassSchema

namespace Model

variable {M : Model} {c : ClassRef} {name : String} {names : List String} {t : TypeExpr}
  {types : List (String × TypeExpr)} {fs : List Field}

end Model

end ClassSchema
