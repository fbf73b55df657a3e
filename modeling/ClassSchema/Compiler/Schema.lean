import ClassSchema.Compiler.Basic
import ClassSchema.Document.Heading

namespace ClassSchema

structure Document where
  heading : Heading
  indent : String
  blocks : List Block
  messages : List String
  enums : List String
  imports : List String

def Document.text (d : Document) : String :=
  d.heading.document (String.join (d.blocks.map (Block.text d.indent)))

namespace Compiler

variable (M : Model) (o : Options)

/-- The root has to be a class that is neither a scalar, an enum nor a container. -/
def checkRoot : TypeExpr → Except Fault Unit
  | .none => .error .noRoot
  | root =>
    if root.isAny || !root.isClass || root.isScalar || M.isEnum root
        || root.containerShape?.isSome then
      .error (.notComposite root)
    else .ok ()

def documentOf (s : Progress) : Document where
  heading :=
    { version := o.version, package := o.package, imports := s.draft.imports, shown := o.heading }
  indent := o.indent
  blocks := s.draft.blocks
  messages := s.draft.messages
  enums := s.draft.enums
  imports := s.draft.imports

def compile (root : TypeExpr) : Except Fault Document := do
  checkRoot M root
  match buildMessage M o (levels M) root .root {} with
  | .ok _ s => return documentOf o s
  | .error fault _ => throw fault

end Compiler

end ClassSchema
