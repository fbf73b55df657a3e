import ClassSchema.CommandLine.Console
import ClassSchema.Compiler.Schema
import ClassSchema.Json.Printer

namespace ClassSchema

def Value.ofText? (s : Option String) : Value := (s.map Value.text).getD .null

def Value.ofTexts (ss : List String) : Value := .list (ss.map .text)

def Field.toValue (M : Model) (f : Field) : Value := .record [
  ("declaring_type", .ofText? (M.typeName? f.owner)),
  ("name", .text f.name),
  ("declared_type", .ofText? (M.typeName? f.declared)),
  ("shape", .text f.shape.word),
  ("element_type", .ofText? (f.element.bind M.typeName?)),
  ("key_type", .ofText? (f.key.bind M.typeName?))]

def Description.toValue (M : Model) (d : Description) : Value := .record [
  ("type", .text (M.qualifiedName d.type)),
  ("name", .text (M.simpleName d.type)),
  ("qualified_name", .text (M.qualifiedName d.type)),
  ("is_enum", .bool d.isEnum),
  ("fields", .list (d.fields.map (Field.toValue M))),
  ("constants", .ofTexts d.constants)]

namespace CommandLine

structure Summary where
  description : Description
  document : Document

namespace Summary

variable (M : Model)

def toValue (s : Summary) : Value := .record [
  ("type", s.description.toValue M),
  ("messages", .ofTexts s.document.messages),
  ("enums", .ofTexts s.document.enums),
  ("imports", .ofTexts s.document.imports)]

def title (C : Console) (s : Summary) : String :=
  Console.Style.title.mark (C.escape (M.qualifiedName s.description.type))

/-- The type that is shown for a field: of a container, that of its elements. -/
def shownType (f : Field) : String :=
  ((if f.shape.isContainer then f.element else some f.declared).bind M.typeName?).getD "None"

/-- The cells of a field. The name is not escaped. -/
def fieldRow (C : Console) (ordinal : Nat) (f : Field) : List String :=
  [toString ordinal, f.name, f.shape.word, C.escape (shownType M f)]

def fieldRows (C : Console) (s : Summary) : List (List String) :=
  (s.description.fields.zipIdx 1).map fun p => fieldRow M C p.2 p.1

def fieldColumns : List Column := [⟨"#", true⟩, ⟨"Field", false⟩, ⟨"Shape", false⟩, ⟨"Type", false⟩]

def blockRows (s : Summary) : List (List String) :=
  s.document.enums.map (["enum", ·]) ++ s.document.messages.map (["message", ·])

def blockColumns : List Column := [⟨"Kind", false⟩, ⟨"Name", false⟩]

end Summary

end CommandLine

end ClassSchema
