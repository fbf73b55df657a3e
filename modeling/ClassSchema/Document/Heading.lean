namespace ClassSchema

structure Heading where
  version : String := "proto2"
  package : Option String := none
  imports : List String := []
  shown : Bool := true

namespace Heading

def packageText : Option String → String
  | none => ""
  | some package => if package = "" then "" else "\npackage " ++ package ++ ";\n"

def importsText (imports : List String) : String :=
  if imports.isEmpty then ""
  else "\n" ++ String.join (imports.map (fun file => "import \"" ++ file ++ "\";\n"))

def text (h : Heading) : String :=
  if h.shown then
    "syntax = \"" ++ h.version ++ "\";\n" ++ packageText h.package ++ importsText h.imports
  else ""

def document (h : Heading) (body : String) : String := h.text ++ "\n" ++ body

end Heading

end ClassSchema
