namespace ClassSchema

inductive Shape where
  | scalar
  | enum
  | list
  | array
  | collection
  | map
  | composite
  deriving DecidableEq, Repr

namespace Shape

def all : List Shape := [scalar, enum, list, array, collection, map, composite]

def word : Shape → String
  | scalar => "scalar"
  | enum => "enum"
  | list => "list"
  | array => "array"
  | collection => "collection"
  | map => "map"
  | composite => "composite"

def ofWord? (w : String) : Option Shape := all.find? (·.word == w)

def isContainer : Shape → Bool
  | list | array | collection | map => true
  | scalar | enum | composite => false

def isSequence : Shape → Bool
  | list | array | collection => true
  | scalar | enum | map | composite => false

theorem isContainer_of_isSequence {s : Shape} (h : s.isSequence = true) : s.isContainer = true := by
  cases s <;> simp_all [isSequence, isContainer]

theorem isSequence_of_ne_map {s : Shape} (hc : s.isContainer = true) (hm : s ≠ map) :
    s.isSequence = true := by
  cases s <;> simp_all [isSequence, isContainer]

theorem ofWord?_word (s : Shape) : ofWord? s.word = some s := by cases s <;> decide

end Shape

end ClassSchema
