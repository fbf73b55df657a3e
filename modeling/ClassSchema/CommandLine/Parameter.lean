namespace ClassSchema.CommandLine

inductive Parameter where
  | type | output | path | affix | package | indent | noHeading | json | help
  deriving DecidableEq, Repr

inductive Command where
  | gen | info
  deriving DecidableEq, Repr

namespace Parameter

def names : Parameter → List String
  | type => ["--type", "-t"]
  | output => ["--output", "-o"]
  | path => ["--path", "-p"]
  | affix => ["--prefix"]
  | package => ["--package"]
  | indent => ["--indent"]
  | noHeading => ["--no-header"]
  | json => ["--json"]
  | help => ["--help"]

def takesValue : Parameter → Bool
  | type | output | path | affix | package | indent => true
  | noHeading | json | help => false

end Parameter

namespace Command

def name : Command → String
  | gen => "gen"
  | info => "info"

def ofName? (name : String) : Option Command := [gen, info].find? (·.name == name)

def parameters : Command → List Parameter
  | gen => [.type, .output, .path, .affix, .package, .indent, .noHeading, .help]
  | info => [.type, .path, .json, .help]

end Command

end ClassSchema.CommandLine
