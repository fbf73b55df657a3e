import ClassSchema.Shape

namespace ClassSchema

def timestamp : String := "google.protobuf.Timestamp"

inductive Builtin where
  | int | float | bool | str | bytes | bytearray | noneType | object | complex | exception
  | type | list | tuple | set | frozenset | dict
  | datetime | date | timedelta | decimal | uuid | enum | any | generic
  | deque | counter | chainMap | orderedDict | defaultdict
  | sequence | mutableSequence | abstractSet | mutableSet | collection | iterable | iterator
  | mapping | mutableMapping
  deriving DecidableEq, Repr

namespace Builtin

def all : List Builtin := [
  int, float, bool, str, bytes, bytearray, noneType, object, complex, exception,
  type, list, tuple, set, frozenset, dict,
  datetime, date, timedelta, decimal, uuid, enum, any, generic,
  deque, counter, chainMap, orderedDict, defaultdict,
  sequence, mutableSequence, abstractSet, mutableSet, collection, iterable, iterator,
  mapping, mutableMapping]

def home : Builtin → String
  | int | float | bool | str | bytes | bytearray | noneType | object | complex | exception
  | type | list | tuple | set | frozenset | dict => "builtins"
  | datetime | date | timedelta => "datetime"
  | decimal => "decimal"
  | uuid => "uuid"
  | enum => "enum"
  | any | generic => "typing"
  | deque | counter | chainMap | orderedDict | defaultdict => "collections"
  | sequence | mutableSequence | abstractSet | mutableSet | collection | iterable | iterator
  | mapping | mutableMapping => "collections.abc"

def name : Builtin → String
  | int => "int"
  | float => "float"
  | bool => "bool"
  | str => "str"
  | bytes => "bytes"
  | bytearray => "bytearray"
  | noneType => "NoneType"
  | object => "object"
  | complex => "complex"
  | exception => "Exception"
  | type => "type"
  | list => "list"
  | tuple => "tuple"
  | set => "set"
  | frozenset => "frozenset"
  | dict => "dict"
  | datetime => "datetime"
  | date => "date"
  | timedelta => "timedelta"
  | decimal => "Decimal"
  | uuid => "UUID"
  | enum => "Enum"
  | any => "Any"
  | generic => "Generic"
  | deque => "deque"
  | counter => "Counter"
  | chainMap => "ChainMap"
  | orderedDict => "OrderedDict"
  | defaultdict => "defaultdict"
  | sequence => "Sequence"
  | mutableSequence => "MutableSequence"
  | abstractSet => "Set"
  | mutableSet => "MutableSet"
  | collection => "Collection"
  | iterable => "Iterable"
  | iterator => "Iterator"
  | mapping => "Mapping"
  | mutableMapping => "MutableMapping"

def isGlobal (b : Builtin) : Bool := b.home == "builtins" && b != noneType

def ancestors : Builtin → List Builtin
  | object => []
  | bool => [int, object]
  | datetime => [date, object]
  | counter | orderedDict | defaultdict => [dict, object]
  | mutableSequence => [sequence, collection, iterable, object]
  | mutableSet => [abstractSet, collection, iterable, object]
  | chainMap => [mutableMapping, mapping, collection, iterable, object]
  | mutableMapping => [mapping, collection, iterable, object]
  | sequence | abstractSet | mapping => [collection, iterable, object]
  | collection | iterator => [iterable, object]
  | _ => [object]

def keyword? : Builtin → Option String
  | float => some "double"
  | int => some "sint64"
  | bool => some "bool"
  | bytes | bytearray => some "bytes"
  | str => some "string"
  | datetime => some timestamp
  | _ => none

def shape? : Builtin → Option Shape
  | list | sequence | mutableSequence => some .list
  | tuple => some .array
  | set | frozenset | deque | abstractSet | mutableSet | collection | iterable => some .collection
  | dict | orderedDict | defaultdict | mapping | mutableMapping => some .map
  | _ => none

end Builtin

/-- A generic alias stands for a class and is none itself. -/
inductive Alias where
  | list | sequence | mutableSequence | tuple
  | set | frozenSet | deque | abstractSet | mutableSet | collection | iterable
  | dict | orderedDict | defaultDict | mapping | mutableMapping
  | iterator | counter | chainMap | type
  deriving DecidableEq, Repr

namespace Alias

def all : List Alias := [
  list, sequence, mutableSequence, tuple,
  set, frozenSet, deque, abstractSet, mutableSet, collection, iterable,
  dict, orderedDict, defaultDict, mapping, mutableMapping,
  iterator, counter, chainMap, type]

def name : Alias → String
  | list => "List"
  | sequence => "Sequence"
  | mutableSequence => "MutableSequence"
  | tuple => "Tuple"
  | set => "Set"
  | frozenSet => "FrozenSet"
  | deque => "Deque"
  | abstractSet => "AbstractSet"
  | mutableSet => "MutableSet"
  | collection => "Collection"
  | iterable => "Iterable"
  | dict => "Dict"
  | orderedDict => "OrderedDict"
  | defaultDict => "DefaultDict"
  | mapping => "Mapping"
  | mutableMapping => "MutableMapping"
  | iterator => "Iterator"
  | counter => "Counter"
  | chainMap => "ChainMap"
  | type => "Type"

def origin : Alias → Builtin
  | list => .list
  | sequence => .sequence
  | mutableSequence => .mutableSequence
  | tuple => .tuple
  | set => .set
  | frozenSet => .frozenset
  | deque => .deque
  | abstractSet => .abstractSet
  | mutableSet => .mutableSet
  | collection => .collection
  | iterable => .iterable
  | dict => .dict
  | orderedDict => .orderedDict
  | defaultDict => .defaultdict
  | mapping => .mapping
  | mutableMapping => .mutableMapping
  | iterator => .iterator
  | counter => .counter
  | chainMap => .chainMap
  | type => .type

end Alias

/-- A marker asks for a particular width or encoding of a scalar. -/
inductive Marker where
  | int16 | int32 | int64 | float32 | float64 | byte
  deriving DecidableEq, Repr

namespace Marker

def all : List Marker := [int16, int32, int64, float32, float64, byte]

def home : String := "typeproto.proto.types"

def name : Marker → String
  | int16 => "int16"
  | int32 => "int32"
  | int64 => "int64"
  | float32 => "float32"
  | float64 => "float64"
  | byte => "byte"

def keyword : Marker → String
  | int16 => "int32"
  | int32 => "sint32"
  | int64 => "sint64"
  | float32 => "float"
  | float64 => "double"
  | byte => "bytes"

end Marker

end ClassSchema
