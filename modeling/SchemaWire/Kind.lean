/-!
# Kinds of wire values

Every value on the wire has a kind, and every kind has a fixed number that all peers share.
The low byte of a type id is the number of its kind; the bits above it carry the id under
which a user type was registered.
-/

namespace SchemaWire

/-- The kinds of wire values. -/
inductive Kind
  | boolean
  | int8
  | int16
  | int32
  | varInt32
  | int64
  | varInt64
  | sliInt64
  | float16
  | float32
  | float64
  | string
  | enum
  | namedEnum
  | struct
  | compatibleStruct
  | namedStruct
  | namedCompatibleStruct
  | ext
  | namedExt
  | list
  | set
  | map
  | duration
  | timestamp
  | localDate
  | decimal
  | binary
  | array
  | boolArray
  | int8Array
  | int16Array
  | int32Array
  | int64Array
  | float16Array
  | float32Array
  | float64Array
  | tensor
  | arrowRecordBatch
  | arrowTable
  | uint8
  | uint16
  | uint32
  | uint64
  deriving DecidableEq, Repr, Inhabited

namespace Kind

/-- Every kind, in the order of the numbers. -/
def all : List Kind :=
  [.boolean, .int8, .int16, .int32, .varInt32, .int64, .varInt64, .sliInt64, .float16, .float32,
    .float64, .string, .enum, .namedEnum, .struct, .compatibleStruct, .namedStruct,
    .namedCompatibleStruct, .ext, .namedExt, .list, .set, .map, .duration, .timestamp, .localDate,
    .decimal, .binary, .array, .boolArray, .int8Array, .int16Array, .int32Array, .int64Array,
    .float16Array, .float32Array, .float64Array, .tensor, .arrowRecordBatch, .arrowTable, .uint8,
    .uint16, .uint32, .uint64]

/-- The number of a kind. -/
def code : Kind → Nat
  | .boolean => 1
  | .int8 => 2
  | .int16 => 3
  | .int32 => 4
  | .varInt32 => 5
  | .int64 => 6
  | .varInt64 => 7
  | .sliInt64 => 8
  | .float16 => 9
  | .float32 => 10
  | .float64 => 11
  | .string => 12
  | .enum => 13
  | .namedEnum => 14
  | .struct => 15
  | .compatibleStruct => 16
  | .namedStruct => 17
  | .namedCompatibleStruct => 18
  | .ext => 19
  | .namedExt => 20
  | .list => 21
  | .set => 22
  | .map => 23
  | .duration => 24
  | .timestamp => 25
  | .localDate => 26
  | .decimal => 27
  | .binary => 28
  | .array => 29
  | .boolArray => 30
  | .int8Array => 31
  | .int16Array => 32
  | .int32Array => 33
  | .int64Array => 34
  | .float16Array => 35
  | .float32Array => 36
  | .float64Array => 37
  | .tensor => 38
  | .arrowRecordBatch => 39
  | .arrowTable => 40
  | .uint8 => 64
  | .uint16 => 65
  | .uint32 => 66
  | .uint64 => 68

/-- The kind with a given number, if there is one. -/
def ofCode? (n : Nat) : Option Kind :=
  all.find? fun kind => kind.code == n

/-- The number of the kind of a type id: its low byte. -/
def codeOfTypeId (typeId : UInt32) : Nat :=
  typeId.toNat % 256

/-- The kind of a type id, whatever user id the bits above the low byte carry. -/
def ofTypeId? (typeId : UInt32) : Option Kind :=
  ofCode? (codeOfTypeId typeId)

/-- The printed name of a kind. -/
def label : Kind → String
  | .boolean => "Boolean"
  | .int8 => "Int8"
  | .int16 => "Int16"
  | .int32 => "Int32"
  | .varInt32 => "VarInt32"
  | .int64 => "Int64"
  | .varInt64 => "VarInt64"
  | .sliInt64 => "SliInt64"
  | .float16 => "Float16"
  | .float32 => "Float32"
  | .float64 => "Float64"
  | .string => "String"
  | .enum => "Enum"
  | .namedEnum => "NamedEnum"
  | .struct => "Struct"
  | .compatibleStruct => "CompatibleStruct"
  | .namedStruct => "NamedStruct"
  | .namedCompatibleStruct => "NamedCompatibleStruct"
  | .ext => "Ext"
  | .namedExt => "NamedExt"
  | .list => "List"
  | .set => "Set"
  | .map => "Map"
  | .duration => "Duration"
  | .timestamp => "Timestamp"
  | .localDate => "LocalDate"
  | .decimal => "Decimal"
  | .binary => "Binary"
  | .array => "Array"
  | .boolArray => "BoolArray"
  | .int8Array => "Int8Array"
  | .int16Array => "Int16Array"
  | .int32Array => "Int32Array"
  | .int64Array => "Int64Array"
  | .float16Array => "Float16Array"
  | .float32Array => "Float32Array"
  | .float64Array => "Float64Array"
  | .tensor => "Tensor"
  | .arrowRecordBatch => "ArrowRecordBatch"
  | .arrowTable => "ArrowTable"
  | .uint8 => "UInt8"
  | .uint16 => "UInt16"
  | .uint32 => "UInt32"
  | .uint64 => "UInt64"

/-- Struct kinds, registered by id or by name, with or without a travelling schema. -/
def isStruct : Kind → Bool
  | .struct | .compatibleStruct | .namedStruct | .namedCompatibleStruct => true
  | _ => false

/-- Enum kinds, registered by id or by name. -/
def isEnum : Kind → Bool
  | .enum | .namedEnum => true
  | _ => false

/-- Kinds of values with a layout of their own, registered by id or by name. -/
def isExt : Kind → Bool
  | .ext | .namedExt => true
  | _ => false

/-- Kinds of user types: structs, enums and exts. -/
def isUser (kind : Kind) : Bool :=
  kind.isStruct || kind.isEnum || kind.isExt

/-- Kinds of user types that were registered by name. -/
def isNamed : Kind → Bool
  | .namedEnum | .namedStruct | .namedCompatibleStruct | .namedExt => true
  | _ => false

/-- Struct kinds whose schema travels with the message. -/
def isCompatibleStruct : Kind → Bool
  | .compatibleStruct | .namedCompatibleStruct => true
  | _ => false

/-- Kinds whose values can be read at all. -/
def isReadable : Kind → Bool
  | .decimal | .array | .boolArray | .int8Array | .int16Array | .int32Array | .int64Array
  | .float16Array | .float32Array | .float64Array | .tensor | .arrowRecordBatch
  | .arrowTable => false
  | _ => true

/-- The number of type arguments that a kind carries: one for the elements of a list or
set, two for the keys and values of a map. -/
def arity : Kind → Nat
  | .list | .set => 1
  | .map => 2
  | _ => 0

/-- Distinct kinds have distinct numbers, so a number names one kind. -/
theorem ofCode?_code (kind : Kind) : ofCode? kind.code = some kind := by
  cases kind <;> rfl

end Kind

end SchemaWire
