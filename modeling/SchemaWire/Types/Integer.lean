import SchemaWire.Kind
import SchemaWire.Power
import SchemaWire.Text.Decimal

/-!
# Integer types

The eight integer types of fixed width. A value of one of them is a number within its
bounds; the bytes of every type are little-endian two's complement.
-/

namespace SchemaWire

/-- The integer types. -/
inductive IntType
  | int8
  | int16
  | int32
  | int64
  | uint8
  | uint16
  | uint32
  | uint64
  deriving DecidableEq, Repr

namespace IntType

/-- The number of bytes of a value. -/
def bytes : IntType → Nat
  | .int8 | .uint8 => 1
  | .int16 | .uint16 => 2
  | .int32 | .uint32 => 4
  | .int64 | .uint64 => 8

/-- Whether the type has negative values. -/
def isSigned : IntType → Bool
  | .int8 | .int16 | .int32 | .int64 => true
  | .uint8 | .uint16 | .uint32 | .uint64 => false

/-- The printed name of the type. -/
def label : IntType → String
  | .int8 => "i8"
  | .int16 => "i16"
  | .int32 => "i32"
  | .int64 => "i64"
  | .uint8 => "u8"
  | .uint16 => "u16"
  | .uint32 => "u32"
  | .uint64 => "u64"

/-- The kind of values of the type. -/
def kind : IntType → Kind
  | .int8 => .int8
  | .int16 => .int16
  | .int32 => .int32
  | .int64 => .int64
  | .uint8 => .uint8
  | .uint16 => .uint16
  | .uint32 => .uint32
  | .uint64 => .uint64

/-- The least value. -/
def least (t : IntType) : Int :=
  if t.isSigned then -(2 ^ (8 * t.bytes - 1) : Nat) else 0

/-- The number after the greatest value. -/
def bound (t : IntType) : Int :=
  if t.isSigned then (2 ^ (8 * t.bytes - 1) : Nat) else (2 ^ (8 * t.bytes) : Nat)

/-- Whether a number is a value of the type. -/
def holds (t : IntType) (v : Int) : Bool :=
  t.least ≤ v && v < t.bound

/-- The value that a text stands for. A plus sign may go before the digits, and a minus sign
where the type has negative values. -/
def ofText? (t : IntType) (s : String) : Option Int :=
  let value : Option Int := match s.toList with
    | '+' :: digits => (Text.decimal? digits).map fun n => (n : Int)
    | '-' :: digits =>
      if t.isSigned then (Text.decimal? digits).map fun n => -(n : Int) else none
    | digits => (Text.decimal? digits).map fun n => (n : Int)
  value.filter t.holds

end IntType

end SchemaWire
