import SchemaWire.Value.Shape

/-!
# Values

The values that programs write and read. A value carries what writing it needs, such as the
names of structs and variants; reading produces it from a shape. Floating-point numbers are
their bits, so that no two of them are confused.
-/

namespace SchemaWire

/-- A value. -/
inductive Datum
  /-- A truth value. -/
  | bool (b : Bool)
  /-- A number of an integer type. -/
  | int (t : IntType) (v : Int)
  /-- The bits of a floating-point number of 32 bits. -/
  | float32 (bits : UInt32)
  /-- The bits of a floating-point number of 64 bits. -/
  | float64 (bits : UInt64)
  /-- One character. -/
  | char (c : Char)
  /-- A text. -/
  | text (s : String)
  /-- Bytes. -/
  | bytes (content : List UInt8)
  /-- The value without content. -/
  | unit
  /-- A missing value. -/
  | none
  /-- A value that is not missing. -/
  | some (content : Datum)
  /-- A wrapped value. -/
  | newtype (content : Datum)
  /-- Elements, with or without their number known beforehand. -/
  | seq (sized : Bool) (items : List Datum)
  /-- Values by position. -/
  | tuple (items : List Datum)
  /-- Entries, with or without their number known beforehand. -/
  | map (sized : Bool) (entries : List (Datum × Datum))
  /-- The entries that were taken of a map, and how many it has. -/
  | firstEntry (total : Nat) (entries : List (Datum × Datum))
  /-- Values by name. -/
  | struct (name : String) (fields : List (String × Datum))
  /-- A variant of an enum without content. -/
  | unitVariant (enum : String) (index : Nat) (variant : String)
  /-- A variant with one value. -/
  | newtypeVariant (enum : String) (index : Nat) (variant : String) (content : Datum)
  /-- A variant with values by position. -/
  | tupleVariant (enum : String) (index : Nat) (variant : String) (items : List Datum)
  /-- A variant with values by name. -/
  | structVariant (enum : String) (index : Nat) (variant : String) (fields : List (String × Datum))
  /-- The place of one of several names, or of none of them. -/
  | choice (index : Option Nat)
  /-- A field that is left out when the struct is written, and replaced by a value of the
  program's own when it is missing. -/
  | absent
  /-- A value that refuses to be written, and whether it counts as missing. -/
  | refused (missing : Bool)
  deriving Repr, Inhabited

namespace Datum

/-- Whether a value counts as missing at the top level. -/
def isNull : Datum → Bool
  | .none | .unit => true
  | .refused missing => missing
  | .newtype content => content.isNull
  | _ => false

end Datum

end SchemaWire
