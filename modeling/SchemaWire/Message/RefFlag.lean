import SchemaWire.Error

/-!
# Reference flags

One byte in front of a value says whether it is null, a repetition of an earlier value, or
a value of its own.
-/

namespace SchemaWire

/-- What the byte in front of a value says. -/
inductive RefFlag
  /-- There is no value. -/
  | null
  /-- An earlier value stands here again; its number follows. -/
  | ref
  /-- A value follows. -/
  | notNull
  /-- A value follows, and later flags may refer to it. -/
  | refValue
  deriving DecidableEq, Repr

namespace RefFlag

/-- The byte of a flag: the signed numbers from -3 to 0. -/
def toByte : RefFlag → UInt8
  | .null => 253
  | .ref => 254
  | .notNull => 255
  | .refValue => 0

/-- The flag that a byte stands for. -/
def ofByte (byte : UInt8) : Except Error RefFlag :=
  if byte = 253 then .ok .null
  else if byte = 254 then .ok .ref
  else if byte = 255 then .ok .notNull
  else if byte = 0 then .ok .refValue
  else .error (.badRefFlag byte.toInt8.toInt)

/-- The printed name of a flag. -/
def label : RefFlag → String
  | .null => "Null"
  | .ref => "Ref"
  | .notNull => "NotNull"
  | .refValue => "RefValue"

/-- A byte stands for the flag that it is the byte of. -/
theorem ofByte_toByte (flag : RefFlag) : ofByte flag.toByte = .ok flag := by
  cases flag <;> rfl

end RefFlag

end SchemaWire
