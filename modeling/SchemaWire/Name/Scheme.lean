import SchemaWire.Name.Encoder

/-!
# Schemes of names

Field names, type names and namespaces each have a scheme: a pair of special characters and
a list of encoders in order of preference. The first eligible encoder writes the name, and
plain UTF-8 is the last resort. A flag of two bits travels with the bytes and tells the
reader which encoding was used; a scheme reads only the encodings that it writes.
-/

namespace SchemaWire.Name

/-- The encodings that a flag tells apart. -/
inductive Encoding
  | utf8
  | allToLower
  | sixBit
  | firstToLower
  deriving DecidableEq, Repr

/-- The flag of an encoding. -/
def Encoding.flag : Encoding → Nat
  | .utf8 => 0
  | .allToLower => 1
  | .sixBit => 2
  | .firstToLower => 3

/-- The encoding that a flag stands for. -/
def Encoding.ofFlag (flag : Nat) : Except Error Encoding :=
  match flag with
  | 0 => .ok .utf8
  | 1 => .ok .allToLower
  | 2 => .ok .sixBit
  | 3 => .ok .firstToLower
  | _ => .error (.unsupportedEncoding flag)

/-- A flag stands for the encoding that it is the flag of. -/
theorem Encoding.ofFlag_flag (encoding : Encoding) : ofFlag encoding.flag = .ok encoding := by
  cases encoding <;> rfl

/-- How names of one sort are written. -/
structure Scheme where
  /-- The special characters of the six-bit alphabet. -/
  specials : Specials
  /-- The encodings besides UTF-8, the preferred ones first. -/
  preference : List Encoding
  deriving DecidableEq, Repr

namespace Scheme

/-- The scheme of field names. -/
def field : Scheme := ⟨⟨'$', '_'⟩, [.sixBit, .allToLower]⟩

/-- The scheme of type names. -/
def type : Scheme := ⟨⟨'$', '_'⟩, [.sixBit, .firstToLower, .allToLower]⟩

/-- The scheme of namespaces. -/
def space : Scheme := ⟨⟨'.', '_'⟩, [.sixBit, .allToLower]⟩

/-- The encoder that a scheme uses for an encoding. -/
def encoderOf (scheme : Scheme) : Encoding → Encoder
  | .utf8 => .utf8
  | .allToLower => .allToLower
  | .sixBit => .sixBit scheme.specials
  | .firstToLower => .firstToLower

/-- The first eligible encoding of a name, or UTF-8. -/
def select (scheme : Scheme) (name : String) : Encoding :=
  let stats := Stats.of scheme.specials name
  let eligible := scheme.preference.find? fun encoding =>
    (scheme.encoderOf encoding).eligible stats name
  eligible.getD .utf8

/-- The encoder for an encoding that was read. -/
def encoderFor (scheme : Scheme) (encoding : Encoding) : Except Error Encoder :=
  if encoding = .utf8 ∨ encoding ∈ scheme.preference then .ok (scheme.encoderOf encoding)
  else .error (.unsupportedEncoding encoding.flag)

/-- Write a name: its encoding and its bytes. -/
def encode (scheme : Scheme) (name : String) : Except Error (Encoding × List UInt8) := do
  let encoding := scheme.select name
  return (encoding, ← (scheme.encoderOf encoding).encode name)

/-- Read a name. -/
def decode (scheme : Scheme) (encoding : Encoding) (bytes : List UInt8) : Except Error String := do
  (← scheme.encoderFor encoding).decode bytes

end Scheme

end SchemaWire.Name
