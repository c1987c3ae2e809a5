import SchemaWire.Error

/-!
# Text as bytes

The three encodings in which text travels: UTF-8, UTF-16 with little-endian units, and one
byte for each of the first 256 characters.
-/

namespace SchemaWire.Text

/-- The UTF-8 bytes of a string. -/
def utf8 (s : String) : List UInt8 :=
  s.toUTF8.data.toList

/-- The string with the given UTF-8 bytes. -/
def ofUtf8 (bytes : List UInt8) : Except Error String :=
  match String.fromUTF8? ⟨bytes.toArray⟩ with
  | some s => .ok s
  | none => .error .invalidUtf8

/-- Every string is read back from its bytes. -/
theorem ofUtf8_utf8 (s : String) : ofUtf8 (utf8 s) = .ok s := by
  have hbytes : (⟨(utf8 s).toArray⟩ : ByteArray) = s.toUTF8 := rfl
  have hread : String.fromUTF8? s.toUTF8 = some s := dif_pos s.isValidUTF8
  rw [ofUtf8, hbytes, hread]

/-- The bytes that a string was read from are its own. -/
theorem utf8_of_ofUtf8 {bytes : List UInt8} {s : String} (h : ofUtf8 bytes = .ok s) :
    utf8 s = bytes := by
  unfold ofUtf8 String.fromUTF8? at h
  by_cases hvalid : (⟨bytes.toArray⟩ : ByteArray).IsValidUTF8
  · rw [dif_pos hvalid] at h
    cases h
    rfl
  · rw [dif_neg hvalid] at h
    cases h

/-- The string whose characters have the given bytes as their numbers. -/
def ofLatin1 (bytes : List UInt8) : String :=
  String.ofList (bytes.map fun byte => Char.ofNat byte.toNat)

/-- The 16-bit units of an even number of bytes. -/
def units : List UInt8 → List Nat
  | low :: high :: rest => (low.toNat + 256 * high.toNat) :: units rest
  | _ => []

/-- Whether a unit opens a surrogate pair. -/
def isHighSurrogate (unit : Nat) : Bool :=
  0xd800 ≤ unit && unit < 0xdc00

/-- Whether a unit closes a surrogate pair. -/
def isLowSurrogate (unit : Nat) : Bool :=
  0xdc00 ≤ unit && unit < 0xe000

/-- The characters of UTF-16 units, unless one half of a surrogate pair stands alone. -/
def ofUnits : List Nat → Except Error (List Char)
  | [] => .ok []
  | [unit] =>
    if isHighSurrogate unit || isLowSurrogate unit then .error .loneSurrogate
    else .ok [Char.ofNat unit]
  | unit :: next :: rest =>
    if isHighSurrogate unit then
      if isLowSurrogate next then do
        let others ← ofUnits rest
        return Char.ofNat (0x10000 + (unit - 0xd800) * 0x400 + (next - 0xdc00)) :: others
      else .error .loneSurrogate
    else if isLowSurrogate unit then .error .loneSurrogate
    else do
      let others ← ofUnits (next :: rest)
      return Char.ofNat unit :: others

/-- The string with the given UTF-16 bytes. -/
def ofUtf16 (bytes : List UInt8) : Except Error String :=
  if bytes.length % 2 = 0 then do
    let chars ← ofUnits (units bytes)
    return String.ofList chars
  else .error .oddUtf16

end SchemaWire.Text
