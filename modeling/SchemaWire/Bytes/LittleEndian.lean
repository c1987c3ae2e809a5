import SchemaWire.Power

/-!
# Little-endian numbers

A number of a fixed width is written as its bytes, the least significant one first. Signed
numbers are written modulo two to the width, which is two's complement.
-/

namespace SchemaWire.LittleEndian

/-- The given number of bytes of a natural number, least significant first. -/
def encode : Nat → Nat → List UInt8
  | 0, _ => []
  | width + 1, n => UInt8.ofNat (n % 256) :: encode width (n / 256)

/-- The natural number with the given bytes. -/
def decode : List UInt8 → Nat
  | [] => 0
  | byte :: rest => byte.toNat + 256 * decode rest

/-- The bytes of a signed number. -/
def encodeSigned (width : Nat) (v : Int) : List UInt8 :=
  encode width (v % (256 ^ width : Nat)).toNat

/-- The signed number that a natural number below two to the given bits stands for. -/
def signed (bits n : Nat) : Int :=
  if n < 2 ^ (bits - 1) then n else (n : Int) - (2 ^ bits : Nat)

/-- The number of bytes is the width. -/
theorem length_encode (width n : Nat) : (encode width n).length = width := by
  induction width generalizing n with
  | zero => rfl
  | succ width ih => simp only [encode, List.length_cons, ih]

/-- Reading back gives the number modulo the width. -/
theorem decode_encode (width n : Nat) : decode (encode width n) = n % 256 ^ width := by
  induction width generalizing n with
  | zero => simp only [encode, decode, Nat.pow_zero, Nat.mod_one]
  | succ width ih =>
    have hbyte : (UInt8.ofNat (n % 256)).toNat = n % 256 := by
      simp only [UInt8.toNat_ofNat']
      exact Nat.mod_eq_of_lt (Nat.mod_lt n (by decide))
    rw [encode, decode, ih, hbyte, Nat.pow_succ', Nat.mod_mul]

/-- A number is smaller than two to the bits of its bytes. -/
theorem decode_lt (bytes : List UInt8) : decode bytes < 256 ^ bytes.length := by
  induction bytes with
  | nil => exact Nat.one_pos
  | cons byte rest ih =>
    have hbyte : byte.toNat < 256 := byte.toNat_lt
    rw [decode, List.length_cons, Nat.pow_succ]
    omega

end SchemaWire.LittleEndian
