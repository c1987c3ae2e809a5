import SchemaWire.Bytes.Take

/-!
# Variable-length numbers

A number is written in groups of seven bits, least significant group first, one group to a
byte. The high bit of a byte says that more bytes follow. Three budgets limit the length:
five bytes for 32 bits, six for 36 bits, nine for 64 bits. The ninth byte of the last
budget holds eight bits, so every 64-bit number fits. Signed numbers are first mapped to
natural numbers in zigzag order: 0, -1, 1, -2, and so on.
-/

namespace SchemaWire

namespace Varint

/-- How many bytes a number may take and how many bits it may have. -/
structure Budget where
  /-- The greatest number of bytes. -/
  bytes : Nat
  /-- The number of bits. -/
  bits : Nat
  /-- The last byte holds eight bits instead of seven. -/
  fullLast : Bool
  deriving DecidableEq, Repr

/-- The budget of 32-bit numbers. -/
def word32 : Budget := ⟨5, 32, false⟩

/-- The budget of 36-bit numbers. -/
def word36 : Budget := ⟨6, 36, false⟩

/-- The budget of 64-bit numbers. -/
def word64 : Budget := ⟨9, 64, true⟩

/-- The groups of a number, with at most the given number of bytes that announce another
one. What is left of the number then goes into the last byte. -/
def groups : Nat → Nat → List UInt8
  | 0, n => [UInt8.ofNat n]
  | more + 1, n =>
    if n < 128 then [UInt8.ofNat n] else UInt8.ofNat (n % 128 + 128) :: groups more (n / 128)

/-- Write a number within a budget. -/
def encode (budget : Budget) (n : Nat) : List UInt8 :=
  groups (budget.bytes - 1) n

/-- Write a 32-bit number. -/
def encode32 (n : Nat) : List UInt8 := encode word32 n

/-- Write a 64-bit number. -/
def encode64 (n : Nat) : List UInt8 := encode word64 n

/-- Write a 36-bit number; a larger one is refused. -/
def encode36 (n : Nat) : Except Error (List UInt8) :=
  if n < 2 ^ 36 then .ok (encode word36 n) else .error (.range n 36)

/-- Read the groups of a number, byte by byte with the given reader. The numbers count the
bytes that the budget still allows, the bits read so far, and the value of these bits. The
width is checked only when the last byte has been seen. -/
def takeGroups (next : Take UInt8) (budget : Budget) : Nat → Nat → Nat → Take Nat
  | 0, _, _ => throw (.overflow budget.bits)
  | left + 1, shift, value => do
    let byte ← next
    if budget.fullLast ∧ left = 0 then
      return value + byte.toNat * 2 ^ shift
    let value := value + byte.toNat % 128 * 2 ^ shift
    if byte.toNat < 128 then
      if value < 2 ^ budget.bits then return value else throw (.overflow budget.bits)
    else takeGroups next budget left (shift + 7) value

/-- Read a number within a budget. -/
def take (budget : Budget) : Take Nat :=
  takeGroups Take.byte budget budget.bytes 0 0

/-- Read a number within a budget from a stream. -/
def takeStreamed (budget : Budget) : Take Nat :=
  takeGroups Take.streamedByte budget budget.bytes 0 0

/-- Read a 32-bit number. -/
def take32 : Take Nat := take word32

/-- Read a 36-bit number. -/
def take36 : Take Nat := take word36

/-- Read a 64-bit number. -/
def take64 : Take Nat := take word64

/-- Read a 32-bit number from a stream. -/
def takeStreamed32 : Take Nat := takeStreamed word32

/-- Read a 64-bit number from a stream. -/
def takeStreamed64 : Take Nat := takeStreamed word64

/-- The place of a signed number in zigzag order. -/
def zigzag (v : Int) : Nat :=
  if 0 ≤ v then 2 * v.toNat else 2 * (-v).toNat - 1

/-- The signed number at a place in zigzag order. -/
def unzigzag (n : Nat) : Int :=
  if n % 2 = 0 then (n / 2 : Nat) else -((n / 2 : Nat) : Int) - 1

/-- Read a signed 32-bit number. -/
def takeSigned32 : Take Int := do
  return unzigzag (← take32)

/-- Read a signed 64-bit number. -/
def takeSigned64 : Take Int := do
  return unzigzag (← take64)

/-- Every signed number is found again at its place. -/
theorem unzigzag_zigzag (v : Int) : unzigzag (zigzag v) = v := by
  unfold unzigzag zigzag
  by_cases hv : 0 ≤ v
  · rw [if_pos hv, if_pos (by omega)]
    omega
  · rw [if_neg hv, if_neg (by omega)]
    omega

/-- Every place holds the signed number whose place it is. -/
theorem zigzag_unzigzag (n : Nat) : zigzag (unzigzag n) = n := by
  unfold unzigzag zigzag
  by_cases hn : n % 2 = 0
  · rw [if_pos hn, if_pos (by omega)]
    omega
  · rw [if_neg hn, if_neg (by omega)]
    omega

end Varint

end SchemaWire
