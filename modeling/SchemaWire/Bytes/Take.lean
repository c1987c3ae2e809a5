import SchemaWire.Bytes.LittleEndian
import SchemaWire.Error

/-!
# Reading from the front of a list of bytes

A reader takes bytes from the front of its input and leaves the rest. The rest is kept on
failure too, so a caller can tell how far a failed reader came. A read of several bytes
that the input cannot serve takes none of them and says how many are missing.
-/

namespace SchemaWire

/-- A reader of bytes. -/
abbrev Take := EStateM Error (List UInt8)

namespace Take

/-- Read one byte. -/
def byte : Take UInt8
  | [] => .error (.unexpectedEnd 1) []
  | b :: rest => .ok b rest

/-- Read the given number of bytes. -/
def bytes (n : Nat) : Take (List UInt8) := fun input =>
  let taken := input.take n
  if taken.length = n then .ok taken (input.drop n)
  else .error (.unexpectedEnd (n - taken.length)) input

/-- Pass over the given number of bytes. -/
def skip (n : Nat) : Take Unit := do
  let _ ← bytes n

/-- Read a little-endian number of the given width in bytes. -/
def natural (width : Nat) : Take Nat := do
  return LittleEndian.decode (← bytes width)

/-- Read a signed little-endian number of the given width in bytes. -/
def integer (width : Nat) : Take Int := do
  return LittleEndian.signed (8 * width) (← natural width)

/-- The next byte, which stays in the input. -/
def peek? : Take (Option UInt8) := fun input => .ok input.head? input

/-- Read everything that is left. -/
def rest : Take (List UInt8) := fun input => .ok input []

/-- Read the given number of bytes from a stream. Where the stream ends before, all of it
is used up, and the whole number is reported as missing. -/
def exactly (n : Nat) : Take (List UInt8) := fun input =>
  let taken := input.take n
  if taken.length = n then .ok taken (input.drop n) else .error (.unexpectedEnd n) []

/-- Read one byte from a stream. -/
def streamedByte : Take UInt8 := do
  return (← exactly 1).headD 0

/-- Run a reader the given number of times. -/
def times {σ α : Type} (read : EStateM Error σ α) : Nat → EStateM Error σ (List α)
  | 0 => return []
  | n + 1 => do
    let first ← read
    let others ← times read n
    return first :: others

/-- A read that the input can serve takes exactly the bytes at its front. -/
theorem bytes_append (front back : List UInt8) :
    bytes front.length (front ++ back) = .ok front back := by
  simp [bytes]

/-- A read that the input cannot serve takes nothing. -/
theorem bytes_of_length_lt {n : Nat} {input : List UInt8} (h : input.length < n) :
    bytes n input = .error (.unexpectedEnd (n - input.length)) input := by
  have hmin : min n input.length = input.length := Nat.min_eq_right (Nat.le_of_lt h)
  have hne : input.length ≠ n := Nat.ne_of_lt h
  simp [bytes, List.length_take, hmin, hne]

end Take

end SchemaWire
