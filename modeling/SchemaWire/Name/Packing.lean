/-!
# Packing of codes

Codes of five or six bits are laid side by side, most significant bit first, behind one
flag bit, and the last byte is filled up with zeros. When the zeros could be taken for one
more code, the flag is set, and the reader drops that code again.
-/

namespace SchemaWire.Name

/-- The given number of low bits of a code, most significant first. -/
def codeBits : Nat → Nat → List Bool
  | 0, _ => []
  | width + 1, code => code.testBit width :: codeBits width code

/-- The number with the given bits, most significant first. -/
def ofBits (bits : List Bool) : Nat :=
  bits.foldl (fun n bit => 2 * n + bit.toNat) 0

/-- The given number of groups of bits, each of the given width, as numbers. -/
def chunks (width : Nat) : Nat → List Bool → List Nat
  | 0, _ => []
  | count + 1, bits => ofBits (bits.take width) :: chunks width count (bits.drop width)

/-- The number of bytes that hold the flag and the given number of bits. -/
def packedSize (bits : Nat) : Nat :=
  (bits + 8) / 8

/-- Whether the zeros after the codes could be taken for another code. -/
def needsStrip (width count : Nat) : Bool :=
  count * width + 1 + width ≤ packedSize (count * width) * 8

/-- Pack codes of the given width. -/
def pack (width : Nat) (codes : List Nat) : List UInt8 :=
  let body := codes.flatMap (codeBits width)
  let size := packedSize (codes.length * width)
  let bits := needsStrip width codes.length :: body
  (chunks 8 size (bits ++ List.replicate (size * 8 - bits.length) false)).map UInt8.ofNat

/-- The number of codes in the given number of bytes, one less when the flag is set. -/
def codeCount (width size : Nat) (strip : Bool) : Nat :=
  (size * 8 - 1) / width - strip.toNat

/-- Unpack codes of the given width. -/
def unpack (width : Nat) (bytes : List UInt8) : List Nat :=
  match bytes.flatMap fun byte => codeBits 8 byte.toNat with
  | [] => []
  | strip :: body => chunks width (codeCount width bytes.length strip) body

/-- A code has as many bits as it is wide. -/
theorem length_codeBits (width code : Nat) : (codeBits width code).length = width := by
  induction width with
  | zero => rfl
  | succ width ih => rw [codeBits, List.length_cons, ih]

/-- As many numbers come out as groups were asked for. -/
theorem length_chunks (width count : Nat) (bits : List Bool) :
    (chunks width count bits).length = count := by
  induction count generalizing bits with
  | zero => rfl
  | succ count ih => rw [chunks, List.length_cons, ih]

/-- The packed size depends on the number of codes alone. -/
theorem length_pack (width : Nat) (codes : List Nat) :
    (pack width codes).length = packedSize (codes.length * width) := by
  rw [pack, List.length_map, length_chunks]

end SchemaWire.Name
