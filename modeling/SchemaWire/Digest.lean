import SchemaWire.Bytes.LittleEndian

/-!
# A 128-bit digest of bytes

The x64 variant of MurmurHash3 with 128 bits. Blocks of sixteen bytes are mixed into two
lanes, the bytes after the last full block follow as if filled up with zeros, and the
length and two final mixes end it. The digest fingerprints names and schemas; it protects
nothing against an adversary.
-/

namespace SchemaWire

namespace Digest

/-- The two lanes of the digest. -/
structure Lanes where
  /-- The first lane. -/
  h1 : UInt64
  /-- The second lane. -/
  h2 : UInt64
  deriving DecidableEq, Repr

/-- The first multiplier. -/
def c1 : UInt64 := 0x87c37b91114253d5

/-- The second multiplier. -/
def c2 : UInt64 := 0x4cf5ad432745937f

/-- Rotate a word to the left. -/
def rotate (x amount : UInt64) : UInt64 :=
  (x <<< amount) ||| (x >>> (64 - amount))

/-- Scramble a word for the first lane. -/
def scramble1 (k : UInt64) : UInt64 :=
  rotate (k * c1) 31 * c2

/-- Scramble a word for the second lane. -/
def scramble2 (k : UInt64) : UInt64 :=
  rotate (k * c2) 33 * c1

/-- The word with the given bytes, at most eight. -/
def word (bytes : List UInt8) : UInt64 :=
  UInt64.ofNat (LittleEndian.decode bytes)

/-- Mix one block of sixteen bytes into the lanes. -/
def mixBlock (lanes : Lanes) (block : List UInt8) : Lanes :=
  let h1 := lanes.h1 ^^^ scramble1 (word (block.take 8))
  let h1 := (rotate h1 27 + lanes.h2) * 5 + 0x52dce729
  let h2 := lanes.h2 ^^^ scramble2 (word (block.drop 8))
  let h2 := (rotate h2 31 + h1) * 5 + 0x38495ab5
  ⟨h1, h2⟩

/-- Mix the given number of blocks; the bytes after them are left over. -/
def mixBlocks : Nat → Lanes → List UInt8 → Lanes × List UInt8
  | 0, lanes, bytes => (lanes, bytes)
  | n + 1, lanes, bytes => mixBlocks n (mixBlock lanes (bytes.take 16)) (bytes.drop 16)

/-- Mix the bytes after the last full block. -/
def mixTail (lanes : Lanes) (tail : List UInt8) : Lanes :=
  ⟨lanes.h1 ^^^ scramble1 (word (tail.take 8)), lanes.h2 ^^^ scramble2 (word (tail.drop 8))⟩

/-- The final mix of one lane. -/
def finalMix (k : UInt64) : UInt64 :=
  let k := k ^^^ (k >>> 33)
  let k := k * 0xff51afd7ed558ccd
  let k := k ^^^ (k >>> 33)
  let k := k * 0xc4ceb9fe1a85ec53
  k ^^^ (k >>> 33)

/-- Bring in the length and let each lane reach the other. -/
def finish (lanes : Lanes) (length : Nat) : Lanes :=
  let h1 := lanes.h1 ^^^ UInt64.ofNat length
  let h2 := lanes.h2 ^^^ UInt64.ofNat length
  let h1 := h1 + h2
  let h2 := h2 + h1
  let h1 := finalMix h1
  let h2 := finalMix h2
  let h1 := h1 + h2
  let h2 := h2 + h1
  ⟨h1, h2⟩

end Digest

/-- The digest of bytes, with the seed in both lanes. -/
def digest (bytes : List UInt8) (seed : UInt64) : Digest.Lanes :=
  let (lanes, tail) := Digest.mixBlocks (bytes.length / 16) ⟨seed, seed⟩ bytes
  Digest.finish (Digest.mixTail lanes tail) bytes.length

/-- The seed of name hashes and schema fingerprints. -/
def metaSeed : UInt64 := 47

/-- The absolute value of a word read as a signed number; the least signed number is its
own absolute value. -/
def signedAbs (x : UInt64) : UInt64 :=
  if x < 0x8000000000000000 then x else 0 - x

end SchemaWire
