import SchemaWire.Proofs.Digest.Injective
import SchemaWire.Proofs.Name.Table

/-!
# When the hash of a name is zero

The hash of a name keeps the flag of the encoding in its low byte, so a packed name, whose flag is
not zero, never has the hash zero. A name in plain UTF-8 has it where the lane that the hash is made
of is near zero without being zero: zero is replaced before the low byte is cleared, and not after.
There are such names, since the lanes of sixteen bytes are all the lanes there are.
-/

namespace SchemaWire.Name

namespace Entry

/-- Above its low byte a hash is the absolute value of the first lane, and one if that is zero. -/
theorem hashOf_div (bytes : List UInt8) (encoding : Encoding) :
    (hashOf bytes encoding).toNat / 256 =
      if signedAbs (digest bytes metaSeed).h1 = 0 then 1
      else (signedAbs (digest bytes metaSeed).h1).toNat / 256 := by
  have hflag : encoding.flag < 256 := by
    cases encoding <;> decide
  have hword : (UInt64.ofNat encoding.flag).toNat = encoding.flag := by
    rw [UInt64.toNat_ofNat']
    exact Nat.mod_eq_of_lt (by omega)
  have hhigh {a b : Nat} (ha : a < 2 ^ 64) (hb : b < 256) :
      ((a &&& 0xffffffffffffff00) ||| b) / 2 ^ 8 = a / 2 ^ 8 := by
    have hmask : 0xffffffffffffff00 / 2 ^ 8 = 2 ^ 56 - 1 := by decide
    rw [Nat.or_div_two_pow, Nat.and_div_two_pow, hmask, Nat.and_two_pow_sub_one_eq_mod,
      Nat.div_eq_of_lt hb, Nat.or_zero]
    exact Nat.mod_eq_of_lt (by omega)
  rw [hashOf, UInt64.toNat_or, UInt64.toNat_and, hword]
  refine (hhigh (UInt64.toNat_lt _) hflag).trans ?_
  split
  · rfl
  · rfl

/-- A hash is zero for a name in UTF-8 whose first lane has an absolute value of one byte that is
not zero, and for no other name. -/
theorem hashOf_eq_zero_iff {bytes : List UInt8} {encoding : Encoding} :
    hashOf bytes encoding = 0 ↔ encoding = .utf8 ∧
      0 < signedAbs (digest bytes metaSeed).h1 ∧ signedAbs (digest bytes metaSeed).h1 < 256 := by
  have hlow := hashOf_mod bytes encoding
  have hhigh := hashOf_div bytes encoding
  have hflag : encoding.flag = 0 ↔ encoding = .utf8 := by
    cases encoding <;> simp [Encoding.flag]
  rw [← hflag, ← UInt64.toNat_inj, UInt64.lt_iff_toNat_lt, UInt64.lt_iff_toNat_lt]
  generalize signedAbs (digest bytes metaSeed).h1 = lane at hhigh ⊢
  simp only [UInt64.toNat_zero, UInt64.reduceToNat]
  by_cases hzero : lane = 0
  · rw [if_pos hzero] at hhigh
    rw [hzero, UInt64.toNat_zero]
    omega
  · rw [if_neg hzero] at hhigh
    rw [← UInt64.toNat_inj, UInt64.toNat_zero] at hzero
    omega

end Entry

/-- The low byte of a hash is the flag of the encoding. The hash is zero exactly for bytes in plain
UTF-8 whose first lane is from 1 to 255, or from -255 to -1 as a signed number, so it is never zero
for a packed name. Bytes with these lanes exist, with any second lane: sixteen bytes have every
digest, and each of them once. -/
theorem hash_tagged (bytes : List UInt8) (encoding : Encoding) (lanes : Digest.Lanes) :
    (Entry.hashOf bytes encoding).toNat % 256 = encoding.flag ∧
      (Entry.hashOf bytes encoding = 0 ↔ encoding = .utf8 ∧
        0 < signedAbs (digest bytes metaSeed).h1 ∧
        signedAbs (digest bytes metaSeed).h1 < 256) ∧
      ∃! sixteen : List UInt8, sixteen.length = 16 ∧ digest sixteen metaSeed = lanes :=
  ⟨Entry.hashOf_mod bytes encoding, Entry.hashOf_eq_zero_iff,
    Digest.existsUnique_digest_eq metaSeed lanes⟩

/-- A name of sixteen letters that is written in plain UTF-8, with a first lane of 160, has the hash
zero. -/
theorem hash_zero_of_letters :
    Scheme.type.encode "KYbrDqLJRoAqhSST" = .ok (.utf8, Text.utf8 "KYbrDqLJRoAqhSST") ∧
      (digest (Text.utf8 "KYbrDqLJRoAqhSST") metaSeed).h1 = 160 ∧
      Entry.hashOf (Text.utf8 "KYbrDqLJRoAqhSST") .utf8 = 0 := by
  decide +kernel

end SchemaWire.Name
