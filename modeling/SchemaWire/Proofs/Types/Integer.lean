import SchemaWire.Data.Read
import SchemaWire.Proofs.Reading

/-!
# Integers are read back

A value of an integer type is read back from its bytes, by readers of plain values and by
readers of annotated ones alike.
-/

namespace SchemaWire

open Take (Reads)

namespace LittleEndian

/-- A signed number within the bounds of its width is found again. -/
theorem signed_mod {width : Nat} {v : Int} (hwidth : 0 < width)
    (hleast : -(2 ^ (8 * width - 1) : Nat) ≤ v) (hbound : v < (2 ^ (8 * width - 1) : Nat)) :
    signed (8 * width) (v % (256 ^ width : Nat)).toNat = v := by
  have hpow : 256 ^ width = 2 * 2 ^ (8 * width - 1) := by
    rw [← Nat.pow_succ', show 256 = 2 ^ 8 from rfl, ← Nat.pow_mul]
    congr 1
    omega
  have hfull : 2 ^ (8 * width) = 2 * 2 ^ (8 * width - 1) := by
    rw [← Nat.pow_succ']
    congr 1
    omega
  rw [signed, hpow, hfull]
  generalize 2 ^ (8 * width - 1) = half at hleast hbound
  by_cases hv : 0 ≤ v
  · have hsame : v % ((2 * half : Nat) : Int) = v := Int.emod_eq_of_lt hv (by omega)
    rw [hsame, if_pos (by omega)]
    omega
  · have hsame : v % ((2 * half : Nat) : Int) = v + (2 * half : Nat) := by
      rw [← Int.add_emod_right]
      exact Int.emod_eq_of_lt (by omega) (by omega)
    rw [hsame, if_neg (by omega)]
    omega

end LittleEndian

/-- An integer of a fixed width is read back from its bytes. -/
theorem reads_integerBody {t : IntType} {v : Int} (h : t.holds v = true) :
    Reads (Read.integerBody t) (LittleEndian.encodeSigned t.bytes v) v := by
  have hbytes : 0 < t.bytes := by
    cases t <;> decide
  have hlt : (v % (256 ^ t.bytes : Nat)).toNat < 256 ^ t.bytes := by
    have hpos : (0 : Int) < (256 ^ t.bytes : Nat) := by
      exact_mod_cast Nat.pow_pos (by decide)
    have hmod := Int.emod_lt_of_pos v hpos
    omega
  have hread := Take.reads_natural hlt
  simp only [IntType.holds, Bool.and_eq_true, decide_eq_true_eq] at h
  unfold Read.integerBody
  cases hsigned : t.isSigned with
  | true =>
    simp only [IntType.least, IntType.bound, hsigned, if_true] at h
    have hmade := hread.map (LittleEndian.signed (8 * t.bytes))
    rw [LittleEndian.signed_mod hbytes h.1 h.2] at hmade
    exact hmade
  | false =>
    simp only [IntType.least, IntType.bound, hsigned, Bool.false_eq_true, if_false] at h
    have hpow : 2 ^ (8 * t.bytes) = 256 ^ t.bytes := by
      rw [Nat.pow_mul]
    have hsame : v % (256 ^ t.bytes : Nat) = v := by
      rw [← hpow]
      exact Int.emod_eq_of_lt h.1 h.2
    have hmade := hread.map fun n => (n : Int)
    rw [Int.toNat_of_nonneg (by omega)] at hmade
    simp only [hsame, Bool.false_eq_true, if_false, LittleEndian.encodeSigned] at hmade ⊢
    exact hmade

end SchemaWire
