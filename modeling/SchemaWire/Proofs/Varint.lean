import Mathlib.Tactic.Ring
import SchemaWire.Proofs.Reading
import SchemaWire.Varint

/-!
# Variable-length numbers are read back

Every number that fits its budget is read back from exactly its own groups, whether the
bytes come from memory or from a stream.
-/

namespace SchemaWire.Varint

open Take (Reads)

/-- The greatest number, plus one, that the last byte of a budget can hold. -/
def Budget.lastBound (budget : Budget) : Nat :=
  if budget.fullLast then 256 else 128

/-- The byte of a small number is that number. -/
theorem toNat_ofNat_of_lt {n : Nat} (h : n < 256) : (UInt8.ofNat n).toNat = n := by
  rw [UInt8.toNat_ofNat']
  exact Nat.mod_eq_of_lt h

/-- Reading goes on from the groups read so far: the groups of a number add it at their
place, as long as the sum has the bits of the budget. -/
theorem reads_takeGroups {next : Take UInt8} (hnext : ∀ b, Reads next [b] b) (budget : Budget)
    {more shift value n : Nat} (hlast : n < 128 ^ more * budget.lastBound)
    (hbits : value + n * 2 ^ shift < 2 ^ budget.bits) :
    Reads (takeGroups next budget (more + 1) shift value) (groups more n)
      (value + n * 2 ^ shift) := by
  induction more generalizing shift value n with
  | zero =>
    have hn : n < 256 := by
      simp only [Budget.lastBound] at hlast
      split at hlast <;> omega
    intro back
    rw [groups, takeGroups, bind_of_ok (hnext _ back), toNat_ofNat_of_lt hn]
    by_cases hfull : budget.fullLast = true
    · simp [hfull, pure, EStateM.pure]
    · have hsmall : n < 128 := by
        simp only [Budget.lastBound, if_neg hfull] at hlast
        omega
      simp [hfull, hsmall, Nat.mod_eq_of_lt hsmall, hbits, pure, EStateM.pure]
  | succ more ih =>
    intro back
    rw [groups]
    by_cases hsmall : n < 128
    · rw [if_pos hsmall, takeGroups, bind_of_ok (hnext _ back),
        toNat_ofNat_of_lt (Nat.lt_trans hsmall (by decide))]
      simp [hsmall, Nat.mod_eq_of_lt hsmall, hbits, pure, EStateM.pure]
    · have hbyte : (UInt8.ofNat (n % 128 + 128)).toNat = n % 128 + 128 :=
        toNat_ofNat_of_lt (by omega)
      have hsum : value + n % 128 * 2 ^ shift + n / 128 * 2 ^ (shift + 7)
          = value + n * 2 ^ shift := by
        have hn := Nat.div_add_mod n 128
        calc value + n % 128 * 2 ^ shift + n / 128 * 2 ^ (shift + 7)
            = value + (128 * (n / 128) + n % 128) * 2 ^ shift := by ring
          _ = value + n * 2 ^ shift := by rw [hn]
      have hdiv : n / 128 < 128 ^ more * budget.lastBound := by
        rw [Nat.div_lt_iff_lt_mul (by decide)]
        calc n < 128 ^ (more + 1) * budget.lastBound := hlast
          _ = 128 ^ more * budget.lastBound * 128 := by ring
      rw [if_neg hsmall, takeGroups, List.cons_append]
      have hfirst := hnext (UInt8.ofNat (n % 128 + 128)) (groups more (n / 128) ++ back)
      rw [List.singleton_append] at hfirst
      rw [bind_of_ok hfirst, hbyte]
      simp only [Nat.add_mod_right, Nat.mod_mod, Nat.succ_ne_zero, and_false, if_false]
      rw [if_neg (by omega), ← hsum]
      exact ih hdiv (by rw [hsum]; exact hbits) back

/-- Reading a number within a budget, given that the budget's bytes can hold its bits. -/
theorem reads_takeGroups_encode {next : Take UInt8} (hnext : ∀ b, Reads next [b] b)
    {budget : Budget} (hbytes : 0 < budget.bytes)
    (hroom : 2 ^ budget.bits ≤ 128 ^ (budget.bytes - 1) * budget.lastBound) {n : Nat}
    (h : n < 2 ^ budget.bits) :
    Reads (takeGroups next budget budget.bytes 0 0) (encode budget n) n := by
  have hread : Reads (takeGroups next budget (budget.bytes - 1 + 1) 0 0)
      (groups (budget.bytes - 1) n) (0 + n * 2 ^ 0) :=
    reads_takeGroups hnext budget (Nat.lt_of_lt_of_le h hroom) (by simpa using h)
  rw [Nat.sub_add_cancel hbytes, Nat.pow_zero, Nat.mul_one, Nat.zero_add] at hread
  exact hread

/-- A 32-bit number is read back from its groups. -/
theorem reads_take32 {n : Nat} (h : n < 2 ^ 32) : Reads take32 (encode32 n) n :=
  reads_takeGroups_encode Take.reads_byte (by decide) (by decide) h

/-- A 36-bit number is read back from its groups. -/
theorem reads_take36 {n : Nat} (h : n < 2 ^ 36) : Reads take36 (encode word36 n) n :=
  reads_takeGroups_encode Take.reads_byte (by decide) (by decide) h

/-- A 64-bit number is read back from its groups. -/
theorem reads_take64 {n : Nat} (h : n < 2 ^ 64) : Reads take64 (encode64 n) n :=
  reads_takeGroups_encode Take.reads_byte (by decide) (by decide) h

/-- A 32-bit number is read back from its groups in a stream. -/
theorem reads_takeStreamed32 {n : Nat} (h : n < 2 ^ 32) : Reads takeStreamed32 (encode32 n) n :=
  reads_takeGroups_encode Take.reads_streamedByte (by decide) (by decide) h

/-- A number takes at least one byte. -/
theorem length_groups_pos (more n : Nat) : 0 < (groups more n).length := by
  cases more with
  | zero => exact Nat.one_pos
  | succ more =>
    rw [groups]
    split
    · exact Nat.one_pos
    · exact Nat.succ_pos _

/-- A number takes at most one byte more than may announce another one. -/
theorem length_groups_le (more n : Nat) : (groups more n).length ≤ more + 1 := by
  induction more generalizing n with
  | zero => exact Nat.le_refl 1
  | succ more ih =>
    rw [groups]
    split
    · exact Nat.le_add_left 1 _
    · exact Nat.succ_le_succ (ih _)

/-- A 32-bit number takes at least one byte. -/
theorem length_encode32_pos (n : Nat) : 0 < (encode32 n).length :=
  length_groups_pos 4 n

end SchemaWire.Varint
