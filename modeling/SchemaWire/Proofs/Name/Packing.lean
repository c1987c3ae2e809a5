import Mathlib.Data.Nat.Bitwise
import Mathlib.Tactic.Ring
import SchemaWire.Name.Packing
import SchemaWire.Power

/-!
# Packed codes are unpacked again

Codes that fit their width come back from their packed bytes, and no further code appears
in the zeros that fill up the last byte.
-/

namespace SchemaWire.Name

/-- Bits are read on top of the number read so far. -/
theorem foldl_bits (n : Nat) (bits : List Bool) :
    bits.foldl (fun n bit => 2 * n + bit.toNat) n = n * 2 ^ bits.length + ofBits bits := by
  induction bits generalizing n with
  | nil => simp [ofBits]
  | cons bit rest ih =>
    have htail : ofBits (bit :: rest) = (2 * 0 + bit.toNat) * 2 ^ rest.length + ofBits rest :=
      ih _
    rw [List.foldl_cons, ih, htail, List.length_cons, Nat.pow_succ]
    ring

/-- The first bit counts most. -/
theorem ofBits_cons (bit : Bool) (rest : List Bool) :
    ofBits (bit :: rest) = bit.toNat * 2 ^ rest.length + ofBits rest := by
  have hfold := foldl_bits (2 * 0 + bit.toNat) rest
  rw [ofBits, List.foldl_cons, hfold, Nat.mul_zero, Nat.zero_add]

/-- Bits stand for a number below two to their number. -/
theorem ofBits_lt (bits : List Bool) : ofBits bits < 2 ^ bits.length := by
  induction bits with
  | nil => exact Nat.one_pos
  | cons bit rest ih =>
    rw [ofBits_cons, List.length_cons, Nat.pow_succ]
    cases bit <;> simp only [Bool.toNat_true, Bool.toNat_false] <;> omega

/-- The bits of a code stand for the code modulo two to the width. -/
theorem ofBits_codeBits (width code : Nat) : ofBits (codeBits width code) = code % 2 ^ width := by
  induction width with
  | zero => simp [codeBits, ofBits, Nat.mod_one]
  | succ width ih =>
    have hbit : (code.testBit width).toNat = code / 2 ^ width % 2 := by
      rw [Nat.testBit_eq_decide_div_mod_eq]
      rcases Nat.mod_two_eq_zero_or_one (code / 2 ^ width) with h | h <;> simp [h]
    rw [codeBits, ofBits_cons, length_codeBits, ih, hbit, Nat.pow_succ, Nat.mod_mul]
    ring

/-- The bits of a code depend on its low bits alone. -/
theorem codeBits_add_mul (width high code : Nat) :
    codeBits width (high * 2 ^ width + code) = codeBits width code := by
  have hbit (w i : Nat) (hi : i < w) (h : Nat) :
      (h * 2 ^ w + code).testBit i = code.testBit i := by
    have hmod (n : Nat) : n.testBit i = (n % 2 ^ w).testBit i := by
      rw [Nat.testBit_mod_two_pow, decide_eq_true hi, Bool.true_and]
    rw [hmod, Nat.mul_add_mod_self_right, ← hmod]
  have hbits (w : Nat) (hw : w ≤ width) :
      codeBits w (high * 2 ^ width + code) = codeBits w code := by
    induction w with
    | zero => rfl
    | succ w ih => rw [codeBits, codeBits, hbit width w hw high, ih (Nat.le_of_succ_le hw)]
  exact hbits width (Nat.le_refl width)

/-- The number that bits stand for has these bits. -/
theorem codeBits_ofBits (bits : List Bool) : codeBits bits.length (ofBits bits) = bits := by
  induction bits with
  | nil => rfl
  | cons bit rest ih =>
    have hlow := ofBits_lt rest
    have hfirst : (bit.toNat * 2 ^ rest.length + ofBits rest).testBit rest.length = bit := by
      rw [Nat.mul_comm, Nat.testBit_two_pow_mul_add _ hlow, if_neg (Nat.lt_irrefl _), Nat.sub_self]
      cases bit <;> rfl
    rw [List.length_cons, codeBits, ofBits_cons, hfirst, codeBits_add_mul, ih]

/-- Codes that fit their width are cut out of their bits again. -/
theorem chunks_flatMap {width : Nat} {codes : List Nat} (h : ∀ code ∈ codes, code < 2 ^ width)
    (rest : List Bool) :
    chunks width codes.length (codes.flatMap (codeBits width) ++ rest) = codes := by
  induction codes with
  | nil => rfl
  | cons code others ih =>
    have hfirst : code % 2 ^ width = code :=
      Nat.mod_eq_of_lt (h code List.mem_cons_self)
    have hlength := length_codeBits width code
    rw [List.length_cons, chunks, List.flatMap_cons, List.append_assoc,
      List.take_left' hlength, List.drop_left' hlength, ofBits_codeBits, hfirst,
      ih fun c hc => h c (List.mem_cons_of_mem code hc)]

/-- Bytes cut out of bits have these bits. -/
theorem flatMap_chunks {count : Nat} {bits : List Bool} (h : bits.length = count * 8) :
    ((chunks 8 count bits).map UInt8.ofNat).flatMap (fun byte => codeBits 8 byte.toNat)
      = bits := by
  induction count generalizing bits with
  | zero =>
    rw [Nat.zero_mul, List.length_eq_zero_iff] at h
    subst h
    rfl
  | succ count ih =>
    have hfirst : (bits.take 8).length = 8 := by rw [List.length_take]; omega
    have hbyte : (UInt8.ofNat (ofBits (bits.take 8))).toNat = ofBits (bits.take 8) := by
      have hlt := ofBits_lt (bits.take 8)
      rw [hfirst] at hlt
      rw [UInt8.toNat_ofNat']
      exact Nat.mod_eq_of_lt hlt
    have hbits := codeBits_ofBits (bits.take 8)
    rw [hfirst] at hbits
    rw [chunks, List.map_cons, List.flatMap_cons, hbyte, hbits,
      ih (by rw [List.length_drop]; omega), List.take_append_drop]

/-- The zeros at the end hold one more code exactly when the flag says so. -/
theorem codeCount_packedSize {width : Nat} (hmin : 4 ≤ width) (hmax : width ≤ 8) (count : Nat) :
    codeCount width (packedSize (count * width)) (needsStrip width count) = count := by
  unfold codeCount needsStrip
  have hlow : count * width ≤ packedSize (count * width) * 8 - 1 := by
    unfold packedSize
    omega
  have hhigh : packedSize (count * width) * 8 ≤ count * width + 8 := by
    unfold packedSize
    omega
  by_cases hstrip : count * width + 1 + width ≤ packedSize (count * width) * 8
  · have hdiv : (packedSize (count * width) * 8 - 1) / width = count + 1 := by
      rw [Nat.div_eq_iff (by omega)]
      rw [Nat.add_mul]
      omega
    simp only [hdiv, hstrip, decide_true, Bool.toNat_true, Nat.add_sub_cancel]
  · have hdiv : (packedSize (count * width) * 8 - 1) / width = count := by
      rw [Nat.div_eq_iff (by omega)]
      omega
    simp only [hdiv, hstrip, decide_false, Bool.toNat_false, Nat.sub_zero]

/-- Codes that fit their width are unpacked as they were packed. -/
theorem unpack_pack {width : Nat} (hmin : 4 ≤ width) (hmax : width ≤ 8) {codes : List Nat}
    (h : ∀ code ∈ codes, code < 2 ^ width) : unpack width (pack width codes) = codes := by
  have hbody : (codes.flatMap (codeBits width)).length = codes.length * width := by
    simp only [List.length_flatMap, length_codeBits, List.map_const', List.sum_replicate_nat]
  have hroom : codes.length * width + 1 ≤ packedSize (codes.length * width) * 8 := by
    unfold packedSize
    omega
  have hlength : (needsStrip width codes.length :: codes.flatMap (codeBits width)
      ++ List.replicate (packedSize (codes.length * width) * 8
          - (needsStrip width codes.length :: codes.flatMap (codeBits width)).length)
        false).length = packedSize (codes.length * width) * 8 := by
    rw [List.length_append, List.length_replicate, List.length_cons, hbody]
    omega
  have hbits := flatMap_chunks hlength
  rw [unpack, length_pack]
  unfold pack
  simp only
  rw [hbits, List.cons_append]
  simp only
  rw [codeCount_packedSize hmin hmax, chunks_flatMap h]

end SchemaWire.Name
