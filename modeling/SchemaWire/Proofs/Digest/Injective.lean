import Mathlib.Data.Finite.Prod
import Mathlib.Data.Fintype.Card
import SchemaWire.Digest

/-!
# What the digest tells apart

Every step of the digest can be taken back: a word can be scrambled in one way only, a block leads
to different lanes from different lanes and with different bytes, and the last mix loses nothing.
So bytes that differ within one block have different digests, and so have any bytes under different
seeds. On sixteen bytes every digest occurs, and each of them once.
-/

namespace SchemaWire

/-- Bytes are determined by how many they are and by the number that they stand for. -/
theorem LittleEndian.eq_of_decode_eq {a b : List UInt8} (hlength : a.length = b.length)
    (h : decode a = decode b) : a = b := by
  induction a generalizing b with
  | nil => exact (List.length_eq_zero_iff.mp hlength.symm).symm
  | cons first a ih =>
    cases b with
    | nil => cases hlength
    | cons other b =>
      have hfirst := first.toNat_lt
      have hother := other.toNat_lt
      rw [decode, decode] at h
      have hbyte : first = other := UInt8.toNat_inj.mp (by omega)
      rw [hbyte, ih (Nat.succ.inj hlength) (by omega)]

namespace Digest

open Function (Injective)

/-- Turning bits the rest of the way round brings them back. -/
theorem rotateLeft_rotateLeft {r : Nat} (hpos : 0 < r) (hlt : r < 64) (x : BitVec 64) :
    (x.rotateLeft r).rotateLeft (64 - r) = x := by
  have hback : 64 - r < 64 := by omega
  refine BitVec.eq_of_getLsbD_eq fun i hi => ?_
  rw [BitVec.getLsbD_rotateLeft, Nat.mod_eq_of_lt hback]
  by_cases hlow : i < 64 - r
  · rw [decide_eq_true hlow, cond_true, BitVec.getLsbD_rotateLeft, Nat.mod_eq_of_lt hlt,
      decide_eq_false (by omega), cond_false, decide_eq_true (by omega), Bool.true_and]
    exact congrArg x.getLsbD (by omega)
  · rw [decide_eq_false hlow, cond_false, decide_eq_true hi, Bool.true_and,
      BitVec.getLsbD_rotateLeft, Nat.mod_eq_of_lt hlt, decide_eq_true (by omega), cond_true]
    exact congrArg x.getLsbD (by omega)

section Words

variable {amount : UInt64}

/-- Turning a word is turning its bits. -/
theorem toBitVec_rotate (hpos : 0 < amount.toNat) (hlt : amount.toNat < 64) (x : UInt64) :
    (rotate x amount).toBitVec = x.toBitVec.rotateLeft amount.toNat := by
  have hback : (64 - amount).toNat = 64 - amount.toNat :=
    UInt64.toNat_sub_of_le _ _ (UInt64.le_iff_toNat_le.mpr (Nat.le_of_lt hlt))
  have hleft : amount.toBitVec.toNat % 64 = amount.toNat := Nat.mod_eq_of_lt hlt
  have hright : (64 - amount).toBitVec.toNat % 64 = 64 - amount.toNat := by
    rw [UInt64.toNat_toBitVec, hback]
    exact Nat.mod_eq_of_lt (by omega)
  rw [BitVec.rotateLeft_eq_rotateLeftAux_of_lt hlt, BitVec.rotateLeftAux, ← hright, ← hleft,
    rotate, UInt64.toBitVec_or, UInt64.toBitVec_shiftLeft, UInt64.toBitVec_shiftRight]
  rfl

/-- Different words stay different when they are turned. -/
theorem rotate_injective (hpos : 0 < amount.toNat) (hlt : amount.toNat < 64) :
    Injective fun x => rotate x amount := by
  intro x y h
  have hbits := congrArg UInt64.toBitVec h
  simp only [toBitVec_rotate hpos hlt] at hbits
  rw [← UInt64.toBitVec_inj, ← rotateLeft_rotateLeft hpos hlt x.toBitVec, hbits,
    rotateLeft_rotateLeft hpos hlt]

/-- Different words stay different when they are multiplied by a factor that has an inverse. -/
theorem mul_injective {factor inverse : UInt64} (h : factor * inverse = 1) :
    Injective fun x : UInt64 => x * factor := by
  intro x y heq
  have hback := congrArg (· * inverse) heq
  simpa only [UInt64.mul_assoc, h, UInt64.mul_one] using hback

/-- Bringing the upper half of a word into the lower half is taken back by doing it again. -/
theorem xor_shift_injective : Injective fun x : UInt64 => x ^^^ (x >>> 33) := by
  have hback (x : UInt64) : (x ^^^ (x >>> 33)) ^^^ ((x ^^^ (x >>> 33)) >>> 33) = x := by
    have hgone : x >>> 33 >>> 33 = 0 := by
      rw [← UInt64.toNat_inj, UInt64.toNat_shiftRight, UInt64.toNat_shiftRight]
      simp only [Nat.shiftRight_eq_div_pow]
      have hlt := x.toNat_lt
      change x.toNat / 2 ^ 33 / 2 ^ 33 = 0
      omega
    rw [UInt64.shiftRight_xor, hgone, UInt64.xor_zero, UInt64.xor_assoc, UInt64.xor_self,
      UInt64.xor_zero]
  intro x y h
  simp only at h
  rw [← hback x, h, hback]

/-- Different words are scrambled differently for the first lane. -/
theorem scramble1_injective : Injective scramble1 :=
  (mul_injective (by decide : c2 * 0xa81e14edd9de2c7f = 1)).comp
    ((rotate_injective (by decide : 0 < (31 : UInt64).toNat) (by decide)).comp
      (mul_injective (by decide : c1 * 0xa98409e882ce4d7d = 1)))

/-- Different words are scrambled differently for the second lane. -/
theorem scramble2_injective : Injective scramble2 :=
  (mul_injective (by decide : c1 * 0xa98409e882ce4d7d = 1)).comp
    ((rotate_injective (by decide : 0 < (33 : UInt64).toNat) (by decide)).comp
      (mul_injective (by decide : c2 * 0xa81e14edd9de2c7f = 1)))

/-- The final mix keeps different lanes different. -/
theorem finalMix_injective : Injective finalMix :=
  xor_shift_injective.comp
    ((mul_injective (by decide : 0xc4ceb9fe1a85ec53 * (0x9cb4b2f8129337db : UInt64) = 1)).comp
      (xor_shift_injective.comp
        ((mul_injective (by decide : 0xff51afd7ed558ccd * (0x4f74430c22a54005 : UInt64) = 1)).comp
          xor_shift_injective)))

/-- What a block does to a lane keeps different lanes different. -/
theorem turn_injective (hpos : 0 < amount.toNat) (hlt : amount.toNat < 64)
    (other added : UInt64) : Injective fun x => (rotate x amount + other) * 5 + added := by
  intro x y h
  have hproduct := (UInt64.add_left_inj added).mp h
  have hsum := mul_injective (by decide : 5 * (0xcccccccccccccccd : UInt64) = 1) hproduct
  exact rotate_injective hpos hlt ((UInt64.add_left_inj other).mp hsum)

/-- Two words are found again from their sum and from what the second one is with that sum. -/
theorem eq_of_crossed {x y x' y' : UInt64} (hfirst : x + y = x' + y')
    (hsecond : y + (x + y) = y' + (x' + y')) : x = x' ∧ y = y' := by
  rw [hfirst, UInt64.add_left_inj] at hsecond
  rw [hsecond, UInt64.add_left_inj] at hfirst
  exact ⟨hfirst, hsecond⟩

/-- Up to eight bytes are determined by how many they are and by their word. -/
theorem eq_of_word_eq {a b : List UInt8} (hlength : a.length = b.length) (hsize : a.length ≤ 8)
    (h : word a = word b) : a = b := by
  have hlt {bytes : List UInt8} (hbytes : bytes.length ≤ 8) :
      LittleEndian.decode bytes < 2 ^ 64 :=
    (LittleEndian.decode_lt bytes).trans_le (Nat.pow_le_pow_right (by decide) hbytes :
      256 ^ bytes.length ≤ 256 ^ 8)
  refine LittleEndian.eq_of_decode_eq hlength ?_
  have hnat := congrArg UInt64.toNat h
  rwa [word, word, UInt64.toNat_ofNat', UInt64.toNat_ofNat', Nat.mod_eq_of_lt (hlt hsize),
    Nat.mod_eq_of_lt (hlt (hlength ▸ hsize))] at hnat

/-- Up to sixteen bytes are determined by how many they are and by the two words in them. -/
theorem eq_of_words_eq {a b : List UInt8} (hlength : a.length = b.length) (hsize : a.length ≤ 16)
    (hfirst : word (a.take 8) = word (b.take 8)) (hsecond : word (a.drop 8) = word (b.drop 8)) :
    a = b := by
  have htake := eq_of_word_eq (by simp only [List.length_take, hlength])
    (List.length_take_le 8 a) hfirst
  have hdrop := eq_of_word_eq (by simp only [List.length_drop, hlength])
    (by rw [List.length_drop]; omega) hsecond
  rw [← List.take_append_drop 8 a, htake, hdrop, List.take_append_drop]

end Words

section Blocks

variable {lanes : Lanes} {bytes a b : List UInt8}

/-- A block leads to different lanes from different lanes. -/
theorem mixBlock_injective (block : List UInt8) : Injective fun lanes => mixBlock lanes block := by
  intro lanes other h
  have hfirst : (mixBlock lanes block).h1 = (mixBlock other block).h1 := congrArg Lanes.h1 h
  have hsecond : (mixBlock lanes block).h2 = (mixBlock other block).h2 := congrArg Lanes.h2 h
  -- the second lane knows the first one as it is after the block, so it is taken back first
  have hturn := turn_injective (by decide : 0 < (31 : UInt64).toNat) (by decide)
    (mixBlock lanes block).h1 0x38495ab5 (hsecond.trans (by rw [hfirst]; rfl))
  have h2 : lanes.h2 = other.h2 := (UInt64.xor_left_inj _).mp hturn
  have hturn := turn_injective (by decide : 0 < (27 : UInt64).toNat) (by decide)
    lanes.h2 0x52dce729 (hfirst.trans (by rw [h2]; rfl))
  have h1 : lanes.h1 = other.h1 := (UInt64.xor_left_inj _).mp hturn
  cases lanes
  cases other
  exact congrArg₂ Lanes.mk h1 h2

/-- Different blocks lead to different lanes. -/
theorem eq_of_mixBlock_eq (hlength : a.length = b.length) (hsize : a.length ≤ 16)
    (h : mixBlock lanes a = mixBlock lanes b) : a = b := by
  have hfirst : (mixBlock lanes a).h1 = (mixBlock lanes b).h1 := congrArg Lanes.h1 h
  have hsecond : (mixBlock lanes a).h2 = (mixBlock lanes b).h2 := congrArg Lanes.h2 h
  have hword1 := turn_injective (by decide : 0 < (27 : UInt64).toNat) (by decide)
    lanes.h2 0x52dce729 hfirst
  have hword2 := turn_injective (by decide : 0 < (31 : UInt64).toNat) (by decide)
    (mixBlock lanes a).h1 0x38495ab5 (hsecond.trans (by rw [hfirst]; rfl))
  exact eq_of_words_eq hlength hsize
    (scramble1_injective ((UInt64.xor_right_inj lanes.h1).mp hword1))
    (scramble2_injective ((UInt64.xor_right_inj lanes.h2).mp hword2))

/-- The bytes behind the last full block keep different lanes different. -/
theorem mixTail_injective (tail : List UInt8) : Injective fun lanes => mixTail lanes tail := by
  intro lanes other h
  obtain ⟨hfirst, hsecond⟩ := Lanes.mk.inj h
  cases lanes
  cases other
  exact congrArg₂ Lanes.mk ((UInt64.xor_left_inj _).mp hfirst) ((UInt64.xor_left_inj _).mp hsecond)

/-- Different bytes behind the last full block lead to different lanes. -/
theorem eq_of_mixTail_eq (hlength : a.length = b.length) (hsize : a.length ≤ 16)
    (h : mixTail lanes a = mixTail lanes b) : a = b := by
  obtain ⟨hfirst, hsecond⟩ := Lanes.mk.inj h
  exact eq_of_words_eq hlength hsize
    (scramble1_injective ((UInt64.xor_right_inj lanes.h1).mp hfirst))
    (scramble2_injective ((UInt64.xor_right_inj lanes.h2).mp hsecond))

/-- The last mix keeps different lanes different. -/
theorem finish_injective (length : Nat) : Injective fun lanes => finish lanes length := by
  intro lanes other h
  obtain ⟨hfirst, hsecond⟩ := Lanes.mk.inj h
  obtain ⟨hmix1, hmix2⟩ := eq_of_crossed hfirst hsecond
  obtain ⟨h1, h2⟩ := eq_of_crossed (finalMix_injective hmix1) (finalMix_injective hmix2)
  cases lanes
  cases other
  exact congrArg₂ Lanes.mk ((UInt64.xor_left_inj _).mp h1) ((UInt64.xor_left_inj _).mp h2)

/-- The lanes after all bytes, before the last mix. -/
def absorb (lanes : Lanes) (bytes : List UInt8) : Lanes :=
  let (lanes, tail) := mixBlocks (bytes.length / 16) lanes bytes
  mixTail lanes tail

/-- Fewer than sixteen bytes are all behind the last full block. -/
theorem absorb_of_lt (h : bytes.length < 16) : absorb lanes bytes = mixTail lanes bytes := by
  rw [absorb, Nat.div_eq_of_lt h, mixBlocks]

/-- The first sixteen bytes are a block, and the others are absorbed behind it. -/
theorem absorb_of_le (h : 16 ≤ bytes.length) :
    absorb lanes bytes = absorb (mixBlock lanes (bytes.take 16)) (bytes.drop 16) := by
  rw [absorb, absorb, List.length_drop, Nat.div_eq_sub_div (by decide) h, mixBlocks]

/-- Bytes lead to different lanes from different lanes. -/
theorem absorb_injective (bytes : List UInt8) : Injective fun lanes => absorb lanes bytes := by
  intro lanes other h
  simp only at h
  -- the induction is on the number of full blocks, each of which is one injective step
  induction hcount : bytes.length / 16 generalizing bytes lanes other with
  | zero =>
    have hlt : bytes.length < 16 := by omega
    rw [absorb_of_lt hlt, absorb_of_lt hlt] at h
    exact mixTail_injective bytes h
  | succ count ih =>
    have hle : 16 ≤ bytes.length := by omega
    rw [absorb_of_le hle, absorb_of_le hle] at h
    exact mixBlock_injective _ (ih (bytes.drop 16) h (by rw [List.length_drop]; omega))

end Blocks

/-- Two lists of bytes are the same outside of one block of sixteen bytes. -/
def AgreeOutside (block : Nat) (a b : List UInt8) : Prop :=
  ∀ i, i / 16 ≠ block → a[i]? = b[i]?

namespace AgreeOutside

variable {block : Nat} {a b : List UInt8}

/-- Behind the block that differs everything is the same. -/
theorem drop_eq (h : AgreeOutside 0 a b) : a.drop 16 = b.drop 16 := by
  refine List.ext_getElem? fun i => ?_
  rw [List.getElem?_drop, List.getElem?_drop]
  exact h (16 + i) (by omega)

/-- A block before the one that differs is the same. -/
theorem take_eq (h : AgreeOutside (block + 1) a b) : a.take 16 = b.take 16 := by
  refine List.ext_getElem? fun i => ?_
  by_cases hi : i < 16
  · rw [List.getElem?_take_of_lt hi, List.getElem?_take_of_lt hi]
    exact h i (by omega)
  · rw [List.getElem?_eq_none (by rw [List.length_take]; omega),
      List.getElem?_eq_none (by rw [List.length_take]; omega)]

/-- What differs stands one block further to the front behind the first block. -/
theorem drop (h : AgreeOutside (block + 1) a b) :
    AgreeOutside block (a.drop 16) (b.drop 16) := by
  intro i hi
  rw [List.getElem?_drop, List.getElem?_drop]
  exact h (16 + i) (by omega)

end AgreeOutside

/-- From the same lanes, bytes that differ within one block lead to different lanes. -/
theorem eq_of_absorb_eq {lanes : Lanes} {block : Nat} {a b : List UInt8}
    (hlength : a.length = b.length) (hagree : AgreeOutside block a b)
    (h : absorb lanes a = absorb lanes b) : a = b := by
  -- blocks before the one that differs come to the same lanes, blocks behind it are injective
  induction hcount : a.length / 16 generalizing lanes block a b with
  | zero =>
    have hlt : a.length < 16 := by omega
    have hother : b.length < 16 := hlength ▸ hlt
    rw [absorb_of_lt hlt, absorb_of_lt hother] at h
    exact eq_of_mixTail_eq hlength (by omega) h
  | succ count ih =>
    have hle : 16 ≤ a.length := by omega
    have hother : 16 ≤ b.length := hlength ▸ hle
    rw [absorb_of_le hle, absorb_of_le hother] at h
    have htake : a.take 16 = b.take 16 ∧ a.drop 16 = b.drop 16 := by
      cases block with
      | zero =>
        rw [hagree.drop_eq] at h
        exact ⟨eq_of_mixBlock_eq (by rw [List.length_take, List.length_take, hlength])
          (List.length_take_le 16 a) (absorb_injective _ h), hagree.drop_eq⟩
      | succ block =>
        rw [hagree.take_eq] at h
        exact ⟨hagree.take_eq, ih (by rw [List.length_drop, List.length_drop, hlength])
          hagree.drop h (by rw [List.length_drop]; omega)⟩
    rw [← List.take_append_drop 16 a, htake.1, htake.2, List.take_append_drop]

/-- Up to sixteen bytes lie within one block. -/
theorem eq_of_digest_eq {seed : UInt64} {a b : List UInt8} (hlength : a.length = b.length)
    (hsize : a.length ≤ 16) (h : digest a seed = digest b seed) : a = b := by
  have hagree : AgreeOutside 0 a b := fun i hi => by
    rw [List.getElem?_eq_none (by omega), List.getElem?_eq_none (by omega)]
  have habsorb : absorb ⟨seed, seed⟩ a = absorb ⟨seed, seed⟩ b :=
    finish_injective a.length (h.trans (by rw [hlength]; rfl))
  exact eq_of_absorb_eq hlength hagree habsorb

/-- The digests of sixteen bytes are all pairs of lanes, each of them once. -/
theorem existsUnique_digest_eq (seed : UInt64) (lanes : Lanes) :
    ∃! bytes : List UInt8, bytes.length = 16 ∧ digest bytes seed = lanes := by
  have hword : Finite UInt64 := Finite.of_injective UInt64.toFin fun _ _ => UInt64.toFin_inj.mp
  have hlanes : Finite Lanes :=
    Finite.of_injective (fun lanes => (lanes.h1, lanes.h2)) fun x y h => by
      cases x
      cases y
      cases h
      rfl
  -- the lanes that are to be reached and the two words of the bytes are equally many
  let written (words : Lanes) : List UInt8 :=
    LittleEndian.encode 8 words.h1.toNat ++ LittleEndian.encode 8 words.h2.toNat
  have hlength (words : Lanes) : (written words).length = 16 := by
    rw [List.length_append, LittleEndian.length_encode, LittleEndian.length_encode]
  have hinjective : Injective fun words => digest (written words) seed := by
    intro x y h
    have hwritten := eq_of_digest_eq ((hlength x).trans (hlength y).symm) (hlength x).le h
    obtain ⟨hfirst, hsecond⟩ := List.append_inj hwritten
      (by rw [LittleEndian.length_encode, LittleEndian.length_encode])
    have hback {m n : UInt64}
        (heq : LittleEndian.encode 8 m.toNat = LittleEndian.encode 8 n.toNat) : m = n := by
      have hdecode := congrArg LittleEndian.decode heq
      rwa [LittleEndian.decode_encode, LittleEndian.decode_encode,
        Nat.mod_eq_of_lt (show _ < 256 ^ 8 from m.toNat_lt),
        Nat.mod_eq_of_lt (show _ < 256 ^ 8 from n.toNat_lt), UInt64.toNat_inj] at hdecode
    cases x
    cases y
    exact congrArg₂ Lanes.mk (hback hfirst) (hback hsecond)
  obtain ⟨words, hwords⟩ := Finite.surjective_of_injective hinjective lanes
  refine ⟨written words, ⟨hlength words, hwords⟩, fun bytes hbytes => ?_⟩
  exact eq_of_digest_eq (hbytes.1.trans (hlength words).symm) hbytes.1.le
    (hbytes.2.trans hwords.symm)

end Digest

open Digest (AgreeOutside)

/-- As many bytes that differ within one block, the last and shorter one included, have different
digests under every seed, and the same bytes have different digests under different seeds. Up to
sixteen bytes have different digests whenever they are equally many and not the same. -/
theorem digest_tells_apart :
    (∀ (seed : UInt64) (block : Nat) (a b : List UInt8), a.length = b.length →
      AgreeOutside block a b → a ≠ b → digest a seed ≠ digest b seed) ∧
    (∀ (bytes : List UInt8) (seed other : UInt64), seed ≠ other →
      digest bytes seed ≠ digest bytes other) ∧
    ∀ (seed : UInt64) (a b : List UInt8), a.length = b.length → a.length ≤ 16 → a ≠ b →
      digest a seed ≠ digest b seed := by
  refine ⟨fun seed block a b hlength hagree hne heq => hne ?_, fun bytes seed other hne heq => ?_,
    fun seed a b hlength hsize hne heq => hne (Digest.eq_of_digest_eq hlength hsize heq)⟩
  · have habsorb : Digest.absorb ⟨seed, seed⟩ a = Digest.absorb ⟨seed, seed⟩ b :=
      Digest.finish_injective a.length (heq.trans (by rw [hlength]; rfl))
    exact Digest.eq_of_absorb_eq hlength hagree habsorb
  · have hlanes := Digest.absorb_injective bytes (Digest.finish_injective bytes.length heq)
    exact hne (congrArg Digest.Lanes.h1 hlanes)

namespace Sample

/-- Forty bytes: two full blocks and a short one. -/
def sevens : List UInt8 := List.replicate 40 7

/-- The same bytes with another one at the end. -/
def sevensThenEight : List UInt8 := sevens.set 39 8

end Sample

/-- Forty bytes of which the last one differs, the same forty bytes under two seeds, and two bytes
in either order. -/
theorem digest_tells_apart_forty :
    (Sample.sevens.length = Sample.sevensThenEight.length ∧
      AgreeOutside 2 Sample.sevens Sample.sevensThenEight ∧
      Sample.sevens ≠ Sample.sevensThenEight ∧
      digest Sample.sevens metaSeed ≠ digest Sample.sevensThenEight metaSeed) ∧
    (metaSeed ≠ 0 ∧ digest Sample.sevens metaSeed ≠ digest Sample.sevens 0) ∧
    [(0 : UInt8), 1].length = [(1 : UInt8), 0].length ∧ [(0 : UInt8), 1].length ≤ 16 ∧
      [(0 : UInt8), 1] ≠ [1, 0] ∧ digest [0, 1] metaSeed ≠ digest [1, 0] metaSeed := by
  have hlength : Sample.sevens.length = Sample.sevensThenEight.length := List.length_set.symm
  have hagree : AgreeOutside 2 Sample.sevens Sample.sevensThenEight := fun i hi =>
    (List.getElem?_set_ne (by omega)).symm
  have hne : Sample.sevens ≠ Sample.sevensThenEight := by decide
  have hseed : metaSeed ≠ 0 := by decide
  have hpair : [(0 : UInt8), 1] ≠ [1, 0] := by decide
  obtain ⟨hblock, hseeds, hshort⟩ := digest_tells_apart
  exact ⟨⟨hlength, hagree, hne, hblock _ _ _ _ hlength hagree hne⟩,
    ⟨hseed, hseeds _ _ _ hseed⟩, rfl, by decide, hpair, hshort _ _ _ rfl (by decide) hpair⟩

end SchemaWire
