import Mathlib.Data.List.Range
import SchemaWire.Proofs.Digest.Injective

/-!
# The digest byte by byte

MurmurHash3_x64_128 in its published form, which reads single bytes from memory: four variables, a
loop over the blocks, a switch over the number of bytes behind them whose cases fall through to the
next one, and the final mix. It is written down on its own, with words as vectors of 64 bits, and is
the same function as the digest, whatever stands in memory behind the bytes.

The loop goes from block to block with the lanes of the digest in its variables. The switch brings
in the last byte first, so a word has the bytes from some position on at every moment.
-/

namespace SchemaWire

namespace Digest

namespace ByteWise

/-- A word; its sums, products and shifts are taken modulo `2 ^ 64`. -/
abbrev Word := BitVec 64

/-- The bytes in memory, from the first byte of a message on and also behind the message. -/
abbrev Memory := Nat → UInt8

namespace Memory

/-- The byte at a position. -/
def byte (memory : Memory) (position : Nat) : Word :=
  (memory position).toBitVec.setWidth 64

/-- The eight bytes from a position on, the first one lowest. -/
def load (memory : Memory) (start : Nat) : Word :=
  memory.byte start ||| memory.byte (start + 1) <<< 8 ||| memory.byte (start + 2) <<< 16 |||
    memory.byte (start + 3) <<< 24 ||| memory.byte (start + 4) <<< 32 |||
    memory.byte (start + 5) <<< 40 ||| memory.byte (start + 6) <<< 48 |||
    memory.byte (start + 7) <<< 56

/-- The memory with bytes put at its front. -/
def store (memory : Memory) (bytes : List UInt8) : Memory :=
  fun position => bytes.getD position (memory position)

/-- The memory from a position on. -/
def behind (memory : Memory) (start : Nat) : Memory :=
  fun position => memory (start + position)

end Memory

/-- The two lanes, and the two words that are brought into them. -/
inductive Side
  | first
  | second
  deriving DecidableEq

/-- The variables. -/
structure Variables where
  /-- The first lane. -/
  h1 : Word
  /-- The second lane. -/
  h2 : Word
  /-- The word for the first lane. -/
  k1 : Word
  /-- The word for the second lane. -/
  k2 : Word

namespace Variables

/-- The word of a side. -/
def word (v : Variables) : Side → Word
  | .first => v.k1
  | .second => v.k2

/-- Give a side another word. -/
def setWord (v : Variables) (k : Word) : Side → Variables
  | .first => { v with k1 := k }
  | .second => { v with k2 := k }

/-- Scramble the word of a side and bring it into the lane. -/
def mix (v : Variables) : Side → Variables
  | .first =>
    let k1 := v.k1 * 0x87c37b91114253d5
    let k1 := k1.rotateLeft 31
    let k1 := k1 * 0x4cf5ad432745937f
    { v with k1 := k1, h1 := v.h1 ^^^ k1 }
  | .second =>
    let k2 := v.k2 * 0x4cf5ad432745937f
    let k2 := k2.rotateLeft 33
    let k2 := k2 * 0x87c37b91114253d5
    { v with k2 := k2, h2 := v.h2 ^^^ k2 }

/-- Turn the lane of a side and add the other one to it. -/
def turn (v : Variables) : Side → Variables
  | .first =>
    let h1 := v.h1.rotateLeft 27
    let h1 := h1 + v.h2
    { v with h1 := h1 * 5 + 0x52dce729 }
  | .second =>
    let h2 := v.h2.rotateLeft 31
    let h2 := h2 + v.h1
    { v with h2 := h2 * 5 + 0x38495ab5 }

/-- Load the words of both sides from a position on. -/
def fetch (v : Variables) (memory : Memory) (start : Nat) : Variables :=
  { v with k1 := memory.load start, k2 := memory.load (start + 8) }

/-- The body of the loop, for the block with the given number. -/
def block (memory : Memory) (v : Variables) (i : Nat) : Variables :=
  let v := v.fetch memory (16 * i)
  let v := v.mix .first
  let v := v.turn .first
  let v := v.mix .second
  v.turn .second

end Variables

/-- What is done in the cases of the switch. -/
inductive Statement
  /-- Bring a byte behind the blocks into the word of a side, shifted to its place. -/
  | gather (side : Side) (position shift : Nat)
  /-- Scramble the word of a side and bring it into the lane. -/
  | mix (side : Side)
  deriving DecidableEq

/-- Carry out a statement, with the memory behind the blocks. -/
def Statement.run (memory : Memory) (v : Variables) : Statement → Variables
  | gather side position shift =>
    v.setWord (v.word side ^^^ memory.byte position <<< shift) side
  | mix side => v.mix side

/-- The cases of the switch with their labels. -/
def switchCases : List (Nat × List Statement) :=
  [(15, [.gather .second 14 48]),
    (14, [.gather .second 13 40]),
    (13, [.gather .second 12 32]),
    (12, [.gather .second 11 24]),
    (11, [.gather .second 10 16]),
    (10, [.gather .second 9 8]),
    (9, [.gather .second 8 0, .mix .second]),
    (8, [.gather .first 7 56]),
    (7, [.gather .first 6 48]),
    (6, [.gather .first 5 40]),
    (5, [.gather .first 4 32]),
    (4, [.gather .first 3 24]),
    (3, [.gather .first 2 16]),
    (2, [.gather .first 1 8]),
    (1, [.gather .first 0 0, .mix .first])]

/-- The statements from the case with a label on: each case falls through to the next one. -/
def fallThrough (label : Nat) : List Statement :=
  (switchCases.dropWhile fun entry => entry.1 != label).flatMap fun entry => entry.2

/-- The loop over the blocks, and the switch over the number of bytes behind them. -/
def absorb (memory : Memory) (length : Nat) (v : Variables) : Variables :=
  let count := length / 16
  let v := (List.range count).foldl (Variables.block memory) v
  let v := { v with k1 := 0, k2 := 0 }
  (fallThrough (length % 16)).foldl (Statement.run (memory.behind (16 * count))) v

/-- The final mix of one lane. -/
def finalMix (k : Word) : Word :=
  let k := k ^^^ (k >>> 33)
  let k := k * 0xff51afd7ed558ccd
  let k := k ^^^ (k >>> 33)
  let k := k * 0xc4ceb9fe1a85ec53
  k ^^^ (k >>> 33)

/-- The two lanes in the end, for the given number of bytes in memory. -/
def digest (memory : Memory) (length : Nat) (seed : Word) : Word × Word :=
  let v := absorb memory length ⟨seed, seed, 0, 0⟩
  let h1 := v.h1 ^^^ BitVec.ofNat 64 length
  let h2 := v.h2 ^^^ BitVec.ofNat 64 length
  let h1 := h1 + h2
  let h2 := h2 + h1
  let h1 := finalMix h1
  let h2 := finalMix h2
  let h1 := h1 + h2
  let h2 := h2 + h1
  (h1, h2)

namespace Variables

variable {v : Variables} {k : Word} {side other : Side}

/-- A side that is given its own word stays as it is. -/
theorem setWord_word : v.setWord (v.word side) side = v := by
  cases side with
  | first => rfl
  | second => rfl

/-- The word that a side is given last counts. -/
theorem setWord_setWord {old : Word} : (v.setWord old side).setWord k side = v.setWord k side := by
  cases side with
  | first => rfl
  | second => rfl

/-- A side has the word that it is given. -/
theorem word_setWord : (v.setWord k side).word side = k := by
  cases side with
  | first => rfl
  | second => rfl

/-- The other side keeps its word. -/
theorem word_setWord_of_ne (h : other ≠ side) : (v.setWord k side).word other = v.word other := by
  cases side <;> cases other <;> simp [word, setWord] at h ⊢

/-- The word of the other side is not scrambled. -/
theorem word_mix_of_ne (h : other ≠ side) : (v.mix side).word other = v.word other := by
  cases side <;> cases other <;> simp [word, mix] at h ⊢

/-- Turning a lane changes no word. -/
theorem word_turn : (v.turn side).word other = v.word other := by
  cases side <;> cases other <;> rw [turn, word, word]

end Variables

section Words

variable {memory : Memory} {bytes : List UInt8}

/-- A byte has no bit in common with a word that leaves the lowest eight bits free. -/
theorem and_shiftLeft (byte : UInt8) (k : Word) :
    byte.toBitVec.setWidth 64 &&& k <<< 8 = 0#64 := by
  refine BitVec.eq_of_getLsbD_eq fun i _ => ?_
  rw [BitVec.getLsbD_and, BitVec.getLsbD_setWidth, BitVec.getLsbD_shiftLeft, BitVec.getLsbD_zero]
  by_cases hlow : i < 8
  · simp [hlow]
  · simp [BitVec.getLsbD_of_ge byte.toBitVec i (by omega)]

/-- Without common bits it is the same to join the bits of two words and to flip them. -/
theorem or_eq_xor {x y : Word} (h : x &&& y = 0#64) : x ||| y = x ^^^ y := by
  refine BitVec.eq_of_getLsbD_eq fun i _ => ?_
  have hbit := congrArg (fun k : Word => k.getLsbD i) h
  simp only [BitVec.getLsbD_and, BitVec.getLsbD_zero] at hbit
  rw [BitVec.getLsbD_or, BitVec.getLsbD_xor]
  cases hx : x.getLsbD i with
  | false => rw [Bool.false_or, Bool.false_xor]
  | true =>
    rw [hx, Bool.true_and] at hbit
    rw [hbit]
    rfl

/-- The first one of the bytes of a word is in its lowest eight bits. -/
theorem toBitVec_word_cons (byte : UInt8) (rest : List UInt8) :
    (word (byte :: rest)).toBitVec =
      byte.toBitVec.setWidth 64 ||| (word rest).toBitVec <<< 8 := by
  rw [← BitVec.add_eq_or_of_and_eq_zero _ _ (and_shiftLeft byte _)]
  refine BitVec.eq_of_toNat_eq ?_
  have hbyte : byte.toBitVec.toNat < 256 := byte.toNat_lt
  rw [word, word, UInt64.toBitVec_ofNat', UInt64.toBitVec_ofNat', LittleEndian.decode,
    BitVec.toNat_add, BitVec.toNat_setWidth, BitVec.toNat_shiftLeft, BitVec.toNat_ofNat,
    BitVec.toNat_ofNat, Nat.shiftLeft_eq]
  change (byte.toBitVec.toNat + 256 * LittleEndian.decode rest) % 2 ^ 64 = _
  omega

/-- The memory has the bytes at its first positions. -/
def Memory.Holds (memory : Memory) (bytes : List UInt8) : Prop :=
  ∀ i (h : i < bytes.length), memory i = bytes[i]

/-- The memory has the bytes that are put at its front. -/
theorem Memory.holds_store (memory : Memory) (bytes : List UInt8) :
    (memory.store bytes).Holds bytes := by
  intro i hi
  rw [store, List.getD_eq_getElem?_getD, List.getElem?_eq_getElem hi, Option.getD_some]

/-- Words are loaded from the memory behind a position as from further behind. -/
theorem Memory.load_behind (memory : Memory) (start position : Nat) :
    (memory.behind start).load position = memory.load (start + position) := by
  simp only [load, byte, behind, Nat.add_assoc]

/-- Behind two positions one after the other is behind their sum. -/
theorem Memory.behind_behind (memory : Memory) (start other : Nat) :
    (memory.behind start).behind other = memory.behind (start + other) := by
  funext position
  simp only [behind, Nat.add_assoc]

/-- Behind no byte is all of the memory. -/
theorem Memory.behind_zero (memory : Memory) : memory.behind 0 = memory := by
  funext position
  simp only [behind, Nat.zero_add]

namespace Memory.Holds

/-- The memory has the bytes from a position on there. -/
theorem behind (h : memory.Holds bytes) (start : Nat) :
    (memory.behind start).Holds (bytes.drop start) := by
  intro i hi
  rw [List.length_drop] at hi
  rw [List.getElem_drop]
  exact h (start + i) (by omega)

/-- The memory has the first ones of its bytes. -/
theorem take (h : memory.Holds bytes) (count : Nat) : memory.Holds (bytes.take count) := by
  intro i hi
  rw [List.length_take] at hi
  rw [List.getElem_take]
  exact h i (by omega)

/-- In front of the bytes behind a position stands the byte in memory at this position. -/
theorem word_drop (h : memory.Holds bytes) {i : Nat} (hi : i < bytes.length) :
    (word (bytes.drop i)).toBitVec =
      memory.byte i ||| (word (bytes.drop (i + 1))).toBitVec <<< 8 := by
  rw [List.drop_eq_getElem_cons hi, toBitVec_word_cons, Memory.byte, h i hi]

/-- Eight bytes in memory are loaded as their word. -/
theorem load_eq (h : memory.Holds bytes) (hlength : bytes.length = 8) :
    memory.load 0 = (word bytes).toBitVec := by
  have hend : (word (bytes.drop 8)).toBitVec = 0#64 := by
    rw [List.drop_of_length_le (by omega)]
    rfl
  have hbyte {i : Nat} (hi : i < 8) := h.word_drop (i := i) (by omega)
  rw [← List.drop_zero (l := bytes), hbyte (by decide : 0 < 8), hbyte (by decide : 1 < 8),
    hbyte (by decide : 2 < 8), hbyte (by decide : 3 < 8), hbyte (by decide : 4 < 8),
    hbyte (by decide : 5 < 8), hbyte (by decide : 6 < 8), hbyte (by decide : 7 < 8), hend]
  simp only [Memory.load, BitVec.shiftLeft_or_distrib, ← BitVec.shiftLeft_add, BitVec.or_assoc,
    BitVec.zero_shiftLeft, BitVec.or_zero]

/-- A byte that is flipped into its place comes in front of the bytes behind it. -/
theorem xor_shiftLeft (h : memory.Holds bytes) {i : Nat} (hi : i < bytes.length) :
    (word (bytes.drop (i + 1))).toBitVec <<< (8 * (i + 1)) ^^^ memory.byte i <<< (8 * i) =
      (word (bytes.drop i)).toBitVec <<< (8 * i) := by
  have hapart (k : Word) : memory.byte i &&& k <<< 8 = 0#64 := and_shiftLeft (memory i) k
  rw [h.word_drop hi, or_eq_xor (hapart _), BitVec.shiftLeft_xor_distrib, ← BitVec.shiftLeft_add,
    BitVec.xor_comm, Nat.mul_succ, Nat.add_comm 8]

end Memory.Holds

end Words

section Lanes

variable {v : Variables} {lanes : Lanes}

/-- The lanes with a scrambled word in the one of a side. -/
def bring (lanes : Lanes) (k : UInt64) : Side → Lanes
  | .first => ⟨lanes.h1 ^^^ scramble1 k, lanes.h2⟩
  | .second => ⟨lanes.h1, lanes.h2 ^^^ scramble2 k⟩

/-- The lanes with the one of a side turned and the other one added to it. -/
def turnLane (lanes : Lanes) : Side → Lanes
  | .first => ⟨(rotate lanes.h1 27 + lanes.h2) * 5 + 0x52dce729, lanes.h2⟩
  | .second => ⟨lanes.h1, (rotate lanes.h2 31 + lanes.h1) * 5 + 0x38495ab5⟩

/-- A block is brought in word by word, and a lane is turned when it has its word. -/
theorem mixBlock_eq (lanes : Lanes) (block : List UInt8) : mixBlock lanes block =
    turnLane (bring (turnLane (bring lanes (word (block.take 8)) .first) .first)
      (word (block.drop 8)) .second) .second := by
  rw [turnLane, bring, turnLane, bring, mixBlock]

/-- No bytes leave a lane as it is. -/
theorem bring_word_nil (lanes : Lanes) (side : Side) : bring lanes (word []) side = lanes := by
  have hfirst : scramble1 (word []) = 0 := by decide
  have hsecond : scramble2 (word []) = 0 := by decide
  cases side with
  | first => rw [bring, hfirst, UInt64.xor_zero]
  | second => rw [bring, hsecond, UInt64.xor_zero]

/-- The variables for the lanes agree with given ones. -/
structure Variables.Agrees (v : Variables) (lanes : Lanes) : Prop where
  /-- The first lane. -/
  h1 : v.h1 = lanes.h1.toBitVec
  /-- The second lane. -/
  h2 : v.h2 = lanes.h2.toBitVec

namespace Variables.Agrees

/-- The lanes do not depend on the words. -/
theorem setWord (h : v.Agrees lanes) (k : Word) (side : Side) :
    (v.setWord k side).Agrees lanes := by
  cases side with
  | first => exact ⟨h.h1, h.h2⟩
  | second => exact ⟨h.h1, h.h2⟩

/-- A word is brought into the lane of its side. -/
theorem mix {k : UInt64} (h : v.Agrees lanes) (side : Side) (hk : v.word side = k.toBitVec) :
    (v.mix side).Agrees (bring lanes k side) := by
  have hscramble {amount : UInt64} (hpos : 0 < amount.toNat) (hlt : amount.toNat < 64)
      (before after : UInt64) : (rotate (k * before) amount * after).toBitVec =
        (k.toBitVec * before.toBitVec).rotateLeft amount.toNat * after.toBitVec := by
    rw [UInt64.toBitVec_mul, toBitVec_rotate hpos hlt, UInt64.toBitVec_mul]
  cases side with
  | first =>
    refine ⟨?_, h.h2⟩
    rw [bring, UInt64.toBitVec_xor, scramble1, hscramble (by decide) (by decide), ← hk, ← h.h1]
    rfl
  | second =>
    refine ⟨h.h1, ?_⟩
    rw [bring, UInt64.toBitVec_xor, scramble2, hscramble (by decide) (by decide), ← hk, ← h.h2]
    rfl

/-- The lane of a side is turned. -/
theorem turn (h : v.Agrees lanes) (side : Side) : (v.turn side).Agrees (turnLane lanes side) := by
  have hturn {amount : UInt64} (hpos : 0 < amount.toNat) (hlt : amount.toNat < 64)
      (x other added : UInt64) : ((rotate x amount + other) * 5 + added).toBitVec =
        (x.toBitVec.rotateLeft amount.toNat + other.toBitVec) * 5 + added.toBitVec := by
    rw [UInt64.toBitVec_add, UInt64.toBitVec_mul, UInt64.toBitVec_add, toBitVec_rotate hpos hlt]
    rfl
  -- both sides are opened before they are compared, which would count up to the constants otherwise
  cases side with
  | first =>
    rw [Variables.turn, turnLane]
    refine ⟨?_, h.h2⟩
    rw [hturn (by decide) (by decide), ← h.h1, ← h.h2]
    rfl
  | second =>
    rw [Variables.turn, turnLane]
    refine ⟨h.h1, ?_⟩
    rw [hturn (by decide) (by decide), ← h.h1, ← h.h2]
    rfl

/-- A block in memory is mixed in by the body of the loop. -/
theorem block {memory : Memory} {bytes : List UInt8} (h : v.Agrees lanes)
    (hbytes : memory.Holds bytes) (hlength : bytes.length = 16) :
    (v.block memory 0).Agrees (mixBlock lanes bytes) := by
  have hfirst : memory.load 0 = (Digest.word (bytes.take 8)).toBitVec :=
    (hbytes.take 8).load_eq (by rw [List.length_take]; omega)
  have hsecond : memory.load 8 = (Digest.word (bytes.drop 8)).toBitVec := by
    rw [← Nat.add_zero 8, ← Memory.load_behind]
    exact (hbytes.behind 8).load_eq (by rw [List.length_drop]; omega)
  have hfetched : (v.fetch memory 0).Agrees lanes := ⟨h.h1, h.h2⟩
  have hturned := (hfetched.mix .first hfirst).turn .first
  have hword : (((v.fetch memory 0).mix .first).turn .first).word .second =
      (Digest.word (bytes.drop 8)).toBitVec := by
    rw [word_turn, word_mix_of_ne (by decide), word, fetch, Nat.zero_add, hsecond]
  rw [mixBlock_eq, Variables.block, Nat.mul_zero]
  exact (hturned.mix .second hword).turn .second

end Variables.Agrees

end Lanes

section Switch

variable {memory : Memory} {bytes : List UInt8} {v : Variables} {lanes : Lanes}

/-- Bring in the given number of bytes from a position on, the last one first. -/
def gathers (side : Side) (start : Nat) : Nat → List Statement
  | 0 => []
  | count + 1 => .gather side (start + count) (8 * count) :: gathers side start count

/-- Bring in bytes as the word of a side, and mix the word unless there are none. -/
def gathered (side : Side) (start count : Nat) : List Statement :=
  if 0 < count then gathers side start count ++ [.mix side] else []

/-- The switch brings in the bytes from the ninth one on for the second lane, and then the first
eight ones for the first lane. -/
theorem fallThrough_eq : ∀ label < 16, fallThrough label =
    gathered .second 8 (label - 8) ++ gathered .first 0 (min 8 label) := by
  decide

/-- A word that has the bytes from a position on has all of them when those before have come in. -/
theorem run_gathers (side : Side) {start count : Nat} (h : (memory.behind start).Holds bytes)
    (hcount : count ≤ bytes.length) :
    (gathers side start count).foldl (Statement.run memory)
        (v.setWord ((word (bytes.drop count)).toBitVec <<< (8 * count)) side) =
      v.setWord (word bytes).toBitVec side := by
  -- the induction goes from the last byte to the first one, as the cases of the switch do
  induction count with
  | zero => rw [gathers, List.foldl_nil, List.drop_zero, Nat.mul_zero, BitVec.shiftLeft_zero]
  | succ count ih =>
    have hstep : Statement.run memory
        (v.setWord ((word (bytes.drop (count + 1))).toBitVec <<< (8 * (count + 1))) side)
        (.gather side (start + count) (8 * count)) =
          v.setWord ((word (bytes.drop count)).toBitVec <<< (8 * count)) side := by
      rw [Statement.run, Variables.word_setWord, Variables.setWord_setWord,
        ← h.xor_shiftLeft hcount]
      rfl
    rw [gathers, List.foldl_cons, hstep, ih (Nat.le_of_succ_le hcount)]

/-- Bytes are brought into the lane of a side as their word. The word of the other side stays. -/
theorem run_gathered (side : Side) {start : Nat} (h : (memory.behind start).Holds bytes)
    (hlanes : v.Agrees lanes) (hzero : v.word side = 0#64) :
    ((gathered side start bytes.length).foldl (Statement.run memory) v).Agrees
        (bring lanes (word bytes) side) ∧
      ∀ other ≠ side,
        ((gathered side start bytes.length).foldl (Statement.run memory) v).word other =
          v.word other := by
  cases hbytes : bytes with
  | nil => exact ⟨by rw [bring_word_nil]; exact hlanes, fun _ _ => rfl⟩
  | cons byte rest =>
    rw [← hbytes]
    have hpos : 0 < bytes.length := by
      rw [hbytes]
      exact Nat.succ_pos rest.length
    have hstart : v.setWord ((word (bytes.drop bytes.length)).toBitVec <<< (8 * bytes.length)) side
        = v := by
      have hnil : (word []).toBitVec <<< (8 * bytes.length) = 0#64 := BitVec.zero_shiftLeft _
      rw [List.drop_length, hnil, ← hzero, Variables.setWord_word]
    have hrun := run_gathers (v := v) side h (Nat.le_refl bytes.length)
    rw [hstart] at hrun
    have hgathered : (gathered side start bytes.length).foldl (Statement.run memory) v =
        (v.setWord (word bytes).toBitVec side).mix side := by
      rw [gathered, if_pos hpos, List.foldl_append, hrun, List.foldl_cons, List.foldl_nil,
        Statement.run]
    rw [hgathered]
    refine ⟨(hlanes.setWord _ side).mix side Variables.word_setWord, fun other hother => ?_⟩
    rw [Variables.word_mix_of_ne hother, Variables.word_setWord_of_ne hother]

/-- The switch mixes in the bytes behind the blocks. -/
theorem run_fallThrough (h : memory.Holds bytes) (hlt : bytes.length < 16) (hlanes : v.Agrees lanes)
    (hfirst : v.k1 = 0#64) (hsecond : v.k2 = 0#64) :
    ((fallThrough bytes.length).foldl (Statement.run memory) v).Agrees (mixTail lanes bytes) := by
  rw [fallThrough_eq _ hlt, List.foldl_append]
  obtain ⟨hlanes, hwords⟩ := run_gathered .second (h.behind 8) hlanes hsecond
  rw [List.length_drop] at hlanes hwords
  have hzero := (hwords .first (by decide)).trans hfirst
  have hfront : (memory.behind 0).Holds (bytes.take 8) := by
    rw [memory.behind_zero]
    exact h.take 8
  obtain ⟨hlanes, -⟩ := run_gathered .first hfront hlanes hzero
  rw [List.length_take] at hlanes
  exact hlanes

end Switch

section Blocks

variable {memory : Memory} {length : Nat} {v : Variables}

/-- Fewer than sixteen bytes are all behind the blocks. -/
theorem absorb_of_lt (h : length < 16) : absorb memory length v =
    (fallThrough length).foldl (Statement.run memory) { v with k1 := 0, k2 := 0 } := by
  rw [absorb, Nat.div_eq_of_lt h, Nat.mod_eq_of_lt h, Nat.mul_zero, memory.behind_zero]
  rfl

/-- The first block is mixed in before the bytes behind it are absorbed. -/
theorem absorb_of_le (h : 16 ≤ length) :
    absorb memory length v = absorb (memory.behind 16) (length - 16) (v.block memory 0) := by
  have hblock (v : Variables) (i : Nat) :
      v.block memory (i + 1) = v.block (memory.behind 16) i := by
    simp only [Variables.block, Variables.fetch, Memory.load_behind, Nat.mul_succ,
      Nat.add_comm 16, Nat.add_right_comm]
  have hmemory : (memory.behind 16).behind (16 * ((length - 16) / 16)) =
      memory.behind (16 * ((length - 16) / 16 + 1)) := by
    rw [Memory.behind_behind, Nat.mul_succ, Nat.add_comm]
  rw [absorb, absorb, Nat.div_eq_sub_div (by decide) h, Nat.mod_eq_sub_mod h, hmemory,
    List.range_succ_eq_map, List.foldl_cons, List.foldl_map]
  simp only [hblock]

/-- After all bytes the variables agree with the lanes of the digest. -/
theorem agrees_absorb {bytes : List UInt8} {lanes : Lanes} (h : memory.Holds bytes)
    (hlanes : v.Agrees lanes) :
    (absorb memory bytes.length v).Agrees (Digest.absorb lanes bytes) := by
  -- the induction is on the number of blocks: the loop keeps the lanes, and the switch ends it
  induction hcount : bytes.length / 16 generalizing memory bytes lanes v with
  | zero =>
    have hlt : bytes.length < 16 := by omega
    rw [absorb_of_lt hlt, Digest.absorb_of_lt hlt]
    exact run_fallThrough h hlt ⟨hlanes.h1, hlanes.h2⟩ rfl rfl
  | succ count ih =>
    have hle : 16 ≤ bytes.length := by omega
    have hblock := hlanes.block (h.take 16) (by rw [List.length_take]; omega)
    have hrest := ih (h.behind 16) hblock (by rw [List.length_drop]; omega)
    rw [List.length_drop] at hrest
    rw [absorb_of_le hle, Digest.absorb_of_le hle]
    exact hrest

end Blocks

end ByteWise

end Digest

open Digest
open Digest.ByteWise (Memory)

/-- The digest is the published one: single bytes are read from memory, in a loop over the blocks
and a switch that falls through for the bytes behind the blocks. What stands in memory behind the
bytes has no part in it. -/
theorem digest_byteWise (bytes : List UInt8) (seed : UInt64) (memory : Memory) :
    ByteWise.digest (memory.store bytes) bytes.length seed.toBitVec =
      ((digest bytes seed).h1.toBitVec, (digest bytes seed).h2.toBitVec) := by
  have hseed : ByteWise.Variables.Agrees ⟨seed.toBitVec, seed.toBitVec, 0, 0⟩ ⟨seed, seed⟩ :=
    ⟨rfl, rfl⟩
  have hlanes := ByteWise.agrees_absorb (memory.holds_store bytes) hseed
  rw [ByteWise.digest, hlanes.h1, hlanes.h2]
  rfl

/-- Fifteen bytes, for which no case of the switch is left out, and a block of sixteen. -/
example :
    let bytes : List UInt8 := [49, 50, 51, 52, 53, 54, 55, 56, 57, 97, 98, 99, 100, 101, 102, 49]
    ByteWise.digest (bytes.getD · 0) 15 0 = (9165946068217512774, 2451472574052603025) ∧
      ByteWise.digest (bytes.getD · 0) 16 0 = (9259082041050667785, 12459473952842597282) := by
  decide +kernel

end SchemaWire
