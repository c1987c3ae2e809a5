import Mathlib.Order.Basic
import SchemaWire.Proofs.Varint.Received

/-!
# Numbers of five formats

Numbers of 32, 36 and 64 bits and signed numbers of 32 and 64 bits are written one after the other,
in any mixture, and read back from exactly their bytes. Every number has one spelling, the shortest
that its budget allows, and no spelling of a format starts another one of that format.
-/

namespace SchemaWire

namespace Take

variable {α : Type}

/-- What is read from some bytes is read from all bytes that start with them, so a reader that is
exact on both takes the same bytes. -/
theorem Reads.eq_of_prefix {reader : Take α} {front whole : List UInt8} {a b : α}
    (hfront : Reads reader front a) (hwhole : Reads reader whole b) (h : front <+: whole) :
    a = b ∧ front = whole := by
  obtain ⟨back, rfl⟩ := h
  have hlong := hwhole []
  rw [List.append_nil, hfront back] at hlong
  cases hlong
  exact ⟨rfl, (List.append_nil front).symm⟩

end Take

namespace Varint

open Take (Reads)

/-! Formats -/

/-- The formats that numbers are written in. -/
inductive Format
  /-- Numbers of 32 bits. -/
  | unsigned32
  /-- Numbers of 36 bits. -/
  | unsigned36
  /-- Numbers of 64 bits. -/
  | unsigned64
  /-- Signed numbers of 32 bits. -/
  | signed32
  /-- Signed numbers of 64 bits. -/
  | signed64
  deriving DecidableEq, Repr

namespace Format

/-- The budget of a format. -/
def budget : Format → Budget
  | unsigned32 | signed32 => word32
  | unsigned36 => word36
  | unsigned64 | signed64 => word64

/-- Whether a format has negative numbers. -/
def isSigned : Format → Bool
  | unsigned32 | unsigned36 | unsigned64 => false
  | signed32 | signed64 => true

/-- The numbers of a format: those with as many bits as its budget, one of them for the sign where
there are negative ones. -/
def Holds (format : Format) (v : Int) : Prop :=
  if format.isSigned then
    -(2 ^ (format.budget.bits - 1) : Nat) ≤ v ∧ v < (2 ^ (format.budget.bits - 1) : Nat)
  else 0 ≤ v ∧ v < (2 ^ format.budget.bits : Nat)

instance (format : Format) (v : Int) : Decidable (format.Holds v) :=
  inferInstanceAs (Decidable (ite _ _ _))

/-- Write a number. -/
def write : Format → Int → Except Error (List UInt8)
  | unsigned32, v => .ok (encode32 v.toNat)
  | unsigned36, v => encode36 v.toNat
  | unsigned64, v => .ok (encode64 v.toNat)
  | signed32, v => .ok (encode32 (zigzag v))
  | signed64, v => .ok (encode64 (zigzag v))

/-- Read a number. -/
def read : Format → Take Int
  | unsigned32 => do return (← take32 : Nat)
  | unsigned36 => do return (← take36 : Nat)
  | unsigned64 => do return (← take64 : Nat)
  | signed32 => takeSigned32
  | signed64 => takeSigned64

/-- The natural number that is spelled for a number of the format. -/
def spelled (format : Format) (v : Int) : Nat :=
  if format.isSigned then zigzag v else v.toNat

/-- Write numbers one after the other. -/
def writeAll : List (Format × Int) → Except Error (List UInt8)
  | [] => return []
  | (format, v) :: rest => do
    let bytes ← format.write v
    let others ← writeAll rest
    return bytes ++ others

/-- Read numbers one after the other. -/
def readAll : List Format → Take (List Int)
  | [] => return []
  | format :: rest => do
    let v ← format.read
    let others ← readAll rest
    return v :: others

end Format

/-! Signed numbers -/

/-- The place of a signed word in zigzag order is the word doubled, with all bits turned over where
it is negative. -/
theorem zigzag_toInt {width : Nat} (x : BitVec width) :
    zigzag x.toInt = ((x <<< 1) ^^^ x.sshiftRight (width - 1)).toNat := by
  cases width with
  | zero =>
    rw [BitVec.eq_nil x]
    rfl
  | succ low =>
    have hpow : 2 ^ (low + 1) = 2 * 2 ^ low := Nat.pow_succ'
    have hlt := x.isLt
    rw [Nat.add_sub_cancel]
    cases hx : x.msb with
    | false =>
      have hlow := BitVec.msb_eq_false_iff_two_mul_lt.mp hx
      have hsign : x >>> low = BitVec.ofNat (low + 1) 0 := by
        rw [← BitVec.toNat_inj, BitVec.toNat_ushiftRight, Nat.shiftRight_eq_div_pow]
        exact Nat.div_eq_of_lt (by omega)
      have hdouble : (x <<< 1).toNat = 2 * x.toNat := by
        rw [BitVec.toNat_shiftLeft, Nat.shiftLeft_eq, Nat.mod_eq_of_lt (by omega)]
        omega
      rw [BitVec.sshiftRight_eq_of_msb_false hx, hsign, BitVec.xor_zero, hdouble,
        BitVec.toInt_eq_toNat_of_msb hx, zigzag, if_pos (by omega)]
      omega
    | true =>
      have hhigh := BitVec.msb_eq_true_iff_two_mul_ge.mp hx
      have hsign : ~~~x >>> low = BitVec.ofNat (low + 1) 0 := by
        rw [← BitVec.toNat_inj, BitVec.toNat_ushiftRight, BitVec.toNat_not,
          Nat.shiftRight_eq_div_pow]
        exact Nat.div_eq_of_lt (by omega)
      have hdouble : (x <<< 1).toNat = 2 * x.toNat - 2 ^ (low + 1) := by
        rw [BitVec.toNat_shiftLeft, Nat.shiftLeft_eq, Nat.mod_eq_sub_mod (by omega),
          Nat.mod_eq_of_lt (by omega)]
        omega
      rw [BitVec.sshiftRight_eq_of_msb_true hx, hsign, BitVec.not_zero, BitVec.xor_allOnes,
        BitVec.toNat_not, hdouble, BitVec.toInt_eq_msb_cond, hx, if_pos rfl, zigzag,
        if_neg (by omega)]
      omega

/-- The signed word at a place in zigzag order is the place halved, with all bits turned over where
it is odd. -/
theorem unzigzag_toNat {width : Nat} (x : BitVec width) :
    unzigzag x.toNat = ((x >>> 1) ^^^ -(x &&& BitVec.ofNat width 1)).toInt := by
  cases width with
  | zero =>
    rw [BitVec.eq_nil x]
    rfl
  | succ low =>
    have hpow : 2 ^ (low + 1) = 2 * 2 ^ low := Nat.pow_succ'
    have hlt := x.isLt
    have hhalf : (x >>> 1).toNat = x.toNat / 2 := by
      rw [BitVec.toNat_ushiftRight, Nat.shiftRight_eq_div_pow, Nat.pow_one]
    have hbit : (x &&& BitVec.ofNat (low + 1) 1).toNat = x.toNat % 2 := by
      rw [BitVec.toNat_and, BitVec.toNat_ofNat, Nat.mod_eq_of_lt (by omega : 1 < 2 ^ (low + 1))]
      exact Nat.and_one_is_mod _
    rcases Nat.mod_two_eq_zero_or_one x.toNat with heven | hodd
    · have hzero : x &&& BitVec.ofNat (low + 1) 1 = BitVec.ofNat (low + 1) 0 := by
        rw [← BitVec.toNat_inj, hbit, heven]
        rfl
      rw [hzero, BitVec.neg_zero, BitVec.xor_zero, BitVec.toInt_eq_toNat_of_lt (by omega), hhalf,
        unzigzag, if_pos heven]
    · have hone : -(x &&& BitVec.ofNat (low + 1) 1) = BitVec.allOnes (low + 1) := by
        rw [← BitVec.neg_one_eq_allOnes]
        congr 1
        rw [← BitVec.toNat_inj, hbit, hodd, BitVec.toNat_ofNat, Nat.mod_eq_of_lt (by omega)]
      rw [hone, BitVec.xor_allOnes, BitVec.toInt_eq_toNat_cond, BitVec.toNat_not, hhalf,
        if_neg (by omega), unzigzag, if_neg (by omega)]
      omega

/-- A signed number that fits some bits has a place that fits them. -/
theorem zigzag_lt {bits : Nat} {v : Int} (hbits : 0 < bits) (hleast : -(2 ^ (bits - 1) : Nat) ≤ v)
    (hbound : v < (2 ^ (bits - 1) : Nat)) : zigzag v < 2 ^ bits := by
  obtain ⟨low, rfl⟩ : ∃ low, bits = low + 1 := ⟨bits - 1, by omega⟩
  rw [Nat.add_sub_cancel] at hleast hbound
  have hpow : 2 ^ (low + 1) = 2 * 2 ^ low := Nat.pow_succ'
  rw [zigzag]
  split <;> omega

/-! Spellings -/

section Spelling

variable {budget : Budget}

/-- Every budget has bytes for all its bits. -/
theorem room_of_mem : ∀ budget ∈ budgets,
    2 ^ budget.bits ≤ 128 ^ (budget.bytes - 1) * budget.lastBound := by
  decide

/-- A number within a budget is read back from exactly its bytes. -/
theorem reads_take (h : budget ∈ budgets) {n : Nat} (hn : n < 2 ^ budget.bits) :
    Reads (take budget) (encode budget n) n :=
  reads_takeGroups_encode Take.reads_byte (bytes_pos_of_mem budget h) (room_of_mem budget h) hn

/-- The bytes of a number as they have to be. -/
structure Budget.Spells (budget : Budget) (n : Nat) (bytes : List UInt8) : Prop where
  /-- There is a byte for every seven significant bits that the number has or starts, at least one
  byte, and at most as many as the budget has. -/
  length_eq : bytes.length = min budget.bytes (max 1 ((n.size + 6) / 7))
  /-- Every byte but the last holds the seven bits at its place and announces another byte; the last
  one holds all bits from its place on. -/
  getElem?_eq : ∀ i < bytes.length, bytes[i]? = some (UInt8.ofNat
    (if i + 1 < bytes.length then n / 2 ^ (7 * i) % 128 + 128 else n / 2 ^ (7 * i)))
  /-- The last byte holds seven bits, or eight if it is the whole one of its budget. -/
  last_lt : n / 2 ^ (7 * (bytes.length - 1)) < if budget.isWhole (bytes.length - 1) then 256 else 128

/-- The number of bytes follows from the number of significant bits. -/
theorem length_groups (more n : Nat) :
    (groups more n).length = min (more + 1) (max 1 ((n.size + 6) / 7)) := by
  refine eq_of_forall_ge_iff fun k => ?_
  rw [length_groups_le_iff, min_le_iff, max_le_iff, ← Nat.size_le]
  omega

/-- What stands at every place among the bytes of a number. -/
theorem getElem?_groups {more n i : Nat} (h : i < (groups more n).length) :
    (groups more n)[i]? = some (UInt8.ofNat
      (if i + 1 < (groups more n).length then n / 2 ^ (7 * i) % 128 + 128
        else n / 2 ^ (7 * i))) := by
  induction more generalizing n i with
  | zero =>
    have hi : i = 0 := by simpa [groups] using h
    subst hi
    simp [groups]
  | succ more ih =>
    by_cases hsmall : n < 128
    · have hone : groups (more + 1) n = [UInt8.ofNat n] := by rw [groups, if_pos hsmall]
      rw [hone] at h ⊢
      have hi : i = 0 := by simpa using h
      subst hi
      simp
    · have hcons : groups (more + 1) n = UInt8.ofNat (n % 128 + 128) :: groups more (n / 128) := by
        rw [groups, if_neg hsmall]
      rw [hcons, List.length_cons] at h ⊢
      cases i with
      | zero =>
        have hpos := length_groups_pos more (n / 128)
        simp [hpos]
      | succ i =>
        have hpow : 2 ^ (7 * (i + 1)) = 128 * 2 ^ (7 * i) := by
          rw [Nat.mul_succ, Nat.add_comm, Nat.pow_add]
        rw [List.getElem?_cons_succ, ih (Nat.lt_of_succ_lt_succ h), hpow,
          ← Nat.div_div_eq_div_mul]
        simp only [Nat.add_lt_add_iff_right]

/-- What is left for the last byte of a number fits it. -/
theorem lt_of_length_encode (h : budget ∈ budgets) {n place : Nat} (hn : n < 2 ^ budget.bits)
    (hlength : (encode budget n).length = place + 1) :
    n / 2 ^ (7 * place) < if budget.isWhole place then 256 else 128 := by
  have hpos := bytes_pos_of_mem budget h
  have hmost : (encode budget n).length ≤ budget.bytes - 1 + 1 := length_groups_le _ n
  rw [Nat.div_lt_iff_lt_mul (Nat.two_pow_pos _)]
  rcases (length_groups_le_iff (budget.bytes - 1) n (place + 1)).mp hlength.le with hfull | hbits
  · -- the budget is used up, so its last byte decides
    have hlast : budget.bytes = place + 1 := by omega
    rw [Budget.isWhole, ← hlast, beq_self_eq_true, Bool.and_true]
    calc n < 2 ^ budget.bits := hn
      _ ≤ 128 ^ (budget.bytes - 1) * budget.lastBound := room_of_mem budget h
      _ = (if budget.fullLast then 256 else 128) * 2 ^ (7 * place) := by
        rw [hlast, Nat.add_sub_cancel, Nat.pow_mul, Nat.mul_comm, Budget.lastBound]
  · have hseven : 2 ^ (7 * (place + 1)) = 2 ^ (7 * place) * 128 := Nat.pow_add 2 (7 * place) 7
    split <;> omega

/-- A number within a budget is spelled as it has to be. -/
theorem spells_encode (h : budget ∈ budgets) {n : Nat} (hn : n < 2 ^ budget.bits) :
    budget.Spells n (encode budget n) := by
  have hlength := length_groups (budget.bytes - 1) n
  rw [Nat.sub_add_cancel (bytes_pos_of_mem budget h)] at hlength
  have hpos : 0 < (encode budget n).length := length_groups_pos _ n
  exact ⟨hlength, fun i => getElem?_groups, lt_of_length_encode h hn (Nat.sub_add_cancel hpos).symm⟩

end Spelling

/-! Mixtures of formats -/

namespace Format

variable {format : Format} {v : Int}

/-- Every format has one of the budgets. -/
theorem budget_mem (format : Format) : format.budget ∈ budgets := by
  cases format <;> decide

/-- What is spelled for a number of the format has the bits of its budget. -/
theorem Holds.spelled_lt (h : format.Holds v) : format.spelled v < 2 ^ format.budget.bits := by
  unfold Holds at h
  unfold spelled
  cases hsigned : format.isSigned with
  | true =>
    rw [hsigned, if_pos rfl] at h
    have hbits : 0 < format.budget.bits := by
      cases format <;> decide
    exact zigzag_lt hbits h.1 h.2
  | false =>
    rw [hsigned, if_neg Bool.false_ne_true] at h
    rw [if_neg Bool.false_ne_true]
    omega

/-- A number of the format is written as what is spelled for it. -/
theorem Holds.write_eq (h : format.Holds v) :
    format.write v = .ok (encode format.budget (format.spelled v)) := by
  have hlt := h.spelled_lt
  cases format with
  | unsigned36 => exact if_pos hlt
  | unsigned32 | unsigned64 | signed32 | signed64 => rfl

/-- What is read in a format has been spelled within its budget. -/
theorem take_of_read_ok {input rest : List UInt8} (h : format.read input = .ok v rest) :
    take format.budget input = .ok (format.spelled v) rest := by
  cases format with
  | unsigned32 | unsigned36 | unsigned64 =>
    obtain ⟨n, between, hread, heq⟩ := exists_of_bind_ok h
    cases heq
    exact hread
  | signed32 | signed64 =>
    obtain ⟨n, between, hread, heq⟩ := exists_of_bind_ok h
    cases heq
    rw [spelled, isSigned, if_pos rfl, zigzag_unzigzag]
    exact hread

/-- A number of the format is read back from exactly its bytes. -/
theorem Holds.reads (h : format.Holds v) :
    Reads format.read (encode format.budget (format.spelled v)) v := by
  have hread := reads_take format.budget_mem h.spelled_lt
  cases format with
  | unsigned32 | unsigned36 | unsigned64 =>
    have hback : ((v.toNat : Nat) : Int) = v := Int.toNat_of_nonneg h.1
    have hmade := hread.map fun n => (n : Int)
    rw [spelled, isSigned, if_neg Bool.false_ne_true, hback] at hmade
    exact hmade
  | signed32 | signed64 =>
    have hmade := hread.map unzigzag
    rw [spelled, isSigned, if_pos rfl, unzigzag_zigzag] at hmade
    exact hmade

/-- Numbers of their formats are written, and read back from exactly their bytes. -/
theorem exists_writeAll {items : List (Format × Int)} (h : ∀ item ∈ items, item.1.Holds item.2) :
    ∃ bytes, writeAll items = .ok bytes ∧
      Reads (readAll (items.map Prod.fst)) bytes (items.map Prod.snd) := by
  induction items with
  | nil => exact ⟨[], rfl, .pure []⟩
  | cons item rest ih =>
    obtain ⟨format, v⟩ := item
    obtain ⟨others, hothers, hread⟩ := ih fun item hitem => h item (List.mem_cons_of_mem _ hitem)
    have hfirst : format.Holds v := h (format, v) List.mem_cons_self
    refine ⟨encode format.budget (format.spelled v) ++ others, ?_, ?_⟩
    · rw [writeAll, hfirst.write_eq, hothers]
      rfl
    · exact hfirst.reads.bind (hread.map (v :: ·))

end Format

/-- Only numbers of more than 36 bits are refused. -/
theorem encode36_eq_error_iff (n : Nat) (e : Error) :
    encode36 n = .error e ↔ 2 ^ 36 ≤ n ∧ e = .range n 36 := by
  unfold encode36
  split
  next hlt =>
    constructor
    · intro h
      cases h
    · intro h
      exact absurd h.1 (Nat.not_le_of_lt hlt)
  next hge =>
    constructor
    · intro h
      exact ⟨Nat.le_of_not_lt hge, (Except.error.inj h).symm⟩
    · intro h
      rw [h.2]

/-- Numbers of any formats, written one after the other, are read back from exactly their bytes,
whatever follows them. Every number of a format is written in the fewest bytes from which it can be
read, each of them as it has to be, and the place in zigzag order that is spelled for a signed word
is the one that shifts give. No bytes of a format start those of another number, and only numbers
with too many bits for the budget of 36 bits are refused. -/
theorem numbers_round_trip :
    (∀ items : List (Format × Int), (∀ item ∈ items, item.1.Holds item.2) →
      ∃ bytes, Format.writeAll items = .ok bytes ∧
        Reads (Format.readAll (items.map Prod.fst)) bytes (items.map Prod.snd)) ∧
    (∀ (format : Format) (v : Int), format.Holds v →
      ∃ bytes, format.write v = .ok bytes ∧ format.budget.Spells (format.spelled v) bytes ∧
        ∀ input rest, format.read input = .ok v rest →
          bytes.length + rest.length ≤ input.length) ∧
    (∀ (format : Format) (v w : Int) (front whole : List UInt8), format.Holds v → format.Holds w →
      format.write v = .ok front → format.write w = .ok whole → front <+: whole →
        v = w ∧ front = whole) ∧
    (∀ (width : Nat) (x : BitVec width),
      zigzag x.toInt = ((x <<< 1) ^^^ x.sshiftRight (width - 1)).toNat ∧
        unzigzag x.toNat = ((x >>> 1) ^^^ -(x &&& BitVec.ofNat width 1)).toInt) ∧
    ∀ n e, encode36 n = .error e ↔ 2 ^ 36 ≤ n ∧ e = .range n 36 := by
  refine ⟨fun items => Format.exists_writeAll, fun format v hv => ?_,
    fun format v w front whole hv hw hfront hwhole hprefix => ?_,
    fun width x => ⟨zigzag_toInt x, unzigzag_toNat x⟩, encode36_eq_error_iff⟩
  · exact ⟨_, hv.write_eq, spells_encode format.budget_mem hv.spelled_lt, fun input rest hread =>
      (encode_le_of_take_ok format.budget_mem (Format.take_of_read_ok hread)).2⟩
  · cases hv.write_eq.symm.trans hfront
    cases hw.write_eq.symm.trans hwhole
    exact hv.reads.eq_of_prefix hw.reads hprefix

/-- The greatest numbers without a sign and the least signed ones. -/
def extremes : List (Format × Int) :=
  [(.unsigned32, (2 ^ 32 : Int) - 1), (.unsigned36, (2 ^ 36 : Int) - 1),
    (.unsigned64, (2 ^ 64 : Int) - 1), (.signed32, -(2 ^ 31 : Int)), (.signed64, -(2 ^ 63 : Int))]

/-- The extremes of all formats in one list, and the spelling of the last of them. -/
theorem numbers_round_trip_extremes :
    (∀ item ∈ extremes, item.1.Holds item.2) ∧
    (∃ bytes, Format.writeAll extremes = .ok bytes ∧
      Reads (Format.readAll (extremes.map Prod.fst)) bytes (extremes.map Prod.snd)) ∧
    ∃ bytes, Format.signed64.write (-(2 ^ 63 : Int)) = .ok bytes ∧
      word64.Spells (2 ^ 64 - 1) bytes := by
  have hitems : ∀ item ∈ extremes, item.1.Holds item.2 := by
    decide
  obtain ⟨bytes, hwrite, hspells, -⟩ :=
    numbers_round_trip.2.1 .signed64 (-(2 ^ 63 : Int)) (by decide)
  exact ⟨hitems, numbers_round_trip.1 _ hitems, bytes, hwrite, hspells⟩

end Varint

end SchemaWire
