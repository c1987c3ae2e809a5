import Mathlib.Data.Nat.Size
import SchemaWire.Proofs.Varint

/-!
# Numbers in arbitrary bytes

What the readers of numbers make of bytes that no writer has to have produced. The first byte that
announces no other one ends a number, and the last byte of a budget that is whole ends it whatever
it holds. The value is the sum of the payloads, seven bits further up from byte to byte, and only
this last byte decides whether it has too many bits. Spellings longer than needed are read like the
shortest one, and a stream is read like bytes in memory.
-/

namespace SchemaWire

/-- Reading a byte from a stream is reading a byte. -/
theorem Take.streamedByte_eq : streamedByte = byte := by
  funext input
  cases input <;> rfl

namespace Varint

/-- The budgets that numbers are read within. -/
def budgets : List Budget := [word32, word36, word64]

/-- Every budget has a byte at least. -/
theorem bytes_pos_of_mem : ∀ budget ∈ budgets, 0 < budget.bytes := by
  decide

namespace Budget

/-- Whether all bits of the byte at a place belong to the number. -/
def isWhole (budget : Budget) (place : Nat) : Bool :=
  budget.fullLast && place + 1 == budget.bytes

/-- The part of the number in the byte at a place. -/
def payload (budget : Budget) (place : Nat) (byte : UInt8) : Nat :=
  if budget.isWhole place then byte.toNat else byte.toNat % 128

/-- The sum of the payloads of bytes that stand at a place and behind it, each of them times two to
seven times its place. -/
def total (budget : Budget) : Nat → List UInt8 → Nat
  | _, [] => 0
  | place, byte :: rest => budget.payload place byte * 2 ^ (7 * place) + budget.total (place + 1) rest

/-- The byte at a place ends the number at the front of the input. -/
structure EndsAt (budget : Budget) (input : List UInt8) (place : Nat) : Prop where
  /-- The place is within the budget. -/
  within : place < budget.bytes
  /-- All bytes before the place announce another one. -/
  announced : ∀ byte ∈ input.take place, 128 ≤ byte.toNat
  /-- The byte at the place announces no other one, or it is whole. -/
  ends : ∃ byte, input[place]? = some byte ∧ (byte.toNat < 128 ∨ budget.isWhole place = true)

end Budget

variable {budget : Budget}

/-- A byte with others behind it in the budget gives seven bits to the number. -/
theorem Budget.payload_of_lt {place : Nat} {byte : UInt8}
    (h : budget.fullLast = true → place + 1 < budget.bytes) :
    budget.payload place byte = byte.toNat % 128 := by
  rw [payload, isWhole, if_neg]
  simp only [Bool.and_eq_true, beq_iff_eq]
  rintro ⟨hfull, heq⟩
  have hless := h hfull
  omega

/-- What the next byte does: a whole byte ends the number, and so does one that announces no other
one, if the number has the bits of the budget. -/
theorem takeGroups_cons (budget : Budget) (left shift value : Nat) (b : UInt8) (rest : List UInt8) :
    takeGroups Take.byte budget (left + 1) shift value (b :: rest) =
      if budget.fullLast = true ∧ left = 0 then .ok (value + b.toNat * 2 ^ shift) rest
      else if b.toNat < 128 then
        if value + b.toNat % 128 * 2 ^ shift < 2 ^ budget.bits then
          .ok (value + b.toNat % 128 * 2 ^ shift) rest
        else .error (.overflow budget.bits) rest
      else takeGroups Take.byte budget left (shift + 7) (value + b.toNat % 128 * 2 ^ shift) rest := by
  have hbyte : Take.byte (b :: rest) = .ok b rest := rfl
  rw [takeGroups, bind_of_ok hbyte]
  split
  · rfl
  · split
    · simp only
      split <;> rfl
    · rfl

/-- Bytes that announce another one are gone through, and their payloads are added up. -/
theorem takeGroups_announced (budget : Budget) {front : List UInt8} (rest : List UInt8)
    (left place value : Nat) (hfront : ∀ byte ∈ front, 128 ≤ byte.toNat)
    (hplace : place + left = budget.bytes) (hroom : front.length ≤ left)
    (hwhole : budget.fullLast = true → front.length < left) :
    takeGroups Take.byte budget left (7 * place) value (front ++ rest) =
      takeGroups Take.byte budget (left - front.length) (7 * (place + front.length))
        (value + budget.total place front) rest := by
  -- what is left of the budget shrinks as the place grows, so `hplace` holds at every byte
  induction front generalizing left place value with
  | nil => rfl
  | cons byte front ih =>
    rw [List.length_cons] at hroom hwhole ⊢
    obtain ⟨left, rfl⟩ : ∃ n, left = n + 1 := ⟨left - 1, by omega⟩
    have hlarge := hfront byte List.mem_cons_self
    have hnot : ¬ (budget.fullLast = true ∧ left = 0) := by
      rintro ⟨hfull, rfl⟩
      have hless := hwhole hfull
      omega
    have hpayload : budget.payload place byte = byte.toNat % 128 :=
      Budget.payload_of_lt fun hfull => by have hless := hwhole hfull; omega
    have hnext := ih left (place + 1) (value + byte.toNat % 128 * 2 ^ (7 * place))
      (fun b hb => hfront b (List.mem_cons_of_mem _ hb)) (by omega) (by omega)
      (fun hfull => by have hless := hwhole hfull; omega)
    rw [List.cons_append, takeGroups_cons, if_neg hnot, if_neg (Nat.not_lt.mpr hlarge),
      ← Nat.mul_succ, hnext, Budget.total, hpayload, Nat.add_sub_add_right, Nat.add_assoc value,
      Nat.add_right_comm place, Nat.add_assoc place]

/-- The payloads of a list of bytes with one byte more. -/
theorem Budget.total_concat (budget : Budget) (place : Nat) (front : List UInt8) (byte : UInt8) :
    budget.total place (front ++ [byte]) = budget.total place front +
      budget.payload (place + front.length) byte * 2 ^ (7 * (place + front.length)) := by
  induction front generalizing place with
  | nil => simp [total]
  | cons first front ih =>
    rw [List.cons_append, total, total, ih, List.length_cons, Nat.add_right_comm place,
      Nat.add_assoc place, Nat.add_assoc]

/-- Bytes that are not whole have seven bits each. -/
theorem Budget.total_lt (budget : Budget) (place : Nat) (bytes : List UInt8)
    (h : budget.fullLast = true → place + bytes.length < budget.bytes) :
    budget.total place bytes + 2 ^ (7 * place) ≤ 2 ^ (7 * (place + bytes.length)) := by
  induction bytes generalizing place with
  | nil => simp [total]
  | cons byte rest ih =>
    rw [List.length_cons] at h ⊢
    have hpayload : budget.payload place byte ≤ 127 := by
      rw [payload_of_lt fun hfull => by have hless := h hfull; omega]
      omega
    have hrest := ih (place + 1) (fun hfull => by have hless := h hfull; omega)
    calc budget.total place (byte :: rest) + 2 ^ (7 * place)
        = budget.payload place byte * 2 ^ (7 * place) + 2 ^ (7 * place)
            + budget.total (place + 1) rest := by rw [total, Nat.add_right_comm]
      _ ≤ 127 * 2 ^ (7 * place) + 2 ^ (7 * place) + budget.total (place + 1) rest :=
          Nat.add_le_add_right (Nat.add_le_add_right (Nat.mul_le_mul_right _ hpayload) _) _
      _ = budget.total (place + 1) rest + 2 ^ (7 * (place + 1)) := by ring
      _ ≤ 2 ^ (7 * (place + (rest.length + 1))) := by
          rw [Nat.add_right_comm] at hrest
          exact hrest

/-- A whole byte ends a budget that has room for all its bits. -/
theorem room_of_fullLast : ∀ budget ∈ budgets, budget.fullLast = true →
    2 ^ (7 * (budget.bytes - 1)) * 256 ≤ 2 ^ budget.bits := by
  decide

/-- The byte that ends a number decides whether the number has too many bits. -/
theorem takeGroups_ends (h : budget ∈ budgets) {left place value : Nat} {byte : UInt8}
    (rest : List UInt8) (hplace : place + (left + 1) = budget.bytes)
    (hvalue : value < 2 ^ (7 * place))
    (hends : byte.toNat < 128 ∨ budget.isWhole place = true) :
    takeGroups Take.byte budget (left + 1) (7 * place) value (byte :: rest) =
      if value + budget.payload place byte * 2 ^ (7 * place) < 2 ^ budget.bits then
        .ok (value + budget.payload place byte * 2 ^ (7 * place)) rest
      else .error (.overflow budget.bits) rest := by
  rw [takeGroups_cons, Budget.payload]
  cases hwhole : budget.isWhole place with
  | true =>
    simp only [Budget.isWhole, Bool.and_eq_true, beq_iff_eq] at hwhole
    have hroom := room_of_fullLast budget h hwhole.1
    have hbyte := byte.toNat_lt
    have hfits : value + byte.toNat * 2 ^ (7 * place) < 2 ^ budget.bits := by
      rw [show budget.bytes - 1 = place by omega] at hroom
      calc value + byte.toNat * 2 ^ (7 * place)
          < 2 ^ (7 * place) + byte.toNat * 2 ^ (7 * place) := Nat.add_lt_add_right hvalue _
        _ = (byte.toNat + 1) * 2 ^ (7 * place) := by ring
        _ ≤ 256 * 2 ^ (7 * place) := Nat.mul_le_mul_right _ hbyte
        _ ≤ 2 ^ budget.bits := by rw [Nat.mul_comm]; exact hroom
    rw [if_pos ⟨hwhole.1, by omega⟩, if_pos rfl, if_pos hfits]
  | false =>
    have hsmall : byte.toNat < 128 := hends.resolve_right (by rw [hwhole]; decide)
    have hnot : ¬ (budget.fullLast = true ∧ left = 0) := by
      rintro ⟨hfull, rfl⟩
      rw [Budget.isWhole, hfull, hplace, beq_self_eq_true] at hwhole
      cases hwhole
    rw [if_neg hnot, if_pos hsmall, if_neg Bool.false_ne_true]

namespace Budget.EndsAt

variable {input : List UInt8} {place : Nat}

/-- A number that ends has bytes in front of its last one. -/
theorem eq_append (h : budget.EndsAt input place) :
    ∃ byte, (byte.toNat < 128 ∨ budget.isWhole place = true) ∧ (input.take place).length = place ∧
      input.take (place + 1) = input.take place ++ [byte] ∧
      input = input.take place ++ byte :: input.drop (place + 1) := by
  obtain ⟨byte, hbyte, hends⟩ := h.ends
  obtain ⟨hlt, heq⟩ := List.getElem?_eq_some_iff.mp hbyte
  refine ⟨byte, hends, List.length_take_of_le hlt.le, ?_, ?_⟩
  · rw [List.take_add_one, hbyte, Option.toList_some]
  · rw [← heq, List.getElem_cons_drop, List.take_append_drop]

/-- A number is read up to the byte that ends it. -/
theorem take_eq (hbudget : budget ∈ budgets) (h : budget.EndsAt input place) :
    take budget input =
      if budget.total 0 (input.take (place + 1)) < 2 ^ budget.bits then
        .ok (budget.total 0 (input.take (place + 1))) (input.drop (place + 1))
      else .error (.overflow budget.bits) (input.drop (place + 1)) := by
  obtain ⟨byte, hends, hlength, hfront, hinput⟩ := h.eq_append
  have hwithin := h.within
  have hvalue := budget.total_lt 0 (input.take place) (fun _ => by omega)
  have hpass := takeGroups_announced budget (byte :: input.drop (place + 1)) budget.bytes 0 0
    h.announced (by omega) (by omega) (fun _ => by omega)
  rw [Nat.zero_add, hlength] at hvalue
  rw [← hinput, hlength, Nat.zero_add, Nat.zero_add, Nat.mul_zero,
    show budget.bytes - place = budget.bytes - place - 1 + 1 by omega] at hpass
  rw [take, hpass, takeGroups_ends hbudget _ (by omega) (by omega) hends, hfront, total_concat,
    hlength, Nat.zero_add]

end Budget.EndsAt

/-- Where no byte ends a number, all bytes within the budget announce another one. -/
theorem announced_of_not_endsAt {input : List UInt8} (h : ∀ place, ¬ budget.EndsAt input place)
    {count : Nat} (hcount : count ≤ budget.bytes) : ∀ byte ∈ input.take count, 128 ≤ byte.toNat := by
  induction count with
  | zero => simp
  | succ count ih =>
    have hbefore := ih (Nat.le_of_succ_le hcount)
    intro byte hbyte
    rw [List.take_add_one, List.mem_append, Option.mem_toList] at hbyte
    rcases hbyte with hmem | hlast
    · exact hbefore byte hmem
    · by_contra hsmall
      exact h count ⟨hcount, hbefore, byte, hlast, .inl (Nat.lt_of_not_le hsmall)⟩

/-- A number that no byte ends runs past the budget, or past the input. -/
theorem take_of_not_endsAt (hbudget : budget ∈ budgets) {input : List UInt8}
    (h : ∀ place, ¬ budget.EndsAt input place) :
    take budget input =
      if budget.bytes ≤ input.length then .error (.overflow budget.bits) (input.drop budget.bytes)
      else .error (.unexpectedEnd 1) [] := by
  have hannounced := announced_of_not_endsAt h (Nat.le_refl _)
  by_cases hlong : budget.bytes ≤ input.length
  · have hlength : (input.take budget.bytes).length = budget.bytes := List.length_take_of_le hlong
    have hpos := bytes_pos_of_mem budget hbudget
    have hfull : budget.fullLast ≠ true := by
      intro hfull
      -- the last byte of the budget would be whole and end the number
      refine h (budget.bytes - 1) ⟨by omega, announced_of_not_endsAt h (by omega),
        input[budget.bytes - 1], List.getElem?_eq_getElem (by omega), .inr ?_⟩
      rw [Budget.isWhole, hfull, Nat.sub_add_cancel hpos, beq_self_eq_true]
      rfl
    have hpass := takeGroups_announced budget (input.drop budget.bytes) budget.bytes 0 0
      hannounced (by omega) (by omega) (fun hf => absurd hf hfull)
    rw [List.take_append_drop, hlength, Nat.sub_self] at hpass
    rw [if_pos hlong]
    exact hpass
  · rw [List.take_of_length_le (by omega)] at hannounced
    have hpass := takeGroups_announced budget [] budget.bytes 0 0 hannounced (by omega)
      (by omega) (fun _ => by omega)
    rw [List.append_nil,
      show budget.bytes - input.length = budget.bytes - input.length - 1 + 1 by omega] at hpass
    rw [if_neg hlong]
    exact hpass

/-- A number takes at most some bytes if it has at most seven bits for each of them, or if no
number takes more. -/
theorem length_groups_le_iff (more n k : Nat) :
    (groups more n).length ≤ k ↔ more < k ∨ (0 < k ∧ n < 2 ^ (7 * k)) := by
  -- a number that announces another byte hands on seven bits less, to be held by one byte less
  induction more generalizing n k with
  | zero =>
    rw [groups, List.length_singleton]
    omega
  | succ more ih =>
    cases k with
    | zero =>
      have hpos := length_groups_pos (more + 1) n
      omega
    | succ k =>
      have hpow : 2 ^ (7 * (k + 1)) = 2 ^ (7 * k) * 128 := Nat.pow_add 2 (7 * k) 7
      have hone := Nat.two_pow_pos (7 * k)
      rw [groups, hpow]
      by_cases hsmall : n < 128
      · rw [if_pos hsmall, List.length_singleton]
        omega
      · rw [if_neg hsmall, List.length_cons, Nat.add_le_add_iff_right, ih,
          Nat.div_lt_iff_lt_mul (by decide)]
        rcases Nat.eq_zero_or_pos k with rfl | hk
        · omega
        · omega

/-- Writing a number that was read never takes more bytes than reading it took, and the number has
the bits of the budget. -/
theorem encode_le_of_take_ok (hbudget : budget ∈ budgets) {input rest : List UInt8} {n : Nat}
    (h : take budget input = .ok n rest) :
    n < 2 ^ budget.bits ∧ (encode budget n).length + rest.length ≤ input.length := by
  by_cases hends : ∃ place, budget.EndsAt input place
  · obtain ⟨place, hplace⟩ := hends
    rw [hplace.take_eq hbudget] at h
    split at h
    next hfits =>
      cases h
      obtain ⟨byte, -, hlength, hfront, hinput⟩ := hplace.eq_append
      have hinput := congrArg List.length hinput
      have hwithin := hplace.within
      rw [List.length_append, List.length_cons, hlength] at hinput
      have hshort : (encode budget (budget.total 0 (input.take (place + 1)))).length
          ≤ place + 1 := by
        rw [encode, length_groups_le_iff]
        by_cases hlast : place + 1 = budget.bytes
        · exact .inl (by omega)
        · have hcount : (input.take (place + 1)).length = place + 1 := by
            rw [hfront, List.length_append, List.length_singleton, hlength]
          have hbits := budget.total_lt 0 (input.take (place + 1)) (fun _ => by omega)
          rw [hcount, Nat.zero_add] at hbits
          exact .inr ⟨Nat.succ_pos _, by omega⟩
      exact ⟨hfits, by omega⟩
    next => cases h
  · rw [take_of_not_endsAt hbudget (not_exists.mp hends)] at h
    split at h <;> cases h

/-- A number has 32 bits, and its shortest spelling is not longer than the one that was read. -/
theorem yields_take32 :
    Take.Yields take32 fun n used => n < 2 ^ 32 ∧ (encode32 n).length ≤ used := by
  intro input n rest h
  obtain ⟨hlt, hlength⟩ := encode_le_of_take_ok (by decide) h
  exact ⟨input.length - rest.length, by omega, hlt, Nat.le_sub_of_add_le hlength⟩

/-- Reading a number from a stream is reading it from memory. -/
theorem takeStreamed_eq (budget : Budget) : takeStreamed budget = take budget := by
  rw [takeStreamed, take, Take.streamedByte_eq]

/-- What any bytes are read as, within any budget. Where a byte ends a number, the bytes up to it are
taken, and the number is the sum of their payloads, unless that sum has too many bits. Where no byte
ends one, all bytes of the budget are taken and the number has too many bits, or the input is used
up and misses one byte. A number that was read is written again in no more bytes than reading it
took. In a stream all of this is the same. -/
theorem any_bytes_read (hbudget : budget ∈ budgets) (input : List UInt8) :
    (∀ place, budget.EndsAt input place →
      take budget input =
        if budget.total 0 (input.take (place + 1)) < 2 ^ budget.bits then
          .ok (budget.total 0 (input.take (place + 1))) (input.drop (place + 1))
        else .error (.overflow budget.bits) (input.drop (place + 1))) ∧
    ((∀ place, ¬ budget.EndsAt input place) →
      take budget input =
        if budget.bytes ≤ input.length then .error (.overflow budget.bits) (input.drop budget.bytes)
        else .error (.unexpectedEnd 1) []) ∧
    (∀ n rest, take budget input = .ok n rest →
      n < 2 ^ budget.bits ∧ (encode budget n).length + rest.length ≤ input.length) ∧
    takeStreamed32 input = take32 input ∧ takeStreamed64 input = take64 input :=
  ⟨fun _ hends => hends.take_eq hbudget, take_of_not_endsAt hbudget,
    fun _ _ => encode_le_of_take_ok hbudget, congrFun (takeStreamed_eq word32) input,
    congrFun (takeStreamed_eq word64) input⟩

/-- A number of 64 bits whose low bits are spelled out as zeros, and whose ninth byte is whole. -/
theorem any_bytes_read_padded :
    word64 ∈ budgets ∧
      word64.EndsAt [128, 128, 128, 128, 128, 128, 128, 128, 255, 7] 8 ∧
      take64 [128, 128, 128, 128, 128, 128, 128, 128, 255, 7] = .ok (255 * 2 ^ 56) [7] := by
  have hbudget : word64 ∈ budgets := by decide
  have hends : word64.EndsAt [128, 128, 128, 128, 128, 128, 128, 128, 255, 7] 8 :=
    ⟨by decide, by decide +kernel, 255, rfl, .inr rfl⟩
  have htotal : word64.total 0 [128, 128, 128, 128, 128, 128, 128, 128, 255] = 255 * 2 ^ 56 := by
    decide
  have hread := (any_bytes_read hbudget _).1 8 hends
  exact ⟨hbudget, hends, hread.trans (by rw [← htotal]; exact if_pos (by decide))⟩

end Varint

end SchemaWire
