import SchemaWire.Proofs.Schema.Blob
import SchemaWire.Proofs.Varint.Received

/-!
# Blobs in a stream and in memory

The reader of streams works out the size of a blob itself, collects the bytes, spells the size anew
and hands the copy to the reader of bytes in memory. On all bytes, written by anyone, the two
readers give the same schemas and come to the same places, and where one of them fails the other
one fails as well, with the same error. Only the number of missing bytes may differ where the input
ends too early.
-/

namespace SchemaWire

/-- Two errors are alike if they are the same, or if both say that the input ended too early. -/
def Error.Alike (e f : Error) : Prop :=
  e = f ∨ ∃ m n, e = .unexpectedEnd m ∧ f = .unexpectedEnd n

namespace Take

variable {α β : Type}

/-- Read values one after the other, as many as are asked for: every value with what is left of the
input after it, and the error of the first one that fails. -/
def successive (reader : Take α) : Nat → List UInt8 → List (α × List UInt8) × Option Error
  | 0, _ => ([], none)
  | count + 1, input =>
    match reader input with
    | .ok a rest =>
      let others := successive reader count rest
      ((a, rest) :: others.1, others.2)
    | .error e _ => ([], some e)

/-- Two outcomes of readers agree if both are the same value with the same rest, or both are errors
that are alike. -/
inductive Agree : EStateM.Result Error (List UInt8) α → EStateM.Result Error (List UInt8) α → Prop
  /-- Both give the value and leave the rest. -/
  | ok (a : α) (rest : List UInt8) : Agree (.ok a rest) (.ok a rest)
  /-- Both fail. -/
  | error {e f : Error} (left other : List UInt8) (h : e.Alike f) :
    Agree (.error e left) (.error f other)

/-- Outcomes agree with themselves. -/
theorem Agree.refl (result : EStateM.Result Error (List UInt8) α) : Agree result result := by
  cases result with
  | ok a rest => exact .ok a rest
  | error e rest => exact .error rest rest (.inl rfl)

/-- Sequences whose first parts agree, and that agree behind every value that these read, agree. -/
theorem Agree.bind {x y : Take α} {f g : α → Take β} {input : List UInt8}
    (h : Agree (x input) (y input))
    (hnext : ∀ a rest, y input = .ok a rest → Agree (f a rest) (g a rest)) :
    Agree ((x >>= f) input) ((y >>= g) input) := by
  generalize hx : x input = left at h
  generalize hy : y input = right at h
  cases h with
  | ok a rest =>
    rw [bind_of_ok hx, bind_of_ok hy]
    exact hnext a rest hy
  | error _ _ halike =>
    rw [bind_of_error hx, bind_of_error hy]
    exact .error _ _ halike

/-- As many bytes as were asked for have been read. -/
theorem length_of_bytes_ok {n : Nat} {input taken rest : List UInt8}
    (h : bytes n input = .ok taken rest) : taken.length = n := by
  unfold bytes at h
  by_cases hlength : (input.take n).length = n
  · simp only [if_pos hlength] at h
    cases h
    exact hlength
  · simp only [if_neg hlength] at h
    cases h

/-- Reading a number of bytes agrees in streams and in memory. -/
theorem agree_exactly (n : Nat) (input : List UInt8) : Agree (exactly n input) (bytes n input) := by
  unfold exactly bytes
  by_cases h : (input.take n).length = n
  · simp only [if_pos h]
    exact .ok _ _
  · simp only [if_neg h]
    exact .error _ _ (.inr ⟨_, _, rfl, rfl⟩)

/-- Readers that agree on all inputs agree when they read one value after the other. -/
theorem successive_agree {x y : Take α} (h : ∀ input, Agree (x input) (y input)) (count : Nat)
    (input : List UInt8) : (successive x count input).1 = (successive y count input).1 ∧
      Option.Rel Error.Alike (successive x count input).2 (successive y count input).2 := by
  induction count generalizing input with
  | zero => exact ⟨rfl, .none⟩
  | succ count ih =>
    have hfirst := h input
    rw [successive, successive]
    generalize x input = left at hfirst
    generalize y input = right at hfirst
    cases hfirst with
    | ok a rest =>
      obtain ⟨hvalues, herror⟩ := ih rest
      exact ⟨congrArg ((a, rest) :: ·) hvalues, herror⟩
    | error _ _ halike => exact ⟨rfl, .some halike⟩

end Take

namespace Schema

open Take (Reads Agree)

/-- A length in a stream is read like one in memory. -/
theorem takeLengthWith_streamed (limit n : Nat) :
    takeLengthWith Varint.takeStreamed32 limit n = takeLength limit n := by
  rw [takeLength, show Varint.takeStreamed32 = Varint.take32 from Varint.takeStreamed_eq _]

/-- What a word and the body behind it stand for: the schema in the body, if the word holds the
fingerprint of the body. -/
def verified (word : Nat) (body : List UInt8) : Except Error Schema :=
  if word / 2 ^ 14 ≠ (fingerprint body).toNat / 2 ^ 14 then
    .error (.hashMismatch (word / 2 ^ 14) ((fingerprint body).toNat / 2 ^ 14))
  else ofBody body

/-- A blob is a word, a size and a body that stands for a schema together with the word. -/
theorem take_eq : take = (do
    let word ← Take.bytes 8
    let size ← takeLength sizeLimit (LittleEndian.decode word % 4096)
    let body ← Take.bytes size
    MonadExcept.ofExcept (verified (LittleEndian.decode word) body)) := by
  have hverified (word : Nat) (body : List UInt8) :
      (do
        if word / 2 ^ 14 ≠ (fingerprint body).toNat / 2 ^ 14 then
          throw (.hashMismatch (word / 2 ^ 14) ((fingerprint body).toNat / 2 ^ 14))
        MonadExcept.ofExcept (ofBody body) : Take Schema) =
      MonadExcept.ofExcept (verified word body) := by
    unfold verified
    split
    · rfl
    · rfl
  simp only [take, Take.natural, bind_assoc, pure_bind, ← hverified]

/-- A length that was read is read from its shortest spelling as well. -/
theorem reads_takeLength_of_ok {limit n size : Nat} {input rest : List UInt8}
    (h : takeLength limit n input = .ok size rest) :
    Reads (takeLength limit n) (if n = limit then Varint.encode32 (size - n) else []) size := by
  unfold takeLength takeLengthWith at h ⊢
  by_cases hlimit : n = limit
  · rw [if_pos hlimit] at h
    simp only [if_pos hlimit]
    obtain ⟨more, between, hmore, heq⟩ := exists_of_bind_ok h
    cases heq
    have hlt := (Varint.encode_le_of_take_ok (by decide) hmore).1
    rw [Nat.add_sub_cancel_left]
    exact (Varint.reads_take32 hlt).map (n + ·)
  · rw [if_neg hlimit] at h
    simp only [if_neg hlimit]
    cases h
    exact .pure n

/-- A copy of a blob with the shortest spelling of its size stands for the same schema. -/
theorem take_copy {word body input rest : List UInt8} {size : Nat} (hword : word.length = 8)
    (hsize : takeLength sizeLimit (LittleEndian.decode word % 4096) input = .ok size rest)
    (hbody : body.length = size) :
    take (word ++ (if LittleEndian.decode word % 4096 = sizeLimit
        then Varint.encode32 (size - LittleEndian.decode word % 4096) else []) ++ body) =
      (MonadExcept.ofExcept (verified (LittleEndian.decode word) body) : Take Schema) [] := by
  have hfirst := Take.reads_bytes word
  have hlast := Take.reads_bytes body
  rw [hword] at hfirst
  rw [hbody] at hlast
  rw [take_eq, List.append_assoc, bind_of_ok (hfirst _),
    bind_of_ok (reads_takeLength_of_ok hsize body), ← List.append_nil body,
    bind_of_ok (hlast []), List.append_nil]

/-- Reading a blob agrees in streams and in memory. -/
theorem agree_take (input : List UInt8) : Agree (takeStreamed input) (take input) := by
  rw [take_eq, takeStreamed]
  refine (Take.agree_exactly 8 input).bind fun word afterWord hword => ?_
  simp only [takeLengthWith_streamed]
  refine (Agree.refl _).bind fun size afterSize hsize => ?_
  refine (Take.agree_exactly size afterSize).bind fun body rest hbody => ?_
  -- from here on only the word and the body count, and the copy has kept both
  rw [take_copy (Take.length_of_bytes_ok hword) hsize (Take.length_of_bytes_ok hbody)]
  cases verified (LittleEndian.decode word) body with
  | ok schema => exact .ok schema rest
  | error e => exact .error rest rest (.inl rfl)

/-- Blobs read one after the other from a stream and from memory, out of any bytes and as many as
are asked for, are the same schemas and leave the same rests, and the first one that fails is the
same, with errors that are alike. -/
theorem streamed_blobs_agree (count : Nat) (input : List UInt8) :
    (Take.successive takeStreamed count input).1 = (Take.successive take count input).1 ∧
      Option.Rel Error.Alike (Take.successive takeStreamed count input).2
        (Take.successive take count input).2 :=
  Take.successive_agree agree_take count input

/-- A stream misses all eight bytes of a word that it does not hold, memory the seven that are
missing. -/
example : (Take.successive takeStreamed 1 [0]).2 = some (.unexpectedEnd 8) ∧
    (Take.successive take 1 [0]).2 = some (.unexpectedEnd 7) :=
  ⟨rfl, rfl⟩

end Schema

end SchemaWire
