import Mathlib.Data.List.Forall2
import SchemaWire.Bytes.Take

/-!
# Exact readers

A reader is exact on some bytes when it takes these bytes and no others, whatever follows
them. Exactness composes: a reader made of exact readers is exact on the bytes of its parts,
one after the other. Every round trip of this library is an exactness statement, so a value
can be read in the middle of a message as well as at its end.

Of other bytes a reader can make the same value. What is known of such a value and of the number of
bytes that it was read from composes in the same way.
-/

namespace SchemaWire

/-- What stands at a position of a list stands there in all lists that start with it. -/
theorem getElem?_of_starts {α : Type} {front whole : List α} (h : front <+: whole)
    {i : Nat} {a : α} (ha : front[i]? = some a) : whole[i]? = some a := by
  obtain ⟨back, rfl⟩ := h
  obtain ⟨hi, -⟩ := List.getElem?_eq_some_iff.mp ha
  rwa [List.getElem?_append_left hi]

/-- What stands at a place of one list is related to what stands there in the other. -/
theorem exists_getElem?_of_forall₂ {α β : Type} {R : α → β → Prop} {xs : List α} {ys : List β}
    (h : List.Forall₂ R xs ys) {i : Nat} {x : α} (hx : xs[i]? = some x) :
    ∃ y, ys[i]? = some y ∧ R x y := by
  induction h generalizing i with
  | nil => cases hx
  | cons hfirst _ ih =>
    cases i with
    | zero =>
      cases hx
      exact ⟨_, rfl, hfirst⟩
    | succ i => exact ih hx

section Sequencing

variable {ε σ α β : Type}

/-- A sequence goes on with the result of its first part. -/
theorem bind_of_ok {x : EStateM ε σ α} {f : α → EStateM ε σ β} {s s' : σ} {a : α}
    (h : x s = .ok a s') : (x >>= f) s = f a s' := by
  change EStateM.bind x f s = _
  simp only [EStateM.bind, h]

/-- A sequence fails where its first part fails. -/
theorem bind_of_error {x : EStateM ε σ α} {f : α → EStateM ε σ β} {s s' : σ} {e : ε}
    (h : x s = .error e s') : (x >>= f) s = .error e s' := by
  change EStateM.bind x f s = _
  simp only [EStateM.bind, h]

/-- A sequence that succeeds is made of two successes. -/
theorem exists_of_bind_ok {x : EStateM ε σ α} {f : α → EStateM ε σ β} {s s' : σ} {b : β}
    (h : (x >>= f) s = .ok b s') : ∃ a t, x s = .ok a t ∧ f a t = .ok b s' := by
  cases hx : x s with
  | ok a t => exact ⟨a, t, rfl, by rw [bind_of_ok hx] at h; exact h⟩
  | error e t => rw [bind_of_error hx] at h; cases h

/-- A sequence that fails has failed in its first part, or behind it. -/
theorem error_or_of_bind_error {x : EStateM ε σ α} {f : α → EStateM ε σ β} {s s' : σ} {e : ε}
    (h : (x >>= f) s = .error e s') :
    x s = .error e s' ∨ ∃ a t, x s = .ok a t ∧ f a t = .error e s' := by
  cases hx : x s with
  | ok a t => exact .inr ⟨a, t, rfl, by rw [bind_of_ok hx] at h; exact h⟩
  | error e t => rw [bind_of_error hx] at h; cases h; exact .inl rfl

/-- A computation without state that succeeds within a sequence gives its result. -/
theorem ofExcept_bind_of_ok {e : Except ε α} {a : α} (h : e = .ok a)
    (f : α → EStateM ε σ β) (s : σ) : (MonadExcept.ofExcept e >>= f) s = f a s := by
  subst h
  rfl

/-- A computation without state leaves the state as it is. -/
theorem exists_of_ofExcept_ok {e : Except ε α} {s s' : σ} {a : α}
    (h : (MonadExcept.ofExcept e : EStateM ε σ α) s = .ok a s') : e = .ok a ∧ s' = s := by
  cases e with
  | ok b => cases h; exact ⟨rfl, rfl⟩
  | error err => cases h

/-- A sequence of computations without state that succeeds is made of two successes. -/
theorem exists_of_except_bind_ok {x : Except ε α} {f : α → Except ε β} {b : β}
    (h : (x >>= f) = .ok b) : ∃ a, x = .ok a ∧ f a = .ok b := by
  cases x with
  | ok a => exact ⟨a, rfl, h⟩
  | error e => cases h

end Sequencing

namespace Take

variable {α β : Type}

/-- The reader takes exactly the given bytes, whatever follows them, and gives the value. -/
def Reads (reader : Take α) (front : List UInt8) (value : α) : Prop :=
  ∀ back, reader (front ++ back) = .ok value back

/-- Nothing has to be read for a value that is known. -/
theorem Reads.pure (a : α) : Reads (Pure.pure a) [] a := fun _ => rfl

/-- Two exact readers in sequence are exact on their bytes in sequence. -/
theorem Reads.bind {reader : Take α} {next : α → Take β} {front back : List UInt8} {a : α} {b : β}
    (h : Reads reader front a) (hnext : Reads (next a) back b) :
    Reads (reader >>= next) (front ++ back) b := by
  intro rest
  rw [List.append_assoc, bind_of_ok (h (back ++ rest))]
  exact hnext rest

/-- An exact reader and one that takes nothing are exact on the bytes of the first. -/
theorem Reads.bind_nil {reader : Take α} {next : α → Take β} {front : List UInt8} {a : α} {b : β}
    (h : Reads reader front a) (hnext : Reads (next a) [] b) :
    Reads (reader >>= next) front b := by
  rw [← List.append_nil front]
  exact h.bind hnext

/-- What is made of the value afterwards takes no further bytes. -/
theorem Reads.map {reader : Take α} {front : List UInt8} {a : α} (h : Reads reader front a)
    (f : α → β) : Reads (do return f (← reader)) front (f a) := by
  intro rest
  exact bind_of_ok (h rest)

/-- A check that succeeds takes no bytes. -/
theorem Reads.ofExcept {e : Except Error α} {a : α} (h : e = .ok a) :
    Reads (MonadExcept.ofExcept e) [] a := by
  intro rest
  rw [h]
  rfl

/-- A check that succeeds in front of a reader takes no bytes. -/
theorem Reads.ofExcept_bind {e : Except Error α} {a : α} {next : α → Take β} {front : List UInt8}
    {b : β} (h : e = .ok a) (hnext : Reads (next a) front b) :
    Reads (MonadExcept.ofExcept e >>= next) front b := by
  intro rest
  rw [ofExcept_bind_of_ok h]
  exact hnext rest

/-- Reading as many bytes as there are is exact. -/
theorem reads_bytes (content : List UInt8) : Reads (bytes content.length) content content :=
  bytes_append content

/-- Passing over as many bytes as there are is exact. -/
theorem reads_skip (content : List UInt8) : Reads (skip content.length) content () :=
  fun back => bind_of_ok (bytes_append content back)

/-- Reading as many bytes from a stream as there are is exact. -/
theorem reads_exactly (content : List UInt8) : Reads (exactly content.length) content content := by
  intro back
  simp [exactly]

/-- Reading one byte is exact. -/
theorem reads_byte (b : UInt8) : Reads byte [b] b := fun _ => rfl

/-- Reading one byte from a stream is exact. -/
theorem reads_streamedByte (b : UInt8) : Reads streamedByte [b] b :=
  (reads_exactly [b]).map (·.headD 0)

/-- A byte in front of a reader's bytes. -/
theorem Reads.byte_bind {b : UInt8} {next : UInt8 → Take β} {front : List UInt8} {value : β}
    (h : Reads (next b) front value) : Reads (byte >>= next) (b :: front) value :=
  (reads_byte b).bind h

/-- A number below the bound of its width is read back from its bytes. -/
theorem reads_natural {width n : Nat} (h : n < 256 ^ width) :
    Reads (natural width) (LittleEndian.encode width n) n := by
  have hread := (reads_bytes (LittleEndian.encode width n)).map LittleEndian.decode
  rw [LittleEndian.length_encode, LittleEndian.decode_encode, Nat.mod_eq_of_lt h] at hread
  exact hread

/-- Reading a list is exact when reading its elements is. -/
theorem reads_times {reader : Take α} {fronts : List (List UInt8)} {values : List α}
    (h : List.Forall₂ (Reads reader) fronts values) :
    Reads (times reader values.length) fronts.flatten values := by
  induction h with
  | nil => exact .pure []
  | cons hfirst _ ih => exact hfirst.bind (ih.map (_ :: ·))

/-- Where the reader succeeds, the value has the property together with the number of bytes that
were taken for it. -/
def Yields (reader : Take α) (P : α → Nat → Prop) : Prop :=
  ∀ input a rest, reader input = .ok a rest →
    ∃ used, input.length = rest.length + used ∧ P a used

namespace Yields

variable {P : α → Nat → Prop} {Q : β → Nat → Prop}

/-- A value that is known takes no bytes. -/
theorem pure {a : α} (h : P a 0) : Yields (Pure.pure a) P := by
  rintro input _ _ ⟨⟩
  exact ⟨0, rfl, h⟩

/-- A reader that fails yields nothing. -/
theorem throw (e : Error) : Yields (MonadExcept.throw e) P := nofun

/-- A computation without state takes no bytes. -/
theorem ofExcept {e : Except Error α} (h : ∀ a, e = .ok a → P a 0) :
    Yields (MonadExcept.ofExcept e) P := by
  intro input a rest hread
  obtain ⟨ha, rfl⟩ := exists_of_ofExcept_ok hread
  exact ⟨0, rfl, h a ha⟩

/-- A sequence takes the bytes of its parts. -/
theorem bind {reader : Take α} {next : α → Take β} (h : Yields reader P)
    (hnext : ∀ a m, P a m → Yields (next a) fun b n => Q b (m + n)) :
    Yields (reader >>= next) Q := by
  intro input b rest hread
  obtain ⟨a, between, hfirst, hsecond⟩ := exists_of_bind_ok hread
  obtain ⟨m, hm, hP⟩ := h input a between hfirst
  obtain ⟨n, hn, hQ⟩ := hnext a m hP between b rest hsecond
  exact ⟨m + n, by omega, hQ⟩

/-- What is made of the value afterwards takes no further bytes. -/
theorem map {reader : Take α} {f : α → β} (h : Yields reader P) (hf : ∀ a n, P a n → Q (f a) n) :
    Yields (do return f (← reader)) Q :=
  h.bind fun a n ha => .pure (hf a n ha)

end Yields

/-- One byte is taken. -/
theorem yields_byte : Yields byte fun _ used => used = 1 := by
  rintro (_ | ⟨first, input⟩) b rest h
  · cases h
  · cases h
    exact ⟨1, rfl, rfl⟩

/-- As many bytes are taken as were asked for. -/
theorem yields_bytes (n : Nat) :
    Yields (bytes n) fun taken used => taken.length = n ∧ used = n := by
  intro input taken rest h
  unfold bytes at h
  by_cases hlength : (input.take n).length = n
  · simp only [if_pos hlength] at h
    cases h
    rw [List.length_take] at hlength
    exact ⟨n, by rw [List.length_drop]; omega, by rw [List.length_take, hlength], rfl⟩
  · simp only [if_neg hlength] at h
    cases h

end Take

end SchemaWire
