import SchemaWire.Data.Enter
import SchemaWire.Proofs.Name.Table

/-!
# Exact readers of data

Readers of data keep a table of names and record what can be referred to. Such a reader is
exact on some bytes, from one table of names to another, when it takes these bytes and no
others, whatever follows them and whatever was recorded before.
-/

namespace SchemaWire

namespace Read

/-- Reading a name takes its bytes and changes the table of names at the very end, if at all. -/
theorem name_eq (scheme : Name.Scheme) (s : ReadState) :
    name scheme s =
      match Name.Table.takeBy s.names scheme s.input with
      | .ok (found, after) rest => .ok found { s with input := rest, names := after }
      | .error e rest => .error e { s with input := rest } := by
  rw [name, Name.Table.take_eq]
  cases Name.Table.takeBy s.names scheme s.input with
  | ok found rest => rfl
  | error e rest => rfl

variable {α β : Type} {names between after : Name.Table}

/-- From the first table of names, the reader takes exactly the given bytes, gives the value
and leaves the second table. -/
def Reads (reader : Read α) (names : Name.Table) (front : List UInt8) (value : α)
    (after : Name.Table) : Prop :=
  ∀ back refs, ∃ refs', reader ⟨front ++ back, names, refs⟩ = .ok value ⟨back, after, refs'⟩

/-- Nothing has to be read for a value that is known. -/
theorem Reads.pure (a : α) : Reads (Pure.pure a) names [] a names :=
  fun _ refs => ⟨refs, rfl⟩

/-- Two exact readers in sequence are exact on their bytes in sequence. -/
theorem Reads.bind {reader : Read α} {next : α → Read β} {front back : List UInt8} {a : α} {b : β}
    (h : Reads reader names front a between) (hnext : Reads (next a) between back b after) :
    Reads (reader >>= next) names (front ++ back) b after := by
  intro rest refs
  obtain ⟨middle, hfirst⟩ := h (back ++ rest) refs
  obtain ⟨last, hsecond⟩ := hnext rest middle
  refine ⟨last, ?_⟩
  rw [List.append_assoc, bind_of_ok hfirst]
  exact hsecond

/-- An exact reader and one that takes nothing are exact on the bytes of the first. -/
theorem Reads.bind_nil {reader : Read α} {next : α → Read β} {front : List UInt8} {a : α} {b : β}
    (h : Reads reader names front a between) (hnext : Reads (next a) between [] b after) :
    Reads (reader >>= next) names front b after := by
  rw [← List.append_nil front]
  exact h.bind hnext

/-- A reader that takes nothing and an exact one are exact on the bytes of the second. -/
theorem Reads.nil_bind {reader : Read α} {next : α → Read β} {back : List UInt8} {a : α} {b : β}
    (h : Reads reader names [] a between) (hnext : Reads (next a) between back b after) :
    Reads (reader >>= next) names back b after :=
  h.bind hnext

/-- What is made of the value afterwards takes no further bytes. -/
theorem Reads.map {reader : Read α} {front : List UInt8} {a : α}
    (h : Reads reader names front a after) (f : α → β) :
    Reads (do return f (← reader)) names front (f a) after :=
  h.bind_nil (.pure (f a))

/-- A check that succeeds takes no bytes. -/
theorem Reads.ofExcept {e : Except Error α} {a : α} (h : e = .ok a) :
    Reads (MonadExcept.ofExcept e) names [] a names := by
  intro rest refs
  exact ⟨refs, by rw [h]; rfl⟩

/-- A check that succeeds in front of a reader takes no bytes. -/
theorem Reads.ofExcept_bind {e : Except Error α} {a : α} {next : α → Read β} {front : List UInt8}
    {b : β} (h : e = .ok a) (hnext : Reads (next a) names front b after) :
    Reads (MonadExcept.ofExcept e >>= next) names front b after :=
  (Reads.ofExcept h).nil_bind hnext

/-- An exact reader of bytes is an exact reader of data that keeps the names. -/
theorem Reads.take {reader : Take α} {front : List UInt8} {a : α}
    (h : Take.Reads reader front a) : Reads (Read.take reader) names front a names := by
  intro back refs
  exact ⟨refs, by rw [Read.take, h back]⟩

/-- An exact reader of bytes in front of an exact reader of data. -/
theorem Reads.take_bind {reader : Take α} {next : α → Read β} {front back : List UInt8} {a : α}
    {b : β} (h : Take.Reads reader front a) (hnext : Reads (next a) names back b after) :
    Reads (Read.take reader >>= next) names (front ++ back) b after :=
  (Reads.take h).bind hnext

/-- From the first table of names, the reader takes exactly the given bytes, and goes on from the
second table as the other reader does. -/
def LeadsTo (reader : Read α) (names : Name.Table) (front : List UInt8) (other : Read α)
    (after : Name.Table) : Prop :=
  ∀ back refs, ∃ refs', reader ⟨front ++ back, names, refs⟩ = other ⟨back, after, refs'⟩

/-- A sequence goes on as its second part where its first part has read its bytes. -/
theorem Reads.leadsTo {reader : Read α} {next : α → Read β} {front : List UInt8} {a : α}
    (h : Reads reader names front a after) :
    LeadsTo (reader >>= next) names front (next a) after := by
  intro back refs
  obtain ⟨last, hread⟩ := h back refs
  exact ⟨last, bind_of_ok hread⟩

/-- Two readers lead on one after the other. -/
theorem LeadsTo.trans {reader middle other : Read α} {front back : List UInt8}
    (h : LeadsTo reader names front middle between) (hnext : LeadsTo middle between back other after) :
    LeadsTo reader names (front ++ back) other after := by
  intro rest refs
  obtain ⟨refs', hfirst⟩ := h (back ++ rest) refs
  obtain ⟨last, hsecond⟩ := hnext rest refs'
  refine ⟨last, ?_⟩
  rw [List.append_assoc, hfirst]
  exact hsecond

/-- A sequence whose first part takes nothing leads to wherever its second part leads. -/
theorem Reads.leadsTo_trans {reader : Read α} {next : α → Read β} {back : List UInt8} {a : α}
    {other : Read β} (h : Reads reader names [] a between)
    (hnext : LeadsTo (next a) between back other after) :
    LeadsTo (reader >>= next) names back other after :=
  h.leadsTo.trans hnext

/-- Looking at what stands next leaves it where it is. -/
theorem peek_of_reads {reader : Take α} {front : List UInt8} {a : α}
    (h : Take.Reads reader front a) (back : List UInt8) (names : Name.Table)
    (refs : List RefEntry) :
    peek reader ⟨front ++ back, names, refs⟩ = .ok a ⟨front ++ back, names, refs⟩ := by
  have htake : take reader ⟨front ++ back, names, refs⟩ = .ok a ⟨back, names, refs⟩ := by
    rw [take, h back]
  exact bind_of_ok htake

/-- A reader that looks first at what stands next goes on as it does with what it saw. -/
theorem LeadsTo.peek {reader : Take α} {next : α → Read β} {front rest : List UInt8} {a : α}
    {other : Read β} (h : Take.Reads reader front a)
    (hnext : LeadsTo (next a) names (front ++ rest) other after) :
    LeadsTo (Read.peek reader >>= next) names (front ++ rest) other after := by
  intro back refs
  obtain ⟨last, hread⟩ := hnext back refs
  rw [List.append_assoc] at hread ⊢
  exact ⟨last, (bind_of_ok (peek_of_reads h _ _ _)).trans hread⟩

/-- Recording a value takes no bytes. -/
theorem reads_record (type : WireType) (resolved : Resolved) :
    Reads (record type resolved) names [] () names :=
  fun _ _ => ⟨_, rfl⟩

end Read

end SchemaWire
