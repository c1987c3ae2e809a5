import SchemaWire.Proofs.Data.Reading
import SchemaWire.Proofs.Data.Write
import SchemaWire.Proofs.Varint

/-!
# Writers and the readers of what they write

A writer and a reader of one message go through it in step. What the one writes the other
reads, and both come to the same table of names. Of the queue of schemas the reader knows
from the start what the writer has at the end.
-/

namespace SchemaWire

/-- A writer and a reader of one message. -/
structure Peers where
  /-- What the writer relies on. -/
  write : WriteEnv
  /-- What the reader relies on. -/
  read : ReadEnv
  /-- The queue of schemas at the end of the message. -/
  queue : SchemaQueue

namespace Peers

variable {peers : Peers} {α β : Type}

/-- Whenever the writer succeeds, from sound tables and with what the message announces, the
reader takes exactly the written bytes, gives the value and comes to the same names. -/
structure Mirrors (peers : Peers) (writer : Write (List UInt8)) (reader : Read α) (value : α) :
    Prop where
  /-- The writer keeps its tables. -/
  keeps : Write.Keeps peers.write.registry writer
  /-- The reader takes what was written. -/
  reads : ∀ before bytes after, before.Sound peers.write.registry →
    after.queue <+: peers.queue → writer before = .ok bytes after →
    reader.Reads before.names bytes value after.names

namespace Mirrors

variable {writer next : Write (List UInt8)} {reader : Read α} {a : α} {b : β}

/-- Bytes that do not depend on the tables are read by whoever reads them. -/
theorem pure {bytes : List UInt8} (h : ∀ names, reader.Reads names bytes a names) :
    peers.Mirrors (Pure.pure bytes) reader a := by
  refine ⟨.pure bytes, fun before found after _ _ hok => ?_⟩
  cases hok
  exact h before.names

/-- Bytes that do not depend on the tables are read by an exact reader of bytes. -/
theorem take {bytes : List UInt8} {reader : Take α} (h : reader.Reads bytes a) :
    peers.Mirrors (Pure.pure bytes) (Read.take reader) a :=
  .pure fun _ => Read.Reads.take h

/-- Nothing has to be read of a writer that fails. -/
theorem throw (e : Error) : peers.Mirrors (MonadExcept.throw e) reader a :=
  ⟨.throw e, nofun⟩

/-- Two writers in sequence are read by two readers in sequence. -/
theorem append {then' : α → Read β} (h : peers.Mirrors writer reader a)
    (hnext : peers.Mirrors next (then' a) b) :
    peers.Mirrors (do return (← writer) ++ (← next)) (reader >>= then') b := by
  constructor
  · exact h.keeps.bind fun _ => hnext.keeps.bind fun _ => .pure _
  · intro before bytes after hsound hqueue hok
    obtain ⟨front, between, hfront, hok⟩ := exists_of_bind_ok hok
    obtain ⟨back, last, hback, hok⟩ := exists_of_bind_ok hok
    cases hok
    have hgrows := h.keeps _ _ _ hfront
    have hlast := hnext.keeps _ _ _ hback
    have hfirst := h.reads _ _ _ hsound (hlast.queue.trans hqueue) hfront
    exact hfirst.bind (hnext.reads _ _ _ (hgrows.sound hsound) hqueue hback)

/-- What is made of the value afterwards has not been written. -/
theorem map (h : peers.Mirrors writer reader a) (f : α → β) :
    peers.Mirrors writer (do return f (← reader)) (f a) :=
  ⟨h.keeps, fun before bytes after hsound hqueue hok =>
    (h.reads before bytes after hsound hqueue hok).map f⟩

/-- A reader may take first what has not been written at all. -/
theorem nil_bind {first : Read β} {then' : β → Read α}
    (hfirst : ∀ names, first.Reads names [] b names) (h : peers.Mirrors writer (then' b) a) :
    peers.Mirrors writer (first >>= then') a :=
  ⟨h.keeps, fun before bytes after hsound hqueue hok =>
    (hfirst _).nil_bind (h.reads before bytes after hsound hqueue hok)⟩

/-- A reader may go on after the value with what has not been written. -/
theorem bind_nil {then' : α → Read β} (h : peers.Mirrors writer reader a)
    (hnext : ∀ names, (then' a).Reads names [] b names) :
    peers.Mirrors writer (reader >>= then') b :=
  ⟨h.keeps, fun before bytes after hsound hqueue hok =>
    (h.reads before bytes after hsound hqueue hok).bind_nil (hnext _)⟩

/-- A reader may check first what is known. -/
theorem check {e : Except Error β} {then' : β → Read α} (he : e = .ok b)
    (h : peers.Mirrors writer (then' b) a) :
    peers.Mirrors writer (MonadExcept.ofExcept e >>= then') a :=
  h.nil_bind fun _ => Read.Reads.ofExcept he

/-- A writer may check first, and the reader may rely on it. -/
theorem checked {e : Except Error β} {then' : β → Write (List UInt8)}
    (h : ∀ found, e = .ok found → peers.Mirrors (then' found) reader a) :
    peers.Mirrors (MonadExcept.ofExcept e >>= then') reader a := by
  constructor
  · exact Write.Keeps.ofExcept_bind fun found hfound => (h found hfound).keeps
  · intro before bytes after hsound hqueue hok
    obtain ⟨found, between, hfound, hnext⟩ := exists_of_bind_ok hok
    obtain ⟨he, rfl⟩ := exists_of_ofExcept_ok hfound
    exact (h found he).reads _ _ _ hsound hqueue hnext

/-- A length is read back. -/
theorem length (n : Nat) : peers.Mirrors (Write.length n) (Read.take Varint.take32) n := by
  unfold Write.length
  split
  next h => exact .take (Varint.reads_take32 h)
  next => exact .throw _

/-- A number of elements that is known is read back. -/
theorem size (n : Nat) : peers.Mirrors (Write.size true n) (Read.take Varint.take32) n :=
  length n

end Mirrors

end Peers

end SchemaWire
