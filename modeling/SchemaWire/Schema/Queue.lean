import SchemaWire.Schema.Blob
import SchemaWire.Schema.Derive

/-!
# Queues of schemas

While a message is written, the schema of every struct type in it is queued once. Values
refer to the place of the schema in the queue, and the queue is written after the data.
-/

namespace SchemaWire

/-- A queued schema. -/
structure QueuedSchema where
  /-- The type that the schema describes. -/
  host : HostType
  /-- The written schema. -/
  blob : List UInt8
  deriving DecidableEq, Repr

/-- The schemas queued so far, in the order of their first use. -/
abbrev SchemaQueue := List QueuedSchema

namespace SchemaQueue

/-- The number that refers to a place of the queue. -/
def reference (index : Nat) : Nat :=
  2 * (index + 1) + 1

/-- Queue the schema of a type, unless it was queued before, and give its place. -/
def register (registry : Registry) (spec : TypeSpec) : EStateM Error SchemaQueue Nat := do
  match spec.host with
  | none => throw (.builtinSchema spec.label)
  | some host =>
    let queue ← get
    match queue.findIdx? fun queued => queued.host == host with
    | some index => return index
    | none =>
      let schema ← MonadExcept.ofExcept (Schema.ofSpec registry spec true)
      let blob ← MonadExcept.ofExcept schema.encode
      set (queue ++ [⟨host, blob⟩])
      return queue.length

/-- The section after the data: the number of schemas, and their blobs. -/
def encode (queue : SchemaQueue) : List UInt8 :=
  Varint.encode32 queue.length ++ queue.flatMap QueuedSchema.blob

end SchemaQueue

end SchemaWire
