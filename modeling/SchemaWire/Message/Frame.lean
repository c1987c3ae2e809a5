import SchemaWire.Message.Header
import SchemaWire.Schema.Blob

/-!
# Frames

Behind the header of a message that carries its schemas stand the length of its body, the
body and the schemas, so that a stream can hold several such messages. The body of any
other message is all that is left of the stream.
-/

namespace SchemaWire

/-- A message behind its header. -/
structure Frame where
  /-- The announced length of the body, where there is one. -/
  offset : Option Nat
  /-- The body: everything before the schemas. -/
  body : List UInt8
  /-- The schemas. -/
  schemas : List Schema
  deriving DecidableEq, Repr

namespace Frame

/-- Read a body of the given length. Where the stream ends before, all of it is used up, and
the error tells how much is missing. -/
def takeBody (length : Nat) : Take (List UInt8) := fun input =>
  let body := input.take length
  if body.length = length then .ok body (input.drop length)
  else .error (.unexpectedEnd (length - body.length)) []

/-- Read a frame. -/
def take (config : Config) : Take Frame := do
  if config.compatible then
    let offset := LittleEndian.decode (← Take.exactly 4)
    let body ← takeBody offset
    let count ← Varint.takeStreamed32
    let schemas ← Take.times Schema.takeStreamed count
    return ⟨some offset, body, schemas⟩
  else return ⟨none, ← Take.rest, []⟩

end Frame

end SchemaWire
