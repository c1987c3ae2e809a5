import SchemaWire.Bytes.LittleEndian

/-!
# Messages as segments

A written message is a chain of segments. One that carries its schemas has three: what
stands before the offset, the offset, and the rest. A message is read from its front, and
the segments that were read go away. Whatever is done to it, it behaves as the list of its
bytes.
-/

namespace SchemaWire

/-- A message, or what is left of one. -/
structure Message where
  /-- The segments in order. -/
  segments : List (List UInt8)
  deriving DecidableEq, Repr

namespace Message

/-- The message without segments. -/
def empty : Message := ⟨[]⟩

/-- A message in one piece. -/
def single (bytes : List UInt8) : Message := ⟨[bytes]⟩

/-- A message whose four bytes at a position are replaced by an offset. -/
def patched (buffer : List UInt8) (position offset : Nat) : Message :=
  ⟨[buffer.take position, LittleEndian.encode 4 offset, buffer.drop (position + 4)]⟩

/-- The bytes that are left. -/
def toList (message : Message) : List UInt8 :=
  message.segments.flatten

/-- The number of bytes that are left. -/
def length (message : Message) : Nat :=
  (message.segments.map List.length).foldr (· + ·) 0

/-- Whether no byte is left. -/
def isEmpty (message : Message) : Bool :=
  message.length == 0

/-- Segments without the empty ones at the front. -/
def dropEmpty : List (List UInt8) → List (List UInt8)
  | [] :: rest => dropEmpty rest
  | segments => segments

/-- The first bytes that lie together. -/
def chunk (message : Message) : List UInt8 :=
  (message.segments.find? (!·.isEmpty)).getD []

/-- Segments without the given number of bytes at the front and without empty segments
there, if they have so many bytes. -/
def advanceSegments : Nat → List (List UInt8) → Option (List (List UInt8))
  | 0, [] => some []
  | _ + 1, [] => none
  | n, segment :: rest =>
    if segment.length ≤ n then advanceSegments (n - segment.length) rest
    else some (segment.drop n :: rest)

/-- The message behind the given number of bytes, if it has so many. -/
def advance? (message : Message) (n : Nat) : Option Message :=
  (advanceSegments n message.segments).map Message.mk

/-- The first bytes that lie together, and the message without empty segments before them. -/
def fill (message : Message) : List UInt8 × Message :=
  (message.chunk, ⟨dropEmpty message.segments⟩)

/-- Read at most the given number of bytes. -/
def read (message : Message) (n : Nat) : List UInt8 × Message :=
  let bytes := message.toList.take n
  if bytes.isEmpty then ([], message)
  else (bytes, (message.advance? bytes.length).getD empty)

/-- Read a number of the given width, if there are so many bytes. -/
def natural? (message : Message) (width : Nat) : Option (Nat × Message) := do
  let rest ← message.advance? width
  return (LittleEndian.decode (message.toList.take width), rest)

/-- A message is as long as its bytes. -/
theorem length_toList (message : Message) : message.toList.length = message.length :=
  List.length_flatten

end Message

end SchemaWire
