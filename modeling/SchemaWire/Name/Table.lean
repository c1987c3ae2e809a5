import SchemaWire.Digest
import SchemaWire.Name.Scheme
import SchemaWire.Varint

/-!
# Tables of names

Within one message a name is spelled out once; later uses refer to it by its place in the
table of names seen so far. Writer and reader fill their tables in the same order. Names
count as equal when their bytes and their hashes agree, and the hash holds the encoding
flag in its low byte. A spelled-out name of up to sixteen bytes carries its flag, a longer
one its whole hash, which the reader trusts.
-/

namespace SchemaWire.Name

/-- A written name with its hash. -/
structure Entry where
  /-- The bytes of the name. -/
  bytes : List UInt8
  /-- The encoding of the bytes. -/
  encoding : Encoding
  /-- The hash that stands for the bytes and the encoding. -/
  hash : UInt64
  deriving DecidableEq, Repr

namespace Entry

/-- The hash of bytes in an encoding: the absolute value of the digest's first lane, with
the encoding flag in the low byte. -/
def hashOf (bytes : List UInt8) (encoding : Encoding) : UInt64 :=
  let hash := signedAbs (digest bytes metaSeed).h1
  let hash := if hash = 0 then 256 else hash
  (hash &&& 0xffffffffffffff00) ||| UInt64.ofNat encoding.flag

/-- The entry of bytes in an encoding, with the hash computed. -/
def of (bytes : List UInt8) (encoding : Encoding) : Entry :=
  ⟨bytes, encoding, hashOf bytes encoding⟩

/-- Whether two entries stand for the same name. -/
def same (a b : Entry) : Bool :=
  a.hash == b.hash && a.bytes == b.bytes

end Entry

/-- The names seen so far, in order. -/
abbrev Table := List Entry

namespace Table

/-- The greatest number of bytes of a name that travels without its hash. -/
def smallName : Nat := 16

/-- Write a name, or a reference to an earlier use of it. -/
def write (scheme : Scheme) (name : String) : EStateM Error Table (List UInt8) := do
  let (encoding, bytes) ← MonadExcept.ofExcept (scheme.encode name)
  let entry := Entry.of bytes encoding
  let table ← get
  match table.findIdx? entry.same with
  | some index => return Varint.encode32 (2 * (index + 1) + 1)
  | none =>
    let mark :=
      if smallName < bytes.length then LittleEndian.encode 8 entry.hash.toNat
      else [UInt8.ofNat encoding.flag]
    set (table ++ [entry])
    return Varint.encode32 (2 * bytes.length) ++ mark ++ bytes

/-- Read a name that is spelled out. -/
def takeEntry (size : Nat) : Take Entry := do
  if smallName < size then
    let hash ← Take.natural 8
    let encoding ← MonadExcept.ofExcept (Encoding.ofFlag (hash % 256))
    return ⟨← Take.bytes size, encoding, UInt64.ofNat hash⟩
  else
    let flag ← Take.byte
    let encoding ← MonadExcept.ofExcept (Encoding.ofFlag flag.toNat)
    return .of (← Take.bytes size) encoding

end Table

/-- What a reader of names works on. -/
structure TableReading where
  /-- The bytes that are left. -/
  input : List UInt8
  /-- The names read so far. -/
  table : Table
  deriving DecidableEq, Repr

namespace Table

/-- A reader of bytes as a reader of names. -/
def ofTake {α : Type} (reader : Take α) : EStateM Error TableReading α := fun reading =>
  match reader reading.input with
  | .ok value rest => .ok value { reading with input := rest }
  | .error e rest => .error e { reading with input := rest }

/-- Read a name, which is entered into the table if it is spelled out. -/
def take (scheme : Scheme) : EStateM Error TableReading String := do
  let header ← ofTake Varint.take32
  if header % 2 = 1 then
    if header / 2 = 0 then throw .nameBeforeFirst
    match (← get).table[header / 2 - 1]? with
    | none => throw (.nameOutOfRange (header / 2 - 1))
    | some entry => MonadExcept.ofExcept (scheme.decode entry.encoding entry.bytes)
  else
    let entry ← ofTake (takeEntry (header / 2))
    let name ← MonadExcept.ofExcept (scheme.decode entry.encoding entry.bytes)
    modify fun reading => { reading with table := reading.table ++ [entry] }
    return name

end Table

end SchemaWire.Name
