import SchemaWire.Name.Table
import SchemaWire.Schema.Basic

/-!
# Schema blobs

A schema is written as a word of 64 bits and a body. The word holds the size of the body
in its low twelve bits, a flag for the presence of fields, and a fingerprint of the body in
its upper fifty bits. Lengths that do not fit their few bits are continued by a
variable-length number that holds the excess.
-/

namespace SchemaWire

namespace Schema

/-- The size at which the size of a body is continued. -/
def sizeLimit : Nat := 0xfff

/-- The number of fields at which it is continued. -/
def countLimit : Nat := 31

/-- The length of a namespace or type name at which it is continued. -/
def nameLimit : Nat := 63

/-- The length of a field name, less one, at which it is continued. -/
def fieldNameLimit : Nat := 15

/-- The excess of a length over its limit, when the limit is reached. -/
def excess (limit n : Nat) : List UInt8 :=
  if limit ≤ n then Varint.encode32 (n - limit) else []

/-- The length that starts with the given bits. When the limit is reached, the excess is read
with the given reader. -/
def takeLengthWith (number : Take Nat) (limit n : Nat) : Take Nat := do
  if n = limit then return n + (← number) else return n

/-- The length that starts with the given bits, with its excess when the limit is reached. -/
def takeLength : Nat → Nat → Take Nat := takeLengthWith Varint.take32

/-- The fingerprint of a body, as it stands in the word before it. -/
def fingerprint (body : List UInt8) : UInt64 :=
  signedAbs ((digest body metaSeed).h1 <<< 14)

/-- Write a namespace or type name. -/
def encodeName (scheme : Name.Scheme) (name : String) : Except Error (List UInt8) := do
  let (encoding, bytes) ← scheme.encode name
  let mark := UInt8.ofNat (4 * min bytes.length nameLimit + encoding.flag)
  return mark :: excess nameLimit bytes.length ++ bytes

/-- Write a field. -/
def encodeField (field : SchemaField) : Except Error (List UInt8) := do
  let (encoding, bytes) ← Name.Scheme.field.encode field.name
  if bytes.isEmpty then throw .emptyFieldName
  let size := bytes.length - 1
  let mark := UInt8.ofNat (64 * encoding.flag + 4 * min size fieldNameLimit
    + 2 * field.nullable.toNat + field.tracked.toNat)
  let args ← field.type.encodeArgs
  return mark :: excess fieldNameLimit size ++ Varint.encode32 field.type.id.toNat ++ args ++ bytes

/-- Write fields one after the other. -/
def encodeFields : List SchemaField → Except Error (List UInt8)
  | [] => return []
  | field :: rest => do
    let bytes ← encodeField field
    let others ← encodeFields rest
    return bytes ++ others

/-- Write how the type is registered. -/
def encodeIdentity (schema : Schema) : Except Error (List UInt8) := do
  if schema.byName then
    let space ← encodeName .space schema.space
    let name ← encodeName .type schema.name
    return space ++ name
  else return Varint.encode32 schema.typeId.toNat

/-- Write the body of a blob. -/
def encodeBody (schema : Schema) : Except Error (List UInt8) := do
  let count := schema.fields.length
  let mark := UInt8.ofNat (min count countLimit + 32 * schema.byName.toNat)
  let identity ← schema.encodeIdentity
  let fields ← encodeFields schema.fields
  return mark :: excess countLimit count ++ identity ++ fields

/-- The word before a body. -/
def headerWord (hasFields : Bool) (body : List UInt8) : Nat :=
  (fingerprint body).toNat + 4096 * hasFields.toNat + min body.length sizeLimit

/-- Write a blob. -/
def encode (schema : Schema) : Except Error (List UInt8) := do
  let body ← schema.encodeBody
  let word := headerWord (!schema.fields.isEmpty) body
  return LittleEndian.encode 8 word ++ excess sizeLimit body.length ++ body

/-- Read a namespace or type name. -/
def takeName (scheme : Name.Scheme) : Take String := do
  let mark := (← Take.byte).toNat
  let encoding ← MonadExcept.ofExcept (Name.Encoding.ofFlag (mark % 4))
  let size ← takeLength nameLimit (mark / 4)
  let bytes ← Take.bytes size
  MonadExcept.ofExcept (scheme.decode encoding bytes)

/-- Read a field. -/
def takeField : Take SchemaField := do
  let mark := (← Take.byte).toNat
  let encoding ← MonadExcept.ofExcept (Name.Encoding.ofFlag (mark / 64))
  let size ← takeLength fieldNameLimit (mark / 4 % 16)
  let nullable := mark / 2 % 2 == 1
  let tracked := mark % 2 == 1
  let id := UInt32.ofNat (← Varint.take32)
  let args ← WireType.takeArgs id
  let bytes ← Take.bytes (size + 1)
  let name ← MonadExcept.ofExcept (Name.Scheme.field.decode encoding bytes)
  return ⟨name, nullable, tracked, ⟨id, nullable, tracked, args⟩⟩

/-- Read the body of a blob. -/
def takeBody : Take Schema := do
  let mark := (← Take.byte).toNat
  let count ← takeLength countLimit (mark % 32)
  if mark / 32 % 2 = 1 then
    let space ← takeName .space
    let name ← takeName .type
    return ⟨true, 0, space, name, ← Take.times takeField count⟩
  else
    let typeId := UInt32.ofNat (← Varint.take32)
    return ⟨false, typeId, "", "", ← Take.times takeField count⟩

/-- The schema with the given body, which must hold nothing else. -/
def ofBody (body : List UInt8) : Except Error Schema :=
  match takeBody body with
  | .error e _ => .error e
  | .ok schema rest =>
    if rest.isEmpty then .ok schema
    else .error (.trailingSchema rest.length schema.displayName)

/-- Read a blob from bytes in memory. -/
def take : Take Schema := do
  let word ← Take.natural 8
  let size ← takeLength sizeLimit (word % 4096)
  let body ← Take.bytes size
  let expected := word / 2 ^ 14
  let actual := (fingerprint body).toNat / 2 ^ 14
  if expected ≠ actual then throw (.hashMismatch expected actual)
  MonadExcept.ofExcept (ofBody body)

/-- Read a blob from a stream. Its bytes are collected first, so that nothing after them is
touched, with the shortest spelling of its size. -/
def takeStreamed : Take Schema := do
  let word ← Take.exactly 8
  let size := LittleEndian.decode word % 4096
  let length ← takeLengthWith Varint.takeStreamed32 sizeLimit size
  let body ← Take.exactly length
  let continued := if size = sizeLimit then Varint.encode32 (length - size) else []
  match take (word ++ continued ++ body) with
  | .ok schema _ => return schema
  | .error e _ => throw e

end Schema

end SchemaWire
