import SchemaWire.Data.Skip
import SchemaWire.Name.Match

/-!
# Reading data

A value is read by what its writer said of it and by the shape that its reader asks for.
The fields of a struct arrive in the writer's order under the writer's names and are given
to the reader's fields whose names match. A value that stands again is read again from
where it first stood. Whoever reads a list, a set or a map has to take all of it.
-/

namespace SchemaWire

namespace Read

/-- Read a text in the encoding that its header names. -/
def textBody : Take String := do
  let header ← Varint.take36
  let content ← Take.bytes (header / 4)
  match header % 4 with
  | 0 => return Text.ofLatin1 content
  | 1 => MonadExcept.ofExcept (Text.ofUtf16 content)
  | 2 => MonadExcept.ofExcept (Text.ofUtf8 content)
  | other => throw (.unknownStringEncoding other)

/-- Read an integer of a fixed width. -/
def integerBody (t : IntType) : Take Int :=
  if t.isSigned then Take.integer t.bytes
  else do
    return (← Take.natural t.bytes)

/-- Read an integer for a shape that is given it as a value of the given type. -/
def number (t : IntType) (body : Take Int) (shape : Shape) : Read Datum := do
  let v ← take body
  MonadExcept.ofExcept (shape.ofInt t v)

/-- Read a builtin value of the given kind, whose contents are read by the given function. -/
def known (env : ReadEnv) (content : WireType → Shape → Read Datum) (kind : Kind)
    (type : WireType) (shape : Shape) : Read Datum :=
  match kind with
  | .boolean => do
    let byte ← take Take.byte
    MonadExcept.ofExcept (shape.ofBool (byte != 0))
  | .int8 => number .int8 (integerBody .int8) shape
  | .int16 => number .int16 (integerBody .int16) shape
  | .int32 => number .int32 (integerBody .int32) shape
  | .varInt32 => number .int32 Varint.takeSigned32 shape
  | .int64 => number .int64 (integerBody .int64) shape
  | .varInt64 => number .int64 Varint.takeSigned64 shape
  | .sliInt64 => number .int64 shortOrLong shape
  | .uint8 => number .uint8 (integerBody .uint8) shape
  | .uint16 => number .uint16 (integerBody .uint16) shape
  | .uint32 => number .uint32 (integerBody .uint32) shape
  | .uint64 => number .uint64 (integerBody .uint64) shape
  | .timestamp => number .int64 (integerBody .int64) shape
  | .localDate => number .int32 (integerBody .int32) shape
  | .float16 => do
    let bits ← take (Take.natural 2)
    MonadExcept.ofExcept
      (shape.ofFloat32 (UInt32.ofNat (FloatFormat.binary32.convert .binary16 bits)))
  | .float32 => do
    let bits ← take (Take.natural 4)
    MonadExcept.ofExcept (shape.ofFloat32 (UInt32.ofNat bits))
  | .float64 => do
    let bits ← take (Take.natural 8)
    MonadExcept.ofExcept (shape.ofFloat64 (UInt64.ofNat bits))
  | .string => do
    let s ← take textBody
    MonadExcept.ofExcept (shape.ofText s)
  | .binary => do
    let content ← take (do Take.bytes (← Varint.take32))
    MonadExcept.ofExcept (shape.ofBytes content)
  | .duration => do
    let seconds ← take Varint.takeSigned64
    let nanos ← take (Take.integer 4)
    let part : Elements ReadState := fun index shape =>
      MonadExcept.ofExcept
        ((env.shapes.resolve shape).ofInt .int64 (if index = 0 then seconds else nanos))
    return (← part.visit 2 shape).1
  | .list | .set => do
    let element ← MonadExcept.ofExcept (argument type 0)
    let count ← take Varint.take32
    let (value, taken) ← Elements.visit (fun _ => content element) count shape
    if taken < count then throw (.elementsLeft (count - taken))
    return value
  | .map => do
    let key ← MonadExcept.ofExcept (argument type 0)
    let value ← MonadExcept.ofExcept (argument type 1)
    let count ← take Varint.take32
    let (value, taken) ← Entries.visit ⟨fun _ => content key, fun _ => content value⟩ count shape
    if taken < count then throw (.entriesLeft (count - taken))
    return value
  | kind => throw (.unreadableKind kind)

/-- Read the fields of a struct for the reader's fields whose names match. A field that was
found before is not read again, and fields that match nothing are passed over. -/
def fields (content : WireType → Shape → Read Datum) (skip : WireType → Read Unit)
    (parts : List (Member Shape)) :
    List SchemaField → List (Nat × Datum) → Read (List (Nat × Datum))
  | [], found => return found
  | field :: rest, found => do
    let part? := do
      let place ← Name.match? (parts.map Member.name) field.name
      let part ← parts[place]?
      return (place, part)
    match part? with
    | some (place, part) =>
      if (found.lookup place).isSome then throw .rejected
      let value ← content field.type part.content
      fields content skip parts rest (found ++ [(place, value)])
    | none =>
      skip field.type
      fields content skip parts rest found

/-- Read a struct with the given schema, whose fields are read or passed over by the given
functions. -/
def struct (env : ReadEnv) (content : WireType → Shape → Read Datum)
    (skip : WireType → Read Unit) (schema : Schema) (shape : Shape) : Read Datum :=
  match shape with
  | .struct name parts => do
    let found ← fields content skip parts schema.fields []
    let parts ← MonadExcept.ofExcept (Member.assemble found parts 0)
    return .struct name parts
  | shape => do
    let key : Elements ReadState := fun index shape =>
      match schema.fields[index]? with
      | some field => MonadExcept.ofExcept ((env.shapes.resolve shape).ofName field.name)
      | none => throw .rejected
    let value : Elements ReadState := fun index shape =>
      match schema.fields[index]? with
      | some field => content field.type shape
      | none => throw .rejected
    return (← Entries.visit ⟨key, value⟩ schema.fields.length shape).1

/-- Read the data of an enum. -/
def enum (shape : Shape) : Read Datum := do
  let index ← take Varint.take32
  match shape with
  | .enum .. => MonadExcept.ofExcept (shape.ofVariantIndex index)
  | shape => MonadExcept.ofExcept (shape.ofInt .uint32 index)

/-- Read a value with a layout of its own, which does not describe itself. -/
def ext (env : ReadEnv) (fuel : Nat) (shape : Shape) : Read Datum :=
  match shape with
  | .any | .identifier | .choice _ => throw .selfDescribing
  | shape => take (Take.plainWithin env.shapes fuel shape)

/-- Read a value again from where it first stood, and come back. -/
def again (entry : RefEntry) (read : Spot → Read Datum) : Read Datum := do
  let here := (← get).input
  modify fun state => { state with input := entry.start }
  let value ← read (.entered entry.type entry.resolved)
  modify fun state => { state with input := here }
  return value

/-- The value of a shape where a value is missing. -/
def missing : Shape → Except Error Datum
  | .option _ => .ok .none
  | .ignored => .ok .unit
  | shape => .error (.nullValue s!"{shape.request} position")

/-- Read the data of a value, behind its annotations. What stands inside of it is read or
passed over by the given functions, and the number bounds how deep plain data are read. -/
def content (env : ReadEnv) (fuel : Nat) (read : Scope → Spot → Shape → Read Datum)
    (skip : Scope → Spot → Read Unit) (scope : Scope) (type : WireType) (resolved : Resolved)
    (shape : Shape) : Read Datum :=
  match shape, resolved with
  | .option content, resolved => do return .some (← read scope (.entered type resolved) content)
  | .ignored, resolved => do
    skip scope (.entered type resolved)
    return .unit
  | shape, .ext _ => ext env fuel shape
  | .newtype _ content, resolved => do
    return .newtype (← read scope (.entered type resolved) content)
  | shape, .struct schema => do
    let scope ← MonadExcept.ofExcept (scope.deeper env.config.maxDepth)
    struct env (fun type shape => read scope (.declared type) shape)
      (fun type => skip scope (.declared type)) schema shape
  | shape, .enum => enum shape
  | shape, .known kind =>
    known env (fun type shape => read scope (.declared type) shape) kind type shape

/-- Read a value. The first number bounds how deep the reading goes. -/
def datumWithin (env : ReadEnv) : Nat → Scope → Spot → Shape → Read Datum
  | 0, _, _, _ => throw .unfinished
  | fuel + 1, scope, spot, shape => do
    let shape := env.shapes.resolve shape
    if shape matches .refused then throw .rejected
    match ← enter env scope.recording spot with
    | .null => MonadExcept.ofExcept (missing shape)
    | .ref entry =>
      again entry fun spot => datumWithin env fuel { scope with recording := false } spot shape
    | .value type resolved =>
      content env fuel (datumWithin env fuel) (skipWithin env fuel) scope type resolved shape

end Read

end SchemaWire
