import SchemaWire.Data.Places
import SchemaWire.Data.Read
import SchemaWire.Data.Write
import SchemaWire.Message.Frame
import SchemaWire.Message.Segments

/-!
# Engines

An engine writes values as messages and reads them back. It is made of its settings, its
registered types and the shapes of user types. Writers and readers may be handed the tables
of an earlier message; they start afresh all the same, since references never reach beyond
a message.
-/

namespace SchemaWire

/-- What writing and reading rely on. -/
structure Engine where
  /-- The settings. -/
  config : Config
  /-- The registered types. -/
  registry : Registry
  /-- The shapes of user types. -/
  shapes : Shapes

/-- What a reader expects of a message. -/
structure Target where
  /-- The printed name of the expected type. -/
  label : String
  /-- The declared type. -/
  declared : FieldType
  /-- The shape. -/
  shape : Shape

/-- What a reader keeps of a message: its schemas, its names and the values that can be
referred to. -/
structure ReadContext where
  /-- The schemas. -/
  schemas : List Schema
  /-- The names. -/
  names : Name.Table
  /-- The values that can be referred to. -/
  refs : List RefEntry
  deriving DecidableEq, Repr

/-- The context at the start of a message. -/
def ReadContext.empty : ReadContext := ⟨[], [], []⟩

/-- What a reader of messages works on. -/
structure Reading where
  /-- The bytes that are left of the stream. -/
  source : List UInt8
  /-- What is kept of the last message. -/
  context : ReadContext
  deriving DecidableEq, Repr

/-- The structure of a message, without its data. -/
structure Inspection where
  /-- The header. -/
  header : Header
  /-- The announced length of the body, where there is one. -/
  offset : Option Nat
  /-- The flag in front of the value, where there is one. -/
  refFlag : Option RefFlag
  /-- The type id of the value, where there is one. -/
  typeId : Option UInt32
  /-- The length of the body. -/
  bodyLength : Nat
  /-- The schemas. -/
  schemas : List Schema
  deriving DecidableEq, Repr

namespace Engine

/-- The flag in front of the top-level value. -/
def topFlag (config : Config) (spec : TypeSpec) : Option RefFlag :=
  match config.refMode with
  | .none => none
  | .nullOnly => some .notNull
  | .tracking => some (if spec.tracked then .refValue else .notNull)

/-- Write the body of a message: flag, type information and data. -/
def encodeBody (engine : Engine) (declared : FieldType) (value : Datum) : Write (List UInt8) := do
  let spec ← MonadExcept.ofExcept (engine.registry.resolve declared)
  let flag := (topFlag engine.config spec).toList.map RefFlag.toByte
  let info ← Write.typeInfo engine.registry engine.config.compatible spec
  let env : WriteEnv := ⟨engine.config, engine.registry⟩
  let data ← Write.datum env 0 (.declared declared false false) value
  return flag ++ info ++ data

/-- Write a value of a declared type as a message. -/
def encode (engine : Engine) (declared : FieldType) (value : Datum) : Write Message := do
  set WriteTables.empty
  let isNull := declared.nullable && value.isNull
  let header := (Header.ofConfig engine.config isNull).encode
  if isNull then return .single header
  let body ← encodeBody engine declared value
  if engine.config.compatible then
    if 2 ^ 32 ≤ body.length then throw (.range body.length 32)
    let schemas := SchemaQueue.encode (← get).queue
    return .patched (header ++ [0, 0, 0, 0] ++ body ++ schemas) header.length body.length
  else return .single (header ++ body)

/-- The value of a null message. -/
def nullValue (engine : Engine) (target : Target) : Except Error Datum :=
  if target.declared.nullable then (engine.shapes.resolve target.shape).ofNull
  else .error (.nullValue target.label)

/-- Read the flag in front of the top-level value. -/
def takeTopFlag (config : Config) : Read RefFlag :=
  Read.flag (config.refMode != .none)

/-- Read the top-level value, whose type id is known: its type information and its data. The
number bounds how deep the reading goes. -/
def decodeTyped (engine : Engine) (fuel : Nat) (target : Target) (schemas : List Schema)
    (recorded : Bool) (typeId : Nat) : Read Datum := do
  let env : ReadEnv := ⟨engine.config, engine.registry, engine.shapes, schemas⟩
  let resolved ← Read.typeInfo env
  let declared ← MonadExcept.ofExcept
    (WireType.ofFieldType engine.registry engine.config.compatible target.declared false)
  let type := { declared with id := UInt32.ofNat typeId }
  if recorded then Read.record type resolved
  Read.datumWithin env fuel ⟨0, true⟩ (.entered type resolved) target.shape

/-- Read the top-level value behind its flag. It starts with its type id. -/
def decodeValue (engine : Engine) (fuel : Nat) (target : Target) (schemas : List Schema)
    (recorded : Bool) : Read Datum := do
  engine.decodeTyped fuel target schemas recorded (← Read.peek Varint.take32)

/-- Read a value with which the input has to end. -/
def toEnd (read : Read Datum) : Read Datum := do
  let value ← read
  let left := (← get).input
  if left.isEmpty then return value else throw (.trailingValue left.length)

/-- Read the rest of a body behind the flag, which has to end with the value. -/
def decodeBehind (engine : Engine) (fuel : Nat) (target : Target) (schemas : List Schema) :
    RefFlag → Read Datum
  | .null => MonadExcept.ofExcept (engine.nullValue target)
  | .ref => throw .topLevelReference
  | .notNull => toEnd (engine.decodeValue fuel target schemas false)
  | .refValue => toEnd (engine.decodeValue fuel target schemas true)

/-- Read the body of a message. -/
def decodeBody (engine : Engine) (fuel : Nat) (target : Target) (schemas : List Schema) :
    Read Datum := do
  engine.decodeBehind fuel target schemas (← takeTopFlag engine.config)

/-- A reader of the stream as a reader of messages. -/
def fromSource {α : Type} (reader : Take α) : EStateM Error Reading α := fun reading =>
  match reader reading.source with
  | .ok value rest => .ok value { reading with source := rest }
  | .error e rest => .error e { reading with source := rest }

/-- Read the value of a frame. Its schemas are kept, and so is what reading recorded, whether
it succeeds or fails. -/
def decodeFrame (engine : Engine) (fuel : Nat) (target : Target) (frame : Frame) :
    EStateM Error Reading Datum := fun reading =>
  match engine.decodeBody fuel target frame.schemas ⟨frame.body, [], []⟩ with
  | .ok value state =>
    .ok value { reading with context := ⟨frame.schemas, state.names, state.refs⟩ }
  | .error e state =>
    .error e { reading with context := ⟨frame.schemas, state.names, state.refs⟩ }

/-- Read a message from a stream. The function says how deep the reading of a frame goes. -/
def decodeWith (engine : Engine) (fuel : Frame → Nat) (target : Target) :
    EStateM Error Reading Datum := do
  modify fun reading => { reading with context := .empty }
  let header ← fromSource (Header.takeStreamed engine.config)
  if header.isNull then MonadExcept.ofExcept (engine.nullValue target)
  else
    let frame ← fromSource (Frame.take engine.config)
    engine.decodeFrame (fuel frame) target frame

/-- Read a message from a stream. The number bounds how deep the reading goes. -/
def decodeWithin (engine : Engine) (fuel : Nat) : Target → EStateM Error Reading Datum :=
  engine.decodeWith fun _ => fuel

/-- How deep the reading of a frame goes at most: it comes by no place twice, unless it runs in
a circle. Reading fails at once where the expected type has no wire type. -/
def budget (engine : Engine) (target : Target) (frame : Frame) : Nat :=
  let env : ReadEnv := ⟨engine.config, engine.registry, engine.shapes, frame.schemas⟩
  match WireType.ofFieldType engine.registry engine.config.compatible target.declared false with
  | .ok type => env.placeCount type target.shape frame.body.length
  | .error _ => 0

/-- Read a message from a stream, as deep as reading goes that does not run in a circle. -/
def decode (engine : Engine) (target : Target) : EStateM Error Reading Datum :=
  engine.decodeWith (engine.budget target) target

/-- Read the structure of a message from a stream, and pass over its data. -/
def inspect (engine : Engine) : Take Inspection := do
  let header ← Header.takeStreamed engine.config
  if header.isNull then return ⟨header, none, none, none, 0, []⟩
  let frame ← Frame.take engine.config
  let report (refFlag : Option RefFlag) (typeId : Option UInt32) : Inspection :=
    ⟨header, frame.offset, refFlag, typeId, frame.body.length, frame.schemas⟩
  let top : Take (Option RefFlag × Option UInt32) := do
    let flag ←
      if engine.config.refMode = .none then pure none
      else do
        let byte ← Take.byte
        let flag ← MonadExcept.ofExcept (RefFlag.ofByte byte)
        pure (some flag)
    if flag = some .null then return (flag, none)
    return (flag, some (UInt32.ofNat (← Varint.take32)))
  match top frame.body with
  | .ok (flag, typeId) _ => return report flag typeId
  | .error e _ => throw e

end Engine

end SchemaWire
