import SchemaWire.Message.Config
import SchemaWire.Name.Table
import SchemaWire.Schema.Queue
import SchemaWire.Value.Shape

/-!
# Type information

A value of a user type is preceded by its type id and by whatever else the reader needs to
recognise the type: a reference to a schema of the message, or a namespace and a name.
Writer and reader keep tables of what was said before.
-/

namespace SchemaWire

/-- Whether the type information of a kind refers to a schema. -/
def Kind.refersToSchema (kind : Kind) (compatible : Bool) : Bool :=
  kind.isCompatibleStruct || (compatible && kind.isNamed)

/-- What a writer has said so far within a message. -/
structure WriteTables where
  /-- The queued schemas. -/
  queue : SchemaQueue
  /-- The written names. -/
  names : Name.Table
  deriving DecidableEq, Repr

/-- The tables at the start of a message. -/
def WriteTables.empty : WriteTables := ⟨[], []⟩

/-- A writer of bytes. -/
abbrev Write := EStateM Error WriteTables

namespace Write

/-- Queue the schema of a type, and give its place. -/
def queueSchema (registry : Registry) (spec : TypeSpec) : Write Nat := fun tables =>
  match SchemaQueue.register registry spec tables.queue with
  | .ok index queue => .ok index { tables with queue := queue }
  | .error e queue => .error e { tables with queue := queue }

/-- Write a name. -/
def name (scheme : Name.Scheme) (s : String) : Write (List UInt8) := fun tables =>
  match Name.Table.write scheme s tables.names with
  | .ok bytes names => .ok bytes { tables with names := names }
  | .error e names => .error e { tables with names := names }

/-- Write the type information of a type. -/
def typeInfo (registry : Registry) (compatible : Bool) (spec : TypeSpec) : Write (List UInt8) := do
  let id := Varint.encode32 (spec.typeId compatible).toNat
  if (spec.kind compatible).refersToSchema compatible then
    let index ← queueSchema registry spec
    return id ++ Varint.encode32 (SchemaQueue.reference index)
  else
    match spec.registration? with
    | some (.name space typeName) =>
      let spaceBytes ← name .space space
      let nameBytes ← name .type typeName
      return id ++ spaceBytes ++ nameBytes
    | _ => return id

end Write

/-- What a reader knows of a value before its data. -/
inductive Resolved
  /-- A builtin of the given kind. -/
  | known (kind : Kind)
  /-- A struct with the fields of the given schema, in the writer's order. -/
  | struct (schema : Schema)
  /-- An enum. -/
  | enum
  /-- A value with a layout of its own, and the local type with that layout, if there is
  one. -/
  | ext (host : Option HostType)
  deriving DecidableEq, Repr

/-- A value that can be referred to later. -/
structure RefEntry where
  /-- The bytes of the message from the data of the value on. -/
  start : List UInt8
  /-- The wire type of the value. -/
  type : WireType
  /-- What the reader knew of the value. -/
  resolved : Resolved
  deriving DecidableEq, Repr

/-- What a reader of data keeps track of. -/
structure ReadState where
  /-- The bytes that are left. -/
  input : List UInt8
  /-- The names read so far. -/
  names : Name.Table
  /-- The values that can be referred to, in the order of their appearance. -/
  refs : List RefEntry
  deriving DecidableEq, Repr

/-- What a reader of data relies on. -/
structure ReadEnv where
  /-- The settings. -/
  config : Config
  /-- The registered types. -/
  registry : Registry
  /-- The shapes of user types. -/
  shapes : Shapes
  /-- The schemas of the message. -/
  schemas : List Schema

/-- A reader of data. -/
abbrev Read := EStateM Error ReadState

namespace Read

/-- A reader of bytes as a reader of data. -/
def take {α : Type} (reader : Take α) : Read α := fun state =>
  match reader state.input with
  | .ok value rest => .ok value { state with input := rest }
  | .error e rest => .error e { state with input := rest }

/-- What a reader of bytes finds next. The bytes stay where they are. -/
def peek {α : Type} (reader : Take α) : Read α := do
  let start ← get
  let value ← take reader
  set start
  return value

/-- Read a name. -/
def name (scheme : Name.Scheme) : Read String := fun state =>
  match Name.Table.take scheme ⟨state.input, state.names⟩ with
  | .ok s reading => .ok s { state with input := reading.input, names := reading.table }
  | .error e reading => .error e { state with input := reading.input, names := reading.table }

/-- The schema that a reference stands for. -/
def schemaAt (schemas : List Schema) (reference : Nat) : Except Error Schema :=
  if reference % 2 = 0 then .error .inlineSchema
  else if reference / 2 = 0 then .error (.schemaOutOfRange reference)
  else
    match schemas[reference / 2 - 1]? with
    | some schema => .ok schema
    | none => .error (.schemaOutOfRange reference)

/-- The type with a layout of its own that a local type is, if it is one. -/
def extHost? (spec : TypeSpec) : Option HostType :=
  match spec.role with
  | .ext _ => spec.host
  | _ => none

/-- What is known of a value whose schema travels with the message. -/
def ofSchema (registry : Registry) (kind : Kind) (schema : Schema) : Resolved :=
  if kind.isStruct then .struct schema
  else if kind.isEnum then .enum
  else
    let spec := if schema.byName then registry.ofName schema.space schema.name
      else registry.ofTypeId schema.typeId
    match spec with
    | .ok spec => .ext (extHost? spec)
    | .error _ => .ext none

/-- What is known of a value of a locally registered type, which has to belong to the family
of the kind. -/
def ofSpec (registry : Registry) (kind : Kind) (spec : TypeSpec) : Except Error Resolved :=
  match spec.role with
  | .struct .. =>
    if kind.isStruct then do
      let schema ← Schema.ofSpec registry spec false
      return .struct schema
    else .error (.carriedKind spec.label kind)
  | .enum _ => if kind.isEnum then .ok .enum else .error (.carriedKind spec.label kind)
  | .ext _ => if kind.isExt then .ok (.ext spec.host) else .error (.carriedKind spec.label kind)
  | .builtin _ => .error (.carriedKind spec.label kind)

/-- Read what follows the type id of a user type: a reference to a schema, a namespace and a
name, or nothing. -/
def userInfo (env : ReadEnv) (id : UInt32) (kind : Kind) : Read Resolved :=
  if kind.refersToSchema env.config.compatible then do
    let reference ← take Varint.take32
    let schema ← MonadExcept.ofExcept (schemaAt env.schemas reference)
    return ofSchema env.registry kind schema
  else if kind.isNamed then do
    let space ← name .space
    let typeName ← name .type
    let spec ← MonadExcept.ofExcept (env.registry.ofName space typeName)
    MonadExcept.ofExcept (ofSpec env.registry kind spec)
  else do
    let spec ← MonadExcept.ofExcept (env.registry.ofTypeId id)
    MonadExcept.ofExcept (ofSpec env.registry kind spec)

/-- Read type information. -/
def typeInfo (env : ReadEnv) : Read Resolved := do
  let id := UInt32.ofNat (← take Varint.take32)
  let kind ← MonadExcept.ofExcept (WireType.kindOf id)
  if !kind.isReadable then throw (.unreadableKind kind)
  if kind.isUser then userInfo env id kind else return .known kind

end Read

end SchemaWire
