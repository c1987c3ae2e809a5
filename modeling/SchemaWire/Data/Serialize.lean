import SchemaWire.Data.Write

/-!
# Writing data event by event

A value is written by telling of its parts in order: a scalar, the start of a compound, its
elements or fields, its end. The serializer that is told keeps in mind which compounds are open,
which place waits for the next value, how many structs are nested, and, inside of a value with a
layout of its own, how many compounds of this value are open. Such a value ends with the event
that leaves none of them open, and the next value is annotated again.
-/

namespace SchemaWire

/-- A place that waits for the next value. -/
structure Slot where
  /-- The declared type. -/
  type : FieldType
  /-- Whether values in the place can be referred to. -/
  tracked : Bool
  /-- Whether the annotations are still to be written. -/
  annotated : Bool
  deriving DecidableEq, Repr

/-- A compound that is open, with the places in it. -/
inductive Compound
  /-- A struct with its declared fields and the number of those that were written. -/
  | struct (declared : List FieldDescriptor) (next : Nat)
  /-- A list or a set. -/
  | sequence (element : FieldType)
  /-- A map. -/
  | map (key value : FieldType)
  deriving DecidableEq, Repr

/-- What is kept in mind while a value is written. -/
structure Serializer where
  /-- The schemas and names that were written before. -/
  tables : WriteTables
  /-- The bytes that were written. -/
  buffer : List UInt8
  /-- The open compounds, the innermost first. -/
  frames : List Compound
  /-- The place that waits for a value, if one does. -/
  pending : Option Slot
  /-- The number of open compounds of the value with a layout of its own that is being written, if
  one is. -/
  plain : Option Nat
  /-- The number of open structs. -/
  depth : Nat
  deriving Repr

/-- A step of writing a value. -/
abbrev Serialize := EStateM Error Serializer

namespace Serialize

/-- Append the bytes of a writer. -/
def emit (writer : Write (List UInt8)) : Serialize Unit := fun s =>
  match writer s.tables with
  | .ok bytes tables => .ok () { s with tables := tables, buffer := s.buffer ++ bytes }
  | .error e tables => .error e { s with tables := tables }

/-- Take the place that waits for a value. -/
def takeSlot : Serialize Slot := fun s =>
  match s.pending with
  | some slot => .ok slot { s with pending := none }
  | none => .error .outsidePlace s

/-- Go on in a layout. A value with a layout of its own starts with no open compounds. -/
def lay : Layout → Serialize Layout
  | .plain => do
    modify fun s => { s with plain := some 0 }
    return .plain
  | layout => return layout

/-- Open the place for a value: its annotations are written, and its layout is known. -/
def enter (env : WriteEnv) : Serialize Layout := do
  if (← get).plain.isSome then return .plain
  let slot ← takeSlot
  let spec ← MonadExcept.ofExcept (env.registry.resolve slot.type)
  if slot.annotated then emit (Write.annotations env slot.type slot.tracked spec)
  lay (.of spec slot.type)

/-- A value with a layout of its own has ended, unless compounds of it are open. -/
def endScalar : Serialize Unit :=
  modify fun s => if s.plain = some 0 then { s with plain := none } else s

/-- A compound of a value with a layout of its own has started. -/
def openCompound : Serialize Unit :=
  modify fun s => { s with plain := s.plain.map (· + 1) }

/-- A compound of a value with a layout of its own has ended, and the value with its last one. -/
def closeCompound : Serialize Unit :=
  modify fun s =>
    match s.plain with
    | some (n + 2) => { s with plain := some (n + 1) }
    | _ => { s with plain := none }

/-- The innermost open compound has ended. A struct has to have all of its fields by then. -/
def close : Serialize Unit := do
  let s ← get
  if s.plain.isSome then closeCompound
  else
    match s.frames with
    | .struct declared next :: rest =>
      set { s with frames := rest, depth := s.depth - 1 }
      match declared[next]? with
      | none => return ()
      | some field => throw (.fieldMismatch field.name "<end of struct>")
    | _ :: rest => set { s with frames := rest }
    | [] => throw .closedTwice

/-- The place that waited for a value has to have got one. -/
def ensureWritten : Serialize Unit := do
  match (← get).pending with
  | none => return ()
  | some slot => throw (.nothingWritten slot.type.label)

/-- The next element of a sequence gets its place. -/
def nextElement : Serialize Unit := do
  let s ← get
  if s.plain.isNone then
    match s.frames with
    | .sequence element :: _ => set { s with pending := some ⟨element, false, true⟩ }
    | _ => throw .outsideSequence

/-- The next key of a map gets its place. -/
def nextKey : Serialize Unit := do
  let s ← get
  if s.plain.isNone then
    match s.frames with
    | .map key _ :: _ => set { s with pending := some ⟨key, false, true⟩ }
    | _ => throw .outsideMap

/-- The next value of a map gets its place. -/
def nextValue : Serialize Unit := do
  let s ← get
  if s.plain.isNone then
    match s.frames with
    | .map _ value :: _ => set { s with pending := some ⟨value, false, true⟩ }
    | _ => throw .outsideMap

/-- The next field of a struct gets its place. It has to be the one declared next. -/
def nextField (name : String) : Serialize Unit := do
  let s ← get
  if s.plain.isNone then
    match s.frames with
    | .struct declared next :: rest =>
      match declared[next]? with
      | none => throw (.fieldMismatch "<end of struct>" name)
      | some field =>
        if field.name ≠ name then throw (.fieldMismatch field.name name)
        set { s with
          frames := .struct declared (next + 1) :: rest
          pending := some ⟨field.type, field.tracked, true⟩ }
    | _ => throw .outsideStruct

/-- Write a scalar of the given kind, whose bytes may depend on the layout. -/
def scalar (env : WriteEnv) (kind : Kind) (plain typed : Write (List UInt8)) : Serialize Unit := do
  match ← enter env with
  | .plain =>
    emit plain
    endScalar
  | .typed spec _ =>
    if spec.role = .builtin kind then emit typed else throw (.notWritable spec.label kind)

/-- Write a text. -/
def text (env : WriteEnv) (s : String) : Serialize Unit :=
  let content := Text.utf8 s
  scalar env .string (Write.counted content) do
    let header ← MonadExcept.ofExcept (Varint.encode36 (4 * content.length + 2))
    return header ++ content

/-- Start a variant with a payload, which only plain layouts can hold. -/
def variant (env : WriteEnv) (enum : String) (index : Nat) (name : String) : Serialize Unit := do
  match ← enter env with
  | .plain => emit (pure (Varint.encode32 index))
  | .typed .. => throw (.variantPayload enum name)

/-- Start a sequence. -/
def startSequence (env : WriteEnv) (sized : Bool) (count : Nat) : Serialize Unit := do
  match ← enter env with
  | .plain =>
    emit (Write.size sized count)
    openCompound
  | .typed spec type =>
    match spec.element? type with
    | some element =>
      emit (Write.size sized count)
      modify fun s => { s with frames := .sequence element :: s.frames }
    | none => throw (.notSequence spec.label)

/-- Start a map. -/
def startMap (env : WriteEnv) (sized : Bool) (count : Nat) : Serialize Unit := do
  match ← enter env with
  | .plain =>
    emit (Write.size sized count)
    openCompound
  | .typed spec type =>
    match spec.arguments? type with
    | some (key, value) =>
      emit (Write.size sized count)
      modify fun s => { s with frames := .map key value :: s.frames }
    | none => throw (.notMap spec.label)

/-- Start values by position, which only plain layouts can hold. -/
def startTuple (env : WriteEnv) : Serialize Unit := do
  match ← enter env with
  | .plain => openCompound
  | .typed spec _ => throw (.tupleMisplaced spec.label)

/-- Open a struct with the declared fields, unless too many are open. -/
def openStruct (env : WriteEnv) (declared : List FieldDescriptor) : Serialize Unit := do
  modify fun s => { s with depth := s.depth + 1 }
  if env.config.maxDepth < (← get).depth then throw (.depthExceeded env.config.maxDepth)
  modify fun s => { s with frames := .struct declared 0 :: s.frames }

/-- Start a struct. -/
def startStruct (env : WriteEnv) (name : String) : Serialize Unit := do
  match ← enter env with
  | .plain => openCompound
  | .typed spec _ =>
    match spec.role with
    | .struct _ declared => openStruct env declared
    | _ => throw (.structMisplaced name spec.label)

mutual

/-- Write a value into the place that waits for it. -/
def datum (env : WriteEnv) : Datum → Serialize Unit
  | .bool b =>
    let content := [UInt8.ofNat b.toNat]
    scalar env .boolean (pure content) (pure content)
  | .int t v =>
    let content := LittleEndian.encodeSigned t.bytes v
    scalar env t.kind (pure content) (pure content)
  | .float32 bits =>
    let content := LittleEndian.encode 4 bits.toNat
    scalar env .float32 (pure content) (pure content)
  | .float64 bits =>
    let content := LittleEndian.encode 8 bits.toNat
    scalar env .float64 (pure content) (pure content)
  | .char c => do
    if (← get).plain.isSome then
      emit (pure (LittleEndian.encode 4 c.toNat))
      endScalar
    else text env c.toString
  | .text s => text env s
  | .bytes content => scalar env .binary (Write.counted content) (Write.counted content)
  | .unit => do
    match ← enter env with
    | .plain => endScalar
    | .typed spec _ => throw (.unitMisplaced spec.label)
  | .none => do
    if (← get).plain.isSome then
      emit (pure [0])
      endScalar
    else
      let slot ← takeSlot
      if !slot.type.nullable then throw (.nullValue slot.type.label)
      if slot.annotated then emit (pure [RefFlag.null.toByte])
  | .some content => do
    if (← get).plain.isSome then emit (pure [255])
    datum env content
  | .newtype content => datum env content
  | .seq sized content => do
    startSequence env sized content.length
    elements env content
    close
  | .tuple content => do
    startTuple env
    items env content
    close
  | .map sized content => do
    startMap env sized content.length
    entries env content
    close
  | .struct name content => do
    startStruct env name
    fields env content
    close
  | .unitVariant enum index name => do
    match ← enter env with
    | .plain =>
      emit (pure (Varint.encode32 index))
      endScalar
    | .typed spec _ =>
      match spec.role with
      | .enum _ => emit (pure (Varint.encode32 index))
      | _ => throw (.variantMisplaced enum name spec.label)
  | .newtypeVariant enum index name content => do
    variant env enum index name
    datum env content
  | .tupleVariant enum index name content => do
    variant env enum index name
    openCompound
    items env content
    close
  | .structVariant enum index name content => do
    variant env enum index name
    openCompound
    members env content
    close
  | .firstEntry .. | .choice _ | .absent | .refused _ => throw .rejected

/-- Write the elements of a sequence. -/
def elements (env : WriteEnv) : List Datum → Serialize Unit
  | [] => return ()
  | first :: rest => do
    nextElement
    datum env first
    ensureWritten
    elements env rest

/-- Write values by position. -/
def items (env : WriteEnv) : List Datum → Serialize Unit
  | [] => return ()
  | first :: rest => do
    datum env first
    items env rest

/-- Write the entries of a map. -/
def entries (env : WriteEnv) : List (Datum × Datum) → Serialize Unit
  | [] => return ()
  | (key, value) :: rest => do
    nextKey
    datum env key
    ensureWritten
    nextValue
    datum env value
    ensureWritten
    entries env rest

/-- Write the fields of a struct. A field that is left out is an error. -/
def fields (env : WriteEnv) : List (String × Datum) → Serialize Unit
  | [] => return ()
  | (name, .absent) :: _ => throw (.skippedField name)
  | (name, value) :: rest => do
    nextField name
    datum env value
    ensureWritten
    fields env rest

/-- Write the parts of a variant by name. Parts may be left out. -/
def members (env : WriteEnv) : List (String × Datum) → Serialize Unit
  | [] => return ()
  | (_, .absent) :: rest => members env rest
  | (_, value) :: rest => do
    datum env value
    members env rest

end

/-- The value has to have ended, with nothing left open. -/
def finish : Serialize Unit := fun s =>
  match s.pending, s.frames, s.plain with
  | none, [], none => .ok () s
  | some slot, _, _ => .error (.nothingWritten slot.type.label) s
  | none, _, _ => .error .leftOpen s

end Serialize

/-- A serializer of a value of the given type, whose annotations are written before. -/
def Serializer.start (tables : WriteTables) (buffer : List UInt8) (type : FieldType) :
    Serializer where
  tables := tables
  buffer := buffer
  frames := []
  pending := some ⟨type, false, false⟩
  plain := none
  depth := 0

end SchemaWire
