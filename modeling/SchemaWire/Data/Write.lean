import SchemaWire.Message.RefFlag
import SchemaWire.Message.TypeInfo
import SchemaWire.Text.Encoding
import SchemaWire.Value.Datum

/-!
# Writing data

A value is written into the place that is declared for it. The declaration says which
annotations go before the value: a reference flag where the value may be missing or be
referred to, and type information before values of user types. A struct has to bring
exactly its declared fields in their order. A value of a type with a layout of its own is
written plainly: nothing inside it is annotated, and nothing inside it is checked against a
declaration.
-/

namespace SchemaWire

/-- What a writer of data relies on. -/
structure WriteEnv where
  /-- The settings. -/
  config : Config
  /-- The registered types. -/
  registry : Registry

/-- Where a value is written. -/
inductive Place
  /-- Inside a value with a layout of its own. -/
  | plain
  /-- Where a type is declared, whose values can be tracked, with or without annotations. -/
  | declared (type : FieldType) (tracked annotated : Bool)
  deriving DecidableEq, Repr

/-- How a value is laid out. -/
inductive Layout
  /-- In its own way. -/
  | plain
  /-- As a value of a registered type, in a place with a declared type. -/
  | typed (spec : TypeSpec) (type : FieldType)
  deriving DecidableEq, Repr

/-- The layout of values of a type, in a place with a declared type. -/
def Layout.of (spec : TypeSpec) (type : FieldType) : Layout :=
  match spec.role with
  | .ext _ => .plain
  | _ => .typed spec type

namespace Write

/-- Write a length, which has to fit into 32 bits. -/
def length (n : Nat) : Write (List UInt8) :=
  if n < 2 ^ 32 then return Varint.encode32 n else throw (.range n 32)

/-- The flag in front of a value, where there is one. -/
def flag (config : Config) (type : FieldType) (tracked : Bool) (spec : TypeSpec) :
    Option RefFlag :=
  if type.nullable || tracked || spec.isUser then
    if config.refMode == .tracking && (tracked || spec.tracked) then some .refValue
    else some .notNull
  else none

/-- Write the type information of a type, which builtins do without. -/
def info (env : WriteEnv) (spec : TypeSpec) : Write (List UInt8) :=
  if spec.isUser then typeInfo env.registry env.config.compatible spec else return []

/-- Write the annotations before a value: its flag and its type information. -/
def annotations (env : WriteEnv) (type : FieldType) (tracked : Bool) (spec : TypeSpec) :
    Write (List UInt8) := do
  let flag := (flag env.config type tracked spec).toList.map RefFlag.toByte
  return flag ++ (← info env spec)

/-- Open a place for a value: the annotations, and the layout of the value. -/
def enter (env : WriteEnv) : Place → Write (List UInt8 × Layout)
  | .plain => return ([], .plain)
  | .declared type tracked annotated => do
    let spec ← MonadExcept.ofExcept (env.registry.resolve type)
    let head ← if annotated then annotations env type tracked spec else pure []
    return (head, .of spec type)

/-- Write the annotations of a place, and behind them what the layout asks for. -/
def behind (env : WriteEnv) (place : Place) (content : Layout → Write (List UInt8)) :
    Write (List UInt8) := do
  let (head, layout) ← enter env place
  return head ++ (← content layout)

/-- Write a scalar of the given kind, whose bytes may depend on the layout. -/
def scalar (env : WriteEnv) (place : Place) (kind : Kind) (plain typed : Write (List UInt8)) :
    Write (List UInt8) :=
  behind env place fun
    | .plain => plain
    | .typed spec _ =>
      if spec.role = .builtin kind then typed else throw (.notWritable spec.label kind)

/-- Write bytes behind their number. -/
def counted (content : List UInt8) : Write (List UInt8) := do
  return (← length content.length) ++ content

/-- Write a text. -/
def text (env : WriteEnv) (place : Place) (s : String) : Write (List UInt8) :=
  let content := Text.utf8 s
  scalar env place .string (counted content) do
    let header ← MonadExcept.ofExcept (Varint.encode36 (4 * content.length + 2))
    return header ++ content

/-- Write the number of elements or entries, which has to be known. -/
def size (sized : Bool) (n : Nat) : Write (List UInt8) :=
  if sized then length n else throw .unknownLength

/-- Write a variant with a payload, which only plain layouts can hold: its index, and then the
payload. -/
def variant (env : WriteEnv) (place : Place) (enum : String) (index : Nat) (name : String)
    (payload : Write (List UInt8)) : Write (List UInt8) :=
  behind env place fun
    | .plain => do return Varint.encode32 index ++ (← payload)
    | .typed .. => throw (.variantPayload enum name)

mutual

/-- Write a value into a place, below the given number of structs. -/
def datum (env : WriteEnv) (depth : Nat) (place : Place) : Datum → Write (List UInt8)
  | .bool b =>
    let content := [UInt8.ofNat b.toNat]
    scalar env place .boolean (pure content) (pure content)
  | .int t v =>
    let content := LittleEndian.encodeSigned t.bytes v
    scalar env place t.kind (pure content) (pure content)
  | .float32 bits =>
    let content := LittleEndian.encode 4 bits.toNat
    scalar env place .float32 (pure content) (pure content)
  | .float64 bits =>
    let content := LittleEndian.encode 8 bits.toNat
    scalar env place .float64 (pure content) (pure content)
  | .char c =>
    match place with
    | .plain => return LittleEndian.encode 4 c.toNat
    | place => text env place c.toString
  | .text s => text env place s
  | .bytes content => scalar env place .binary (counted content) (counted content)
  | .unit =>
    behind env place fun
      | .plain => return []
      | .typed spec _ => throw (.unitMisplaced spec.label)
  | .none =>
    match place with
    | .plain => return [0]
    | .declared type _ annotated =>
      if !type.nullable then throw (.nullValue type.label)
      else return if annotated then [RefFlag.null.toByte] else []
  | .some content =>
    match place with
    | .plain => return 255 :: (← datum env depth .plain content)
    | place => datum env depth place content
  | .newtype content => datum env depth place content
  | .seq sized content =>
    behind env place fun
      | .plain => do
        let count ← size sized content.length
        return count ++ (← items env depth .plain content)
      | .typed spec type =>
        match spec.element? type with
        | some element => do
          let count ← size sized content.length
          return count ++ (← items env depth (.declared element false true) content)
        | none => throw (.notSequence spec.label)
  | .tuple content =>
    behind env place fun
      | .plain => items env depth .plain content
      | .typed spec _ => throw (.tupleMisplaced spec.label)
  | .map sized content =>
    behind env place fun
      | .plain => do
        let count ← size sized content.length
        return count ++ (← entries env depth .plain .plain content)
      | .typed spec type =>
        match spec.arguments? type with
        | some (key, value) => do
          let count ← size sized content.length
          return count
            ++ (← entries env depth (.declared key false true) (.declared value false true) content)
        | none => throw (.notMap spec.label)
  | .struct name content =>
    behind env place fun
      | .plain => members env depth false content
      | .typed spec _ =>
        match spec.role with
        | .struct _ declared =>
          if env.config.maxDepth < depth + 1 then throw (.depthExceeded env.config.maxDepth)
          else fields env (depth + 1) declared content
        | _ => throw (.structMisplaced name spec.label)
  | .unitVariant enum index name =>
    behind env place fun
      | .plain => return Varint.encode32 index
      | .typed spec _ =>
        match spec.role with
        | .enum _ => return Varint.encode32 index
        | _ => throw (.variantMisplaced enum name spec.label)
  | .newtypeVariant enum index name content =>
    variant env place enum index name (datum env depth .plain content)
  | .tupleVariant enum index name content =>
    variant env place enum index name (items env depth .plain content)
  | .structVariant enum index name content =>
    variant env place enum index name (members env depth true content)
  | .firstEntry .. | .choice _ | .absent | .refused _ => throw .rejected

/-- Write values one after the other. -/
def items (env : WriteEnv) (depth : Nat) (place : Place) : List Datum → Write (List UInt8)
  | [] => return []
  | first :: rest => do
    let bytes ← datum env depth place first
    return bytes ++ (← items env depth place rest)

/-- Write entries one after the other. -/
def entries (env : WriteEnv) (depth : Nat) (keyPlace valuePlace : Place) :
    List (Datum × Datum) → Write (List UInt8)
  | [] => return []
  | (key, value) :: rest => do
    let keyBytes ← datum env depth keyPlace key
    let valueBytes ← datum env depth valuePlace value
    return keyBytes ++ valueBytes ++ (← entries env depth keyPlace valuePlace rest)

/-- Write the parts of a plain struct. A part that is left out is an error, unless gaps are
allowed. -/
def members (env : WriteEnv) (depth : Nat) (gaps : Bool) :
    List (String × Datum) → Write (List UInt8)
  | [] => return []
  | (name, .absent) :: rest =>
    if gaps then members env depth gaps rest else throw (.skippedField name)
  | (_, value) :: rest => do
    let bytes ← datum env depth .plain value
    return bytes ++ (← members env depth gaps rest)

/-- Write the fields of a struct, which have to be the declared ones in their order. -/
def fields (env : WriteEnv) (depth : Nat) :
    List FieldDescriptor → List (String × Datum) → Write (List UInt8)
  | [], [] => return []
  | field :: _, [] => throw (.fieldMismatch field.name "<end of struct>")
  | _, (name, .absent) :: _ => throw (.skippedField name)
  | [], (name, _) :: _ => throw (.fieldMismatch "<end of struct>" name)
  | field :: others, (name, value) :: rest => do
    if field.name ≠ name then throw (.fieldMismatch field.name name)
    let bytes ← datum env depth (.declared field.type field.tracked true) value
    return bytes ++ (← fields env depth others rest)

end

end Write

end SchemaWire
