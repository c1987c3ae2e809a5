import SchemaWire.Value.Visit
import SchemaWire.Varint

/-!
# Reading plain data

A value with a layout of its own carries no annotations. Every length, tag and variant is
implied by its shape, so a value can be read only by the shape that it was written from,
and shapes that want to be told what follows cannot be served.
-/

namespace SchemaWire

namespace Take

/-- The tag before a value that is not missing. -/
def someTag : UInt8 := 255

/-- The tag in the place of a missing value. -/
def noneTag : UInt8 := 0

/-- Read one character. -/
def character : Take Char := do
  let code ← natural 4
  if h : code.isValidChar then return Char.ofNatAux code h else throw (.invalidChar code)

/-- Read bytes behind their number. -/
def counted : Take (List UInt8) := do
  bytes (← Varint.take32)

/-- Read UTF-8 text behind the number of its bytes. -/
def text : Take String := do
  MonadExcept.ofExcept (Text.ofUtf8 (← counted))

/-- Read a value that may be missing, whose content is read by the given reader. -/
def optional (content : Take Datum) : Take Datum := do
  let tag ← byte
  if tag = noneTag then return .none
  else if tag = someTag then return .some (← content)
  else throw (.badOptionTag tag.toNat)

/-- Read a variant of an enum, whose contents are read by the given function. -/
def variant (element : Elements (List UInt8)) (name : String) (variants : List (Variant Shape)) :
    Take Datum := do
  let index ← Varint.take32
  match variants[index]? with
  | none => throw .rejected
  | some ⟨variant, .unit⟩ => return .unitVariant name index variant
  | some ⟨variant, .newtype content⟩ => do
    return .newtypeVariant name index variant (← element 0 content)
  | some ⟨variant, .tuple items⟩ => do
    return .tupleVariant name index variant (← element.positional items.length items 0)
  | some ⟨variant, .struct members⟩ => do
    return .structVariant name index variant (← element.members members.length members 0)

/-- Read a plain value. The first number bounds how deep the reading goes. -/
def plainWithin (shapes : Shapes) : Nat → Shape → Take Datum
  | 0, _ => throw .unfinished
  | fuel + 1, shape =>
    let element : Elements (List UInt8) := fun _ shape => plainWithin shapes fuel shape
    let shape := shapes.resolve shape
    match shape with
    | .bool => do return .bool ((← byte) != 0)
    | .int t =>
      if t.isSigned then do return .int t (← integer t.bytes)
      else do return .int t (← natural t.bytes)
    | .float32 => do return .float32 (UInt32.ofNat (← natural 4))
    | .float64 => do return .float64 (UInt64.ofNat (← natural 8))
    | .char => do return .char (← character)
    | .string | .str => do return .text (← text)
    | .bytes | .byteSlice => do return .bytes (← counted)
    | .any => throw .selfDescribing
    | .identifier | .choice _ => throw .opaqueIdentifier
    | .ignored => throw .opaqueIgnored
    | .refused | .user _ => throw .rejected
    | .unit | .unitStruct _ => return .unit
    | .option content => optional (plainWithin shapes fuel content)
    | .list .. | .set .. => do
      return (← element.visit (← Varint.take32) shape).1
    | .tuple items | .tupleStruct _ items => do
      return (← element.visit items.length shape).1
    | .map .. | .firstEntry .. => do
      return (← Entries.visit ⟨element, element⟩ (← Varint.take32) shape).1
    | .newtype _ content => do return .newtype (← plainWithin shapes fuel content)
    | .struct _ members => do
      return (← element.visit members.length shape).1
    | .enum name variants => variant element name variants

end Take

end SchemaWire
