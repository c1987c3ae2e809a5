import SchemaWire.Text.Encoding
import SchemaWire.Value.Datum
import SchemaWire.Value.FloatFormat

/-!
# Meeting what a message holds with what a shape asks for

A message holds a scalar, a sequence, entries or a variant; a shape accepts some of these
and turns them into a value. Numbers fit when they are within bounds, everything becomes a
floating-point number by rounding, and texts and bytes stand for each other in places.
Sequences and entries are read through a function from positions to readers, because
different formats hold them in different ways. The result says how many were read, since
some shapes stop early.
-/

namespace SchemaWire

namespace Shape

/-- The value of a shape for a truth value. -/
def ofBool (b : Bool) : Shape → Except Error Datum
  | .bool | .any | .identifier => .ok (.bool b)
  | .ignored => .ok .unit
  | _ => .error .rejected

/-- The value of a shape for a number. -/
def ofInt (t : IntType) (v : Int) : Shape → Except Error Datum
  | .int own => if own.holds v then .ok (.int own v) else .error .rejected
  | .float32 => .ok (.float32 (UInt32.ofNat (FloatFormat.binary32.ofInt v)))
  | .float64 => .ok (.float64 (UInt64.ofNat (FloatFormat.binary64.ofInt v)))
  | .any | .identifier => .ok (.int t v)
  | .ignored => .ok .unit
  | .choice names =>
    if t.isSigned then .error .rejected
    else .ok (.choice (if v < names.length then some v.toNat else none))
  | _ => .error .rejected

/-- The value of a shape for a floating-point number of 32 bits. -/
def ofFloat32 (bits : UInt32) : Shape → Except Error Datum
  | .float32 | .any | .identifier => .ok (.float32 bits)
  | .float64 =>
    .ok (.float64 (UInt64.ofNat (FloatFormat.binary64.convert .binary32 bits.toNat)))
  | .ignored => .ok .unit
  | _ => .error .rejected

/-- The value of a shape for a floating-point number of 64 bits. -/
def ofFloat64 (bits : UInt64) : Shape → Except Error Datum
  | .float64 | .any | .identifier => .ok (.float64 bits)
  | .float32 =>
    .ok (.float32 (UInt32.ofNat (FloatFormat.binary32.convert .binary64 bits.toNat)))
  | .ignored => .ok .unit
  | _ => .error .rejected

/-- The value of a shape for a text. -/
def ofText (s : String) : Shape → Except Error Datum
  | .string | .str | .any | .identifier => .ok (.text s)
  | .char =>
    match s.toList with
    | [c] => .ok (.char c)
    | _ => .error .rejected
  | .bytes => .ok (.bytes (Text.utf8 s))
  | .ignored => .ok .unit
  | .choice names => .ok (.choice (names.findIdx? (· == s)))
  | _ => .error .rejected

/-- The value of a shape for bytes. -/
def ofBytes (content : List UInt8) : Shape → Except Error Datum
  | .bytes | .byteSlice | .any | .identifier => .ok (.bytes content)
  | .string =>
    match Text.ofUtf8 content with
    | .ok s => .ok (.text s)
    | .error _ => .error .rejected
  | .ignored => .ok .unit
  | .choice names => .ok (.choice (names.findIdx? fun name => Text.utf8 name == content))
  | _ => .error .rejected

/-- The value of a shape for the variant at a position, where variants carry nothing. -/
def ofVariantIndex (index : Nat) : Shape → Except Error Datum
  | .enum name variants =>
    match variants[index]? with
    | some ⟨variant, .unit⟩ => .ok (.unitVariant name index variant)
    | _ => .error .rejected
  | _ => .error .rejected

/-- The value of a shape for the name of a field: a text, which may name a variant. -/
def ofName (s : String) : Shape → Except Error Datum
  | .enum name variants =>
    match variants.findIdx? fun variant => variant.name == s with
    | some index => ofVariantIndex index (.enum name variants)
    | none => .error .rejected
  | shape => ofText s shape

/-- The value of a shape where a message is null. -/
def ofNull : Shape → Except Error Datum
  | .option _ => .ok .none
  | .unit | .unitStruct _ | .ignored => .ok .unit
  | _ => .error .rejected

end Shape

variable {σ : Type}

/-- A reader for every position of a sequence. -/
abbrev Elements (σ : Type) := Nat → Shape → EStateM Error σ Datum

namespace Elements

/-- Read elements of one shape: the given number, from the given position. -/
def collect (read : Elements σ) (shape : Shape) : Nat → Nat → EStateM Error σ (List Datum)
  | 0, _ => return []
  | n + 1, index => do
    let first ← read index shape
    let others ← collect read shape n (index + 1)
    return first :: others

/-- Read elements of the given shapes, which all have to be there. -/
def positional (read : Elements σ) (count : Nat) :
    List Shape → Nat → EStateM Error σ (List Datum)
  | [], _ => return []
  | shape :: rest, index => do
    if count ≤ index then throw .rejected
    let first ← read index shape
    let others ← positional read count rest (index + 1)
    return first :: others

/-- Read the parts of a struct in their order. Parts after the last element are missing. -/
def members (read : Elements σ) (count : Nat) :
    List (Member Shape) → Nat → EStateM Error σ (List (String × Datum))
  | [], _ => return []
  | member :: rest, index => do
    let first ←
      if index < count then read index member.content
      else if member.optional then pure .absent
      else throw .rejected
    let others ← members read count rest (index + 1)
    return (member.name, first) :: others

/-- The bytes of numbers of eight bits. -/
def octets : List Datum → List UInt8
  | [] => []
  | .int _ v :: rest => UInt8.ofNat v.toNat :: octets rest
  | _ :: rest => octets rest

/-- The value of a shape for a sequence of the given length, and how many of its elements
were read. -/
def visit (read : Elements σ) (count : Nat) : Shape → EStateM Error σ (Datum × Nat)
  | .list _ element | .set _ element => do
    return (.seq true (← collect read element count 0), count)
  | .any | .identifier => do
    return (.seq true (← collect read .any count 0), count)
  | .ignored => do
    let _ ← collect read .ignored count 0
    return (.unit, count)
  | .bytes => do
    return (.bytes (octets (← collect read (.int .uint8) count 0)), count)
  | .tuple items | .tupleStruct _ items => do
    return (.tuple (← positional read count items 0), items.length)
  | .struct name parts => do
    return (.struct name (← members read count parts 0), min count parts.length)
  | _ => throw .rejected

end Elements

namespace Member

/-- The value of a part that was not found. It is a value of the program's own or has to be
one that may be missing. -/
def missing (member : Member Shape) : Except Error Datum :=
  if member.optional then .ok .absent
  else
    match member.content with
    | .option _ => .ok .none
    | _ => .error .rejected

/-- The parts of a struct, each with the value that was found for its position. -/
def assemble (found : List (Nat × Datum)) :
    List (Member Shape) → Nat → Except Error (List (String × Datum))
  | [], _ => .ok []
  | member :: rest, index => do
    let first ←
      match found.lookup index with
      | some value => pure value
      | none => member.missing
    let others ← assemble found rest (index + 1)
    return (member.name, first) :: others

end Member

/-- Readers for the keys and the values of entries. -/
structure Entries (σ : Type) where
  /-- The reader of the key at a position. -/
  key : Elements σ
  /-- The reader of the value at a position. -/
  value : Elements σ

namespace Entries

/-- Read entries of one shape: the given number, from the given position. -/
def collect (read : Entries σ) (key value : Shape) :
    Nat → Nat → EStateM Error σ (List (Datum × Datum))
  | 0, _ => return []
  | n + 1, index => do
    let k ← read.key index key
    let v ← read.value index value
    let others ← collect read key value n (index + 1)
    return (k, v) :: others

/-- Read entries whose keys name the parts of a struct. A part that was found before is not
read again, and the values of unknown keys are passed over. -/
def named (read : Entries σ) (parts : List (Member Shape)) :
    Nat → Nat → List (Nat × Datum) → EStateM Error σ (List (Nat × Datum))
  | 0, _, found => return found
  | n + 1, index, found => do
    let key ← read.key index (.choice (parts.map Member.name))
    match key with
    | .choice (some place) =>
      match parts[place]? with
      | some part =>
        if (found.lookup place).isSome then throw .rejected
        let value ← read.value index part.content
        named read parts n (index + 1) (found ++ [(place, value)])
      | none => throw .rejected
    | _ =>
      let _ ← read.value index .ignored
      named read parts n (index + 1) found

/-- The value of a shape for the given number of entries, and how many of them were read. -/
def visit (read : Entries σ) (count : Nat) : Shape → EStateM Error σ (Datum × Nat)
  | .map _ key value => do
    return (.map true (← collect read key value count 0), count)
  | .any | .identifier => do
    return (.map true (← collect read .any .any count 0), count)
  | .ignored => do
    let _ ← collect read .ignored .ignored count 0
    return (.unit, count)
  | .firstEntry _ key value => do
    let taken := min count 1
    return (.firstEntry count (← collect read key value taken 0), taken)
  | .struct name parts => do
    let found ← named read parts count 0 []
    let fields ← MonadExcept.ofExcept (Member.assemble found parts 0)
    return (.struct name fields, count)
  | _ => throw .rejected

end Entries

end SchemaWire
