import SchemaWire.Command.Request
import SchemaWire.Digest
import SchemaWire.Engine

/-!
# Outcomes

What the program prints for a request, and the code with which it ends: zero when the
request was met, one when it failed, two when the command line does not fit.
-/

namespace SchemaWire.Command

/-- Bytes in hexadecimal digits with blanks between them. -/
def spacedBytes (bytes : List UInt8) : String :=
  String.intercalate " " (bytes.map fun byte => Text.hexPadded 2 byte.toNat)

/-- Lines of text. -/
def lines (content : List String) : String :=
  String.join (content.map (· ++ "\n"))

/-- The printed form of what may be missing. -/
def optional {α : Type} (label : α → String) : Option α → String
  | some x => Shape.labelled "Some" [label x]
  | none => "None"

/-- How a name is written. -/
def nameReport (scheme : Name.Scheme) (value : String) : Except Error String := do
  let (encoding, bytes) ← scheme.encode value
  let decoded ← scheme.decode encoding bytes
  return lines [
    "encoder:  " ++ (scheme.encoderOf encoding).label,
    "flag:     " ++ toString encoding.flag,
    "bytes:    " ++ spacedBytes bytes,
    "decoded:  " ++ decoded]

/-- The digest of a text. -/
def digestReport (text : String) (seed : UInt64) : String :=
  let lanes := digest (Text.utf8 text) seed
  lines [Text.hexPadded 16 lanes.h1.toNat ++ " " ++ Text.hexPadded 16 lanes.h2.toNat]

/-- Write a number within a budget. An error shows the bits of the number as it was given,
except where a signed number leaves the budget of 36 bits: there it shows its place in
zigzag order. -/
def encodeNumber (value : Int) (budget : Varint.Budget) (signed : Bool) :
    Except Error (List UInt8) :=
  let given := (value % 2 ^ 64).toNat
  if signed then
    if budget = Varint.word36 then Varint.encode36 (Varint.zigzag value)
    else if budget = Varint.word32 && !IntType.int32.holds value then .error (.range given 32)
    else .ok (Varint.encode budget (Varint.zigzag value))
  else if 0 ≤ value ∧ value < 2 ^ budget.bits then .ok (Varint.encode budget value.toNat)
  else .error (.range given budget.bits)

mutual

/-- The printed form of a wire type. -/
def typeReport : WireType → String
  | ⟨id, nullable, tracked, args⟩ =>
    "FieldTypeMeta " ++ Text.braced [
      ("type_id", toString id.toNat),
      ("nullable", Text.truthName nullable),
      ("ref_tracking", Text.truthName tracked),
      ("generics", Text.bracketed (typeReports args))]

/-- The printed forms of wire types. -/
def typeReports : List WireType → List String
  | [] => []
  | t :: rest => typeReport t :: typeReports rest

end

/-- The printed form of a header. -/
def headerReport (header : Header) : String :=
  "HeaderInfo " ++ Text.braced [
    ("is_null", Text.truthName header.isNull),
    ("is_little_endian", Text.truthName header.isLittleEndian),
    ("is_xlang", Text.truthName header.isXlang),
    ("is_oob", Text.truthName header.isOutOfBand),
    ("language", optional (fun code => toString code.toNat) header.language)]

/-- The lines on the schema at an index. -/
def schemaReport (schema : Schema) (index : Nat) : List String :=
  s!"meta #{index}:     {schema.displayName} ({schema.fields.length} field(s))"
    :: schema.fields.map fun field => "    " ++ field.name ++ ": " ++ typeReport field.type

/-- The structure of a message. -/
def inspectionReport (report : Inspection) : String :=
  let language := report.header.sourceLanguage?.toList.map fun name => "language:    " ++ name
  let offset := report.offset.toList.map fun offset => "meta offset: " ++ toString offset
  lines (["header:      " ++ headerReport report.header] ++ language ++ offset ++ [
    "ref flag:    " ++ optional RefFlag.label report.refFlag,
    "type id:     " ++ optional (fun id => toString id.toNat) report.typeId,
    s!"body:        {report.bodyLength} byte(s)"]
    ++ report.schemas.zipIdx.flatMap fun (schema, index) => schemaReport schema index)

/-- What a request prints. The bytes are the content of the file that it names. -/
def Request.answer (content : List UInt8) : Request → Except Error String
  | .name scheme value => nameReport scheme value
  | .digest text seed => .ok (digestReport text seed)
  | .number value budget signed => do
    return lines [spacedBytes (← encodeNumber value budget signed)]
  | .inspection _ config =>
    match (Engine.mk config .standard []).inspect content with
    | .ok report _ => .ok (inspectionReport report)
    | .error e _ => .error e
  | .help text => .ok text

/-- The file that a request needs. -/
def Request.file? : Request → Option String
  | .inspection path _ => some path
  | _ => none

/-- How the program ends. -/
structure Outcome where
  /-- The code. -/
  code : UInt8
  /-- What it prints. -/
  output : String
  /-- Why it failed. -/
  failure : Option Error
  deriving DecidableEq, Repr

/-- How the program ends for a request, or for a command line that is none. -/
def outcome (request : Option Request) (content : List UInt8) : Outcome :=
  match request with
  | none => ⟨2, "", none⟩
  | some request =>
    match request.answer content with
    | .ok text => ⟨0, text, none⟩
    | .error e => ⟨1, "", some e⟩

end SchemaWire.Command
