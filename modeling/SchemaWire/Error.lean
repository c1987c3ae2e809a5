import SchemaWire.Kind
import SchemaWire.Text.Quoted

/-!
# Errors

Every way in which reading, writing or registering can fail, one constructor for each
cause. A cause belongs to a category, and its message is the category's opening words
followed by the detail. Nothing but these causes decides what a caller sees.
-/

namespace SchemaWire

open Text

/-- The causes of failure. -/
inductive Error
  /-- The first two bytes of a message are not the magic number. -/
  | badMagic (found : Nat)
  /-- The header announces big-endian data. -/
  | bigEndian
  /-- The header's cross-language flag differs from the local setting. -/
  | crossLanguage (found expected : Bool)
  /-- A reference flag that stands for nothing. -/
  | badRefFlag (byte : Int)
  /-- The top-level value claims to repeat an earlier one. -/
  | topLevelReference
  /-- A schema is announced in the place of a schema reference. -/
  | inlineSchema
  /-- A schema reference beyond the schemas of the message. -/
  | schemaOutOfRange (reference : Nat)
  /-- A name reference before the first name. -/
  | nameBeforeFirst
  /-- A name reference beyond the names read so far. -/
  | nameOutOfRange (index : Nat)
  /-- A back-reference to a value that was not recorded. -/
  | neverRecorded (id : Nat)
  /-- Bytes after the end of the value. -/
  | trailingValue (count : Nat)
  /-- Bytes after the end of a schema. -/
  | trailingSchema (count : Nat) (schema : String)
  /-- A collection type without the type of its elements. -/
  | missingArgument (typeId : UInt32) (index : Nat)
  /-- An event that the stage does not admit. -/
  | stageOrder (event stage : String)
  /-- A character outside an encoder's alphabet. -/
  | unsupportedCharacter (c : Char) (encoder : String)
  /-- A name encoding flag that stands for nothing here. -/
  | unsupportedEncoding (flag : Nat)
  /-- A number too large for the bits that it is written with. -/
  | range (value bits : Nat)
  /-- A variable-length number that runs past its bits. -/
  | overflow (bits : Nat)
  /-- A type that is not registered. -/
  | unregistered (name : String)
  /-- The input ended too early. -/
  | unexpectedEnd (needed : Nat)
  /-- A value of this kind written where another type is declared. -/
  | notWritable (declared : String) (kind : Kind)
  /-- A sequence written where no list or set is declared. -/
  | notSequence (declared : String)
  /-- A map written where no map is declared. -/
  | notMap (declared : String)
  /-- A struct written where another type is declared. -/
  | structMisplaced (name declared : String)
  /-- An enum variant written where another type is declared. -/
  | variantMisplaced (name variant declared : String)
  /-- A kind number that no kind has. -/
  | unknownKind (code : Nat)
  /-- A type registered twice. -/
  | alreadyRegistered (name : String)
  /-- A user id registered twice. -/
  | idTaken (id : Nat)
  /-- A namespace and type name registered twice. -/
  | nameTaken (space typeName : String)
  /-- A builtin registered as a user type. -/
  | builtinRegistered
  /-- Two fields of one name in one struct. -/
  | duplicateField (field name : String)
  /-- A lookup by id of a kind that is registered by name. -/
  | registeredByName (kind : Kind)
  /-- A user id that belongs to a type of another family. -/
  | otherFamily (id : Nat) (name : String) (kind : Kind)
  /-- A message that carries another kind than the type registered locally. -/
  | carriedKind (name : String) (kind : Kind)
  /-- A schema asked of a builtin type. -/
  | builtinSchema (name : String)
  /-- A field without a name. -/
  | emptyFieldName
  /-- A type with the wrong number of type arguments. -/
  | argumentCount (typeId : UInt32) (expected found : Nat)
  /-- Elements that the reader of a sequence did not ask for. -/
  | elementsLeft (count : Nat)
  /-- Entries that the reader of a map did not ask for. -/
  | entriesLeft (count : Nat)
  /-- An option tag that stands for nothing. -/
  | badOptionTag (tag : Nat)
  /-- A value written where no place waits for one. -/
  | outsidePlace
  /-- An element written where no sequence is open. -/
  | outsideSequence
  /-- An entry written where no map is open. -/
  | outsideMap
  /-- A field written where no struct is open. -/
  | outsideStruct
  /-- A compound closed where none is open. -/
  | closedTwice
  /-- A place that still waits for its value. -/
  | nothingWritten (declared : String)
  /-- Compounds that are still open where the value ends. -/
  | leftOpen
  /-- Null where null is not allowed. -/
  | nullValue (place : String)
  /-- A struct field that is not the one declared next. -/
  | fieldMismatch (expected found : String)
  /-- A schema whose fingerprint disagrees with its content. -/
  | hashMismatch (expected actual : Nat)
  /-- Structs nested deeper than the configuration allows. -/
  | depthExceeded (max : Nat)
  /-- A kind whose values cannot be read. -/
  | unreadableKind (kind : Kind)
  /-- The header announces out-of-band buffers. -/
  | outOfBand
  /-- A variant with a payload written for a registered enum. -/
  | variantPayload (name variant : String)
  /-- A unit written where a type is declared. -/
  | unitMisplaced (declared : String)
  /-- A tuple written where a type is declared. -/
  | tupleMisplaced (declared : String)
  /-- A collection whose length is not known before it ends. -/
  | unknownLength
  /-- A struct field that the writer leaves out. -/
  | skippedField (field : String)
  /-- A reader that wants to be told what an opaque value holds. -/
  | selfDescribing
  /-- A reader that wants an identifier from an opaque value. -/
  | opaqueIdentifier
  /-- A reader that wants to pass over a part of an opaque value. -/
  | opaqueIgnored
  /-- Bytes that are not UTF-8. -/
  | invalidUtf8
  /-- UTF-16 with half of a surrogate pair. -/
  | loneSurrogate
  /-- UTF-16 of an odd number of bytes. -/
  | oddUtf16
  /-- A string encoding that stands for nothing. -/
  | unknownStringEncoding (code : Nat)
  /-- A five-bit code without a character. -/
  | fiveBitCode (code : Nat)
  /-- An upper-case marker with no letter after it. -/
  | danglingMarker
  /-- A number that is no character. -/
  | invalidChar (code : Nat)
  /-- The value does not fit its reader, or refuses to be written. -/
  | rejected
  /-- The step budget ran out before the value ended. -/
  | unfinished
  deriving DecidableEq, Repr

namespace Error

/-- The categories of causes. -/
inductive Category
  | protocol
  | unsupportedCharacter
  | unsupportedEncoding
  | range
  | overflow
  | unregisteredType
  | unexpectedEof
  | typeMismatch
  | nullValue
  | fieldMismatch
  | metaHashMismatch
  | depthExceeded
  | unsupported
  | invalidString
  | message
  deriving DecidableEq, Repr

/-- The category of a cause. -/
def category : Error → Category
  | badMagic _ | bigEndian | crossLanguage .. | badRefFlag _ | topLevelReference | inlineSchema
  | schemaOutOfRange _ | nameBeforeFirst | nameOutOfRange _ | neverRecorded _ | trailingValue _
  | trailingSchema .. | missingArgument .. | stageOrder .. => .protocol
  | unsupportedCharacter .. => .unsupportedCharacter
  | unsupportedEncoding _ => .unsupportedEncoding
  | range .. => .range
  | overflow _ => .overflow
  | unregistered _ => .unregisteredType
  | unexpectedEnd _ => .unexpectedEof
  | notWritable .. | notSequence _ | notMap _ | structMisplaced .. | variantMisplaced ..
  | unknownKind _ | alreadyRegistered _ | idTaken _ | nameTaken .. | builtinRegistered
  | duplicateField .. | registeredByName _ | otherFamily .. | carriedKind .. | builtinSchema _
  | emptyFieldName | argumentCount .. | elementsLeft _ | entriesLeft _ | badOptionTag _
  | outsidePlace | outsideSequence | outsideMap | outsideStruct | closedTwice | nothingWritten _
  | leftOpen => .typeMismatch
  | nullValue _ => .nullValue
  | fieldMismatch .. => .fieldMismatch
  | hashMismatch .. => .metaHashMismatch
  | depthExceeded _ => .depthExceeded
  | unreadableKind _ | outOfBand | variantPayload .. | unitMisplaced _ | tupleMisplaced _
  | unknownLength | skippedField _ | selfDescribing | opaqueIdentifier | opaqueIgnored =>
    .unsupported
  | invalidUtf8 | loneSurrogate | oddUtf16 | unknownStringEncoding _ | fiveBitCode _
  | danglingMarker | invalidChar _ => .invalidString
  | rejected | unfinished => .message

/-- What the message says after the opening words of its category. -/
def detail : Error → String
  | badMagic found =>
    s!"bad magic number 0x{hexPadded 4 found}, expected 0x62d4"
  | bigEndian => "big-endian messages are not supported"
  | crossLanguage found expected =>
    s!"message xlang flag is {truthName found}, local configuration expects {truthName expected}"
  | badRefFlag byte => s!"invalid reference flag {byte}"
  | topLevelReference => "back-reference at the top level"
  | inlineSchema => "inline type meta is not supported"
  | schemaOutOfRange reference => s!"type meta reference {reference} out of range"
  | nameBeforeFirst => "meta string reference to index -1"
  | nameOutOfRange index => s!"meta string reference {index} out of range"
  | neverRecorded id => s!"reference {id} was never recorded"
  | trailingValue count => s!"{count} trailing byte(s) after the value"
  | trailingSchema count schema => s!"{count} trailing byte(s) after type meta {schema}"
  | missingArgument typeId index =>
    s!"type id {typeId.toNat} is missing type argument {index}"
  | stageOrder event stage => s!"{event} is not valid in the {stage} stage"
  | unsupportedCharacter c encoder =>
    s!"character {quotedChar c} cannot be encoded with {encoder}"
  | unsupportedEncoding flag => s!"unsupported meta-string encoding flag {flag}"
  | range value bits => s!"value {value} exceeds the {bits}-bit range"
  | overflow bits => s!"varint overflows {bits} bits"
  | unregistered name => name
  | unexpectedEnd needed => s!"unexpected end of input: needed {needed} more byte(s)"
  | notWritable declared kind => s!"`{declared}` cannot be written as {kind.label}"
  | notSequence declared => s!"`{declared}` is not a list or set"
  | notMap declared => s!"`{declared}` is not a map"
  | structMisplaced name declared => s!"struct `{name}` written where `{declared}` is declared"
  | variantMisplaced name variant declared =>
    s!"`{name}::{variant}` written where `{declared}` is declared"
  | unknownKind code => s!"unknown type id {code}"
  | alreadyRegistered name => s!"type `{name}` is already registered"
  | idTaken id => s!"user type id {id} is already registered"
  | nameTaken space typeName =>
    s!"type name {space}.{typeName} is already registered"
  | builtinRegistered => "builtin kinds cannot be registered"
  | duplicateField field name => s!"duplicate field `{field}` in `{name}`"
  | registeredByName kind => s!"{kind.label} is registered by name, not id"
  | otherFamily id name kind => s!"id {id} is `{name}`, not a {kind.label}"
  | carriedKind name kind =>
    s!"`{name}` is registered locally, but the message carries a {kind.label}"
  | builtinSchema name => s!"builtin `{name}` has no type meta"
  | emptyFieldName => "field names cannot be empty"
  | argumentCount typeId expected found =>
    s!"type {typeId.toNat} expects {expected} type argument(s), found {found}"
  | elementsLeft count => s!"{count} element(s) left unread"
  | entriesLeft count => s!"{count} entries left unread"
  | badOptionTag tag => s!"invalid option tag 0x{hexDigits tag}"
  | outsidePlace => "value written outside of a declared position"
  | outsideSequence => "element written outside of a sequence"
  | outsideMap => "entry written outside of a map"
  | outsideStruct => "field written outside of a struct"
  | closedTwice => "compound closed twice"
  | nothingWritten declared => s!"nothing was written for `{declared}`"
  | leftOpen => "value ended with open compounds"
  | nullValue place => place
  | fieldMismatch expected found =>
    s!"field mismatch: expected `{expected}`, found `{found}`"
  | hashMismatch expected actual =>
    s!"type meta hash mismatch: header 0x{hexDigits expected}, computed 0x{hexDigits actual}"
  | depthExceeded max => s!"nesting depth exceeds the configured maximum of {max}"
  | unreadableKind kind => s!"{kind.label} payloads"
  | outOfBand => "out-of-band buffers"
  | variantPayload name variant =>
    s!"`{name}::{variant}`: registered enums may only have unit variants"
  | unitMisplaced declared => s!"unit value for `{declared}`"
  | tupleMisplaced declared => s!"tuple value for `{declared}`"
  | unknownLength => "collections of unknown length"
  | skippedField field => s!"skipping field `{field}`"
  | selfDescribing => "self-describing ext values"
  | opaqueIdentifier => "identifiers inside ext values"
  | opaqueIgnored => "ignored values inside ext values"
  | invalidUtf8 => "invalid utf-8"
  | loneSurrogate => "invalid utf-16: lone surrogate found"
  | oddUtf16 => "odd utf-16 byte length"
  | unknownStringEncoding code => s!"unknown string encoding {code}"
  | fiveBitCode code => s!"five-bit code {code} has no character"
  | danglingMarker => "dangling upper-case marker"
  | invalidChar code => s!"invalid char 0x{hexDigits code}"
  | rejected => "the value does not fit its reader"
  | unfinished => "the value does not end"

/-- The message of an error. -/
def message (e : Error) : String :=
  match e.category with
  | .protocol => s!"protocol error: {e.detail}"
  | .unregisteredType => s!"type `{e.detail}` is not registered"
  | .typeMismatch => s!"type mismatch: {e.detail}"
  | .nullValue => s!"null value for non-nullable `{e.detail}`"
  | .unsupported => s!"unsupported: {e.detail}"
  | .invalidString => s!"invalid string payload: {e.detail}"
  | _ => e.detail

/-- The name of a category, as reports print it. -/
def Category.label : Category → String
  | .protocol => "Protocol"
  | .unsupportedCharacter => "UnsupportedCharacter"
  | .unsupportedEncoding => "UnsupportedEncoding"
  | .range => "Range"
  | .overflow => "Overflow"
  | .unregisteredType => "UnregisteredType"
  | .unexpectedEof => "UnexpectedEof"
  | .typeMismatch => "TypeMismatch"
  | .nullValue => "NullValue"
  | .fieldMismatch => "FieldMismatch"
  | .metaHashMismatch => "MetaHashMismatch"
  | .depthExceeded => "DepthExceeded"
  | .unsupported => "Unsupported"
  | .invalidString => "InvalidString"
  | .message => "Message"

/-- The error as a report shows it: the name of its category and the values that it
carries. -/
def report (e : Error) : String :=
  let named (items : List (String × String)) := e.category.label ++ " " ++ braced items
  match e with
  | unsupportedCharacter c encoder => named [("ch", quotedChar c), ("encoding", quoted encoder)]
  | unsupportedEncoding flag => e.category.label ++ s!"({flag})"
  | range value bits => named [("value", toString value), ("bits", toString bits)]
  | overflow bits => named [("bits", toString bits)]
  | unexpectedEnd needed => named [("needed", toString needed)]
  | fieldMismatch expected found =>
    named [("expected", quoted expected), ("found", quoted found)]
  | hashMismatch expected actual =>
    named [("expected", toString expected), ("actual", toString actual)]
  | depthExceeded max => e.category.label ++ s!"({max})"
  | _ => e.category.label ++ s!"({quoted e.detail})"

end Error

end SchemaWire
