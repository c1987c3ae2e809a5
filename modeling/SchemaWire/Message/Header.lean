import SchemaWire.Bytes.Take
import SchemaWire.Message.Config

/-!
# Message headers

A message opens with one byte of flags. When it crosses languages, the magic number goes
before that byte and the number of the writer's language after it.
-/

namespace SchemaWire

/-- The magic number of messages that cross languages. -/
def magicNumber : Nat := 0x62d4

/-- The number of the language that this library writes into its headers. -/
def localLanguage : UInt8 := 6

/-- The languages of writers, by their numbers. -/
def languages : List String :=
  ["Xlang", "Java", "Python", "Cpp", "Go", "JavaScript", "Rust", "Dart"]

/-- The language with a given number, if there is one. -/
def languageName? (code : UInt8) : Option String :=
  languages[code.toNat]?

/-- What a header says about its message. -/
structure Header where
  /-- The message is null, and nothing follows the header. -/
  isNull : Bool
  /-- Numbers of fixed width are little-endian. -/
  isLittleEndian : Bool
  /-- The message crosses languages. -/
  isXlang : Bool
  /-- Some buffers travel outside of the message. -/
  isOutOfBand : Bool
  /-- The number of the writer's language, in messages that cross languages. -/
  language : Option UInt8
  deriving DecidableEq, Repr

namespace Header

/-- The header that an engine of the given configuration writes. -/
def ofConfig (config : Config) (isNull : Bool) : Header where
  isNull := isNull
  isLittleEndian := true
  isXlang := config.xlang
  isOutOfBand := false
  language := if config.xlang then some localLanguage else none

/-- The byte of flags. -/
def bitmap (header : Header) : Nat :=
  header.isNull.toNat + 2 * header.isLittleEndian.toNat + 4 * header.isXlang.toNat
    + 8 * header.isOutOfBand.toNat

/-- The header with the given flags, and no language yet. -/
def ofBitmap (bitmap : Nat) : Header where
  isNull := bitmap % 2 == 1
  isLittleEndian := bitmap / 2 % 2 == 1
  isXlang := bitmap / 4 % 2 == 1
  isOutOfBand := bitmap / 8 % 2 == 1
  language := none

/-- Write a header. -/
def encode (header : Header) : List UInt8 :=
  (if header.isXlang then LittleEndian.encode 2 magicNumber else [])
    ++ UInt8.ofNat header.bitmap :: header.language.toList

/-- The name of the writer's language, if it is known. -/
def sourceLanguage? (header : Header) : Option String :=
  header.language.bind languageName?

/-- Check a header against the configuration of the reader. -/
def validate (header : Header) (config : Config) : Except Error Unit :=
  if !header.isLittleEndian then .error .bigEndian
  else if header.isXlang != config.xlang then .error (.crossLanguage header.isXlang config.xlang)
  else if header.isOutOfBand then .error .outOfBand
  else .ok ()

/-- Read the flags and the language with the given reader of bytes, and check them. -/
def takeFlags (next : Take UInt8) (config : Config) : Take Header := do
  let header := ofBitmap (← next).toNat
  let header ←
    if header.isXlang && config.xlang then
      pure { header with language := some (← next) }
    else pure header
  match header.validate config with
  | .ok _ => return header
  | .error e => throw e

/-- Read a header with the given readers of its magic number and of its bytes. -/
def takeWith (magic : Take Nat) (next : Take UInt8) (config : Config) : Take Header := do
  if config.xlang then
    let found ← magic
    if found ≠ magicNumber then throw (.badMagic found)
  takeFlags next config

/-- Read a header from bytes in memory. -/
def take : Config → Take Header :=
  takeWith (Take.natural 2) Take.byte

/-- Read the magic number from a stream, byte by byte. -/
def streamedMagic : Take Nat := do
  let low ← Take.streamedByte
  let high ← Take.streamedByte
  return LittleEndian.decode [low, high]

/-- Read a header from a stream, byte by byte. -/
def takeStreamed : Config → Take Header :=
  takeWith streamedMagic Take.streamedByte

/-- The flags of a header can be read off its byte. -/
theorem ofBitmap_bitmap (header : Header) :
    ofBitmap header.bitmap = { header with language := none } := by
  obtain ⟨a, b, c, d, l⟩ := header
  cases a <;> cases b <;> cases c <;> cases d <;> simp [ofBitmap, bitmap]

end Header

end SchemaWire
