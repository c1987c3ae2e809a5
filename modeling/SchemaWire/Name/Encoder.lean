import SchemaWire.Name.Packing
import SchemaWire.Text.Encoding

/-!
# Encoders of names

A name is written in one of five ways: as plain UTF-8, or packed with five or six bits to
a character. The two encoders for mixed case pack five bits as well; one lowers a single
capital at the front, the other puts a marker before every capital. An encoder is eligible
for a name when it can write it and, for the packed ones, when that pays.
-/

namespace SchemaWire.Name

/-- What the choice of an encoder looks at. -/
structure Stats where
  /-- The number of decimal digits. -/
  digits : Nat
  /-- The number of capital letters. -/
  uppers : Nat
  /-- Whether all characters are letters, digits or one of the two specials. -/
  lowerUpperDigitSpecial : Bool
  /-- Whether all characters belong to the five-bit alphabet. -/
  lowerSpecial : Bool
  deriving DecidableEq, Repr

/-- The two special characters of a six-bit alphabet. -/
structure Specials where
  /-- The character of code 62. -/
  first : Char
  /-- The character of code 63. -/
  second : Char
  deriving DecidableEq, Repr

/-- Ways to write a name. -/
inductive Encoder
  /-- Plain UTF-8. -/
  | utf8
  /-- Lower-case letters and four signs, five bits each. -/
  | fiveBit
  /-- Letters, digits and two specials, six bits each. -/
  | sixBit (specials : Specials)
  /-- A capital at the front lowered, then five bits each. -/
  | firstToLower
  /-- A marker and the lowered letter for every capital, then five bits each. -/
  | allToLower
  deriving DecidableEq, Repr

/-- The marker before a lowered capital. -/
def upperMarker : Char := '|'

/-- The five-bit code of a character. -/
def fiveBitCode? (c : Char) : Option Nat :=
  if 'a' ≤ c ∧ c ≤ 'z' then some (c.toNat - 97)
  else if c = '.' then some 26
  else if c = '_' then some 27
  else if c = '$' then some 28
  else if c = upperMarker then some 29
  else none

/-- The character of a five-bit code. -/
def fiveBitChar (code : Nat) : Except Error Char :=
  if code < 26 then .ok (Char.ofNat (97 + code))
  else if code = 26 then .ok '.'
  else if code = 27 then .ok '_'
  else if code = 28 then .ok '$'
  else if code = 29 then .ok upperMarker
  else .error (.fiveBitCode code)

/-- The six-bit code of a character; letters and digits come before the specials. -/
def sixBitCode? (specials : Specials) (c : Char) : Option Nat :=
  if 'a' ≤ c ∧ c ≤ 'z' then some (c.toNat - 97)
  else if 'A' ≤ c ∧ c ≤ 'Z' then some (c.toNat - 65 + 26)
  else if '0' ≤ c ∧ c ≤ '9' then some (c.toNat - 48 + 52)
  else if c = specials.first then some 62
  else if c = specials.second then some 63
  else none

/-- The character of a six-bit code. -/
def sixBitChar (specials : Specials) (code : Nat) : Char :=
  if code < 26 then Char.ofNat (97 + code)
  else if code < 52 then Char.ofNat (65 + (code - 26))
  else if code < 62 then Char.ofNat (48 + (code - 52))
  else if code = 62 then specials.first
  else specials.second

/-- Whether the character is an ASCII digit. -/
def isDigit (c : Char) : Bool := '0' ≤ c && c ≤ '9'

/-- Whether the character is an ASCII capital letter. -/
def isUpper (c : Char) : Bool := 'A' ≤ c && c ≤ 'Z'

/-- Whether the character is an ASCII letter or digit. -/
def isAlphanumeric (c : Char) : Bool :=
  isDigit c || isUpper c || ('a' ≤ c && c ≤ 'z')

/-- The lower case of an ASCII letter; any other character stays. -/
def lower (c : Char) : Char :=
  if isUpper c then Char.ofNat (c.toNat + 32) else c

/-- The upper case of an ASCII letter; any other character stays. -/
def upper (c : Char) : Char :=
  if 'a' ≤ c ∧ c ≤ 'z' then Char.ofNat (c.toNat - 32) else c

/-- The statistics of a name under a pair of specials. -/
def Stats.of (specials : Specials) (name : String) : Stats :=
  let chars := name.toList
  { digits := chars.countP isDigit
    uppers := chars.countP isUpper
    lowerUpperDigitSpecial :=
      chars.all fun c => isAlphanumeric c || c == specials.first || c == specials.second
    lowerSpecial := chars.all fun c => (fiveBitCode? c).isSome }

namespace Encoder

/-- The printed name of an encoder. -/
def label : Encoder → String
  | utf8 => "utf-8"
  | fiveBit => "five-bit"
  | sixBit _ => "six-bit"
  | firstToLower => "first-to-lower"
  | allToLower => "all-to-lower"

/-- Whether five bits for every character and marker take less room than six bits for
every UTF-8 byte. -/
def pays (length uppers : Nat) : Bool :=
  (length + uppers) * 5 < length * 6

/-- Whether the encoder can and should write the name. -/
def eligible (encoder : Encoder) (stats : Stats) (name : String) : Bool :=
  let length := name.utf8ByteSize
  match encoder with
  | utf8 => true
  | fiveBit => stats.lowerSpecial && pays length stats.uppers
  | sixBit _ => stats.lowerUpperDigitSpecial && 0 < stats.digits
  | firstToLower =>
    stats.uppers == 1 &&
      match name.toList with
      | [] => false
      | first :: rest => isUpper first && rest.all fun c => (fiveBitCode? c).isSome
  | allToLower =>
    (name.toList.all fun c => isUpper c || (c != upperMarker && (fiveBitCode? c).isSome)) &&
      pays length stats.uppers

/-- The codes of all characters; the first character without a code is an error. -/
def codes (encoder : Encoder) (code? : Char → Option Nat) : List Char → Except Error (List Nat)
  | [] => .ok []
  | c :: rest =>
    match code? c with
    | none => .error (.unsupportedCharacter c encoder.label)
    | some code => do
      let others ← codes encoder code? rest
      return code :: others

/-- A capital at the front lowered. -/
def lowerFirst : List Char → List Char
  | [] => []
  | first :: rest => lower first :: rest

/-- Every capital lowered behind a marker. -/
def lowerAll (chars : List Char) : List Char :=
  chars.flatMap fun c => if isUpper c then [upperMarker, lower c] else [c]

/-- A letter at the front raised. -/
def raiseFirst : List Char → List Char
  | [] => []
  | first :: rest => upper first :: rest

/-- Every letter behind a marker raised, and the markers dropped. -/
def raiseAll : List Char → Except Error (List Char)
  | [] => .ok []
  | [c] => if c = upperMarker then .error .danglingMarker else .ok [c]
  | c :: next :: rest =>
    if c = upperMarker then do
      let others ← raiseAll rest
      return upper next :: others
    else do
      let others ← raiseAll (next :: rest)
      return c :: others

/-- Write a name. -/
def encode (encoder : Encoder) (name : String) : Except Error (List UInt8) :=
  match encoder with
  | utf8 => .ok (Text.utf8 name)
  | fiveBit => return pack 5 (← encoder.codes fiveBitCode? name.toList)
  | sixBit specials => return pack 6 (← encoder.codes (sixBitCode? specials) name.toList)
  | firstToLower => return pack 5 (← encoder.codes fiveBitCode? (lowerFirst name.toList))
  | allToLower => return pack 5 (← encoder.codes fiveBitCode? (lowerAll name.toList))

/-- The characters of five-bit codes; the first code without a character is an error. -/
def fiveBitChars : List Nat → Except Error (List Char)
  | [] => .ok []
  | code :: rest => do
    let c ← fiveBitChar code
    let others ← fiveBitChars rest
    return c :: others

/-- Read a name. -/
def decode (encoder : Encoder) (bytes : List UInt8) : Except Error String :=
  match encoder with
  | utf8 => Text.ofUtf8 bytes
  | fiveBit => return String.ofList (← fiveBitChars (unpack 5 bytes))
  | sixBit specials => return String.ofList ((unpack 6 bytes).map (sixBitChar specials))
  | firstToLower => return String.ofList (raiseFirst (← fiveBitChars (unpack 5 bytes)))
  | allToLower => return String.ofList (← raiseAll (← fiveBitChars (unpack 5 bytes)))

end Encoder

end SchemaWire.Name
