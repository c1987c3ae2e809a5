import SchemaWire.Text.Printable

/-!
# Quoted text

How error messages and the inspection report quote names and characters. A quote of the
enclosing kind and a backslash get a backslash before them, the common control characters
have one-letter names, and a character without a printed form of its own is given by its
number in hexadecimal digits.
-/

namespace SchemaWire.Text

/-- The lower-case hexadecimal digits of a number, without leading zeros. -/
def hexDigits (n : Nat) : String :=
  String.ofList (Nat.toDigits 16 n)

/-- The hexadecimal digits of a number, filled up with zeros to a least width. -/
def hexPadded (width n : Nat) : String :=
  let digits := Nat.toDigits 16 n
  String.ofList (List.replicate (width - digits.length) '0' ++ digits)

/-- One character inside quotes of the given kind. -/
def escaped (quote c : Char) : String :=
  if c = '\x00' then "\\0"
  else if c = '\t' then "\\t"
  else if c = '\r' then "\\r"
  else if c = '\n' then "\\n"
  else if c = quote ∨ c = '\\' then "\\" ++ c.toString
  else if isCombining c ∨ ¬ isPrintable c then "\\u\x7b" ++ hexDigits c.toNat ++ "\x7d"
  else c.toString

/-- A string between double quotes. -/
def quoted (s : String) : String :=
  "\"" ++ String.join (s.toList.map (escaped '"')) ++ "\""

/-- A character between single quotes. -/
def quotedChar (c : Char) : String :=
  "'" ++ escaped '\'' c ++ "'"

/-- Items between square brackets, separated by commas. -/
def bracketed (items : List String) : String :=
  "[" ++ String.intercalate ", " items ++ "]"

/-- Named values between braces, separated by commas. -/
def braced (items : List (String × String)) : String :=
  let parts := items.map fun (name, value) => name ++ ": " ++ value
  "\x7b " ++ String.intercalate ", " parts ++ " \x7d"

/-- The name of a truth value. -/
def truthName (b : Bool) : String :=
  if b then "true" else "false"

end SchemaWire.Text
