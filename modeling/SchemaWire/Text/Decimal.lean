/-!
# Decimal numbers

Numbers as people type them: digits, and nothing else between them.
-/

namespace SchemaWire.Text

/-- The value of a decimal digit. -/
def digitValue (c : Char) : Nat := c.toNat - '0'.toNat

/-- The number that digits stand for; there has to be one digit at least. -/
def decimal? (chars : List Char) : Option Nat :=
  if chars.isEmpty || !chars.all Char.isDigit then none
  else some (chars.foldl (fun n c => 10 * n + digitValue c) 0)

end SchemaWire.Text
