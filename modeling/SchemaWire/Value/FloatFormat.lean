import SchemaWire.Power

/-!
# Binary floating-point formats

Numbers of one binary format become numbers of another, and integers become numbers of a
format, by rounding to the nearest number of the format. Of two nearest ones the even one
is taken, and what is too large becomes infinite. All of it is integer arithmetic on the
bits.
-/

namespace SchemaWire

/-- What the bits of a floating-point number stand for. -/
inductive FloatValue
  /-- No number. -/
  | nan
  /-- An infinity. -/
  | infinite (negative : Bool)
  /-- A number: the magnitude times two to the exponent, with a sign. -/
  | finite (negative : Bool) (magnitude : Nat) (exponent : Int)
  deriving DecidableEq, Repr

/-- The bits of a format, below the sign: exponent and fraction. -/
structure FloatFormat where
  /-- The number of bits of the fraction. -/
  fractionBits : Nat
  /-- The number of bits of the exponent. -/
  exponentBits : Nat
  deriving DecidableEq, Repr

namespace FloatFormat

/-- The format of sixteen bits. -/
def binary16 : FloatFormat := ⟨10, 5⟩

/-- The format of 32 bits. -/
def binary32 : FloatFormat := ⟨23, 8⟩

/-- The format of 64 bits. -/
def binary64 : FloatFormat := ⟨52, 11⟩

/-- The exponent of the last place of the smallest numbers. -/
def leastExponent (format : FloatFormat) : Int :=
  2 - (2 ^ (format.exponentBits - 1) : Nat) - format.fractionBits

/-- The bits of infinity. -/
def infinity (format : FloatFormat) : Nat :=
  (2 ^ format.exponentBits - 1) * 2 ^ format.fractionBits

/-- What bits stand for. -/
def decode (format : FloatFormat) (bits : Nat) : FloatValue :=
  let fraction := bits % 2 ^ format.fractionBits
  let exponent := bits / 2 ^ format.fractionBits % 2 ^ format.exponentBits
  let negative := bits / 2 ^ (format.fractionBits + format.exponentBits) % 2 == 1
  if exponent = 2 ^ format.exponentBits - 1 then
    if fraction = 0 then .infinite negative else .nan
  else if exponent = 0 then .finite negative fraction format.leastExponent
  else .finite negative (2 ^ format.fractionBits + fraction) (format.leastExponent + exponent - 1)

/-- The quotient by two to the given power, rounded to the nearest number, and to the even
one in the middle. -/
def roundShift (n shift : Nat) : Nat :=
  let quotient := n / 2 ^ shift
  let twice := 2 * (n % 2 ^ shift)
  if 2 ^ shift < twice ∨ (twice = 2 ^ shift ∧ quotient % 2 = 1) then quotient + 1 else quotient

/-- The bits of a magnitude times two to an exponent, without a sign. A significand that
rounds up to the next power of two carries into the exponent by itself. -/
def encodeMagnitude (format : FloatFormat) (magnitude : Nat) (exponent : Int) : Nat :=
  if magnitude = 0 then 0
  else
    let last := max format.leastExponent
      (exponent + (Nat.log2 magnitude : Nat) - format.fractionBits)
    let significand :=
      if last ≤ exponent then magnitude * 2 ^ (exponent - last).toNat
      else roundShift magnitude (last - exponent).toNat
    min format.infinity
      ((last - format.leastExponent).toNat * 2 ^ format.fractionBits + significand)

/-- The bits of the nearest number of the format. -/
def encode (format : FloatFormat) (value : FloatValue) : Nat :=
  let sign (negative : Bool) := negative.toNat * 2 ^ (format.fractionBits + format.exponentBits)
  match value with
  | .nan => format.infinity + 2 ^ (format.fractionBits - 1)
  | .infinite negative => sign negative + format.infinity
  | .finite negative magnitude exponent =>
    sign negative + format.encodeMagnitude magnitude exponent

/-- The bits of the number of this format that is nearest to an integer. -/
def ofInt (format : FloatFormat) (v : Int) : Nat :=
  format.encode (.finite (v < 0) v.natAbs 0)

/-- The bits of the number of this format that is nearest to a number of another one. -/
def convert (format source : FloatFormat) (bits : Nat) : Nat :=
  format.encode (source.decode bits)

end FloatFormat

end SchemaWire
