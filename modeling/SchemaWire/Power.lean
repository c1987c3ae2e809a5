/-!
# Powers

The bounds of numbers are powers of two. They are computed by the power of the core library, also
where the powers of monoids are in scope, so that a bound is the same number in every module.
-/

namespace SchemaWire

/-- The power of natural numbers. -/
@[default_instance 20000]
instance (priority := 1100) natPow : Pow Nat Nat := instPowNat

/-- The power of integers. -/
@[default_instance 15000]
instance (priority := 1100) intPow : Pow Int Nat := instPowNat

end SchemaWire
