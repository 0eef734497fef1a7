import SafariScript.Decimal.Shortest

/-!
# Integer parts

What is left of a decimal when it is cut off toward zero: the whole part of its magnitude, with its
sign.
-/

namespace SafariScript.Decimal

open scoped Power

/-- The whole part of the number. -/
def Binary.whole (x : Binary) : Nat :=
  x.significand * 2 ^ x.exponent.toNat / 2 ^ (-x.exponent).toNat

/-- The integer part of a decimal, when it is finite. -/
def integerPart (x : Float) : Int :=
  let magnitude : Nat := (Binary.ofBits x.toBits).whole
  if x.toBits.toNat ≥ 2 ^ (63 : Nat) then -magnitude else magnitude

end SafariScript.Decimal
