import SafariScript.Decimal.Whole

/-!
# Checked integers

Arithmetic on 64-bit signed integers that gives the exact result or none. A remainder is refused
where its quotient is.
-/

namespace SafariScript.Integer

open scoped Power

/-- The integer with this value, if it has 64 bits. -/
def ofInt? (n : Int) : Option Int64 :=
  if -2 ^ (63 : Nat) ≤ n ∧ n < 2 ^ (63 : Nat) then some (Int64.ofInt n) else none

/-- The exact sum. -/
def add? (a b : Int64) : Option Int64 := ofInt? (a.toInt + b.toInt)

/-- The exact difference. -/
def sub? (a b : Int64) : Option Int64 := ofInt? (a.toInt - b.toInt)

/-- The exact product. -/
def mul? (a b : Int64) : Option Int64 := ofInt? (a.toInt * b.toInt)

/-- The quotient rounded toward zero. -/
def div? (a b : Int64) : Option Int64 :=
  if b = 0 then none else ofInt? (a.toInt.tdiv b.toInt)

/-- The remainder, with the sign of `a`. -/
def rem? (a b : Int64) : Option Int64 :=
  (div? a b).bind fun _ ↦ ofInt? (a.toInt.tmod b.toInt)

/-- The exact negation. -/
def neg? (a : Int64) : Option Int64 := ofInt? (-a.toInt)

/-- The decimal cut off toward zero, if it is a 64-bit integer then. -/
def ofDecimal? (x : Float) : Option Int64 :=
  if x.isFinite then ofInt? (Decimal.integerPart x) else none

end SafariScript.Integer
