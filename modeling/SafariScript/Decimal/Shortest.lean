import SafariScript.Power

/-!
# Shortest decimals

The fewest decimal digits that read back as a given binary number. A finite magnitude is
`significand * 2 ^ exponent`; the reals that round to it form an interval, ends included exactly
when the significand is even (`Binary.readsBack`). On each grid of powers of ten, from coarse to
fine, only the two neighbours of the number are candidates, and the first grid with a candidate in
the interval gives the answer: of two candidates the nearer, and of two equally near the larger.

All comparisons are exact, between natural numbers.
-/

namespace SafariScript.Decimal

open scoped Power

/-- A non-negative binary number `significand * 2 ^ exponent`. -/
structure Binary where
  significand : Nat
  exponent : Int
  /-- Whether the next number below is only half as far away as the next one above. -/
  narrowBelow : Bool

/-- A non-negative decimal number `digits * 10 ^ exponent`. -/
structure Digits where
  digits : Nat
  exponent : Int
deriving DecidableEq

/-- Compares `a * 10 ^ i` with `b * 2 ^ j`. -/
def compareScaled (a : Nat) (i : Int) (b : Nat) (j : Int) : Ordering :=
  compare (a * 10 ^ i.toNat * 2 ^ (-j).toNat) (b * 2 ^ j.toNat * 10 ^ (-i).toNat)

namespace Binary

/-- The magnitude that a 64-bit pattern stands for, when it is finite. -/
def ofBits (bits : UInt64) : Binary :=
  let biased : Nat := (bits.toNat / 2 ^ (52 : Nat)) % 2 ^ (11 : Nat)
  let fraction : Nat := bits.toNat % 2 ^ (52 : Nat)
  if biased = 0 then ⟨fraction, -1074, false⟩
  else ⟨2 ^ (52 : Nat) + fraction, (biased : Int) - 1075, fraction == 0 && biased > 1⟩

/-- Whether the decimal lies among the reals that round to the binary number, to nearest and on
ties to even. -/
def readsBack (x : Binary) (d : Digits) : Bool :=
  let low := if x.narrowBelow then 4 * x.significand - 1 else 4 * x.significand - 2
  let high := 4 * x.significand + 2
  let closed := x.significand % 2 == 0
  let fromLow := compareScaled d.digits d.exponent low (x.exponent - 2)
  let fromHigh := compareScaled d.digits d.exponent high (x.exponent - 2)
  (fromLow == .gt || (closed && fromLow == .eq)) &&
    (fromHigh == .lt || (closed && fromHigh == .eq))

/-- How many whole steps of `10 ^ k` fit below the number. -/
def stepsOf (x : Binary) (k : Int) : Nat :=
  (x.significand * 2 ^ x.exponent.toNat * 10 ^ (-k).toNat) /
    (2 ^ (-x.exponent).toNat * 10 ^ k.toNat)

/-- The multiple of `10 ^ k` that reads back and is nearest to the number, if there is one. -/
def onGrid? (x : Binary) (k : Int) : Option Digits :=
  let below : Digits := ⟨x.stepsOf k, k⟩
  let above : Digits := ⟨x.stepsOf k + 1, k⟩
  match x.readsBack below, x.readsBack above with
  | true, true =>
    -- Twice the number against the sum of the two candidates: a tie goes up.
    match compareScaled (2 * x.stepsOf k + 1) k (2 * x.significand) x.exponent with
    | .gt => some below
    | _ => some above
  | true, false => some below
  | false, true => some above
  | false, false => none

/-- The number written out in full. -/
def exactly (x : Binary) : Digits :=
  if 0 ≤ x.exponent then ⟨x.significand * 2 ^ x.exponent.toNat, 0⟩
  else ⟨x.significand * 5 ^ (-x.exponent).toNat, x.exponent⟩

/-- The first answer on the grids `10 ^ k`, `10 ^ (k - 1)`, …, of which `steps` are tried. -/
def search (x : Binary) : (steps : Nat) → (k : Int) → Digits
  | 0, _ => x.exactly
  | steps + 1, k => (x.onGrid? k).getD (x.search steps (k - 1))

/-- A power of ten above the number, from its binary logarithm. -/
def scale (x : Binary) : Int :=
  (Nat.log2 x.significand + x.exponent + 1) * 30103 / 100000 + 1

/-- The shortest decimal that reads back. Seventeen digits always suffice, and the scale is at most
two grids above the leading digit. -/
def shortest (x : Binary) : Digits :=
  if x.significand = 0 then ⟨0, 0⟩ else x.search 20 x.scale

end Binary

end SafariScript.Decimal
