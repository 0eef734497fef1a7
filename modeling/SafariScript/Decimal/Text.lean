import SafariScript.Decimal.Shortest
import SafariScript.Power
import SafariScript.Text.Digits

/-!
# The text of decimals

Decimals of the language are 64-bit binary floating point numbers. They are read from digits around
a point, rounded to nearest, and written in two ways, both with the fewest digits that read back:

* `text` is what a script prints: always positional, and a whole number has no point;
* `literalText` marks the value as a decimal: a whole number ends in `.0`, and an exponent is
  written from `1e16` upward and below `1e-4`.
-/

namespace SafariScript.Decimal

open scoped Power

/-- The decimal written as `whole.fraction`. -/
def ofDigits (whole fraction : List Char) : Float :=
  Float.ofScientific (Text.digitsValue (whole ++ fraction)) true fraction.length

namespace Digits

/-- The digit characters, most significant first. -/
def chars (d : Digits) : List Char := Nat.toDigits 10 d.digits

/-- The power of ten of the leading digit. -/
def magnitude (d : Digits) : Int := d.chars.length - 1 + d.exponent

/-- The number with all its places written out and no point in a whole number. -/
def positional (d : Digits) : List Char :=
  if 0 ≤ d.exponent then d.chars ++ List.replicate d.exponent.toNat '0'
  else if 0 ≤ d.magnitude then
    d.chars.take (d.magnitude.toNat + 1) ++ '.' :: d.chars.drop (d.magnitude.toNat + 1)
  else ['0', '.'] ++ List.replicate (-d.magnitude - 1).toNat '0' ++ d.chars

/-- One digit, the further digits after a point if there are any, and the exponent of ten. -/
def scientific (d : Digits) : List Char :=
  let mantissa :=
    match d.chars with
    | [] => []
    | [c] => [c]
    | c :: cs => c :: '.' :: cs
  mantissa ++ 'e' :: (toString d.magnitude).toList

/-- Whether the number is written with an exponent where it has to look like a decimal. -/
def needsExponent (d : Digits) : Bool :=
  d.digits != 0 && (d.magnitude ≥ 16 || d.magnitude < -4)

/-- The number written so that it cannot be taken for an integer. -/
def marked (d : Digits) : List Char :=
  if d.needsExponent then d.scientific
  else if 0 ≤ d.exponent then d.positional ++ ['.', '0']
  else d.positional

end Digits

/-- The texts of the values without digits, else the sign and the text of the magnitude. -/
def write (magnitude : Digits → List Char) (x : Float) : String :=
  if x.isNaN then "NaN"
  else
    let sign := if x.toBits.toNat ≥ 2 ^ (63 : Nat) then ['-'] else []
    if x.isInf then String.ofList (sign ++ ['i', 'n', 'f'])
    else String.ofList (sign ++ magnitude (Binary.ofBits x.toBits).shortest)

/-- What a script prints for the decimal. -/
def text (x : Float) : String := write Digits.positional x

/-- The decimal as a literal: never like an integer. -/
def literalText (x : Float) : String := write Digits.marked x

end SafariScript.Decimal
