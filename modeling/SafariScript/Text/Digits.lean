/-!
# Digits

Runs of decimal digits and the numbers they write.
-/

namespace SafariScript.Text

/-- The ten decimal digits of ASCII. -/
def isDigit (c : Char) : Bool := '0' ≤ c && c ≤ '9'

/-- The number that a run of digits writes in base ten. -/
def digitsValue (cs : List Char) : Nat :=
  cs.foldl (fun n c ↦ 10 * n + (c.toNat - '0'.toNat)) 0

end SafariScript.Text
