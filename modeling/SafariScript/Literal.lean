import SafariScript.Decimal.Text
import SafariScript.Text.Quoted

/-!
# Literals

The values that a script can write down directly. Integers have 64 bits and a sign, decimals are
64-bit binary floating point numbers.
-/

namespace SafariScript

/-- A value written in a script. -/
inductive Literal where
  | int (n : Int64)
  | decimal (x : Float)
  | str (s : String)
  | bool (b : Bool)
  | null
deriving Inhabited

/-- The text of an integer: digits, after a minus sign if it is negative. -/
def intText (n : Int64) : String := toString n.toInt

/-- The text of a truth value. -/
def boolText (b : Bool) : String := if b then "true" else "false"

/-- The literal as a script would write it, the string in quotes and with its escapes. -/
def Literal.text : Literal → String
  | .int n => intText n
  | .decimal x => Decimal.literalText x
  | .str s => Text.quote s
  | .bool b => boolText b
  | .null => "null"

end SafariScript
