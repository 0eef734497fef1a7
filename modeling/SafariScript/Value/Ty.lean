/-!
# Kinds of values

The names under which reports speak of values.
-/

namespace SafariScript

/-- The kind of a value. -/
inductive Ty where
  | null
  | bool
  | int
  | decimal
  | string
  | list
  | zone
  | team
  | pokemon
  | function
  | native
deriving DecidableEq, Inhabited

/-- The name of the kind. -/
def Ty.name : Ty → String
  | null => "null"
  | bool => "bool"
  | int => "int"
  | decimal => "decimal"
  | string => "string"
  | list => "list"
  | zone => "SafariZone"
  | team => "Team"
  | pokemon => "Pokemon"
  | function => "function"
  | native => "native function"

end SafariScript
