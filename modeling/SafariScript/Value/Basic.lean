import SafariScript.Integer
import SafariScript.Program.Basic
import SafariScript.Value.Ty

/-!
# Values

What expressions evaluate to. Lists and functions never change once they are made, so a value holds
their contents; it also holds a number that tells one made list or function from another. Zones,
teams and Pokémon do change: a value only refers to them.
-/

namespace SafariScript

/-- The number of a frame of variables. -/
abbrev FrameId := Nat

/-- The number of a Pokémon. -/
abbrev PokemonId := Nat

/-- A reference to a zone, a team or a Pokémon. -/
inductive Object where
  | zone (id : Nat)
  | team (id : Nat)
  | pokemon (id : PokemonId)
deriving DecidableEq, Inhabited

/-- The kind of the object. -/
def Object.ty : Object → Ty
  | zone _ => .zone
  | team _ => .team
  | pokemon _ => .pokemon

/-- The functions that every session starts with. -/
inductive Native where
  | safariZone
  | team
  | pokemon
  | len
deriving DecidableEq, Inhabited

namespace Native

/-- The name under which the function is bound. -/
def name : Native → String
  | safariZone => "SafariZone"
  | team => "Team"
  | pokemon => "Pokemon"
  | len => "len"

/-- Every native function. -/
def all : List Native := [safariZone, team, pokemon, len]

end Native

/-- A function of a script: what was defined, and the frame it was defined in. The number `id`
tells it from every other function. -/
structure Function where
  id : Nat
  name : String
  params : List String
  body : List Stmt
  closure : FrameId
deriving Inhabited

/-- A value. -/
inductive Value where
  | null
  | bool (b : Bool)
  | int (n : Int64)
  | decimal (x : Float)
  | str (s : String)
  /-- A list; the number `id` tells it from every other list. -/
  | list (id : Nat) (items : List Value)
  | object (o : Object)
  | function (f : Function)
  | native (n : Native)
deriving Inhabited

namespace Value

/-- The value that a literal writes. -/
def ofLiteral : Literal → Value
  | .int n => int n
  | .decimal x => decimal x
  | .str s => str s
  | .bool b => bool b
  | .null => null

/-- The kind of the value. -/
def ty : Value → Ty
  | null => .null
  | bool _ => .bool
  | int _ => .int
  | decimal _ => .decimal
  | str _ => .string
  | list _ _ => .list
  | object o => o.ty
  | function _ => .function
  | native _ => .native

/-- Whether a condition with this value holds: only `null` and `false` do not. -/
def isTruthy : Value → Bool
  | null => false
  | bool b => b
  | _ => true

/-- The value as an integer, where integers are written to: a decimal is cut off toward zero. -/
def toInt? : Value → Option Int64
  | int n => some n
  | decimal x => Integer.ofDecimal? x
  | _ => none

/-- The value as a string, where strings are written to: numbers and truth values are spelled
out. -/
def toString? : Value → Option String
  | str s => some s
  | int n => some (intText n)
  | decimal x => some (Decimal.text x)
  | bool b => some (boolText b)
  | _ => none

/-- The value as a decimal, where numbers of both kinds meet. -/
def toDecimal? : Value → Option Float
  | int n => some n.toFloat
  | decimal x => some x
  | _ => none

mutual

/-- Whether two values are equal for a script. Numbers are compared by value, lists item by item
unless they are one and the same, and objects and functions by identity. -/
def equals : Value → Value → Bool
  | null, null => true
  | bool a, bool b => a == b
  | int a, int b => a == b
  | decimal a, decimal b => a == b
  | int a, decimal b => a.toFloat == b
  | decimal a, int b => a == b.toFloat
  | str a, str b => a == b
  | list i as, list j bs => i == j || equalsAll as bs
  | object a, object b => a == b
  | function a, function b => a.id == b.id
  | native a, native b => a == b
  | _, _ => false

/-- Whether two lists of values have equal length and equal items. -/
def equalsAll : List Value → List Value → Bool
  | [], [] => true
  | a :: as, b :: bs => equals a b && equalsAll as bs
  | _, _ => false

end

mutual

/-- What a script prints for the value, given the text of objects. -/
def text (objectText : Object → String) : Value → String
  | null => "null"
  | bool b => boolText b
  | int n => intText n
  | decimal x => Decimal.text x
  | str s => s
  | list _ items => "[" ++ String.intercalate ", " (itemTexts objectText items) ++ "]"
  | object o => objectText o
  | function f => "<fn " ++ f.name ++ ">"
  | native n => "<native " ++ n.name ++ ">"

/-- The texts of the items of a list; strings are quoted. -/
def itemTexts (objectText : Object → String) : List Value → List String
  | [] => []
  | v :: vs =>
    (match v with
      | str s => Text.quote s
      | _ => text objectText v) :: itemTexts objectText vs

end

end Value

/-- The function as reports about values show it: its name and parameters. -/
def Function.outline (f : Function) : String :=
  r"Function { name: " ++ Text.quote f.name ++ ", params: [" ++
    String.intercalate ", " (f.params.map Text.quote) ++ r"], .. }"

end SafariScript
