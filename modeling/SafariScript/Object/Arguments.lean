import SafariScript.Fault
import SafariScript.Value.Basic

/-!
# Arguments

The checks that native functions and methods make on what they are given, each with its fault.
-/

namespace SafariScript.Arguments

/-- There have to be exactly `n` arguments. -/
def count (name : String) (args : List Value) (n : Nat) : Except Fault Unit :=
  if args.length = n then .ok () else .error (.wrongArity name n args.length)

/-- There has to be exactly one argument, which is given back. -/
def one (name : String) : List Value → Except Fault Value
  | [v] => .ok v
  | args => .error (.wrongArity name 1 args.length)

/-- There may be no named argument. -/
def noneNamed (name : String) : List (String × Value) → Except Fault Unit
  | [] => .ok ()
  | (key, _) :: _ => .error (.namedArgument name key)

/-- An integer, and nothing that would have to be converted. -/
def int (place : Place) : Value → Except Fault Int64
  | .int n => .ok n
  | v => .error (.wrongType place [.int] v.ty)

/-- A string, and nothing that would have to be converted. -/
def string (place : Place) : Value → Except Fault String
  | .str s => .ok s
  | v => .error (.wrongType place [.string] v.ty)

/-- A Pokémon. -/
def pokemon (place : Place) : Value → Except Fault PokemonId
  | .object (.pokemon id) => .ok id
  | v => .error (.wrongType place [.pokemon] v.ty)

/-- A truth value. -/
def bool (place : Place) : Value → Except Fault Bool
  | .bool b => .ok b
  | v => .error (.wrongType place [.bool] v.ty)

/-- An integer, or a decimal that is cut off to one. -/
def toInt (place : Place) (v : Value) : Except Fault Int64 :=
  match v.toInt? with
  | some n => .ok n
  | none => .error (.wrongType place [.int] v.ty)

/-- A string, or a number or truth value that is spelled out. -/
def toString (place : Place) (v : Value) : Except Fault String :=
  match v.toString? with
  | some s => .ok s
  | none => .error (.wrongType place [.string] v.ty)

/-- A counter: an integer or a decimal that is cut off to one, and not negative. -/
def toCounter (place : Place) (v : Value) : Except Fault Int64 := do
  let n ← toInt place v
  if n < 0 then .error (.negativeCounter place n) else .ok n

end SafariScript.Arguments
