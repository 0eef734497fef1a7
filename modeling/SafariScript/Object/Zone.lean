import SafariScript.Object.Keeper

/-!
# Zones

A zone has a budget of balls and turns, and the wild Pokémon that still roam in it. A throw takes
one ball and one turn; a Pokémon that is caught leaves the zone.
-/

namespace SafariScript

/-- What becomes of a throw. -/
inductive ThrowOutcome where
  | alreadyCaught
  | noBalls
  | gameOver
  | caught
  | brokeFree
deriving DecidableEq, Inhabited

/-- The name of the outcome. -/
def ThrowOutcome.name : ThrowOutcome → String
  | alreadyCaught => "AlreadyCaught"
  | noBalls => "NoBalls"
  | gameOver => "GameOver"
  | caught => "Caught"
  | brokeFree => "BrokeFree"

/-- The lines that tell the outcome, for a Pokémon of the given name. -/
def ThrowOutcome.messages (name : String) : ThrowOutcome → List String
  | alreadyCaught => [name ++ " has already been caught!"]
  | noBalls => ["You have no Safari Balls left!"]
  | gameOver => ["The Safari Game is over!"]
  | caught => ["You threw a Safari Ball at " ++ name ++ "!", "Gotcha! " ++ name ++ " was caught!"]
  | brokeFree => ["You threw a Safari Ball at " ++ name ++ "!", "Oh no! " ++ name ++ " broke free!"]

/-- The counters of a zone and its wild Pokémon, in order of arrival. -/
structure Zone where
  balls : Int64
  turns : Int64
  wild : List PokemonId
deriving DecidableEq, Inhabited

namespace Zone

open Steps (check)

/-- A zone without Pokémon. -/
def new (balls turns : Int64) : Zone := ⟨balls, turns, []⟩

/-- What a script prints for a zone. -/
def text (z : Zone) : String :=
  "<SafariZone balls=" ++ intText z.balls ++ " turns=" ++ intText z.turns ++ ">"

/-- Throws a ball at the Pokémon `p` with the number `id`. -/
def throwBall (z : Zone) (id : PokemonId) (p : Pokemon) : ThrowOutcome × Zone × Pokemon :=
  if p.captured then (.alreadyCaught, z, p)
  else if z.balls ≤ 0 then (.noBalls, z, p)
  else if z.turns ≤ 0 then (.gameOver, z, p)
  else
    let z := { z with balls := z.balls - 1, turns := z.turns - 1 }
    if p.isCatchable then
      (.caught, { z with wild := z.wild.filter (· ≠ id) }, { p with captured := true })
    else (.brokeFree, z, p)

/-- Reads a property. -/
def get (z : Zone) (name : String) : Except Fault Reply :=
  match name with
  | "balls" => .ok (.value (.int z.balls))
  | "turns" => .ok (.value (.int z.turns))
  | "pokemon" => .ok (.roster z.wild)
  | _ => .error (.unknownProperty .zone name)

/-- Writes a property. -/
def set (name : String) (v : Value) : Steps (Keeper Zone) Unit :=
  let place : Place := .property .zone name
  match name with
  | "balls" => do
    let n ← check (Arguments.toCounter place v)
    Keeper.change ({ · with balls := n })
  | "turns" => do
    let n ← check (Arguments.toCounter place v)
    Keeper.change ({ · with turns := n })
  | "pokemon" => throw (.readOnlyProperty .zone name)
  | _ => throw (.unknownProperty .zone name)

/-- Raises a counter by the argument of a method, and answers with what it has become. -/
def addToCounter (counter : Zone → Int64) (write : Int64 → Zone → Zone) (method : String)
    (args : List Value) : Steps (Keeper Zone) Reply := do
  let v ← check (Arguments.one method args)
  let amount ← check (Arguments.int (.method .zone method) v)
  if amount < 0 then throw (.negativeAmount method amount)
  else
    match Integer.add? (counter (← getThe (Keeper Zone)).self) amount with
    | some n =>
      Keeper.change (write n)
      return .value (.int (counter (← getThe (Keeper Zone)).self))
    | none => throw (.counterOverflow method)

/-- Calls a method. -/
def call (name : String) (args : List Value) (named : List (String × Value)) :
    Steps (Keeper Zone) Reply := do
  check (Arguments.noneNamed name named)
  match name with
  | "addBalls" => addToCounter balls (fun n z ↦ { z with balls := n }) name args
  | "addTurns" => addToCounter turns (fun n z ↦ { z with turns := n }) name args
  | "addPokemon" =>
    let v ← check (Arguments.one name args)
    let id ← check (Arguments.pokemon (.method .zone name) v)
    Keeper.change fun z ↦ { z with wild := z.wild ++ [id] }
    return .value (.int (countOf (← getThe (Keeper Zone)).self.wild))
  | _ => throw (.unknownMethod .zone name)

end Zone

end SafariScript
