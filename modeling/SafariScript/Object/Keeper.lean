import SafariScript.Object.Pokemon

/-!
# Keepers of Pokémon

Zones and teams keep Pokémon that others may keep as well. Their methods act on the keeper itself
and have all Pokémon at hand, to look at and to write to.
-/

namespace SafariScript

/-- What an object answers: a value, or Pokémon to be listed. -/
inductive Reply where
  | value (v : Value)
  | roster (members : List PokemonId)

/-- A number of things as an integer. -/
def countOf {α : Type} (xs : List α) : Int64 := Int64.ofNat xs.length

/-- An object that keeps Pokémon, and all Pokémon. -/
structure Keeper (σ : Type) where
  self : σ
  pokemon : Array Pokemon

namespace Keeper

variable {σ : Type}

/-- A Pokémon by number. -/
def look (k : Keeper σ) (id : PokemonId) : Pokemon := k.pokemon.getD id default

/-- Changes the object itself. -/
def change (f : σ → σ) : Steps (Keeper σ) Unit := modify fun k ↦ { k with self := f k.self }

end Keeper

end SafariScript
