import SafariScript.Object.Team
import SafariScript.Store.Frames

/-!
# The store

Everything a session can refer to: frames, zones, teams and Pokémon, by number, and the next number
for a list or a function. `StoreM` is a computation on the store that may end in a fault; the store
it leaves behind then is still there.
-/

namespace SafariScript

/-- The things of a session. -/
structure Store where
  frames : Frames
  zones : Array Zone
  teams : Array Team
  pokemon : Array Pokemon
  /-- The number of the next list or function. -/
  fresh : Nat

/-- A computation on the store, which may end in a fault. -/
abbrev StoreM := Steps Store

namespace Store

open Steps (check)

/-- A store without anything in it. -/
def empty : Store := ⟨.empty, #[], #[], #[], 0⟩

/-- A zone by number. -/
def zone (s : Store) (id : Nat) : Zone := s.zones.getD id default

/-- A team by number. -/
def team (s : Store) (id : Nat) : Team := s.teams.getD id default

/-- A Pokémon by number. -/
def pokemonAt (s : Store) (id : PokemonId) : Pokemon := s.pokemon.getD id default

/-- What a script prints for an object. -/
def objectText (s : Store) : Object → String
  | .zone id => (s.zone id).text
  | .team id => (s.team id).text
  | .pokemon id => (s.pokemonAt id).text

/-- What a script prints for a value. -/
def text (s : Store) (v : Value) : String := v.text s.objectText

/-! ### New things -/

/-- A new list. -/
def newList (items : List Value) (s : Store) : Value × Store :=
  (.list s.fresh items, { s with fresh := s.fresh + 1 })

/-- A new function. -/
def newFunction (name : String) (params : List String) (body : List Stmt) (closure : FrameId)
    (s : Store) : Value × Store :=
  (.function ⟨s.fresh, name, params, body, closure⟩, { s with fresh := s.fresh + 1 })

/-- A new zone. -/
def newZone (z : Zone) (s : Store) : Value × Store :=
  (.object (.zone s.zones.size), { s with zones := s.zones.push z })

/-- A new team. -/
def newTeam (t : Team) (s : Store) : Value × Store :=
  (.object (.team s.teams.size), { s with teams := s.teams.push t })

/-- A new Pokémon. -/
def newPokemon (p : Pokemon) (s : Store) : Value × Store :=
  (.object (.pokemon s.pokemon.size), { s with pokemon := s.pokemon.push p })

/-- A new frame inside none. -/
def newRoot (s : Store) : FrameId × Store :=
  let (id, frames) := s.frames.pushRoot
  (id, { s with frames := frames })

/-- A new frame inside the given one. -/
def newFrame (around : FrameId) (s : Store) : FrameId × Store :=
  let (id, frames) := s.frames.pushChild around
  (id, { s with frames := frames })

/-! ### Variables -/

/-- Binds a name in a frame. -/
def define (frame : FrameId) (name : String) (v : Value) (s : Store) : Store :=
  { s with frames := s.frames.define frame name v }

/-- Binds names to values in a frame, one after the other. -/
def defineAll (frame : FrameId) (bindings : List (String × Value)) (s : Store) : Store :=
  bindings.foldl (fun s (name, v) ↦ s.define frame name v) s

/-- Changes the nearest binding of a name or makes one in the outermost frame, and says whether it
made one. -/
def assign (frame : FrameId) (name : String) (v : Value) (s : Store) : Bool × Store :=
  let (created, frames) := s.frames.set frame name v
  (created, { s with frames := frames })

/-- Binds every native function under its name. -/
def install (frame : FrameId) (s : Store) : Store :=
  s.defineAll frame (Native.all.map fun n ↦ (n.name, .native n))

/-! ### Objects -/

/-- The value of a reply; Pokémon are listed in a new list. -/
def ofReply : Reply → StoreM Value
  | .value v => pure v
  | .roster members => modifyGet (newList (members.map fun id ↦ .object (.pokemon id)))

/-- Steps on a zone and the Pokémon. -/
def onZone {α : Type} (id : Nat) : Steps (Keeper Zone) α → StoreM α :=
  Steps.onPart (fun s ↦ ⟨s.zone id, s.pokemon⟩) fun k s ↦
    { s with zones := s.zones.setIfInBounds id k.self, pokemon := k.pokemon }

/-- Steps on a team and the Pokémon. -/
def onTeam {α : Type} (id : Nat) : Steps (Keeper Team) α → StoreM α :=
  Steps.onPart (fun s ↦ ⟨s.team id, s.pokemon⟩) fun k s ↦
    { s with teams := s.teams.setIfInBounds id k.self, pokemon := k.pokemon }

/-- Steps on a Pokémon. -/
def onPokemon {α : Type} (id : PokemonId) : Steps Pokemon α → StoreM α :=
  Steps.onPart (·.pokemonAt id) fun p s ↦ { s with pokemon := s.pokemon.setIfInBounds id p }

/-- Reads a property of an object. -/
def getProperty (o : Object) (name : String) : StoreM Value := do
  let s ← get
  match o with
  | .zone id => ofReply (← check ((s.zone id).get name))
  | .team id => ofReply (← check ((s.team id).get name))
  | .pokemon id => check ((s.pokemonAt id).get name)

/-- Writes a property of an object. -/
def setProperty (o : Object) (name : String) (v : Value) : StoreM Unit :=
  match o with
  | .zone id => onZone id (Zone.set name v)
  | .team id => onTeam id (Team.set name v)
  | .pokemon id => onPokemon id (Pokemon.set name v)

/-- Calls a method of an object. -/
def callMethod (o : Object) (name : String) (args : List Value) (named : List (String × Value)) :
    StoreM Value :=
  match o with
  | .zone id => do ofReply (← onZone id (Zone.call name args named))
  | .team id => do ofReply (← onTeam id (Team.call name args named))
  | .pokemon id => onPokemon id (Pokemon.call name args named)

/-- Throws a ball in a zone at a Pokémon. -/
def throwBall (zone : Nat) (target : PokemonId) (s : Store) : ThrowOutcome × Store :=
  let (outcome, z, p) := (s.zone zone).throwBall target (s.pokemonAt target)
  (outcome, { s with
    zones := s.zones.setIfInBounds zone z
    pokemon := s.pokemon.setIfInBounds target p })

/-! ### Native functions -/

/-- The length of a list, or the number of characters of a string. -/
def lengthOf (v : Value) : Except Fault Int64 :=
  match v with
  | .list _ items => .ok (countOf items)
  | .str s => .ok (countOf s.toList)
  | _ => .error (.wrongType (.native Native.len.name) [.list, .string] v.ty)

/-- Calls a native function. -/
def callNative (n : Native) (args : List Value) : StoreM Value :=
  let place (param : String) : Place := .argument n.name param
  match n with
  | .safariZone =>
    match args with
    | [v, w] => do
      let balls ← check (Arguments.toCounter (place "balls") v)
      let turns ← check (Arguments.toCounter (place "turns") w)
      modifyGet (newZone (.new balls turns))
    | _ => throw (.wrongArity n.name 2 args.length)
  | .team => do
    check (Arguments.count n.name args 0)
    modifyGet (newTeam .new)
  | .pokemon =>
    match args with
    | v :: w :: more => do
      if 3 < more.length then throw (.wrongArityRange n.name 2 5 args.length)
      else
        let name ← check (Arguments.string (place "name") v)
        let level ← check (Arguments.toInt (place "level") w)
        let p ← Steps.onNew (.new name level) (Pokemon.furnish more)
        modifyGet (newPokemon p)
    | _ => throw (.wrongArityRange n.name 2 5 args.length)
  | .len => do return .int (← check do lengthOf (← Arguments.one n.name args))

end Store

end SafariScript
