import SafariScript.Object.Zone

/-!
# Teams

A team is a roster of Pokémon in order of arrival. Members are found and removed by name, and
selected by their attributes; what a member is called and is like is asked of `look`. A member that
cannot be asked for an attribute ends the selection with a fault.
-/

namespace SafariScript

/-- The members of a team, in order of arrival; one may be there more than once. -/
structure Team where
  roster : List PokemonId
deriving DecidableEq, Inhabited

namespace Team

open Steps (check)

/-- A team without members. -/
def new : Team := ⟨[]⟩

/-- What a script prints for a team. -/
def text (t : Team) : String := "<Team size=" ++ toString t.roster.length ++ ">"

/-- Reads a property. -/
def get (t : Team) (name : String) : Except Fault Reply :=
  match name with
  | "pokemon" => .ok (.roster t.roster)
  | "size" => .ok (.value (.int (countOf t.roster)))
  | _ => .error (.unknownProperty .team name)

/-- No property of a team can be written. -/
def set (name : String) (_ : Value) : Steps (Keeper Team) Unit :=
  match name with
  | "pokemon" => throw (.readOnlyProperty .team name)
  | "size" => throw (.readOnlyProperty .team name)
  | _ => throw (.unknownProperty .team name)

/-- The team without the members of the given name. -/
def remove (look : PokemonId → Pokemon) (t : Team) (name : String) : Team :=
  ⟨t.roster.filter fun id ↦ (look id).name ≠ name⟩

/-- The first member of the given name. -/
def find? (look : PokemonId → Pokemon) (t : Team) (name : String) : Option PokemonId :=
  t.roster.find? fun id ↦ (look id).name = name

/-- Whether the Pokémon has the wanted value in every criterion. They are asked in order, up to the
first that it does not meet or that cannot be read. -/
def satisfies (p : Pokemon) : List (String × Value) → Except Fault Bool
  | [] => return true
  | (name, wanted) :: criteria => do
    let v ← p.get name
    if v.equals wanted then satisfies p criteria else return false

/-- Those of the Pokémon that satisfy all criteria, in order. -/
def matching (look : PokemonId → Pokemon) (criteria : List (String × Value)) :
    List PokemonId → Except Fault (List PokemonId)
  | [] => return []
  | id :: ids => do
    let keep ← satisfies (look id) criteria
    let rest ← matching look criteria ids
    return if keep then id :: rest else rest

/-- The members that satisfy all criteria. There has to be a criterion, and each has to name an
attribute. -/
def select (look : PokemonId → Pokemon) (t : Team) (criteria : List (String × Value)) :
    Except Fault (List PokemonId) :=
  if criteria.isEmpty then throw .noCriterion
  else
    match criteria.find? fun (name, _) ↦ !Pokemon.properties.contains name with
    | some (name, _) => throw (.unknownProperty .pokemon name)
    | none => matching look criteria t.roster

/-- Calls a method. -/
def call (name : String) (args : List Value) (named : List (String × Value)) :
    Steps (Keeper Team) Reply :=
  let place : Place := .method .team name
  match name with
  | "add" => do
    let v ← check (Arguments.one name args)
    check (Arguments.noneNamed name named)
    let id ← check (Arguments.pokemon place v)
    Keeper.change fun t ↦ ⟨t.roster ++ [id]⟩
    return .value (.int (countOf (← getThe (Keeper Team)).self.roster))
  | "remove" => do
    let v ← check (Arguments.one name args)
    check (Arguments.noneNamed name named)
    let wanted ← check (Arguments.string place v)
    let before ← getThe (Keeper Team)
    Keeper.change fun t ↦ t.remove before.look wanted
    return .value (.bool ((← getThe (Keeper Team)).self.roster.length ≠ before.self.roster.length))
  | "find" => do
    let v ← check (Arguments.one name args)
    check (Arguments.noneNamed name named)
    let wanted ← check (Arguments.string place v)
    let k ← getThe (Keeper Team)
    match k.self.find? k.look wanted with
    | some id => return .value (.object (.pokemon id))
    | none => throw (.noSuchMember wanted)
  | "filter" => do
    check (Arguments.count name args 0)
    let k ← getThe (Keeper Team)
    return .roster (← check (k.self.select k.look named))
  | _ => throw (.unknownMethod .team name)

end Team

end SafariScript
