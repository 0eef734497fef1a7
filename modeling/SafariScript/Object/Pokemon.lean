import SafariScript.Object.Arguments
import SafariScript.Object.Steps

/-!
# Pokémon

A Pokémon has six attributes, all readable. The name never changes; the others can be written, and
what is written is converted to the kind of the attribute.
-/

namespace SafariScript

/-- The attributes of a Pokémon. -/
structure Pokemon where
  name : String
  level : Int64
  nature : String
  behavior : String
  friendliness : Int64
  captured : Bool
deriving DecidableEq, Inhabited

namespace Pokemon

open Steps (check)

/-- A wild Pokémon of which only name and level are given. -/
def new (name : String) (level : Int64) : Pokemon where
  name := name
  level := level
  nature := "Hardy"
  behavior := "calm"
  friendliness := 50
  captured := false

/-- The names of the attributes. -/
def properties : List String := ["name", "level", "nature", "behavior", "friendliness", "captured"]

/-- A throw succeeds when the Pokémon is at least as friendly as it is strong. -/
def isCatchable (p : Pokemon) : Bool := p.level ≤ p.friendliness

/-- All attributes in one sentence. -/
def describe (p : Pokemon) : String :=
  p.name ++ " (lv." ++ intText p.level ++ ", " ++ p.nature ++ " nature, " ++ p.behavior ++
    ", friendliness " ++ intText p.friendliness ++ ", " ++
    (if p.captured then "caught" else "wild") ++ ")"

/-- What a script prints for a Pokémon. -/
def text (p : Pokemon) : String := "<Pokemon " ++ p.name ++ " lv." ++ intText p.level ++ ">"

/-- Reads an attribute. -/
def get (p : Pokemon) (name : String) : Except Fault Value :=
  match name with
  | "name" => .ok (.str p.name)
  | "level" => .ok (.int p.level)
  | "nature" => .ok (.str p.nature)
  | "behavior" => .ok (.str p.behavior)
  | "friendliness" => .ok (.int p.friendliness)
  | "captured" => .ok (.bool p.captured)
  | _ => .error (.unknownProperty .pokemon name)

/-- Writes an attribute. -/
def set (name : String) (v : Value) : Steps Pokemon Unit :=
  let place : Place := .property .pokemon name
  match name with
  | "name" => throw (.readOnlyProperty .pokemon name)
  | "level" => do
    let n ← check (Arguments.toInt place v)
    modify ({ · with level := n })
  | "friendliness" => do
    let n ← check (Arguments.toInt place v)
    modify ({ · with friendliness := n })
  | "nature" => do
    let text ← check (Arguments.toString place v)
    modify ({ · with nature := text })
  | "behavior" => do
    let text ← check (Arguments.toString place v)
    modify ({ · with behavior := text })
  | "captured" => do
    let b ← check (Arguments.bool place v)
    modify ({ · with captured := b })
  | _ => throw (.unknownProperty .pokemon name)

/-- Calls a method. -/
def call (name : String) (args : List Value) (named : List (String × Value)) :
    Steps Pokemon Value :=
  match name with
  | "describe" => do
    check (Arguments.count name args 0)
    check (Arguments.noneNamed name named)
    return .str (← getThe Pokemon).describe
  | _ => throw (.unknownMethod .pokemon name)

/-- Writes an argument of the constructor, if it is given. -/
def writeArgument {α : Type} (arg : Option Value) (convert : Value → Except Fault α)
    (write : α → Pokemon → Pokemon) : Steps Pokemon Unit :=
  arg.forM fun v ↦ do
    let a ← check (convert v)
    modify (write a)

/-- Writes the further arguments of the constructor: nature, behavior and friendliness. -/
def furnish (args : List Value) : Steps Pokemon Unit := do
  let place (param : String) : Place := .argument Native.pokemon.name param
  writeArgument args[0]? (Arguments.string (place "nature")) fun text p ↦ { p with nature := text }
  writeArgument args[1]? (Arguments.string (place "behavior")) fun text p ↦
    { p with behavior := text }
  writeArgument args[2]? (Arguments.toInt (place "friendliness")) fun n p ↦
    { p with friendliness := n }

end Pokemon

end SafariScript
