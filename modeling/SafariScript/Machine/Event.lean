import SafariScript.Object.Zone

/-!
# Events

What a session tells those who watch it, in the order in which it happens. An event has a level,
which says how closely one has to watch to see it, a fixed message, and fields with a text each.
-/

namespace SafariScript

/-- Something worth telling. -/
inductive Event where
  /-- A script was cut into so many tokens, and ended on the given line. -/
  | scanned (count lines : Nat)
  /-- A script was parsed into so many statements. -/
  | parsed (count : Nat)
  /-- An assignment on the given line made a new global variable. -/
  | implicitGlobal (name : String) (line : Nat)
  /-- A function was called; with it so many calls are active. -/
  | called (function : String) (depth : Nat)
  /-- The repetition on the given line was left in an iteration, counted from zero. -/
  | leftRepeat (iteration line : Nat)
  /-- A ball was thrown. -/
  | threw (pokemon : String) (outcome : ThrowOutcome)
  /-- A program of so many statements came to its end after so many steps. -/
  | evaluated (statements steps : Nat)
deriving DecidableEq

namespace Event

/-- How closely one has to watch to see an event. -/
inductive Level where
  | trace
  | debug
  | warn
deriving DecidableEq, Inhabited

/-- The name of the level. -/
def Level.name : Level → String
  | trace => "TRACE"
  | debug => "DEBUG"
  | warn => "WARN"

/-- The level of an event. -/
def level : Event → Level
  | scanned _ _ => .debug
  | parsed _ => .debug
  | implicitGlobal _ _ => .warn
  | called _ _ => .trace
  | leftRepeat _ _ => .trace
  | threw _ _ => .debug
  | evaluated _ _ => .debug

/-- The message of an event. -/
def message : Event → String
  | scanned _ _ => "scanned source"
  | parsed _ => "parsed program"
  | implicitGlobal _ _ => "assignment created implicit global"
  | called _ _ => "call"
  | leftRepeat _ _ => "run: leaving repeat"
  | threw _ _ => "throwBall"
  | evaluated _ _ => "evaluated program"

/-- The fields of an event. -/
def fields : Event → List (String × String)
  | scanned count lines => [("count", toString count), ("lines", toString lines)]
  | parsed count => [("count", toString count)]
  | implicitGlobal name line => [("name", name), ("line", toString line)]
  | called function depth => [("function", function), ("depth", toString depth)]
  | leftRepeat iteration line => [("iteration", toString iteration), ("line", toString line)]
  | threw pokemon outcome => [("pokemon", pokemon), ("outcome", outcome.name)]
  | evaluated statements steps =>
    [("statements", toString statements), ("steps", toString steps)]

end Event

end SafariScript
