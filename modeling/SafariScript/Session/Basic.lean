import SafariScript.Failure
import SafariScript.Machine.Eval
import SafariScript.Program.Grammar
import SafariScript.Token.Scan

/-!
# Sessions

A session evaluates scripts one after the other on one machine: what a script binds and changes is
there for the next, also when the script failed. `Session.run` takes a script from text to effect;
`Session.step` observes what it did.
-/

namespace SafariScript

/-- A machine, and what is imposed on each evaluation. -/
structure Session where
  limits : Limits
  machine : Machine

namespace Session

/-- A session that has not evaluated anything. -/
def new (limits : Limits) (sink : Sink) : Session := ⟨limits, .new sink⟩

/-- Adds an event to the log. -/
def tell (event : Event) (s : Session) : Session := { s with machine := s.machine.tell event }

/-- Evaluates a program. -/
def evaluate (s : Session) (program : Program) : Option Failure × Session :=
  match SafariScript.evaluate s.limits program s.machine with
  | .ok _ m => (none, { s with machine := m })
  | .error e m => (some (.runtime e), { s with machine := m })

/-- Scans and parses a script. -/
def parse (s : Session) (source : String) : Except Failure Program × Session :=
  match Token.scan source with
  | .error e => (.error (.scan e), s)
  | .ok ts =>
    let s := s.tell (.scanned ts.length (endOfTokens ts).position.line)
    match Program.ofTokens ts with
    | .error e => (.error (.parse e), s)
    | .ok program => (.ok program, s.tell (.parsed program.length))

/-- Scans, parses and evaluates a script. -/
def run (s : Session) (source : String) : Option Failure × Session :=
  match s.parse source with
  | (.error failure, s) => (some failure, s)
  | (.ok program, s) => s.evaluate program

/-- The global variables other than those that hold native functions, with the kinds and texts of
their values. -/
def globals (s : Session) : List (String × Ty × String) :=
  s.machine.globals.filterMap fun (name, v) ↦
    match v with
    | .native _ => none
    | _ => some (name, v.ty, s.machine.text v)

/-- What was seen of one step of a session. -/
structure Step where
  failure : Option Failure
  output : String
  events : List Event
  globals : List (String × Ty × String)

/-- Takes a step and observes it. -/
def step (act : Session → Option Failure × Session) (s : Session) : Step × Session :=
  let before := s.machine.sink.written.size
  let (failure, s) := act { s with machine := { s.machine with log := [] } }
  (⟨failure, s.machine.sink.textFrom before, s.machine.log.reverse, s.globals⟩, s)

/-- Runs scripts one after the other and observes each, from the given state on. -/
def steps : List String → Session → List Step
  | [], _ => []
  | source :: sources, s =>
    let (seen, s) := s.step (·.run source)
    seen :: steps sources s

end Session

end SafariScript
