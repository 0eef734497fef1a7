import SafariScript.Machine.Event
import SafariScript.Machine.Sink
import SafariScript.Store.Basic

/-!
# The machine

The state in which programs are evaluated, and the two kinds of computation on it. An expression
gives a value or an error (`EvalM`). A statement may also **leave** the repetition around it
(`ExecM`): it then ends in the signal `exit`, which travels outward to the repetition. Whatever the
outcome, the state is the one reached.
-/

namespace SafariScript

/-- What a host imposes on one evaluation. -/
structure Limits where
  /-- How many calls of functions may be active at once. -/
  maxCallDepth : Nat := 200
  /-- How many statements may be started. A host gives a number of 64 bits; here it may be any. -/
  maxSteps : Option Nat := none

/-- The state of a session. -/
structure Machine where
  store : Store
  /-- The current frame. -/
  frame : FrameId
  /-- How many calls of functions are active. -/
  active : Nat
  /-- How many statements this evaluation has started. A host counts in 64 bits, and here the
  counter has no bound. Under a budget it stays at most one above the budget, so the two differ only
  behind `2 ^ 64` statements. -/
  steps : Nat
  /-- How many iterations of repetitions this evaluation has started. -/
  iterations : Nat
  sink : Sink
  /-- What was told, the latest first. -/
  log : List Event

/-- The frame of the variables that all programs of a session share. -/
def globalFrame : FrameId := 0

namespace Machine

/-- A machine with the native functions bound and an unused sink. -/
def new (sink : Sink) : Machine where
  store := (Store.newRoot .empty).2.install globalFrame
  frame := globalFrame
  active := 0
  steps := 0
  iterations := 0
  sink := sink
  log := []

/-- Adds an event to the log. -/
def tell (event : Event) (m : Machine) : Machine := { m with log := event :: m.log }

/-- The state in which an evaluation starts: in the global frame, with nothing counted. -/
def restart (m : Machine) : Machine :=
  { m with frame := globalFrame, active := 0, steps := 0, iterations := 0 }

/-- The bindings of the global frame. -/
def globals (m : Machine) : Bindings := m.store.frames.vars globalFrame

/-- What a script prints for a value. -/
def text (m : Machine) (v : Value) : String := m.store.text v

end Machine

/-- Why a statement did not come to its end. -/
inductive Signal where
  /-- `run` was executed, at this place. -/
  | exit (span : Span)
  | error (e : RuntimeError)

/-- The evaluation of an expression. -/
abbrev EvalM := EStateM RuntimeError Machine

/-- The execution of a statement. -/
abbrev ExecM := EStateM Signal Machine

/-- The evaluation of expressions as part of a statement. -/
def EvalM.toExec {α : Type} (x : EvalM α) : ExecM α := fun m ↦
  match x m with
  | .ok a m => .ok a m
  | .error e m => .error (.error e) m

instance : MonadLift EvalM ExecM := ⟨EvalM.toExec⟩

/-- At the border of a function or a program, leaving is an error. -/
def ExecM.settle {α : Type} (x : ExecM α) : EvalM α := fun m ↦
  match x m with
  | .ok a m => .ok a m
  | .error (.exit span) m => .error ⟨.exitOutsideLoop, span⟩ m
  | .error (.error e) m => .error e m

namespace EvalM

variable {α : Type}

/-- Ends in a fault at a place. -/
def raise (fault : Fault) (span : Span) : EvalM α := throw ⟨fault, span⟩

/-- The result of a check, or its fault at a place. -/
def check (span : Span) : Except Fault α → EvalM α
  | .ok a => pure a
  | .error fault => raise fault span

/-- Works on the store. -/
def onStore (change : Store → α × Store) : EvalM α :=
  modifyGet fun m ↦
    let (a, store) := change m.store
    (a, { m with store := store })

/-- Works on the store; a fault is one at the given place. -/
def inStore (span : Span) (x : StoreM α) : EvalM α := fun m ↦
  match x m.store with
  | .ok a store => .ok a { m with store := store }
  | .error fault store => .error ⟨fault, span⟩ { m with store := store }

/-- Adds an event to the log. -/
def tell (event : Event) : EvalM Unit := modify (Machine.tell event)

/-- Writes a line of output. -/
def writeLine (text : String) (span : Span) : EvalM Unit := fun m ↦
  match m.sink.writeLine text with
  | (true, sink) => .ok () { m with sink := sink }
  | (false, sink) => .error ⟨.sinkClosed, span⟩ { m with sink := sink }

/-- Counts a call of a function as active while it runs, however it ends. -/
def whileActive (x : EvalM α) : EvalM α := fun m ↦
  match x { m with active := m.active + 1 } with
  | .ok a m => .ok a { m with active := m.active - 1 }
  | .error e m => .error e { m with active := m.active - 1 }

/-- After an error the current frame is the global one. -/
def backToGlobal (x : EvalM α) : EvalM α := fun m ↦
  match x m with
  | .ok a m => .ok a m
  | .error e m => .error e { m with frame := globalFrame }

end EvalM

namespace ExecM

variable {α : Type}

/-- Runs in the given frame and comes back to the current one, however it ends. The frame keeps its
bindings, although it could be given back here: no program sees the difference
(`SafariScript.Proofs.Evaluation.Released`). -/
def inFrame (frame : FrameId) (x : ExecM α) : ExecM α := fun m ↦
  let outer := m.frame
  match x { m with frame := frame } with
  | .ok a m => .ok a { m with frame := outer }
  | .error e m => .error e { m with frame := outer }

/-- Runs the body of a function in the frame of its parameters: the call is told, it is active until
the body ends, and the body cannot be left. -/
def inCall (name : String) (frame : FrameId) (x : ExecM α) : EvalM α :=
  EvalM.whileActive do
    EvalM.tell (.called name (← get).active)
    settle (inFrame frame x)

/-- Runs in a new frame inside the current one. -/
def inNewFrame (x : ExecM α) : ExecM α := do
  let frame ← EvalM.onStore (Store.newFrame (← get).frame)
  inFrame frame x

/-- Runs `body` up to `n` times, the first time as the iteration `i`; to leave it ends the
repetition, which stands on the given line. -/
def iterate (body : ExecM α) (line : Nat) : (i n : Nat) → ExecM Unit
  | _, 0 => pure ()
  | i, n + 1 => fun m ↦
    match body { m with iterations := m.iterations + 1 } with
    | .ok _ m => iterate body line (i + 1) n m
    | .error (.exit _) m => .ok () (m.tell (.leftRepeat i line))
    | .error (.error e) m => .error (.error e) m

end ExecM

end SafariScript
