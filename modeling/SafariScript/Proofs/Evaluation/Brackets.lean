import SafariScript.Proofs.Evaluation.Discipline
import SafariScript.Proofs.Evaluation.Outcome

/-!
# Brackets

Some ways of putting computations together run one computation **inside** of another: they prepare
the machine, run the computation, and make something of its outcome. An expression as part of a
statement is run in this way, and so are a block, a call and an iteration. A `Bracket` is the pair
of what happens before and after; `Bracket.run` is the computation that it makes.

Of a bracket an argument mostly needs to know what it leaves alone: a part of the machine that it
changes neither before nor after (`Bracket.Keeps`).
-/

namespace SafariScript

/-- The machine in which the body of a function is run: the call is counted and told. -/
def Machine.called (name : String) (m : Machine) : Machine :=
  Machine.tell (.called name (m.active + 1)) { m with active := m.active + 1 }

/-- A way of running one computation inside of another. -/
structure Bracket (ε α ε' β : Type) where
  /-- The machine in which the computation inside starts. -/
  enter : Machine → Machine
  /-- The outcome, from the machine before and the outcome inside. -/
  leave : Machine → EStateM.Result ε Machine α → EStateM.Result ε' Machine β

namespace Bracket

variable {ε α ε' β γ : Type}

/-- Runs a computation inside of the bracket. -/
def run (b : Bracket ε α ε' β) (x : EStateM ε Machine α) : EStateM ε' Machine β :=
  fun m ↦ b.leave m (x (b.enter m))

/-! ### The brackets of evaluation

Each is named for the way of running a computation that it describes: what it makes of a computation
is the same by definition. -/

def toExec : Bracket RuntimeError α Signal α where
  enter := id
  leave _ r := match r with
    | .ok a n => .ok a n
    | .error e n => .error (.error e) n

def settle : Bracket Signal α RuntimeError α where
  enter := id
  leave _ r := match r with
    | .ok a n => .ok a n
    | .error (.exit span) n => .error ⟨.exitOutsideLoop, span⟩ n
    | .error (.error e) n => .error e n

def inFrame (frame : FrameId) : Bracket Signal α Signal α where
  enter m := { m with frame := frame }
  leave m r := match r with
    | .ok a n => .ok a { n with frame := m.frame }
    | .error e n => .error e { n with frame := m.frame }

def whileActive : Bracket RuntimeError α RuntimeError α where
  enter m := { m with active := m.active + 1 }
  leave _ r := match r with
    | .ok a n => .ok a { n with active := n.active - 1 }
    | .error e n => .error e { n with active := n.active - 1 }

/-- A call, which is counted and told. -/
def inCall (name : String) : Bracket RuntimeError α RuntimeError α where
  enter := Machine.called name
  leave := whileActive.leave

def backToGlobal : Bracket RuntimeError α RuntimeError α where
  enter := id
  leave _ r := match r with
    | .ok a n => .ok a n
    | .error e n => .error e { n with frame := globalFrame }

def attempt (line i : Nat) : Bracket Signal α Signal Bool where
  enter m := { m with iterations := m.iterations + 1 }
  leave _ r := match r with
    | .ok _ n => .ok false n
    | .error (.exit _) n => .ok true (n.tell (.leftRepeat i line))
    | .error (.error e) n => .error (.error e) n

/-! ### What brackets leave alone -/

/-- The bracket leaves this part of the machine alone. -/
structure Keeps (b : Bracket ε α ε' β) (part : Machine → γ) : Prop where
  enter : ∀ m, part (b.enter m) = part m
  leave : ∀ m r, part (reached (b.leave m r)) = part (reached r)

namespace Keeps

variable {part : Machine → γ}

/-- An expression in a statement leaves the whole machine alone. -/
theorem toExec : (toExec : Bracket RuntimeError α Signal α).Keeps part :=
  ⟨fun _ ↦ rfl, fun _ r ↦ by cases r <;> rfl⟩

theorem settle : (settle : Bracket Signal α RuntimeError α).Keeps part :=
  ⟨fun _ ↦ rfl, fun _ r ↦ by rcases r with ⟨a, n⟩ | ⟨span | e, n⟩ <;> rfl⟩

/-- A frame leaves alone what does not look at the current frame. -/
theorem inFrame (h : ∀ m frame, part { m with frame := frame } = part m) (frame : FrameId) :
    (inFrame frame : Bracket Signal α Signal α).Keeps part :=
  ⟨fun m ↦ h m frame, fun m r ↦ by cases r <;> exact h _ m.frame⟩

/-- A call leaves alone what does not look at the number of active calls. -/
theorem whileActive (h : ∀ m k, part { m with active := k } = part m) :
    (whileActive : Bracket RuntimeError α RuntimeError α).Keeps part :=
  ⟨fun m ↦ h m (m.active + 1), fun _ r ↦ by cases r <;> exact h _ _⟩

/-- A call is also told, so what it leaves alone does not look at the log either. -/
theorem inCall (hactive : ∀ m k, part { m with active := k } = part m)
    (hlog : ∀ m log, part { m with log := log } = part m) (name : String) :
    (inCall name : Bracket RuntimeError α RuntimeError α).Keeps part :=
  ⟨fun m ↦ (hlog _ _).trans (hactive m (m.active + 1)), (whileActive hactive).leave⟩

/-- The return to the global frame leaves alone what does not look at the frame. -/
theorem backToGlobal (h : ∀ m frame, part { m with frame := frame } = part m) :
    (backToGlobal : Bracket RuntimeError α RuntimeError α).Keeps part :=
  ⟨fun _ ↦ rfl, fun _ r ↦ by
    cases r with
    | ok a n => rfl
    | error e n => exact h n globalFrame⟩

/-- An iteration leaves alone what looks neither at the iterations nor at the log. -/
theorem attempt (hcount : ∀ m k, part { m with iterations := k } = part m)
    (hlog : ∀ m log, part { m with log := log } = part m) (line i : Nat) :
    (attempt line i : Bracket Signal α Signal Bool).Keeps part :=
  ⟨fun m ↦ hcount m (m.iterations + 1), fun _ r ↦ by
    rcases r with ⟨a, n⟩ | ⟨span | e, n⟩
    · rfl
    · exact hlog n _
    · rfl⟩

end Keeps

end Bracket

end SafariScript
