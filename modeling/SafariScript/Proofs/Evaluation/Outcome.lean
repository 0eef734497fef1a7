import SafariScript.Machine.Eval

/-!
# Outcomes

How the outcome of a computation follows from the outcomes of its parts. Each way of putting
computations together has one lemma for each outcome of its first part, so that later arguments
only ask how the first part ended. Blocks and calls start in a machine of their own
(`Machine.enterBlock`, `Machine.enterBody`).
-/

namespace SafariScript

/-- The state that a computation reached, whatever its outcome. -/
def reached {ε α : Type} : EStateM.Result ε Machine α → Machine
  | .ok _ m => m
  | .error _ m => m

/-- The error in which an evaluation ended, if it did. -/
def failure? {α : Type} : EStateM.Result RuntimeError Machine α → Option RuntimeError
  | .ok _ _ => none
  | .error e _ => some e

/-- An evaluation that did not end in an error has a result. -/
theorem ok_of_failure? {α : Type} {r : EStateM.Result RuntimeError Machine α}
    (h : failure? r = none) : ∃ a, r = .ok a (reached r) := by
  cases r with
  | ok a n => exact ⟨a, rfl⟩
  | error e n => cases h

/-- An evaluation that failed ended in that error. -/
theorem of_failure? {α : Type} {r : EStateM.Result RuntimeError Machine α} {e : RuntimeError}
    (h : failure? r = some e) : ∃ n, r = .error e n := by
  cases r with
  | ok a n => cases h
  | error e' n => exact ⟨n, by rw [Option.some.inj h]⟩

/-! ### Sequences -/

section Bind

variable {ε α β : Type} {x : EStateM ε Machine α} {m m' : Machine}

/-- The second computation starts where the first one ended. -/
theorem bind_ok {a : α} (f : α → EStateM ε Machine β) (h : x m = .ok a m') :
    (x >>= f) m = f a m' := by
  show EStateM.bind x f m = f a m'
  rw [EStateM.bind, h]

/-- After an error the second computation is not started. -/
theorem bind_error {e : ε} (f : α → EStateM ε Machine β) (h : x m = .error e m') :
    (x >>= f) m = .error e m' := by
  show EStateM.bind x f m = .error e m'
  rw [EStateM.bind, h]

end Bind

/-! ### Expressions in statements, statements in calls and in programs -/

section Borders

variable {α : Type} {m m' : Machine}

theorem toExec_ok {x : EvalM α} {a : α} (h : x m = .ok a m') : x.toExec m = .ok a m' := by
  rw [EvalM.toExec, h]

theorem toExec_error {x : EvalM α} {e : RuntimeError} (h : x m = .error e m') :
    x.toExec m = .error (.error e) m' := by
  rw [EvalM.toExec, h]

/-- A body that comes to its end is not changed by its border. -/
theorem settle_ok {x : ExecM α} {a : α} (h : x m = .ok a m') : x.settle m = .ok a m' := by
  rw [ExecM.settle, h]

/-- A body that is left where there is nothing to leave fails at the place of `run`. -/
theorem settle_exit {x : ExecM α} {span : Span} (h : x m = .error (.exit span) m') :
    x.settle m = .error ⟨.exitOutsideLoop, span⟩ m' := by
  rw [ExecM.settle, h]

/-- An error passes the border as it is. -/
theorem settle_error {x : ExecM α} {e : RuntimeError} (h : x m = .error (.error e) m') :
    x.settle m = .error e m' := by
  rw [ExecM.settle, h]

/-- Settling goes through a sequence part by part. -/
theorem settle_bind {β : Type} (x : ExecM α) (f : α → ExecM β) :
    (x >>= f).settle = x.settle >>= fun a ↦ (f a).settle := by
  funext m
  rcases h : x m with ⟨a, m'⟩ | ⟨span | e, m'⟩
  · rw [bind_ok _ (settle_ok h), ExecM.settle, bind_ok f h]
    rfl
  · rw [bind_error _ (settle_exit h), settle_exit (bind_error f h)]
  · rw [bind_error _ (settle_error h), settle_error (bind_error f h)]

theorem backToGlobal_ok {x : EvalM α} {a : α} (h : x m = .ok a m') :
    x.backToGlobal m = .ok a m' := by
  rw [EvalM.backToGlobal, h]

/-- After an error the current frame is the global one. -/
theorem backToGlobal_error {x : EvalM α} {e : RuntimeError} (h : x m = .error e m') :
    x.backToGlobal m = .error e { m' with frame := globalFrame } := by
  rw [EvalM.backToGlobal, h]

end Borders

/-! ### Blocks and bodies of functions -/

namespace Machine

/-- The machine at the start of a block: in a new frame inside the current one. -/
def enterBlock (m : Machine) : Machine :=
  { m with store := (m.store.newFrame m.frame).2, frame := (m.store.newFrame m.frame).1 }

/-- The machine at the start of the body of a function: in a new frame inside the one where the
function was defined, with the parameters bound. -/
def enterBody (f : Function) (args : List Value) (m : Machine) : Machine :=
  { m with
    store := (m.store.newFrame f.closure).2.defineAll (m.store.newFrame f.closure).1
      (f.params.zip args)
    frame := (m.store.newFrame f.closure).1 }

end Machine

section Enter

variable {α : Type} (x : ExecM α) (m : Machine)

/-- A block runs in its own frame, in a machine that has this frame already. -/
theorem inNewFrame_eq : ExecM.inNewFrame x m =
    ExecM.inFrame m.enterBlock.frame x { m with store := m.enterBlock.store } := rfl

/-- The body of a function runs in the frame of its parameters. -/
theorem enter_eq (f : Function) (args : List Value) :
    (parameterFrame f args >>= fun frame ↦ ExecM.inCall f.name frame x) m =
      ExecM.inCall f.name (m.enterBody f args).frame x
        { m with store := (m.enterBody f args).store } := rfl

end Enter

/-! ### Counting statements -/

/-- Whether the statement that is started as number `k` passes the check against the budget. -/
def Limits.admits (limits : Limits) (k : Nat) : Bool := limits.maxSteps.all fun limit ↦ k ≤ limit

/-- The next statement gets the next number, and goes on exactly if that number is admitted. -/
theorem tick_eq (limits : Limits) (span : Span) (m : Machine) :
    tick limits span m =
      if limits.admits (m.steps + 1) then .ok () { m with steps := m.steps + 1 }
      else .error ⟨.stepLimitExceeded (limits.maxSteps.getD 0), span⟩
        { m with steps := m.steps + 1 } := by
  have hcount : (modify fun m : Machine ↦ { m with steps := m.steps + 1 } : EvalM PUnit) m =
      .ok () { m with steps := m.steps + 1 } := rfl
  unfold tick Limits.admits
  rw [bind_ok _ hcount]
  cases limits.maxSteps with
  | none => rfl
  | some limit =>
    show (if m.steps + 1 > limit then EvalM.raise (.stepLimitExceeded limit) span else pure () :
      EvalM Unit) { m with steps := m.steps + 1 } = _
    by_cases h : m.steps + 1 ≤ limit
    · have hadmits : (some limit).all (fun limit ↦ decide (m.steps + 1 ≤ limit)) = true :=
        decide_eq_true h
      rw [if_neg (Nat.not_lt.2 h), if_pos hadmits]
      rfl
    · have hrefuses : ¬ (some limit).all (fun limit ↦ decide (m.steps + 1 ≤ limit)) = true :=
        fun hadmits ↦ h (of_decide_eq_true hadmits)
      rw [if_pos (Nat.not_le.1 h), if_neg hrefuses]
      rfl

/-! ### Variables -/

section Variables

variable {m : Machine} {name : String} {v : Value}

/-- A bound name has its value, and the machine stays as it is. -/
theorem readVar_some (h : m.store.frames.get? m.frame name = some v) (span : Span) :
    readVar name span m = .ok v m := by
  have hget : (get : EvalM Machine) m = .ok m m := rfl
  rw [readVar, bind_ok _ hget, h]
  rfl

/-- A name that is bound nowhere is an error at the place of the variable. -/
theorem readVar_none (h : m.store.frames.get? m.frame name = none) (span : Span) :
    readVar name span m = .error ⟨.undefinedVariable name, span⟩ m := by
  have hget : (get : EvalM Machine) m = .ok m m := rfl
  rw [readVar, bind_ok _ hget, h]
  rfl

/-- An assignment to a variable always succeeds; it changes the frames, and tells of a new global
variable. -/
theorem writeVar_eq (m : Machine) (name : String) (v : Value) (line : Nat) :
    writeVar name v line m = .ok () { m with
      store := (m.store.assign m.frame name v).2
      log := if (m.store.assign m.frame name v).1 then .implicitGlobal name line :: m.log
        else m.log } := by
  show (if (m.store.assign m.frame name v).1 then EvalM.tell (.implicitGlobal name line)
    else pure () : EvalM Unit) { m with store := (m.store.assign m.frame name v).2 } = _
  cases (m.store.assign m.frame name v).1 <;> rfl

end Variables

end SafariScript
