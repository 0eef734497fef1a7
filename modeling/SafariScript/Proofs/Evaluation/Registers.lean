import SafariScript.Proofs.Evaluation.Brackets
import SafariScript.Proofs.Evaluation.Lockstep

/-!
# The registers are restored

The machine has two registers that say where evaluation stands: the current frame, and how many
calls are active. Blocks and calls change them on entry. `KeepsRegisters` says of a computation
that it ends **with the registers it started with**, whatever the start and whatever the outcome:
a value, an error, or leaving.

Every step keeps the registers, and so do the two brackets around changes to them (`inFrame` and
`whileActive`), because they put back what they found; the lockstep principle does the rest. Two
consequences concern whole programs: an evaluation ends in the global frame with no call active,
and the return to the global frame after an error changes nothing.
-/

namespace SafariScript

open EvalM ExecM

/-- The current frame and the number of active calls. -/
def Machine.registers (m : Machine) : FrameId × Nat := (m.frame, m.active)

/-- A computation that ends with the registers it started with, however it ends. -/
def KeepsRegisters {ε α : Type} (x : EStateM ε Machine α) : Prop :=
  ∀ m, (reached (x m)).registers = m.registers

namespace KeepsRegisters

variable {ε α β : Type}

/-! ### Putting computations together -/

theorem pure (a : α) : KeepsRegisters (Pure.pure a : EStateM ε Machine α) := fun _ ↦ rfl

theorem throw (e : ε) : KeepsRegisters (throw e : EStateM ε Machine α) := fun _ ↦ rfl

theorem get : KeepsRegisters (get : EStateM ε Machine Machine) := fun _ ↦ rfl

/-- If both parts put the registers back, so does the whole. -/
theorem bind {x : EStateM ε Machine α} {f : α → EStateM ε Machine β} (hx : KeepsRegisters x)
    (hf : ∀ a, KeepsRegisters (f a)) : KeepsRegisters (x >>= f) := by
  intro m
  have hm := hx m
  cases hr : x m with
  | ok a m' =>
    rw [hr] at hm
    rw [bind_ok f hr]
    exact (hf a m').trans hm
  | error e m' =>
    rw [hr] at hm
    rw [bind_error f hr]
    exact hm

/-- A change of the machine that leaves the registers alone. -/
theorem modify {f : Machine → Machine} (hf : ∀ m, (f m).registers = m.registers) :
    KeepsRegisters (modify f : EStateM ε Machine PUnit) := hf

/-! ### Brackets -/

/-- A bracket that leaves the registers alone. -/
theorem around {ε' : Type} {x : EStateM ε Machine α} (hx : KeepsRegisters x)
    (b : Bracket ε α ε' β) (hb : b.Keeps Machine.registers) : KeepsRegisters (b.run x) :=
  fun m ↦ ((hb.leave m _).trans (hx (b.enter m))).trans (hb.enter m)

/-- To be part of a statement concerns the outcome, not the registers. -/
theorem toExec {x : EvalM α} (hx : KeepsRegisters x) : KeepsRegisters x.toExec :=
  hx.around .toExec .toExec

/-- The border of a body concerns the outcome, not the registers. -/
theorem settle {x : ExecM α} (hx : KeepsRegisters x) : KeepsRegisters x.settle :=
  hx.around .settle .settle

/-- An iteration that was left has put the registers back already. -/
theorem attempt {x : ExecM α} (hx : KeepsRegisters x) (line i : Nat) :
    KeepsRegisters (attempt x line i) :=
  hx.around (.attempt line i) (.attempt (fun _ _ ↦ rfl) (fun _ _ ↦ rfl) line i)

/-- Whatever happens to the frame inside, it is put back; the number of active calls is kept. -/
theorem inFrame {x : ExecM α} (hx : KeepsRegisters x) (frame : FrameId) :
    KeepsRegisters (inFrame frame x) := by
  intro m
  have hm : (reached (x { m with frame := frame })).active = m.active :=
    congrArg Prod.snd (hx { m with frame := frame })
  unfold ExecM.inFrame
  cases hr : x { m with frame := frame } with
  | ok a m' =>
    rw [hr] at hm
    exact Prod.ext rfl hm
  | error e m' =>
    rw [hr] at hm
    exact Prod.ext rfl hm

/-- The call that is counted on entry is the one that is taken off again. -/
theorem whileActive {x : EvalM α} (hx : KeepsRegisters x) : KeepsRegisters (whileActive x) := by
  intro m
  have hm : (reached (x { m with active := m.active + 1 })).registers = (m.frame, m.active + 1) :=
    hx { m with active := m.active + 1 }
  unfold EvalM.whileActive
  cases hr : x { m with active := m.active + 1 } with
  | ok a m' =>
    rw [hr] at hm
    obtain ⟨hf, ha⟩ := Prod.ext_iff.1 hm
    exact Prod.ext hf (Nat.sub_eq_of_eq_add ha)
  | error e m' =>
    rw [hr] at hm
    obtain ⟨hf, ha⟩ := Prod.ext_iff.1 hm
    exact Prod.ext hf (Nat.sub_eq_of_eq_add ha)

theorem tell (event : Event) : KeepsRegisters (EvalM.tell event) := fun _ ↦ rfl

/-- A call puts back both registers. -/
theorem inCall {x : ExecM α} (hx : KeepsRegisters x) (name : String) (frame : FrameId) :
    KeepsRegisters (inCall name frame x) :=
  .whileActive (.bind .get fun _ ↦ .bind (.tell _) fun _ ↦ .settle (.inFrame hx frame))

/-! ### Steps -/

theorem onStore (change : Store → α × Store) : KeepsRegisters (onStore change) := fun _ ↦ rfl

/-- An operation of the store has no access to the registers. -/
theorem inStore (span : Span) (x : StoreM α) : KeepsRegisters (inStore span x) := by
  intro m
  unfold EvalM.inStore
  cases x m.store <;> rfl

/-- Also a closed sink leaves the registers alone. -/
theorem writeLine (text : String) (span : Span) : KeepsRegisters (writeLine text span) := by
  intro m
  unfold EvalM.writeLine
  rcases m.sink.writeLine text with ⟨_ | _, sink⟩ <;> rfl

theorem check (span : Span) (x : Except Fault α) : KeepsRegisters (check span x) := by
  cases x with
  | ok a => exact .pure a
  | error fault => exact .throw _

/-- Also a limit leaves the registers alone. -/
theorem tick (limits : Limits) (span : Span) : KeepsRegisters (tick limits span) := by
  refine .bind (.modify fun _ ↦ rfl) fun _ ↦ ?_
  split
  · exact .pure _
  · refine .bind .get fun m ↦ ?_
    split
    · exact .throw _
    · exact .pure _

/-- A block goes back to the frame around it. -/
theorem inNewFrame {x : ExecM α} (hx : KeepsRegisters x) : KeepsRegisters (inNewFrame x) :=
  .bind .get fun _ ↦ .bind (.toExec (.onStore _)) fun frame ↦ .inFrame hx frame

/-- The registers after an iteration are those before it. -/
theorem turn {x : ExecM α} {y : ExecM Unit} (hx : KeepsRegisters x) (hy : KeepsRegisters y)
    (line i : Nat) : KeepsRegisters (turn x line i y) := by
  rw [turn_eq]
  refine (hx.attempt line i).bind fun left ↦ ?_
  split
  · exact .pure ()
  · exact hy

end KeepsRegisters

/-! ### All of evaluation -/

/-- The property of keeping the registers, as a relation that ignores its second side. -/
def registerLockstep : Lockstep where
  eval x _ := KeepsRegisters x
  exec x _ := KeepsRegisters x

/-- Every step keeps the registers. -/
theorem closed_registerLockstep (limits : Limits) : registerLockstep.Closed limits limits := by
  have helementary : registerLockstep.Elementary limits limits :=
    { pure := .pure
      bind := .bind
      raise := fun _ _ ↦ .throw _
      get := .get
      onStore := .onStore
      inStore := .inStore
      tell := fun _ ↦ .tell _
      writeLine := .writeLine
      bindVar := fun _ _ ↦ .modify fun _ ↦ rfl
      tick := .tick limits
      toExec := .toExec
      execBind := .bind
      exit := fun _ ↦ .throw _
      inFrame := .inFrame
      attempt := .attempt }
  exact helementary.closed .whileActive .settle .tell

section Evaluation

variable (limits : Limits) (room : Nat)

/-- A call keeps the registers, with all the calls in it. -/
theorem KeepsRegisters.callWith (f : Function) (args : List Value) (span : Span) :
    KeepsRegisters (callWith limits room f args span) :=
  (closed_registerLockstep limits).callWith rfl room f args span

/-- Every expression keeps the registers. -/
theorem KeepsRegisters.evalExpr (e : Expr) :
    KeepsRegisters (evalExpr (SafariScript.callWith limits room) e) :=
  (closed_registerLockstep limits).evalExpr ((closed_registerLockstep limits).callWith rfl room) e

/-- Every statement keeps the registers, also when it fails or leaves. -/
theorem KeepsRegisters.execStmt (stmt : Stmt) :
    KeepsRegisters (execStmt limits (SafariScript.callWith limits room) stmt) :=
  (closed_registerLockstep limits).execStmt ((closed_registerLockstep limits).callWith rfl room)
    stmt

theorem KeepsRegisters.execStmts (last : Value) (stmts : List Stmt) :
    KeepsRegisters (execStmts limits (SafariScript.callWith limits room) last stmts) :=
  (closed_registerLockstep limits).execStmts ((closed_registerLockstep limits).callWith rfl room)
    last stmts

end Evaluation

/-! ### Programs -/

/-- A computation that keeps the registers and starts in the global frame ends there, so there is
nothing to go back from. -/
theorem backToGlobal_eq {α : Type} {x : EvalM α} (hx : KeepsRegisters x) {m : Machine}
    (hm : m.frame = globalFrame) : backToGlobal x m = x m := by
  have hf : (reached (x m)).frame = m.frame := congrArg Prod.fst (hx m)
  cases hr : x m with
  | ok a m' => exact backToGlobal_ok hr
  | error e m' =>
    rw [hr, hm] at hf
    rw [backToGlobal_error hr, ← show m'.frame = globalFrame from hf]

/-- Statement by statement, with a return to the global frame after an error, or all statements at
once, without one: the program comes to the same. -/
theorem runProgram_eq (limits : Limits) (program : Program) (last : Value) {m : Machine}
    (hm : m.frame = globalFrame) :
    runProgram limits program m =
      (settle (execStmts limits (callWith limits limits.maxCallDepth) last program) >>=
        fun _ ↦ pure ()) m := by
  induction program generalizing last m with
  | nil => rfl
  | cons s ss ih =>
    have hs : KeepsRegisters
        (settle (execStmt limits (callWith limits limits.maxCallDepth) s)) :=
      .settle (.execStmt limits _ s)
    have hback := backToGlobal_eq hs hm
    rw [execStmts, settle_bind, bind_assoc, runProgram]
    cases hr : settle (execStmt limits (callWith limits limits.maxCallDepth) s) m with
    | ok v m' =>
      have hm' : m'.frame = globalFrame := by
        have hf := congrArg Prod.fst (hs m)
        rw [hr] at hf
        exact hf.trans hm
      rw [bind_ok _ (hback.trans hr), bind_ok _ hr]
      exact ih v hm'
    | error e m' => rw [bind_error _ (hback.trans hr), bind_error _ hr]

/-- Evaluation as it would be without the return to the global frame after an error. -/
def evaluateWithoutReturn (limits : Limits) (program : Program) : EvalM Unit := do
  modify Machine.restart
  let _ ← settle (execStmts limits (callWith limits limits.maxCallDepth) .null program)
  tell (.evaluated program.length (← get).steps)

/-- After an error the current frame is the global one anyway. -/
theorem evaluate_eq_evaluateWithoutReturn (limits : Limits) (program : Program) :
    evaluate limits program = evaluateWithoutReturn limits program := by
  funext m
  have hrun := runProgram_eq limits program .null (m := m.restart) rfl
  have hstart : (modify Machine.restart : EvalM PUnit) m = .ok () m.restart := rfl
  rw [evaluate, evaluateWithoutReturn, bind_ok _ hstart, bind_ok _ hstart]
  cases hr : settle (execStmts limits (callWith limits limits.maxCallDepth) .null program)
      m.restart with
  | ok v m' =>
    rw [bind_ok _ hr] at hrun ⊢
    rw [bind_ok _ hrun]
  | error e m' =>
    rw [bind_error _ hr] at hrun ⊢
    rw [bind_error _ hrun]

/-- After an evaluation the current frame is the global one, and no call is active. -/
theorem registers_evaluate (limits : Limits) (program : Program) (m : Machine) :
    (reached (evaluate limits program m)).registers = (globalFrame, 0) := by
  have hstart : (modify Machine.restart : EvalM PUnit) m = .ok () m.restart := rfl
  have hrest : KeepsRegisters (do
      let _ ← settle (execStmts limits (callWith limits limits.maxCallDepth) .null program)
      tell (.evaluated program.length (← get).steps)) :=
    .bind (.settle (.execStmts limits _ _ _)) fun _ ↦ .bind .get fun _ ↦ .tell _
  rw [evaluate_eq_evaluateWithoutReturn, evaluateWithoutReturn, bind_ok _ hstart]
  exact hrest m.restart

/-- **Register discipline.** Evaluating an expression, executing a statement, executing statements
in place, in a given frame or in a new one, and calling a function all end with the current frame
and the number of active calls they started with, from every state and with every outcome. So
every evaluation of a program ends in the global frame with no call active, and without the return
to the global frame after an error it would be the same evaluation. -/
theorem evaluation_restores_registers (limits : Limits) :
    (∀ (room : Nat) (m : Machine),
      (∀ e, (reached (evalExpr (callWith limits room) e m)).registers = m.registers) ∧
      (∀ s, (reached (execStmt limits (callWith limits room) s m)).registers = m.registers) ∧
      (∀ last ss, (reached (execStmts limits (callWith limits room) last ss m)).registers =
        m.registers) ∧
      (∀ frame last ss, (reached (inFrame frame
        (execStmts limits (callWith limits room) last ss) m)).registers = m.registers) ∧
      (∀ last ss, (reached (inNewFrame
        (execStmts limits (callWith limits room) last ss) m)).registers = m.registers) ∧
      ∀ f args span, (reached (callWith limits room f args span m)).registers = m.registers) ∧
    ∀ program : Program,
      (∀ m, (reached (evaluate limits program m)).registers = (globalFrame, 0)) ∧
        evaluate limits program = evaluateWithoutReturn limits program := by
  refine ⟨fun room m ↦ ⟨?_, ?_, ?_, ?_, ?_, ?_⟩, fun program ↦ ⟨?_, ?_⟩⟩
  · exact fun e ↦ KeepsRegisters.evalExpr limits room e m
  · exact fun s ↦ KeepsRegisters.execStmt limits room s m
  · exact fun last ss ↦ KeepsRegisters.execStmts limits room last ss m
  · exact fun frame last ss ↦ (KeepsRegisters.execStmts limits room last ss).inFrame frame m
  · exact fun last ss ↦ (KeepsRegisters.execStmts limits room last ss).inNewFrame m
  · exact fun f args span ↦ KeepsRegisters.callWith limits room f args span m
  · exact registers_evaluate limits program
  · exact evaluate_eq_evaluateWithoutReturn limits program

end SafariScript
