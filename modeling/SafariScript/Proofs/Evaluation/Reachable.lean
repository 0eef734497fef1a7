import SafariScript.Proofs.Evaluation.Scopes

/-!
# Machines that occur

A machine occurs in a session (`Machine.Reachable`) if it is a new one, or comes out of one that
occurs: by an expression or a statement, however that ends; by going into a block; or by going into
the body of a function, whose value and arguments were evaluated before. Of a machine that occurs
only the store matters: any of its frames may be the current one, as after leaving blocks and calls,
and counters and log may be anything. So all states in which a session executes a statement or
evaluates an expression occur, also those in the middle of an evaluation, and so does the state
after a whole program (`Reachable.evaluate`).

Every machine that occurs is well scoped, hence keeps to the discipline of scopes whatever it does
next (`Reachable.scopes_kept`).
-/

namespace SafariScript

namespace Machine

/-- The machines that occur in sessions. -/
inductive Reachable : Machine → Prop
  | new (sink : Sink) : Reachable (.new sink)
  | moved {m : Machine} {frame : FrameId} (active steps iterations : Nat) (log : List Event) :
    Reachable m → frame < m.store.frames.size →
    Reachable ⟨m.store, frame, active, steps, iterations, m.sink, log⟩
  | expr {m : Machine} (limits : Limits) (room : Nat) (e : Expr) : Reachable m →
    Reachable (reached (evalExpr (callWith limits room) e m))
  | stmt {m : Machine} (limits : Limits) (room : Nat) (s : Stmt) : Reachable m →
    Reachable (reached (execStmt limits (callWith limits room) s m))
  | block {m : Machine} : Reachable m → Reachable m.enterBlock
  | body {m m₁ m₂ : Machine} (limits : Limits) (room : Nat) {callee : Expr} {args : List Expr}
    {f : Function} {vs : List Value} : Reachable m →
    evalExpr (callWith limits room) callee m = .ok (.function f) m₁ →
    evalExprs (callWith limits room) args m₁ = .ok vs m₂ → Reachable (m₂.enterBody f vs)

/-! ### They are well scoped -/

/-- A new machine has one frame, in which the native functions are bound. -/
theorem wellScoped_new (sink : Sink) : (Machine.new sink).WellScoped := by
  let s : Store := (Store.newRoot .empty).2
  have hroot : s.frames.WellScoped := by
    refine ⟨Nat.zero_lt_one, fun i hi hne ↦ ?_, fun i name v hv ↦ ?_⟩
    · exact absurd (Nat.lt_one_iff.1 hi) hne
    · rw [Store.vars_newRoot_empty] at hv
      cases hv
  have hnatives : ∀ b ∈ Native.all.map fun n ↦ (n.name, Value.native n),
      b.2.Within s.frames.size := by
    intro b hb
    obtain ⟨n, -, rfl⟩ := List.mem_map.1 hb
    exact .of_refs_eq_nil rfl
  have hinstall : (Machine.new sink).store.frames.WellScoped := hroot.defineAll hnatives
  exact ⟨hinstall, hinstall.global⟩

/-- Every step of evaluation leads from well scoped machines to such. -/
theorem Reachable.wellScoped {m : Machine} (h : m.Reachable) : m.WellScoped := by
  induction h with
  | new sink => exact wellScoped_new sink
  | moved _ _ _ _ _ hframe ih => exact ⟨ih.frames, hframe⟩
  | expr limits room e _ ih =>
    exact (Scoped.evalExpr limits room 0 e _ ih (Nat.zero_le _)).wellScoped ih.frame
  | stmt limits room s _ ih =>
    exact (Scoped.execStmt limits room 0 s _ ih (Nat.zero_le _)).wellScoped ih.frame
  | block _ ih => exact ih.enterBlock
  | @body m m₁ m₂ limits room callee args f vs _ hcallee hargs ih =>
    have hf := Scoped.evalExpr limits room 0 callee m ih (Nat.zero_le _)
    rw [hcallee] at hf
    have hm₁ : m₁.WellScoped := hf.wellScoped ih.frame
    have hvs := Scoped.evalExprs limits room 0 args m₁ hm₁ (Nat.zero_le _)
    rw [hargs] at hvs
    have hm₂ : m₂.WellScoped := hvs.wellScoped hm₁.frame
    have hfunction : (Value.function f).Within m₁.store.frames.size :=
      hf.values _ List.mem_cons_self
    exact hm₂.enterBody (hfunction.mono hvs.scopes.size) hvs.values

/-! ### Programs -/

section Programs

variable {m : Machine} (limits : Limits)

/-- The border of a body changes the outcome but not the machine. -/
theorem reached_settle {α : Type} (x : ExecM α) (m : Machine) :
    reached (x.settle m) = reached (x m) := by
  unfold ExecM.settle
  rcases x m with ⟨a, n⟩ | ⟨span | e, n⟩ <;> rfl

theorem Reachable.toGlobal (h : m.Reachable) : Reachable { m with frame := globalFrame } :=
  .moved _ _ _ _ h h.wellScoped.frames.global

/-- A program leads to a machine that occurs, also if it fails. -/
theorem Reachable.runProgram (h : m.Reachable) (program : Program) :
    (reached (runProgram limits program m)).Reachable := by
  induction program generalizing m with
  | nil => exact h
  | cons s ss ih =>
    let x : EvalM Value :=
      (execStmt limits (callWith limits limits.maxCallDepth) s).settle
    have hs : (reached (x m)).Reachable := by
      rw [reached_settle]
      exact .stmt limits limits.maxCallDepth s h
    show (reached ((x.backToGlobal >>= fun _ ↦ SafariScript.runProgram limits ss) m)).Reachable
    cases hx : x m with
    | ok v n =>
      rw [hx] at hs
      rw [bind_ok _ (backToGlobal_ok hx)]
      exact ih hs
    | error e n =>
      rw [hx] at hs
      rw [bind_error _ (backToGlobal_error hx)]
      exact hs.toGlobal

/-- A machine that occurs still does so after a program, also after one that failed. -/
theorem Reachable.evaluate (h : m.Reachable) (program : Program) :
    (reached (evaluate limits program m)).Reachable := by
  have hstart : m.restart.Reachable := .moved 0 0 0 m.log h h.wellScoped.frames.global
  have hrun := hstart.runProgram limits program
  show (reached ((SafariScript.runProgram limits program >>= fun _ ↦ do
    EvalM.tell (.evaluated program.length (← get).steps)) m.restart)).Reachable
  cases hx : SafariScript.runProgram limits program m.restart with
  | ok v n =>
    rw [hx] at hrun
    rw [bind_ok _ hx]
    exact .moved _ _ _ _ hrun hrun.wellScoped.frame
  | error e n =>
    rw [hx] at hrun
    rwa [bind_error _ hx]

end Programs

/-- **The discipline of scopes.** In every machine that occurs, an expression and a statement keep
the scopes, whatever functions they call on the way and however they end: old frames stay inside
the frames they stood in, no binding disappears, and no old frame but the global one binds a new
name. Only a statement that declares a name may bind it, and only that one, in the current frame. -/
theorem Reachable.scopes_kept {m : Machine} (h : m.Reachable) (limits : Limits) (room : Nat) :
    (∀ e : Expr, ScopesKept m.frame noNames m.store.frames
      (reached (evalExpr (callWith limits room) e m)).store.frames) ∧
    (∀ s : Stmt, ScopesKept m.frame (fun name ↦ s.declared? = some name) m.store.frames
      (reached (execStmt limits (callWith limits room) s m)).store.frames) := by
  have hm : m.WellScoped := h.wellScoped
  constructor
  · intro e
    exact (Scoped.evalExpr limits room 0 e m hm (Nat.zero_le _)).scopes
  · intro s
    exact (Scoped.execStmt limits room 0 s m hm (Nat.zero_le _)).scopes

/-- A block, after `define f() { g = 1 }`. -/
def blockAfterDefine : Machine :=
  (reached (evaluate {} [.define "f" []
    [.expr (.assign (.ident "g" default) (.literal (.int 1) default) default)] default]
    (.new (.new none)))).enterBlock

/-- The statement `var x = f()`. -/
def declareByCall : Stmt := .var "x" (some (.call (.ident "f" default) [] default)) default

/-- In the block, `var x = f()` binds `x` in the frame of the block and, by the call, the global
variable `g`. -/
theorem scopes_kept_declareByCall :
    ScopesKept blockAfterDefine.frame (fun name ↦ declareByCall.declared? = some name)
      blockAfterDefine.store.frames
      (reached (execStmt {} (callWith {} 1) declareByCall blockAfterDefine)).store.frames ∧
    (blockAfterDefine.frame, (blockAfterDefine.store.frames.vars 1).map Prod.fst) = (1, []) ∧
    ((reached (execStmt {} (callWith {} 1) declareByCall blockAfterDefine)).store.frames.vars
      1).map Prod.fst = ["x"] ∧
    ((reached (execStmt {} (callWith {} 1) declareByCall blockAfterDefine)).globals).map
      Prod.fst = ["Pokemon", "SafariZone", "Team", "f", "g", "len"] := by
  have hreachable : blockAfterDefine.Reachable := .block ((Reachable.new _).evaluate _ _)
  refine ⟨(hreachable.scopes_kept {} 1).2 declareByCall, ?_, ?_, ?_⟩ <;> decide +kernel

end Machine

end SafariScript
