import SafariScript.Proofs.Evaluation.Discipline

/-!
# Evaluation in lockstep

A **lockstep** is a discipline of evaluation that says nothing of values, places or names: only the
computations of two evaluations of one program are related, step by step (`Lockstep`). If the
relation holds between the single steps of the two and passes through the ways in which steps are
put together, calls apart (`Lockstep.Stepwise`), then it holds between the evaluations of any
expression and of any statements, provided that it does between calls. If it also passes through the
running of a body (`Lockstep.Closed`), then it holds between any calls. This is what
`Discipline.Stepwise` and `Discipline.Closed` say of the discipline that allows everything
(`Lockstep.discipline`).

Most steps are made of a few elementary ones: to look at the machine, to work on the store, to tell,
to write. A relation that holds between these, however they look at the machine, holds between the
others as well (`Lockstep.Elementary`).

The two sides may have different limits: they only meet in `Stepwise.tick`, and in the number of
calls that are left.
-/

namespace SafariScript

open EvalM ExecM

/-- A relation between the computations of two evaluations. -/
structure Lockstep where
  /-- Between evaluations of expressions. -/
  eval : ∀ {α : Type}, EvalM α → EvalM α → Prop
  /-- Between executions of statements. -/
  exec : ∀ {α : Type}, ExecM α → ExecM α → Prop

namespace Lockstep

/-- The relation holds between every step of evaluation and itself, and passes through the ways in
which steps are put together, calls apart. -/
structure Stepwise (R : Lockstep) (limits limits' : Limits) : Prop where
  -- putting evaluations together
  pure : ∀ {α : Type} (a : α), R.eval (Pure.pure a) (Pure.pure a)
  bind : ∀ {α β : Type} {x x' : EvalM α} {f f' : α → EvalM β}, R.eval x x' →
    (∀ a, R.eval (f a) (f' a)) → R.eval (x >>= f) (x' >>= f')
  raise : ∀ {α : Type} (fault : Fault) (span : Span),
    R.eval (EvalM.raise fault span : EvalM α) (EvalM.raise fault span)
  -- the steps of expressions
  newList : ∀ vs, R.eval (onStore (Store.newList vs)) (onStore (Store.newList vs))
  readVar : ∀ name span, R.eval (readVar name span) (readVar name span)
  writeVar : ∀ name v line, R.eval (writeVar name v line) (writeVar name v line)
  applyBinary : ∀ op l r span, R.eval (applyBinary op l r span) (applyBinary op l r span)
  getProperty : ∀ span o name,
    R.eval (inStore span (Store.getProperty o name)) (inStore span (Store.getProperty o name))
  setProperty : ∀ span o name v,
    R.eval (inStore span (Store.setProperty o name v)) (inStore span (Store.setProperty o name v))
  callMethod : ∀ span o name vs ks,
    R.eval (inStore span (Store.callMethod o name vs ks))
      (inStore span (Store.callMethod o name vs ks))
  callNative : ∀ span n vs,
    R.eval (inStore span (Store.callNative n vs)) (inStore span (Store.callNative n vs))
  -- the steps of statements
  tick : ∀ span, R.eval (tick limits span) (tick limits' span)
  bindVar : ∀ name v, R.eval (bindVar name v) (bindVar name v)
  printValue : ∀ v span, R.eval (printValue v span) (printValue v span)
  defineFunction : ∀ name params body,
    R.eval (defineFunction name params body) (defineFunction name params body)
  throwBall : ∀ zone target span, R.eval (throwBall zone target span) (throwBall zone target span)
  -- putting executions together
  toExec : ∀ {α : Type} {x x' : EvalM α}, R.eval x x' → R.exec x.toExec x'.toExec
  execBind : ∀ {α β : Type} {x x' : ExecM α} {f f' : α → ExecM β}, R.exec x x' →
    (∀ a, R.exec (f a) (f' a)) → R.exec (x >>= f) (x' >>= f')
  exit : ∀ {α : Type} (span : Span), R.exec (throw (.exit span) : ExecM α) (throw (.exit span))
  inNewFrame : ∀ {α : Type} {x x' : ExecM α}, R.exec x x' → R.exec (inNewFrame x) (inNewFrame x')
  turn : ∀ {α : Type} {x x' : ExecM α} {y y' : ExecM Unit} (line i : Nat), R.exec x x' →
    R.exec y y' → R.exec (turn x line i y) (turn x' line i y')

/-- The relation also passes through the running of the body of a function. -/
structure Closed (R : Lockstep) (limits limits' : Limits) : Prop
    extends R.Stepwise limits limits' where
  enter : ∀ {α : Type} (f : Function) (args : List Value) {x x' : ExecM α}, R.exec x x' →
    R.eval (parameterFrame f args >>= fun frame ↦ inCall f.name frame x)
      (parameterFrame f args >>= fun frame ↦ inCall f.name frame x')

/-! ### Elementary steps -/

/-- The relation holds between the steps of which the steps of evaluation are made and themselves.
The event of a call is told where the call is made. -/
structure Elementary (R : Lockstep) (limits limits' : Limits) : Prop where
  -- putting evaluations together
  pure : ∀ {α : Type} (a : α), R.eval (Pure.pure a) (Pure.pure a)
  bind : ∀ {α β : Type} {x x' : EvalM α} {f f' : α → EvalM β}, R.eval x x' →
    (∀ a, R.eval (f a) (f' a)) → R.eval (x >>= f) (x' >>= f')
  raise : ∀ {α : Type} (fault : Fault) (span : Span),
    R.eval (EvalM.raise fault span : EvalM α) (EvalM.raise fault span)
  -- the steps
  get : R.eval (get : EvalM Machine) get
  onStore : ∀ {α : Type} (change : Store → α × Store), R.eval (onStore change) (onStore change)
  inStore : ∀ {α : Type} (span : Span) (x : StoreM α), R.eval (inStore span x) (inStore span x)
  tell : ∀ {event : Event}, (∀ name depth, event ≠ .called name depth) →
    R.eval (EvalM.tell event) (EvalM.tell event)
  writeLine : ∀ text span, R.eval (writeLine text span) (writeLine text span)
  bindVar : ∀ name v, R.eval (bindVar name v) (bindVar name v)
  tick : ∀ span, R.eval (tick limits span) (tick limits' span)
  -- putting executions together
  toExec : ∀ {α : Type} {x x' : EvalM α}, R.eval x x' → R.exec x.toExec x'.toExec
  execBind : ∀ {α β : Type} {x x' : ExecM α} {f f' : α → ExecM β}, R.exec x x' →
    (∀ a, R.exec (f a) (f' a)) → R.exec (x >>= f) (x' >>= f')
  exit : ∀ {α : Type} (span : Span), R.exec (throw (.exit span) : ExecM α) (throw (.exit span))
  inFrame : ∀ {α : Type} {x x' : ExecM α}, R.exec x x' → ∀ frame,
    R.exec (inFrame frame x) (inFrame frame x')
  attempt : ∀ {α : Type} {x x' : ExecM α}, R.exec x x' → ∀ line i,
    R.exec (attempt x line i) (attempt x' line i)

namespace Elementary

variable {R : Lockstep} {limits limits' : Limits} (h : R.Elementary limits limits')

include h

/-- A check is a result or an error. -/
theorem check {α : Type} (span : Span) (x : Except Fault α) :
    R.eval (check span x) (check span x) := by
  cases x with
  | ok a => exact h.pure a
  | error fault => exact h.raise fault span

/-- To read a variable is to look at the machine, and then a result or an error. -/
theorem readVar (name : String) (span : Span) : R.eval (readVar name span) (readVar name span) := by
  refine h.bind h.get fun m ↦ ?_
  split
  · exact h.pure _
  · exact h.raise _ span

/-- To write a variable is to work on the store, and maybe to tell. -/
theorem writeVar (name : String) (v : Value) (line : Nat) :
    R.eval (writeVar name v line) (writeVar name v line) := by
  refine h.bind h.get fun m ↦ h.bind (h.onStore _) fun isNew ↦ ?_
  split
  · exact h.tell fun _ _ hcall ↦ by cases hcall
  · exact h.pure _

/-- A throw works on the store, tells, and writes line by line. -/
theorem throwBall (zone : Nat) (target : PokemonId) (span : Span) :
    R.eval (throwBall zone target span) (throwBall zone target span) := by
  refine h.bind (h.onStore _) fun outcome ↦ h.bind h.get fun m ↦
    h.bind (h.tell fun _ _ hcall ↦ by cases hcall) fun _ ↦ ?_
  induction outcome.messages (m.store.pokemonAt target).name with
  | nil => exact h.pure _
  | cons line lines ih => exact h.bind (h.writeLine line span) fun _ ↦ ih

/-- A block makes its frame in the store. -/
theorem inNewFrame {α : Type} {x x' : ExecM α} (hx : R.exec x x') :
    R.exec (inNewFrame x) (inNewFrame x') :=
  h.execBind (h.toExec h.get) fun _ ↦ h.execBind (h.toExec (h.onStore _)) fun frame ↦
    h.inFrame hx frame

/-- What follows an iteration follows an attempt. -/
theorem turn {α : Type} {x x' : ExecM α} {y y' : ExecM Unit} (line i : Nat) (hx : R.exec x x')
    (hy : R.exec y y') : R.exec (turn x line i y) (turn x' line i y') := by
  rw [turn_eq, turn_eq]
  refine h.execBind (h.attempt hx line i) fun left ↦ ?_
  split
  · exact h.toExec (h.pure ())
  · exact hy

/-- All steps are made of the elementary ones. -/
theorem stepwise : R.Stepwise limits limits' where
  pure := h.pure
  bind := h.bind
  raise := h.raise
  newList _ := h.onStore _
  readVar := h.readVar
  writeVar := h.writeVar
  applyBinary _ _ _ span := h.bind h.get fun _ ↦ h.check span _
  getProperty span _ _ := h.inStore span _
  setProperty span _ _ _ := h.inStore span _
  callMethod span _ _ _ _ := h.inStore span _
  callNative span _ _ := h.inStore span _
  tick := h.tick
  bindVar := h.bindVar
  printValue _ span := h.bind h.get fun _ ↦ h.writeLine _ span
  defineFunction name _ _ := h.bind h.get fun _ ↦ h.bind (h.onStore _) fun f ↦ h.bindVar name f
  throwBall := h.throwBall
  toExec := h.toExec
  execBind := h.execBind
  exit := h.exit
  inNewFrame := h.inNewFrame
  turn := h.turn

/-- If the relation passes through what is around the body of a function, then it passes through the
running of the body. -/
theorem closed (hwhile : ∀ {α : Type} {x x' : EvalM α}, R.eval x x' →
      R.eval (whileActive x) (whileActive x'))
    (hsettle : ∀ {α : Type} {x x' : ExecM α}, R.exec x x' → R.eval x.settle x'.settle)
    (htell : ∀ event, R.eval (EvalM.tell event) (EvalM.tell event)) : R.Closed limits limits' where
  toStepwise := h.stepwise
  enter _ _ _ _ hx := h.bind (h.onStore _) fun frame ↦
    hwhile <| h.bind h.get fun _ ↦ h.bind (htell _) fun _ ↦ hsettle (h.inFrame hx frame)

end Elementary

/-! ### Locksteps as disciplines -/

/-- The lockstep as a discipline: every value holds, every place and every name is allowed. -/
def discipline (R : Lockstep) : Discipline where
  World := Unit
  le _ _ := True
  holds _ _ := True
  place _ := True
  act _ := True
  leave _ := True
  eval _ x x' _ := R.eval x x'
  exec _ _ x x' _ := R.exec x x'

/-- The discipline of a lockstep allows everything. -/
theorem free_discipline (R : Lockstep) : R.discipline.Free :=
  ⟨fun _ ↦ trivial, fun _ ↦ trivial, fun _ ↦ trivial⟩

namespace Stepwise

variable {R : Lockstep} {limits limits' : Limits} (h : R.Stepwise limits limits')

include h

/-- What holds of a lockstep step by step holds of its discipline. -/
theorem discipline : R.discipline.Stepwise limits limits' where
  trans _ _ := trivial
  mono _ _ := trivial
  plain _ := trivial
  keeps _ := R.free_discipline.body _
  pure _ := h.pure _
  bind hx hf := h.bind hx fun a ↦ hf () a trivial fun _ _ ↦ trivial
  raise _ _ := h.raise _ _
  newList _ := h.newList _
  readVar _ := h.readVar _ _
  writeVar _ := h.writeVar _ _ _
  -- The result of a unary operator is a check, which is a result or an error.
  applyUnary {_ span op v} _ _ := by
    show R.eval _ _
    cases op.apply v with
    | ok a => exact h.pure a
    | error fault => exact h.raise fault span
  applyBinary _ _ _ := h.applyBinary _ _ _ _
  getProperty _ _ := h.getProperty _ _ _
  setProperty _ _ _ _ := h.setProperty _ _ _ _
  callMethod _ _ _ _ _ := h.callMethod _ _ _ _ _
  callNative _ _ := h.callNative _ _ _
  tick _ := h.tick _
  printValue _ _ := h.printValue _ _
  throwBall _ _ _ _ := h.throwBall _ _ _
  bindVar _ _ := h.toExec (h.bindVar _ _)
  defineFunction _ _ := h.toExec (h.defineFunction _ _ _)
  toExec := h.toExec
  execBind hx hf := h.execBind hx fun a ↦ hf () a trivial fun _ _ ↦ trivial
  exit _ _ := h.exit _
  inNewFrame hx := h.inNewFrame (hx () trivial)
  turn hx hy := h.turn _ _ (hx () trivial) (hy () trivial)

/-! ### Steps made of steps -/

theorem receiver (v : Value) (span : Span) : R.eval (receiver v span) (receiver v span) :=
  h.discipline.receiver (w := ()) v trivial trivial

theorem countOfValue (v : Value) (span : Span) :
    R.eval (countOfValue v span) (countOfValue v span) :=
  h.discipline.countOfValue (w := ()) v trivial

theorem thrownIn (v : Value) (span : Span) : R.eval (thrownIn v span) (thrownIn v span) :=
  h.discipline.thrownIn (w := ()) v trivial trivial

theorem thrownAt (v : Value) (span : Span) : R.eval (thrownAt v span) (thrownAt v span) :=
  h.discipline.thrownAt (w := ()) v trivial trivial

theorem checkArity (f : Function) (args : List Value) (span : Span) :
    R.eval (checkArity f args span) (checkArity f args span) :=
  h.discipline.checkArity (w := ()) f args trivial

/-! ### All of evaluation -/

/-- Two callers that are related at every call. -/
def Callers (R : Lockstep) (call call' : Caller) : Prop :=
  ∀ f args span, R.eval (call f args span) (call' f args span)

variable {call call' : Caller}

/-- Every expression is related to itself. -/
theorem evalExpr (hc : Callers R call call') (e : Expr) :
    R.eval (evalExpr call e) (evalExpr call' e) :=
  h.discipline.evalExpr (fun _ f args span _ _ _ ↦ hc f args span) e (R.free_discipline.expr e) ()

/-- Every statement is related to itself. -/
theorem execStmt (hc : Callers R call call') (stmt : Stmt) :
    R.exec (execStmt limits call stmt) (execStmt limits' call' stmt) :=
  h.discipline.execStmt (fun _ f args span _ _ _ ↦ hc f args span) stmt
    (R.free_discipline.stmt R.discipline.body (fun _ ↦ trivial) stmt fun _ _ ↦ trivial) ()

/-- Statements in order. -/
theorem execStmts (hc : Callers R call call') (last : Value) (stmts : List Stmt) :
    R.exec (execStmts limits call last stmts) (execStmts limits' call' last stmts) :=
  h.discipline.execStmts (fun _ f args span _ _ _ ↦ hc f args span) stmts
    (R.free_discipline.body stmts) () trivial

end Stepwise

/-- Two callers with room for equally many calls, under limits that forbid the same depth, are
related. -/
theorem Closed.callWith {R : Lockstep} {limits limits' : Limits} (h : R.Closed limits limits')
    (hd : limits.maxCallDepth = limits'.maxCallDepth) (room : Nat) :
    Stepwise.Callers R (callWith limits room) (callWith limits' room) := by
  have hclosed : R.discipline.Closed limits limits' :=
    { h.toStepwise.discipline with enter := fun _ _ hx ↦ h.enter _ _ (hx () trivial) }
  exact fun f args span ↦
    hclosed.callWith hd room () f args span trivial trivial fun _ _ ↦ trivial

end Lockstep

end SafariScript
