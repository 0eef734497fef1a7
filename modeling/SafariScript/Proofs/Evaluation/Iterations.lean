import SafariScript.Proofs.Evaluation.Budget
import SafariScript.Proofs.Evaluation.Discipline

/-!
# Iterations and the budget of steps

A budget counts statements, and an iteration is none. So the budget bounds the iterations of a
repetition only through the statements in its body: every iteration of a body that **holds a
statement** starts one, and there are no more such iterations than the budget has steps
(`busy_iterations_le_budget`). A body without statements costs nothing, however often it is
repeated (`idle_iterations_exceed_budget`).

The machine has one counter for all iterations. To tell them apart by the body that is repeated,
they are counted here along the evaluation (`Expr.tally`, `Stmt.tally`): what an expression or a
statement starts is the sum of what its parts start, each from the machine that the evaluator has
reached by then. That the counts are right is seen from the counter of the machine, which is the
sum of the two counts of bodies with and without statements. Both this and the bound are carried
through all of evaluation by one induction (`Metered`).
-/

namespace SafariScript

open EvalM ExecM

/-! ### Counting along the evaluation -/

/-- A number of iterations that depends on the machine from which evaluation starts. -/
abbrev Tally := Machine → Nat

namespace Tally

/-- No iterations. -/
def none : Tally := fun _ ↦ 0

/-- The iterations of a computation, and behind them those of what follows it unless it fails. -/
def andThen {ε α : Type} (first : Tally) (x : EStateM ε Machine α) (next : α → Tally) : Tally :=
  fun m ↦ first m + match x m with
    | .ok a m => next a m
    | .error _ _ => 0

/-- The iterations of statements in a block. -/
def inBlock (body : Tally) : Tally := fun m ↦ body m.enterBlock

/-- The iterations of up to `n` rounds of a repetition and of its body in each of them; the rounds
themselves only if they `count`. -/
def rounds {α : Type} (count : Bool) (x : ExecM α) (body : Tally) : (n : Nat) → Tally
  | 0 => none
  | n + 1 => fun m ↦
    count.toNat + andThen body x (fun _ ↦ rounds count x body n)
      { m with iterations := m.iterations + 1 }

end Tally

section Syntax

variable (which : List Stmt → Bool) (limits : Limits) (call : Caller)
  (inCall : Function → List Value → Tally)

mutual

/-- How many iterations the expression starts of repetitions with such a body, given how many are
started in calls. -/
def Expr.tally : Expr → Tally
  | .literal _ _ => .none
  | .list items _ => Expr.tallyAll items
  | .ident _ _ => .none
  | .unary _ operand _ => operand.tally
  | .binary _ left right _ => left.tally.andThen (evalExpr call left) fun _ ↦ right.tally
  | .logical op left right _ => left.tally.andThen (evalExpr call left) fun l ↦
      if op.decidedBy l.isTruthy then .none else right.tally
  | .assign (.property object _ _) value _ =>
    value.tally.andThen (evalExpr call value) fun _ ↦ object.tally
  | .assign _ value _ => value.tally
  | .call callee args _ => callee.tally.andThen (evalExpr call callee) fun f ↦
      (Expr.tallyAll args).andThen (evalExprs call args) fun vs ↦
        match f with
        | .function f => inCall f vs
        | _ => .none
  | .property object _ _ => object.tally
  | .method object _ args named span =>
    object.tally.andThen (evalExpr call object) fun v ↦ Tally.none.andThen (receiver v span) fun _ ↦
      (Expr.tallyAll args).andThen (evalExprs call args) fun _ ↦ Expr.tallyNamed named

/-- How many iterations the expressions start. -/
def Expr.tallyAll : List Expr → Tally
  | [] => .none
  | e :: es => e.tally.andThen (evalExpr call e) fun _ ↦ Expr.tallyAll es

/-- How many iterations the named expressions start. -/
def Expr.tallyNamed : List (String × Expr) → Tally
  | [] => .none
  | (_, e) :: es => e.tally.andThen (evalExpr call e) fun _ ↦ Expr.tallyNamed es

end

mutual

/-- How many iterations the statement starts of repetitions with such a body. -/
def Stmt.tally (s : Stmt) : Tally :=
  Tally.none.andThen (tick limits s.span) fun _ ↦
    match s with
    | .expr value => value.tally call inCall
    | .var _ none _ => .none
    | .var _ (some init) _ => init.tally call inCall
    | .print value _ => value.tally call inCall
    | .cond condition body otherwise _ =>
      (condition.tally call inCall).andThen (evalExpr call condition) fun v ↦
        if v.isTruthy then (Stmt.tallyAll body).inBlock
        else
          match otherwise with
          | some body => (Stmt.tallyAll body).inBlock
          | none => .none
    | .block body _ => (Stmt.tallyAll body).inBlock
    | .loop count body _ =>
      (count.tally call inCall).andThen (evalExpr call count) fun v ↦
        Tally.none.andThen (countOfValue v count.span) fun n ↦
          .rounds (which body) (inNewFrame (execStmts limits call .null body))
            (Stmt.tallyAll body).inBlock n
    | .define _ _ _ _ => .none
    | .throwBall zone target span =>
      (zone.tally call inCall).andThen (evalExpr call zone) fun v ↦
        Tally.none.andThen (thrownIn v span) fun _ ↦ target.tally call inCall
    | .run _ => .none

/-- How many iterations the statements start. -/
def Stmt.tallyAll : List Stmt → Tally
  | [] => .none
  | s :: ss => s.tally.andThen (execStmt limits call s) fun _ ↦ Stmt.tallyAll ss

end

end Syntax

/-- The machine in which the body of a function starts in its frame: the call is counted and
told. -/
def Machine.startCall (name : String) (frame : FrameId) (m : Machine) : Machine :=
  { Machine.tell (.called name (m.active + 1)) { m with active := m.active + 1 } with
    frame := frame }

/-- The machine in which the body of a function starts when it is called with arguments. -/
def Machine.startBody (f : Function) (args : List Value) (m : Machine) : Machine :=
  Machine.startCall f.name (m.enterBody f args).frame
    { m with store := (m.enterBody f args).store }

/-- How many iterations a call starts while `room` more calls may become active. -/
def callTally (which : List Stmt → Bool) (limits : Limits) :
    (room : Nat) → Function → List Value → Tally
  | 0 => fun _ _ ↦ .none
  | room + 1 => fun f args m ↦
    if f.params.length = args.length then
      Stmt.tallyAll which limits (callWith limits room) (callTally which limits room) f.body
        (m.startBody f args)
    else 0

/-- How many iterations the statements of a program start. -/
def programTally (which : List Stmt → Bool) (limits : Limits) : Program → Tally
  | [] => .none
  | s :: ss =>
    let call := callWith limits limits.maxCallDepth
    (s.tally which limits call (callTally which limits limits.maxCallDepth)).andThen
      (backToGlobal (settle (execStmt limits call s))) fun _ ↦ programTally which limits ss

/-- How many iterations the evaluation of a program starts of repetitions with such a body, over all
repetitions and all calls. -/
def iterationsOf (which : List Stmt → Bool) (limits : Limits) (program : Program) (m : Machine) :
    Nat :=
  programTally which limits program m.restart

/-- The body of a repetition that holds a statement. -/
def busyBody (body : List Stmt) : Bool := !body.isEmpty

/-- The body of a repetition that holds no statement. -/
def idleBody (body : List Stmt) : Bool := body.isEmpty

/-- A body either holds a statement or does not. -/
theorem busyBody_add_idleBody (body : List Stmt) :
    (busyBody body).toNat + (idleBody body).toNat = 1 := by
  cases body <;> rfl

/-! ### Computations and their counts -/

/-- The counts of a computation: the counter of the machine grows by the sum of the two counts, and
at least `spare` more statements than iterations of busy bodies are started. -/
def Metered {ε α : Type} (spare : Nat) (x : EStateM ε Machine α) (busy idle : Tally) : Prop :=
  ∀ m, (reached (x m)).iterations = m.iterations + (busy m + idle m) ∧
    m.steps + (busy m + spare) ≤ (reached (x m)).steps

namespace Metered

variable {ε α β : Type} {spare : Nat} {busy idle : Tally}

/-! #### Putting computations together -/

/-- What starts neither statements nor iterations. -/
theorem still {x : EStateM ε Machine α} (h : ∀ m, (reached (x m)).iterations = m.iterations)
    (h' : ∀ m, (reached (x m)).steps = m.steps) : Metered 0 x .none .none :=
  fun m ↦ ⟨h m, Nat.le_of_eq (h' m).symm⟩

theorem pure (a : α) : Metered 0 (Pure.pure a : EStateM ε Machine α) .none .none :=
  .still (fun _ ↦ rfl) fun _ ↦ rfl

theorem throw (e : ε) : Metered 0 (throw e : EStateM ε Machine α) .none .none :=
  .still (fun _ ↦ rfl) fun _ ↦ rfl

theorem get : Metered 0 (get : EStateM ε Machine Machine) .none .none :=
  .still (fun _ ↦ rfl) fun _ ↦ rfl

/-- What the first part has to spare is there also if it fails. -/
theorem andThen {x : EStateM ε Machine α} {f : α → EStateM ε Machine β} {busy' idle' : α → Tally}
    (hx : Metered spare x busy idle) (hf : ∀ a, Metered 0 (f a) (busy' a) (idle' a)) :
    Metered spare (x >>= f) (busy.andThen x busy') (idle.andThen x idle') := by
  intro m
  obtain ⟨hiter, hsteps⟩ := hx m
  unfold Tally.andThen
  cases hr : x m with
  | error e n =>
    rw [hr] at hiter hsteps
    rw [bind_error f hr]
    exact ⟨hiter, hsteps⟩
  | ok a n =>
    rw [hr] at hiter hsteps
    obtain ⟨hiter', hsteps'⟩ := hf a n
    rw [bind_ok f hr]
    have hn : n.iterations = m.iterations + (busy m + idle m) := hiter
    have hn' : m.steps + (busy m + spare) ≤ n.steps := hsteps
    dsimp only
    omega

/-- A first part without iterations. -/
theorem before {x : EStateM ε Machine α} {f : α → EStateM ε Machine β}
    (hx : Metered 0 x .none .none) (hf : ∀ a, Metered 0 (f a) .none .none) :
    Metered 0 (x >>= f) .none .none := by
  intro m
  have h := hx.andThen hf m
  have hnone : Tally.none.andThen x (fun _ ↦ Tally.none) m = 0 := by
    unfold Tally.andThen
    cases x m <;> rfl
  rw [hnone] at h
  exact h

/-- To have more to spare is to have less. -/
theorem weaken {x : EStateM ε Machine α} (hx : Metered spare x busy idle) :
    Metered 0 x busy idle :=
  fun m ↦ ⟨(hx m).1, Nat.le_trans (by omega) (hx m).2⟩

/-- A second part without iterations. -/
theorem after {x : EStateM ε Machine α} {f : α → EStateM ε Machine β}
    (hx : Metered spare x busy idle) (hf : ∀ a, Metered 0 (f a) .none .none) :
    Metered spare (x >>= f) busy idle := by
  intro m
  have h := hx.andThen hf m
  have hnone : ∀ first : Tally, first.andThen x (fun _ ↦ Tally.none) m = first m := by
    intro first
    unfold Tally.andThen
    cases x m <;> rfl
  rw [hnone, hnone] at h
  exact h

/-- A bracket around a computation, which touches neither counter. -/
theorem around {ε' : Type} {x : EStateM ε Machine α} (b : Bracket ε α ε' β)
    (hiterations : b.Keeps Machine.iterations) (hsteps : b.Keeps Machine.steps)
    (hx : Metered spare x busy idle) :
    Metered spare (b.run x) (fun m ↦ busy (b.enter m)) fun m ↦ idle (b.enter m) := by
  intro m
  have h := hx (b.enter m)
  rw [hiterations.enter, hsteps.enter] at h
  rw [Bracket.run, hiterations.leave, hsteps.leave]
  exact h

/-- The iterations of a statement are those of its expression. -/
theorem toExec {x : EvalM α} (hx : Metered spare x busy idle) :
    Metered spare x.toExec busy idle :=
  hx.around .toExec .toExec .toExec

/-- An evaluation as the first part of an execution. -/
theorem execThen {x : EvalM α} {f : α → ExecM β} {busy' idle' : α → Tally}
    (hx : Metered spare x busy idle) (hf : ∀ a, Metered 0 (f a) (busy' a) (idle' a)) :
    Metered spare (x.toExec >>= f) (busy.andThen x busy') (idle.andThen x idle') := by
  have htoExec : ∀ (first : Tally) (next : α → Tally),
      first.andThen x.toExec next = first.andThen x next := by
    intro first next
    funext m
    unfold Tally.andThen EvalM.toExec
    cases x m <;> rfl
  have h := hx.toExec.andThen hf
  rw [htoExec, htoExec] at h
  exact h

/-- The border of a body starts no iterations. -/
theorem settle {x : ExecM α} (hx : Metered spare x busy idle) :
    Metered spare x.settle busy idle :=
  hx.around .settle .settle .settle

/-- The return to the global frame starts no iterations. -/
theorem backToGlobal {x : EvalM α} (hx : Metered spare x busy idle) :
    Metered spare (backToGlobal x) busy idle :=
  hx.around .backToGlobal (.backToGlobal fun _ _ ↦ rfl) (.backToGlobal fun _ _ ↦ rfl)

/-- The iterations of a body in a frame are counted from the machine in that frame. -/
theorem inFrame {x : ExecM α} (hx : Metered spare x busy idle) (frame : FrameId) :
    Metered spare (inFrame frame x) (fun m ↦ busy { m with frame := frame })
      fun m ↦ idle { m with frame := frame } :=
  hx.around (.inFrame frame) (.inFrame (fun _ _ ↦ rfl) frame) (.inFrame (fun _ _ ↦ rfl) frame)

/-- The iterations of a block are counted from the machine with the new frame. -/
theorem inNewFrame {x : ExecM α} (hx : Metered spare x busy idle) :
    Metered spare (inNewFrame x) busy.inBlock idle.inBlock :=
  fun m ↦ hx.inFrame m.enterBlock.frame { m with store := m.enterBlock.store }

/-- The iterations of a call are counted from the machine in which the body starts. -/
theorem inCall {x : ExecM α} (hx : Metered spare x busy idle) (name : String) (frame : FrameId) :
    Metered spare (inCall name frame x) (fun m ↦ busy (m.startCall name frame))
      fun m ↦ idle (m.startCall name frame) :=
  (hx.inFrame frame).settle.around (.inCall name) (.inCall (fun _ _ ↦ rfl) (fun _ _ ↦ rfl) name)
    (.inCall (fun _ _ ↦ rfl) (fun _ _ ↦ rfl) name)

/-- The body of a function, in the machine in which it starts. -/
theorem enter {x : ExecM α} (hx : Metered spare x busy idle) (f : Function) (args : List Value) :
    Metered spare (parameterFrame f args >>= fun frame ↦ ExecM.inCall f.name frame x)
      (fun m ↦ busy (m.startBody f args)) fun m ↦ idle (m.startBody f args) :=
  fun m ↦ hx.inCall f.name (m.enterBody f args).frame
    { m with store := (m.enterBody f args).store }

/-- A repetition: a round counts on one of the two sides, and if it counts as busy then its body
starts a statement. -/
theorem rounds {x : ExecM α} {count count' : Bool} (hcount : count.toNat + count'.toNat = 1)
    (hx : Metered count.toNat x busy idle) (line i n : Nat) :
    Metered 0 (iterate x line i n) (.rounds count x busy n) (.rounds count' x idle n) := by
  induction n generalizing i with
  | zero => exact .pure ()
  | succ n ih =>
    intro m
    obtain ⟨hiter, hsteps⟩ := hx { m with iterations := m.iterations + 1 }
    rw [iterate_succ]
    unfold ExecM.turn Tally.rounds Tally.andThen
    rcases hr : x { m with iterations := m.iterations + 1 } with ⟨a, m'⟩ | ⟨span | e, m'⟩
    · rw [hr] at hiter hsteps
      obtain ⟨hiter', hsteps'⟩ := ih (i + 1) m'
      dsimp only [reached] at hiter hsteps
      dsimp only
      omega
    · rw [hr] at hiter hsteps
      dsimp only [reached, Machine.tell] at hiter hsteps ⊢
      omega
    · rw [hr] at hiter hsteps
      dsimp only [reached] at hiter hsteps ⊢
      omega

/-! #### Steps -/

/-- The store starts no iterations, and so it is for the other steps. -/
theorem onStore (change : Store → α × Store) : Metered 0 (onStore change) .none .none :=
  .still (fun _ ↦ rfl) fun _ ↦ rfl

theorem inStore (span : Span) (x : StoreM α) : Metered 0 (inStore span x) .none .none := by
  refine .still (fun m ↦ ?_) fun m ↦ ?_ <;>
    · unfold EvalM.inStore
      cases x m.store <;> rfl

theorem tell (event : Event) : Metered 0 (EvalM.tell event) .none .none :=
  .still (fun _ ↦ rfl) fun _ ↦ rfl

theorem writeLine (text : String) (span : Span) : Metered 0 (writeLine text span) .none .none := by
  refine .still (fun m ↦ ?_) fun m ↦ ?_ <;>
    · unfold EvalM.writeLine
      rcases m.sink.writeLine text with ⟨_ | _, sink⟩ <;> rfl

theorem check (span : Span) (x : Except Fault α) : Metered 0 (check span x) .none .none := by
  cases x with
  | ok a => exact .pure a
  | error fault => exact .throw _

/-- A statement that is started is counted, also if it is one too many. -/
theorem tick (limits : Limits) (span : Span) : Metered 1 (tick limits span) .none .none := by
  intro m
  rw [tick_eq]
  split <;> exact ⟨rfl, Nat.le_refl _⟩

theorem readVar (name : String) (span : Span) : Metered 0 (readVar name span) .none .none := by
  refine .before .get fun m ↦ ?_
  split
  · exact .pure _
  · exact .throw _

theorem writeVar (name : String) (v : Value) (line : Nat) :
    Metered 0 (writeVar name v line) .none .none := by
  refine .before .get fun m ↦ .before (.onStore _) fun isNew ↦ ?_
  split
  · exact .tell _
  · exact .pure _

theorem bindVar (name : String) (v : Value) : Metered 0 (bindVar name v) .none .none :=
  .still (fun _ ↦ rfl) fun _ ↦ rfl

/-- A throw goes through the targets in the store, which is no repetition of the program. -/
theorem throwBall (zone : Nat) (target : PokemonId) (span : Span) :
    Metered 0 (throwBall zone target span) .none .none := by
  refine .before (.onStore _) fun outcome ↦ .before .get fun m ↦ .before (.tell _) fun _ ↦ ?_
  induction outcome.messages (m.store.pokemonAt target).name with
  | nil => exact .pure _
  | cons line lines ih => exact .before (.writeLine line span) fun _ ↦ ih

theorem printValue (v : Value) (span : Span) : Metered 0 (printValue v span) .none .none :=
  .before .get fun _ ↦ .writeLine _ span

theorem applyBinary (op : BinaryOp) (l r : Value) (span : Span) :
    Metered 0 (applyBinary op l r span) .none .none :=
  .before .get fun _ ↦ .check span _

theorem defineFunction (name : String) (params : List String) (body : List Stmt) :
    Metered 0 (defineFunction name params body) .none .none :=
  .before .get fun _ ↦ .before (.onStore _) fun _ ↦ .bindVar name _

theorem receiver (v : Value) (span : Span) : Metered 0 (receiver v span) .none .none := by
  cases v with
  | object o => exact .pure o
  | _ => exact .throw _

theorem countOfValue (v : Value) (span : Span) : Metered 0 (countOfValue v span) .none .none := by
  cases v with
  | int n => exact .pure _
  | _ => exact .throw _

theorem thrownIn (v : Value) (span : Span) : Metered 0 (thrownIn v span) .none .none := by
  unfold SafariScript.thrownIn
  split
  · exact .pure _
  · exact .throw _

theorem thrownAt (v : Value) (span : Span) : Metered 0 (thrownAt v span) .none .none := by
  unfold SafariScript.thrownAt
  split
  · exact .pure _
  · exact .throw _

end Metered

/-! ### Evaluation and its counts -/

/-- A caller and the counts of its calls. -/
def Caller.Metered (call : Caller) (busy idle : Function → List Value → Tally) : Prop :=
  ∀ f args span, SafariScript.Metered 0 (call f args span) (busy f args) (idle f args)

section Evaluation

variable {limits : Limits} {call : Caller} {busy idle : Function → List Value → Tally}

mutual

/-- The counts of an expression are right, along its structure. -/
theorem metered_evalExpr (hc : call.Metered busy idle) (e : Expr) :
    Metered 0 (evalExpr call e) (e.tally call busy) (e.tally call idle) := by
  match e with
  | .literal value span => exact .pure _
  | .list items span => exact (metered_evalExprs hc items).after fun _ ↦ .onStore _
  | .ident name span => exact .readVar name span
  | .unary op operand span => exact (metered_evalExpr hc operand).after fun _ ↦ .check span _
  | .binary op left right span =>
    exact (metered_evalExpr hc left).andThen fun l ↦
      (metered_evalExpr hc right).after fun r ↦ .applyBinary op l r span
  | .logical op left right span =>
    refine (metered_evalExpr hc left).andThen fun l ↦ ?_
    cases op.decidedBy l.isTruthy with
    | true => exact .pure _
    | false => exact (metered_evalExpr hc right).after fun _ ↦ .pure _
  | .assign target value span =>
    match target with
    | .ident name _ =>
      exact (metered_evalExpr hc value).after fun v ↦ .before (.writeVar name v _) fun _ ↦ .pure _
    | .property object name here =>
      exact (metered_evalExpr hc value).andThen fun v ↦ (metered_evalExpr hc object).after fun u ↦
        .before (.receiver u here) fun o ↦ .before (.inStore here _) fun _ ↦ .pure _
    | .literal .. | .list .. | .unary .. | .binary .. | .logical .. | .assign .. | .call ..
    | .method .. => exact (metered_evalExpr hc value).after fun _ ↦ .throw _
  -- Only a function of the program has repetitions of its own.
  | .call callee args span =>
    refine (metered_evalExpr hc callee).andThen fun f ↦
      (metered_evalExprs hc args).andThen fun vs ↦ ?_
    cases f with
    | function f => exact hc f vs span
    | native n => exact .inStore span _
    | _ => exact .throw _
  | .property object name span =>
    exact (metered_evalExpr hc object).after fun v ↦
      .before (.receiver v span) fun o ↦ .inStore span _
  | .method object name args named span =>
    exact (metered_evalExpr hc object).andThen fun v ↦
      (Metered.receiver v span).andThen fun o ↦ (metered_evalExprs hc args).andThen fun vs ↦
        (metered_evalNamed hc named).after fun ks ↦ .inStore span _

/-- The counts of expressions from left to right. -/
theorem metered_evalExprs (hc : call.Metered busy idle) (es : List Expr) :
    Metered 0 (evalExprs call es) (Expr.tallyAll call busy es) (Expr.tallyAll call idle es) := by
  match es with
  | [] => exact .pure _
  | e :: es =>
    exact (metered_evalExpr hc e).andThen fun v ↦ (metered_evalExprs hc es).after fun vs ↦ .pure _

/-- The counts of named expressions from left to right. -/
theorem metered_evalNamed (hc : call.Metered busy idle) (es : List (String × Expr)) :
    Metered 0 (evalNamed call es) (Expr.tallyNamed call busy es)
      (Expr.tallyNamed call idle es) := by
  match es with
  | [] => exact .pure _
  | (key, e) :: es =>
    exact (metered_evalExpr hc e).andThen fun v ↦ (metered_evalNamed hc es).after fun vs ↦ .pure _

end

mutual

/-- A statement is itself one more statement than it starts iterations of busy bodies. -/
theorem metered_execStmt (hc : call.Metered busy idle) (stmt : Stmt) :
    Metered 1 (execStmt limits call stmt) (stmt.tally busyBody limits call busy)
      (stmt.tally idleBody limits call idle) := by
  unfold execStmt Stmt.tally
  refine (Metered.tick limits stmt.span).execThen fun _ ↦ ?_
  match stmt with
  | .expr value => exact (metered_evalExpr hc value).toExec
  | .var name none span => exact .before (Metered.bindVar name .null).toExec fun _ ↦ .pure _
  | .var name (some init) span =>
    exact (metered_evalExpr hc init).toExec.after fun v ↦
      .before (Metered.bindVar name v).toExec fun _ ↦ .pure _
  | .print value span =>
    exact (metered_evalExpr hc value).toExec.after fun v ↦
      .before (Metered.printValue v span).toExec fun _ ↦ .pure _
  | .cond condition body otherwise span =>
    refine (metered_evalExpr hc condition).execThen fun v ↦ ?_
    cases v.isTruthy with
    | true => exact (metered_execStmts hc body).weaken.inNewFrame
    | false =>
      cases otherwise with
      | none => exact .pure _
      | some body => exact (metered_execStmts hc body).weaken.inNewFrame
  | .block body span => exact (metered_execStmts hc body).weaken.inNewFrame.after fun _ ↦ .pure _
  -- The first statement of a body pays for the iteration, if there is one.
  | .loop count body span =>
    have hbody : Metered _ (inNewFrame (execStmts limits call .null body)) _ _ :=
      (metered_execStmts hc body).inNewFrame
    exact (metered_evalExpr hc count).execThen fun v ↦
      (Metered.countOfValue v count.span).execThen fun n ↦
        (hbody.rounds (busyBody_add_idleBody body) span.line 0 n).after fun _ ↦ .pure _
  | .define name params body span =>
    exact .before (Metered.defineFunction name params body).toExec fun _ ↦ .pure _
  | .throwBall zone target span =>
    exact (metered_evalExpr hc zone).execThen fun v ↦
      (Metered.thrownIn v span).execThen fun z ↦
        (metered_evalExpr hc target).toExec.after fun u ↦
          .before (Metered.thrownAt u span).toExec fun p ↦
            .before (Metered.throwBall z p span).toExec fun _ ↦ .pure _
  | .run span => exact .throw _

/-- If there are statements, then the first of them is a step to spare for the iteration that runs
them. -/
theorem metered_execStmts (hc : call.Metered busy idle) {last : Value} (stmts : List Stmt) :
    Metered (busyBody stmts).toNat (execStmts limits call last stmts)
      (Stmt.tallyAll busyBody limits call busy stmts)
      (Stmt.tallyAll idleBody limits call idle stmts) := by
  match stmts with
  | [] => exact .pure _
  | s :: ss => exact (metered_execStmt hc s).andThen fun v ↦ (metered_execStmts hc ss).weaken

end

end Evaluation

/-- Calls are metered: by induction on how many more may become active. -/
theorem metered_callWith (limits : Limits) (room : Nat) :
    (callWith limits room).Metered (callTally busyBody limits room)
      (callTally idleBody limits room) := by
  induction room with
  | zero =>
    intro f args span
    unfold callWith checkArity
    split
    · exact .throw _
    · exact .throw _
  | succ room ih =>
    intro f args span m
    unfold callWith checkArity callTally
    split
    · exact (metered_execStmts ih f.body).weaken.enter f args m
    · exact Metered.throw _ m

/-- A program is metered; if it has a statement, then it starts one more than iterations of busy
bodies. -/
theorem metered_runProgram (limits : Limits) (program : Program) :
    Metered (busyBody program).toNat (runProgram limits program)
      (programTally busyBody limits program) (programTally idleBody limits program) := by
  have hc := metered_callWith limits limits.maxCallDepth
  induction program with
  | nil => exact .pure ()
  | cons s ss ih =>
    exact (metered_execStmt hc s).settle.backToGlobal.andThen fun _ ↦ ih.weaken

/-- The counts of a whole evaluation, which starts with all counters set back. -/
theorem metered_evaluate (limits : Limits) (program : Program) (m : Machine) :
    (reached (evaluate limits program m)).iterations =
      iterationsOf busyBody limits program m + iterationsOf idleBody limits program m ∧
    iterationsOf busyBody limits program m + (busyBody program).toNat ≤
      (reached (evaluate limits program m)).steps := by
  have htell : ∀ _ : Unit, Metered 0
      (do EvalM.tell (.evaluated program.length (← MonadState.get).steps)) .none .none :=
    fun _ ↦ .before .get fun _ ↦ .tell _
  obtain ⟨hiter, hsteps⟩ := (metered_runProgram limits program).after htell m.restart
  exact ⟨hiter.trans (Nat.zero_add _), Nat.le_trans (Nat.le_of_eq (Nat.zero_add _).symm) hsteps⟩

/-- With a budget of `n` no more than `n + 1` statements are started, the last of them in vain. -/
theorem steps_le_budget (depth n : Nat) (program : Program) (m : Machine) :
    (reached (evaluate ⟨depth, some n⟩ program m)).steps ≤ n + 1 := by
  obtain ⟨-, hc⟩ := Cut.compared_evaluate (shortens_tick depth n) rfl (Nat.zero_le n) program m
  generalize evaluate ⟨depth, some n⟩ program m = bounded at hc ⊢
  cases hc with
  | same hwithin => exact Nat.le_succ_of_le hwithin
  | cutOff hbeyond hstop hout => exact Nat.le_of_eq hstop.2

/-- **The budget of steps bounds the repetition of statements.** However it ends, an evaluation with
a budget of `n` starts at most `n` iterations of repetitions whose body holds a statement, over all
repetitions, nested ones and those in calls included. What else the machine counts are iterations
of bodies without statements. -/
theorem busy_iterations_le_budget (depth n : Nat) (program : Program) (m : Machine) :
    iterationsOf busyBody ⟨depth, some n⟩ program m ≤ n ∧
    (reached (evaluate ⟨depth, some n⟩ program m)).iterations =
      iterationsOf busyBody ⟨depth, some n⟩ program m +
        iterationsOf idleBody ⟨depth, some n⟩ program m := by
  obtain ⟨hiter, hsteps⟩ := metered_evaluate ⟨depth, some n⟩ program m
  refine ⟨?_, hiter⟩
  have hbudget := steps_le_budget depth n program m
  cases program with
  | nil => exact Nat.zero_le n
  | cons s ss =>
    -- the first statement is started and is itself no iteration
    have hone : (busyBody (s :: ss)).toNat = 1 := rfl
    omega

/-- A program that repeats nothing, three times. -/
def repeatNothing : Program := [.loop (.literal (.int 3) default) [] default]

/-- An iteration without statements costs nothing: with a budget of one step, a repetition without
statements runs all of its three iterations and comes to its end. -/
theorem idle_iterations_exceed_budget :
    ∃ m, evaluate ⟨200, some 1⟩ repeatNothing (.new (.new none)) = .ok () m ∧
      m.steps = 1 ∧ m.iterations = 3 := by
  have hsteps : (reached (evaluate ⟨200, some 1⟩ repeatNothing (.new (.new none)))).steps = 1 := by
    decide +kernel
  have hiter :
      (reached (evaluate ⟨200, some 1⟩ repeatNothing (.new (.new none)))).iterations = 3 := by
    decide +kernel
  have hok : failure? (evaluate ⟨200, some 1⟩ repeatNothing (.new (.new none))) = none := by
    decide +kernel
  obtain ⟨_, hdone⟩ := ok_of_failure? hok
  exact ⟨_, hdone, hsteps, hiter⟩

end SafariScript
