import SafariScript.Proofs.Evaluation.Discipline
import SafariScript.Proofs.Store.Bare

/-!
# Evaluation without places

Places are only there for reports: in errors, and in the lines that events tell. Evaluation without
them (`Expr.bare`, `Stmt.bare`) on a machine without them (`Machine.bare`) is **the image** of the
evaluation with them: the same steps, and an outcome that is the same but for places (`Mirrors`).
So programs that differ in their places only end in the same way, with the same output
(`Mirrors.runProgram`).

The argument goes along the structure of expressions and statements. On the way, a function is
called in its bare form with bare arguments, and the caller with `room` for so many calls is treated
by induction on `room` (`Mirrors.callWith`).
-/

namespace SafariScript

open EvalM ExecM

/-! ### Machines without places -/

/-- The event without its line, if it tells one. -/
def Event.bare : Event → Event
  | .implicitGlobal name _ => .implicitGlobal name (default : Span).line
  | .leftRepeat iteration _ => .leftRepeat iteration (default : Span).line
  | event => event

/-- The machine without places in its store and in its log. -/
def Machine.bare (m : Machine) : Machine :=
  { m with store := m.store.bare, log := m.log.map Event.bare }

/-- The error without its place. -/
def RuntimeError.bare (e : RuntimeError) : RuntimeError := { e with span := default }

/-- The signal without its place. -/
def Signal.bare : Signal → Signal
  | .exit _ => .exit default
  | .error e => .error e.bare

/-- The place of a statement without places is the default one. -/
theorem Stmt.span_bare (s : Stmt) : s.bare.span = default := by
  cases s with
  | expr value => exact value.span_mapSpans _
  | var name init span => cases init <;> rfl
  | cond condition body otherwise span => cases otherwise <;> rfl
  | _ => rfl

/-- The second evaluation is the first without places. -/
abbrev EvalM.Bares {α β : Type} (g : α → β) (x : EvalM α) (x' : EvalM β) : Prop :=
  Mirrors RuntimeError.bare Machine.bare g x x'

/-- The second execution is the first without places. -/
abbrev ExecM.Bares {α β : Type} (g : α → β) (x : ExecM α) (x' : ExecM β) : Prop :=
  Mirrors Signal.bare Machine.bare g x x'

namespace Mirrors

variable {α β : Type} {g : α → β}

/-! ### Borders and brackets -/

section Brackets

variable {x : EvalM α} {x' : EvalM β} {y : ExecM α} {y' : ExecM β}

/-- What an expression does without places, it does so as part of a statement. -/
theorem toExec (hx : EvalM.Bares g x x') : ExecM.Bares g x.toExec x'.toExec := by
  intro m
  unfold EvalM.toExec
  rw [hx m]
  cases x m <;> rfl

/-- Leaving outside of a repetition is the same error without places. -/
theorem settle (hy : ExecM.Bares g y y') : EvalM.Bares g y.settle y'.settle := by
  intro m
  unfold ExecM.settle
  rw [hy m]
  rcases y m with ⟨a, n⟩ | ⟨span | e, n⟩ <;> rfl

/-- The current frame has nothing to do with places. -/
theorem inFrame (hy : ExecM.Bares g y y') (frame : FrameId) :
    ExecM.Bares g (inFrame frame y) (inFrame frame y') := by
  intro m
  have hm : y' { m.bare with frame := frame } = _ := hy { m with frame := frame }
  unfold ExecM.inFrame
  rw [hm]
  cases y { m with frame := frame } <;> rfl

/-- The number of active calls has nothing to do with places. -/
theorem whileActive (hx : EvalM.Bares g x x') :
    EvalM.Bares g (whileActive x) (whileActive x') := by
  intro m
  have hm : x' { m.bare with active := m.bare.active + 1 } = _ :=
    hx { m with active := m.active + 1 }
  unfold EvalM.whileActive
  rw [hm]
  cases x { m with active := m.active + 1 } <;> rfl

theorem backToGlobal (hx : EvalM.Bares g x x') :
    EvalM.Bares g (backToGlobal x) (backToGlobal x') := by
  intro m
  unfold EvalM.backToGlobal
  rw [hx m]
  cases x m <;> rfl

/-- An iteration counts and leaves in the same way; the event loses its line. -/
theorem attempt (hy : ExecM.Bares g y y') (line i : Nat) :
    ExecM.Bares id (attempt y line i) (attempt y' (default : Span).line i) := by
  intro m
  have hm : y' { m.bare with iterations := m.bare.iterations + 1 } = _ :=
    hy { m with iterations := m.iterations + 1 }
  unfold ExecM.attempt
  rw [hm]
  rcases y { m with iterations := m.iterations + 1 } with ⟨a, n⟩ | ⟨span | e, n⟩ <;> rfl

/-- A repetition runs as often without places. The induction is on the number of iterations. -/
theorem iterate (hy : ExecM.Bares g y y') (line i n : Nat) :
    ExecM.Bares id (iterate y line i n) (iterate y' (default : Span).line i n) := by
  induction n generalizing i with
  | zero => exact .pure rfl
  | succ n ih =>
    rw [iterate_succ, iterate_succ, turn_eq, turn_eq]
    refine (hy.attempt line i).bind fun left ↦ ?_
    cases left with
    | true => exact .pure rfl
    | false => exact ih (i + 1)

end Brackets

/-! ### Steps -/

/-- A change of the store that does not look at places, as a step of the machine. -/
theorem onStore {change : Store → α × Store} {change' : Store → β × Store}
    (hc : ∀ s, change' s.bare = Prod.map g Store.bare (change s)) :
    EvalM.Bares g (onStore change) (onStore change') := by
  refine .modifyGet fun m ↦ ?_
  show ((change' m.store.bare).1, { m.bare with store := (change' m.store.bare).2 }) = _
  rw [hc]
  rfl

/-- An operation of the store without places; its fault is then one at no place. -/
theorem inStore {x : StoreM α} {x' : StoreM β} (hx : Store.Bares g x x') (span : Span) :
    EvalM.Bares g (inStore span x) (inStore default x') := by
  intro m
  have hm : x' m.bare.store = _ := hx m.store
  unfold EvalM.inStore
  rw [hm]
  cases x m.store <;> rfl

/-- The fault is the same, its place is not. -/
theorem raise (fault : Fault) (span : Span) :
    EvalM.Bares g (raise fault span) (raise fault default) := .throw rfl

theorem tell (event : Event) : EvalM.Bares id (EvalM.tell event) (EvalM.tell event.bare) :=
  .modify fun _ ↦ rfl

/-- What is written has no places; only the error of a closed sink has one. -/
theorem writeLine (text : String) (span : Span) :
    EvalM.Bares id (writeLine text span) (writeLine text default) := by
  intro m
  unfold EvalM.writeLine
  rw [show m.bare.sink = m.sink from rfl]
  rcases m.sink.writeLine text with ⟨_ | _, sink⟩ <;> rfl

/-- A check whose result is bare. -/
theorem check {x : Except Fault Value} (h : ∀ v, x = .ok v → v.refs = []) (span : Span) :
    EvalM.Bares Value.bare (check span x) (check default x) := by
  cases x with
  | ok v => exact .pure (Value.bare_of_refs_eq_nil (h v rfl)).symm
  | error fault => exact .raise fault span

/-- Statements are counted whatever their places are. -/
theorem tick (limits : Limits) (span : Span) :
    EvalM.Bares id (tick limits span) (tick limits default) := by
  refine .bind (.modify fun _ ↦ rfl) fun _ ↦ ?_
  cases limits.maxSteps with
  | none => exact .pure rfl
  | some limit =>
    refine .look fun m ↦ ?_
    show EvalM.Bares id (if m.steps > limit then EvalM.raise (.stepLimitExceeded limit) span
      else Pure.pure ()) (if m.steps > limit then EvalM.raise (.stepLimitExceeded limit) default
      else Pure.pure ())
    split
    · exact .raise _ span
    · exact .pure rfl

/-- The value of a variable may be a function, which loses the places in its body. -/
theorem readVar (name : String) (span : Span) :
    EvalM.Bares Value.bare (readVar name span) (readVar name default) := by
  refine .look fun m ↦ ?_
  rw [show m.bare.store.frames.get? m.bare.frame name = _ from
    m.store.frames.get?_bare m.frame name]
  cases m.store.frames.get? m.frame name with
  | some v => exact .pure rfl
  | none => exact .raise _ span

/-- A new global variable is told without its line. -/
theorem writeVar (name : String) (v : Value) (line : Nat) :
    EvalM.Bares id (writeVar name v line) (writeVar name v.bare (default : Span).line) := by
  refine .look fun m ↦ .bind (.onStore fun s ↦ s.assign_bare m.frame name v) fun isNew ↦ ?_
  cases isNew with
  | true => exact .tell (.implicitGlobal name line)
  | false => exact .pure rfl

theorem bindVar (name : String) (v : Value) :
    EvalM.Bares id (bindVar name v) (bindVar name v.bare) := by
  refine .modify fun m ↦ ?_
  show { m.bare with store := m.store.bare.define m.frame name v.bare } = _
  rw [Store.define_bare]
  rfl

/-- Operators compare functions by their numbers, and so they see no places. -/
theorem applyBinary (op : BinaryOp) (l r : Value) (span : Span) :
    EvalM.Bares Value.bare (applyBinary op l r span) (applyBinary op l.bare r.bare default) := by
  refine .look fun m ↦ ?_
  rw [show op.apply m.bare.text l.bare r.bare = op.apply m.text l r from
    op.apply_bare (fun v ↦ v.text_bare _) l r]
  exact .check (fun _ ↦ refs_binary) span

theorem applyUnary (op : UnaryOp) (v : Value) (span : Span) :
    EvalM.Bares Value.bare (EvalM.check span (op.apply v))
      (EvalM.check default (op.apply v.bare)) := by
  rw [UnaryOp.apply_bare]
  exact .check (fun _ ↦ refs_unary) span

/-- What is printed for a value does not show places. -/
theorem printValue (v : Value) (span : Span) :
    EvalM.Bares id (printValue v span) (printValue v.bare default) := by
  refine .look fun m ↦ ?_
  rw [show m.bare.text v.bare = m.text v from v.text_bare _]
  exact .writeLine _ span

/-- The function that is made has a body without places. -/
theorem defineFunction (name : String) (params : List String) (body : List Stmt) :
    EvalM.Bares id (defineFunction name params body)
      (defineFunction name params (body.map Stmt.bare)) :=
  .look fun _ ↦ .bind (.onStore fun _ ↦ rfl) fun f ↦ .bindVar name f

/-- A throw depends on the objects only. -/
theorem throwBall (zone : Nat) (target : PokemonId) (span : Span) :
    EvalM.Bares id (throwBall zone target span) (throwBall zone target default) := by
  refine .bind (.onStore fun _ ↦ rfl) fun outcome ↦ .look fun m ↦ .bind (.tell _) fun _ ↦ ?_
  show EvalM.Bares id (List.forM (outcome.messages (m.store.pokemonAt target).name) _)
    (List.forM (outcome.messages (m.store.pokemonAt target).name) _)
  induction outcome.messages (m.store.pokemonAt target).name with
  | nil => exact .pure rfl
  | cons line lines ih => exact .bind (.writeLine line span) fun _ ↦ ih

theorem receiver (v : Value) (span : Span) :
    EvalM.Bares id (receiver v span) (receiver v.bare default) := by
  cases v with
  | object o => exact .pure rfl
  | _ => exact .raise _ span

/-- Only an integer is a count, and it stays what it is. -/
theorem countOfValue (v : Value) (span : Span) :
    EvalM.Bares id (countOfValue v span) (countOfValue v.bare default) := by
  cases v with
  | int n => exact .pure rfl
  | _ => exact .raise _ span

theorem thrownIn (v : Value) (span : Span) :
    EvalM.Bares id (thrownIn v span) (thrownIn v.bare default) := by
  cases v with
  | object o =>
    cases o with
    | zone id => exact .pure rfl
    | _ => exact .raise _ span
  | _ => exact .raise _ span

theorem thrownAt (v : Value) (span : Span) :
    EvalM.Bares id (thrownAt v span) (thrownAt v.bare default) := by
  cases v with
  | object o =>
    cases o with
    | pokemon id => exact .pure rfl
    | _ => exact .raise _ span
  | _ => exact .raise _ span

/-- A function without places takes as many arguments. -/
theorem checkArity (f : Function) (args : List Value) (span : Span) :
    EvalM.Bares id (checkArity f args span) (checkArity f.bare (args.map Value.bare) default) := by
  unfold SafariScript.checkArity
  rw [List.length_map]
  show EvalM.Bares id _ (if f.params.length = args.length then _ else _)
  split
  · exact .pure rfl
  · exact .raise _ span

theorem inNewFrame {x : ExecM α} {x' : ExecM β} (hx : ExecM.Bares g x x') :
    ExecM.Bares g (inNewFrame x) (inNewFrame x') :=
  .look fun m ↦ .bind (.toExec (.onStore fun s ↦ s.newFrame_bare m.frame)) fun frame ↦
    hx.inFrame frame

/-- A call: the parameters of the bare function are bound to the bare arguments. -/
theorem enter {x : ExecM α} {x' : ExecM β} (hx : ExecM.Bares g x x') (f : Function)
    (args : List Value) :
    EvalM.Bares g (parameterFrame f args >>= fun frame ↦ inCall f.name frame x)
      (parameterFrame f.bare (args.map Value.bare) >>= fun frame ↦ inCall f.name frame x') := by
  have hparams : EvalM.Bares id (parameterFrame f args)
      (parameterFrame f.bare (args.map Value.bare)) := by
    refine .onStore fun s ↦ ?_
    have hzip : f.bare.params.zip (args.map Value.bare) = Bindings.bare (f.params.zip args) :=
      List.zip_map_right ..
    dsimp only
    rw [hzip, show s.bare.newFrame f.bare.closure = _ from s.newFrame_bare f.closure]
    exact congrArg (Prod.mk _) ((s.newFrame f.closure).2.defineAll_bare _ _)
  exact hparams.bind fun frame ↦ .whileActive <|
    .look fun m ↦ .bind (.tell _) fun _ ↦ .settle (hx.inFrame frame)

/-! ### Expressions -/

/-- Two callers: the second calls bare functions with bare arguments as the first calls the
functions with the arguments. -/
def Callers (call call' : Caller) : Prop :=
  ∀ f args span, EvalM.Bares Value.bare (call f args span)
    (call' f.bare (args.map Value.bare) default)

variable {call call' : Caller}

/-- A value is called alike, if functions are. -/
theorem callValue (hc : Callers call call') (callee : Value) (args : List Value) (span : Span) :
    EvalM.Bares Value.bare (callValue call callee args span)
      (callValue call' callee.bare (args.map Value.bare) default) := by
  cases callee with
  | function f => exact hc f args span
  | native n => exact .inStore (Store.bares_callNative n args) span
  | _ => exact .raise _ span

mutual

/-- An expression without places evaluates to the value without places, along its structure. -/
theorem evalExpr (hc : Callers call call') (e : Expr) :
    EvalM.Bares Value.bare (evalExpr call e) (evalExpr call' e.bare) := by
  match e with
  | .literal value span => exact .pure (Value.bare_ofLiteral value).symm
  | .list items span => exact (evalExprs hc items).bind fun vs ↦ .onStore fun s ↦ s.newList_bare vs
  | .ident name span => exact .readVar name span
  | .unary op operand span => exact (evalExpr hc operand).bind fun v ↦ .applyUnary op v span
  | .binary op left right span =>
    exact (evalExpr hc left).bind fun l ↦ (evalExpr hc right).bind fun r ↦ .applyBinary op l r span
  | .logical op left right span =>
    refine (evalExpr hc left).bind fun l ↦ ?_
    rw [Value.isTruthy_bare]
    split
    · exact .pure rfl
    · exact (evalExpr hc right).bind fun r ↦ .pure (by rw [Value.isTruthy_bare]; rfl)
  | .assign target value span =>
    match target with
    | .ident name _ =>
      exact (evalExpr hc value).bind fun v ↦ (writeVar name v span.line).bind fun _ ↦ .pure rfl
    | .property object name here =>
      exact (evalExpr hc value).bind fun v ↦ (evalExpr hc object).bind fun u ↦
        (receiver u here).bind fun o ↦
          (inStore (Store.bares_setProperty o name v) here).bind fun _ ↦ .pure rfl
    | .literal .. | .list .. | .unary .. | .binary .. | .logical .. | .assign .. | .call ..
    | .method .. => exact (evalExpr hc value).bind fun _ ↦ .raise _ span
  | .call callee args span =>
    exact (evalExpr hc callee).bind fun f ↦ (evalExprs hc args).bind fun vs ↦
      callValue hc f vs span
  | .property object name span =>
    exact (evalExpr hc object).bind fun v ↦ (receiver v span).bind fun o ↦
      inStore (Store.bares_getProperty o name) span
  | .method object name args named span =>
    exact (evalExpr hc object).bind fun v ↦ (receiver v span).bind fun o ↦
      (evalExprs hc args).bind fun vs ↦ (evalNamed hc named).bind fun ks ↦
        inStore (Store.bares_callMethod o name vs ks) span

/-- Expressions from left to right. -/
theorem evalExprs (hc : Callers call call') (es : List Expr) :
    EvalM.Bares (List.map Value.bare) (evalExprs call es)
      (evalExprs call' (Expr.mapSpansAll (fun _ ↦ default) es)) := by
  match es with
  | [] => exact .pure rfl
  | e :: es => exact (evalExpr hc e).bind fun v ↦ (evalExprs hc es).bind fun vs ↦ .pure rfl

theorem evalNamed (hc : Callers call call') (es : List (String × Expr)) :
    EvalM.Bares Bindings.bare (evalNamed call es)
      (evalNamed call' (Expr.mapSpansNamed (fun _ ↦ default) es)) := by
  match es with
  | [] => exact .pure rfl
  | (key, e) :: es => exact (evalExpr hc e).bind fun v ↦ (evalNamed hc es).bind fun ks ↦ .pure rfl

end

/-! ### Statements -/

variable (limits : Limits)

mutual

/-- A statement without places does the same without places, along its structure. -/
theorem execStmt (hc : Callers call call') (stmt : Stmt) :
    ExecM.Bares Value.bare (execStmt limits call stmt) (execStmt limits call' stmt.bare) := by
  have htick : ExecM.Bares id (SafariScript.tick limits stmt.span).toExec
      (SafariScript.tick limits stmt.bare.span).toExec := by
    rw [Stmt.span_bare]
    exact (tick limits stmt.span).toExec
  match stmt with
  | .expr value => exact htick.bind fun _ ↦ (evalExpr hc value).toExec
  | .var name none span =>
    exact htick.bind fun _ ↦ (bindVar name .null).toExec.bind fun _ ↦ .pure rfl
  | .var name (some init) span =>
    exact htick.bind fun _ ↦ (evalExpr hc init).toExec.bind fun v ↦
      (bindVar name v).toExec.bind fun _ ↦ .pure rfl
  | .print value span =>
    exact htick.bind fun _ ↦ (evalExpr hc value).toExec.bind fun v ↦
      (printValue v span).toExec.bind fun _ ↦ .pure rfl
  | .cond condition body (some other) span =>
    refine htick.bind fun _ ↦ (evalExpr hc condition).toExec.bind fun v ↦ ?_
    rw [Value.isTruthy_bare]
    split
    · exact (execStmts hc .null body).inNewFrame
    · exact (execStmts hc .null other).inNewFrame
  | .cond condition body none span =>
    refine htick.bind fun _ ↦ (evalExpr hc condition).toExec.bind fun v ↦ ?_
    rw [Value.isTruthy_bare]
    split
    · exact (execStmts hc .null body).inNewFrame
    · exact .pure rfl
  | .block body span =>
    exact htick.bind fun _ ↦ (execStmts hc .null body).inNewFrame.bind fun _ ↦ .pure rfl
  | .loop count body span =>
    refine htick.bind fun _ ↦ (evalExpr hc count).toExec.bind fun v ↦ ?_
    rw [show (count.mapSpans fun _ ↦ default).span = default from count.span_mapSpans _]
    exact (countOfValue v count.span).toExec.bind fun n ↦
      ((execStmts hc .null body).inNewFrame.iterate span.line 0 n).bind fun _ ↦ .pure rfl
  -- The new function has the body without places, which is what a bare value is.
  | .define name params body span =>
    have hdefine : EvalM.Bares id (SafariScript.defineFunction name params body)
        (SafariScript.defineFunction name params (Stmt.mapSpansAll (fun _ ↦ default) body)) := by
      rw [Stmt.mapSpansAll_eq_map]
      exact defineFunction name params body
    exact htick.bind fun _ ↦ hdefine.toExec.bind fun _ ↦ .pure rfl
  | .throwBall zone target span =>
    exact htick.bind fun _ ↦ (evalExpr hc zone).toExec.bind fun v ↦
      (thrownIn v span).toExec.bind fun z ↦ (evalExpr hc target).toExec.bind fun u ↦
        (thrownAt u span).toExec.bind fun p ↦
          (throwBall z p span).toExec.bind fun _ ↦ .pure rfl
  | .run span => exact htick.bind fun _ ↦ .throw rfl

/-- Statements in order. -/
theorem execStmts (hc : Callers call call') (last : Value) (stmts : List Stmt) :
    ExecM.Bares Value.bare (execStmts limits call last stmts)
      (execStmts limits call' last.bare (Stmt.mapSpansAll (fun _ ↦ default) stmts)) := by
  match stmts with
  | [] => exact .pure rfl
  | s :: ss => exact (execStmt hc s).bind fun v ↦ execStmts hc v ss

end

/-! ### Calls and programs -/

/-- Calls, by induction on how many more may become active. -/
theorem callWith (room : Nat) : Callers (callWith limits room) (callWith limits room) := by
  induction room with
  | zero => exact fun f args span ↦ (checkArity f args span).bind fun _ ↦ .raise _ span
  | succ room ih =>
    intro f args span
    have hbody := execStmts limits ih .null f.body
    rw [Stmt.mapSpansAll_eq_map] at hbody
    exact (checkArity f args span).bind fun _ ↦ enter hbody f args

/-- A program, statement by statement. -/
theorem runProgram (program : Program) :
    EvalM.Bares id (runProgram limits program) (runProgram limits (program.map Stmt.bare)) := by
  induction program with
  | nil => exact .pure rfl
  | cons s ss ih =>
    have hs := execStmt limits (callWith limits limits.maxCallDepth) s
    exact hs.settle.backToGlobal.bind fun _ ↦ ih

end Mirrors

end SafariScript
