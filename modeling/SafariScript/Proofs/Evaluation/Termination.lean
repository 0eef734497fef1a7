import SafariScript.Proofs.Evaluation.Recursive
import SafariScript.Proofs.Evaluation.Registers

/-!
# Evaluation ends

The plain recursion of `Recursive` gives an outcome on **every** program from **every** machine,
whatever the limits, and it is the outcome of `evaluate`. The argument is the one by which
`evaluate` is a function at all, made explicit:

* the body of a function is run only while fewer calls are active than may be, so the number of
  calls that are still allowed goes down from a call to the body it runs (`ends_call`, by
  induction on that number);
* between calls, expressions and statements are taken apart (`ends_evalExpr`, `ends_execStmt`), and
  a repetition comes nearer to its count (`ends_repeatFrom`).

The number of calls still allowed is not an argument of the recursion: it is read off the counter
of the machine. That the counter is right wherever a call may happen is what the register
discipline says, so it travels with the comparison (`Ends`).
-/

namespace SafariScript

/-! ### Values -/

namespace Value

/-- Lists of different lengths are not equal. -/
theorem equalsAll_of_length_ne : ∀ {vs ws : List Value}, vs.length ≠ ws.length →
    Value.equalsAll vs ws = false
  | [], [], h => absurd rfl h
  | [], _ :: _, _ => rfl
  | _ :: _, [], _ => rfl
  | v :: vs, w :: ws, h => by
    have hl : vs.length ≠ ws.length := fun hl ↦ h (congrArg Nat.succ hl)
    have ih := equalsAll_of_length_ne hl
    rw [Value.equalsAll, ih, Bool.and_false]

mutual

/-- Comparing two values ends. -/
theorem compared_eq (v w : Value) : v.compared w = some (v.equals w) := by
  match v, w with
  | .list i as, .list j bs =>
    rw [compared, Value.equals]
    by_cases hij : (i == j) = true
    · simp [hij]
    · by_cases hlen : as.length = bs.length
      · simp [hij, hlen, allM_compared as bs hlen]
      · simp [hij, hlen, equalsAll_of_length_ne hlen]
  | .list _ _, .null | .list _ _, .bool _ | .list _ _, .int _ | .list _ _, .decimal _
  | .list _ _, .str _ | .list _ _, .object _ | .list _ _, .function _ | .list _ _, .native _
  | .null, _ | .bool _, _ | .int _, _ | .decimal _, _ | .str _, _ | .object _, _
  | .function _, _ | .native _, _ =>
    unfold compared
    rfl

/-- Comparing the items of lists of one length ends. -/
theorem allM_compared (vs ws : List Value) (h : vs.length = ws.length) :
    ((vs.zip ws).allM fun pair ↦ pair.1.compared pair.2) = some (Value.equalsAll vs ws) := by
  match vs, ws with
  | [], [] => rfl
  | v :: vs, w :: ws =>
    have ih := allM_compared vs ws (Nat.succ.inj h)
    rw [List.zip_cons_cons, List.allM, compared_eq v w, Value.equalsAll]
    cases v.equals w <;> simp [ih]

end

mutual

/-- Spelling out a value ends. -/
theorem spelled_eq (objectText : Object → String) (v : Value) :
    v.spelled objectText = some (v.text objectText) := by
  match v with
  | .list i items =>
    rw [spelled, Value.text]
    exact congrArg (· >>= fun texts ↦ some ("[" ++ String.intercalate ", " texts ++ "]"))
      (mapM_spelled objectText items)
  | .null | .bool _ | .int _ | .decimal _ | .str _ | .object _ | .function _ | .native _ =>
    unfold spelled
    rfl

/-- All elements can be spelled out, strings in quotes. -/
theorem mapM_spelled (objectText : Object → String) (vs : List Value) :
    (vs.mapM fun item ↦
      match item with
      | .str s => some (Text.quote s)
      | item => item.spelled objectText) = some (Value.itemTexts objectText vs) := by
  match vs with
  | [] => rfl
  | v :: vs =>
    have hv := spelled_eq objectText v
    have ih := mapM_spelled objectText vs
    rw [List.mapM_cons, ih]
    cases v with
    | str s => rfl
    | _ =>
      simp only [Value.itemTexts, hv]
      rfl

end

end Value

namespace Recursive

/-! ### Outcomes of recursions -/

section Outcomes

variable {ε α β : Type} {m m' : Machine}

/-- After a result the rest goes on from the machine that was reached. -/
theorem bind_ok {x : RunExcept ε α} {a : α} (f : α → RunExcept ε β)
    (h : x m = some (.ok a, m')) : (x >>= f) m = f a m' := by
  show (StateT.bind x fun r ↦ ExceptT.bindCont f r) m = f a m'
  rw [StateT.bind, h]
  rfl

/-- After an error nothing goes on. -/
theorem bind_error {x : RunExcept ε α} {e : ε} (f : α → RunExcept ε β)
    (h : x m = some (.error e, m')) : (x >>= f) m = some (.error e, m') := by
  show (StateT.bind x fun r ↦ ExceptT.bindCont f r) m = some (.error e, m')
  rw [StateT.bind, h]
  rfl

theorem run_bind {x : Run α} {a : α} (f : α → Run β) (h : x m = some (a, m')) :
    (x >>= f) m = f a m' := by
  show StateT.bind x f m = f a m'
  rw [StateT.bind, h]
  rfl

end Outcomes

/-- From every machine on which `n` calls are active, the recursion `x` ends, with the outcome of
`y`; and `y` keeps the registers, so that `n` calls are active again behind it. -/
structure Ends (n : Nat) {ε α : Type} (x : RunExcept ε α) (y : EStateM ε Machine α) : Prop where
  keeps : KeepsRegisters y
  eq : ∀ m, m.active = n → x m = some (ofResult (y m))

namespace Ends

variable {n : Nat} {ε α β : Type}

/-- After a result as many calls are active as before. -/
theorem active_of_ok {y : EStateM ε Machine α} {a : α} {m m' : Machine} (hy : KeepsRegisters y)
    (h : y m = .ok a m') : m'.active = m.active := by
  have hm := congrArg Prod.snd (hy m)
  rwa [h] at hm

/-- A step ends, being one. -/
theorem step {y : EStateM ε Machine α} (hy : KeepsRegisters y) : Ends n (step y) y :=
  ⟨hy, fun _ _ ↦ rfl⟩

theorem pure (a : α) : Ends n (Pure.pure a : RunExcept ε α) (Pure.pure a) :=
  ⟨.pure a, fun _ _ ↦ rfl⟩

/-- If both parts end, and the first one restores the number of active calls, then the whole ends.
-/
theorem bind {x : RunExcept ε α} {y : EStateM ε Machine α} {f : α → RunExcept ε β}
    {g : α → EStateM ε Machine β} (hx : Ends n x y) (hf : ∀ a, Ends n (f a) (g a)) :
    Ends n (x >>= f) (y >>= g) := by
  refine ⟨.bind hx.keeps fun a ↦ (hf a).keeps, fun m hm ↦ ?_⟩
  have hxm := hx.eq m hm
  cases hr : y m with
  | ok a m' =>
    rw [hr] at hxm
    rw [bind_ok f hxm, SafariScript.bind_ok g hr]
    exact (hf a).eq m' ((active_of_ok hx.keeps hr).trans hm)
  | error e m' =>
    rw [hr] at hxm
    rw [bind_error f hxm, SafariScript.bind_error g hr]
    rfl

theorem toExec {x : RunExcept RuntimeError α} {y : EvalM α} (hx : Ends n x y) :
    Ends n (x.run >>= fun r ↦ Pure.pure (Recursive.toExec r) : Run (Except Signal α)) y.toExec := by
  refine ⟨.toExec hx.keeps, fun m hm ↦ ?_⟩
  have hxm : x.run m = some (ofResult (y m)) := hx.eq m hm
  cases hr : y m with
  | ok a m' =>
    rw [hr] at hxm
    rw [run_bind _ hxm, toExec_ok hr]
    rfl
  | error e m' =>
    rw [hr] at hxm
    rw [run_bind _ hxm, toExec_error hr]
    rfl

end Ends

/-! ### Steps that spell out or compare values -/

theorem part_some {ε α : Type} (a : α) : (part (some a) : RunExcept ε α) = pure a := rfl

/-- Operators end, because the comparison of values and their spelling do. -/
theorem ends_applyBinary (n : Nat) (op : BinaryOp) (l r : Value) (span : Span) :
    Ends n (applyBinary op l r span) (SafariScript.applyBinary op l r span) := by
  refine ⟨.bind .get fun _ ↦ .check span _, fun m _ ↦ ?_⟩
  have hget : (get : RunExcept RuntimeError Machine) m = some (.ok m, m) := rfl
  show applyBinary op l r span m = some (ofResult (EvalM.check span (op.apply m.text l r) m))
  rw [applyBinary, bind_ok _ hget]
  simp only [Value.compared_eq, Value.spelled_eq, part_some]
  split
  · rfl
  · rfl
  · rfl
  · simp only [BinaryOp.apply]
    rfl
  · simp only [BinaryOp.apply]
    rfl

/-- Printing ends, because the spelling of values does. -/
theorem ends_printLine (n : Nat) (v : Value) (span : Span) :
    Ends n (printLine v span) (printValue v span).toExec := by
  refine ⟨.toExec (.bind .get fun _ ↦ .writeLine _ span), fun m _ ↦ ?_⟩
  have hget : (get : RunExcept Signal Machine) m = some (.ok m, m) := rfl
  have hprint : printValue v span m = EvalM.writeLine (v.text m.store.objectText) span m := rfl
  rw [printLine, bind_ok _ hget, Value.spelled_eq, part_some, pure_bind, step, EvalM.toExec,
    EvalM.toExec, hprint]

/-! ### Expressions -/

/-- With `n` calls active, every call of a function ends as it does with room for `room` calls. -/
def CallsEnd (limits : Limits) (n room : Nat) : Prop :=
  ∀ f args span, Ends n (call limits f args span) (callWith limits room f args span)

variable {limits : Limits} {n room : Nat}

mutual

/-- If calls end, expressions do, along their structure. -/
theorem ends_evalExpr (hc : CallsEnd limits n room) (e : Expr) :
    Ends n (evalExpr limits e) (SafariScript.evalExpr (callWith limits room) e) := by
  have steps := closed_registerLockstep limits
  match e with
  | .literal value span =>
    rw [evalExpr]
    exact .pure _
  | .list items span =>
    rw [evalExpr]
    exact .bind (ends_evalExprs hc items) fun vs ↦ .step (.onStore _)
  | .ident name span =>
    rw [evalExpr]
    exact .step (steps.readVar name span)
  | .unary op operand span =>
    rw [evalExpr]
    exact .bind (ends_evalExpr hc operand) fun v ↦ .step (.check span _)
  | .binary op left right span =>
    rw [evalExpr]
    exact .bind (ends_evalExpr hc left) fun l ↦ .bind (ends_evalExpr hc right) fun r ↦
      ends_applyBinary n op l r span
  | .logical op left right span =>
    rw [evalExpr]
    refine .bind (ends_evalExpr hc left) fun l ↦ ?_
    split
    · exact .pure _
    · exact .bind (ends_evalExpr hc right) fun r ↦ .pure _
  | .assign target value span =>
    match target with
    | .ident name _ =>
      rw [evalExpr]
      exact .bind (ends_evalExpr hc value) fun v ↦ .bind (.step (steps.writeVar name v span.line))
        fun _ ↦ .pure v
    | .property object name here =>
      rw [evalExpr]
      exact .bind (ends_evalExpr hc value) fun v ↦ .bind (ends_evalExpr hc object) fun w ↦
        .bind (.step (steps.receiver w here)) fun o ↦ .bind (.step (.inStore here _)) fun _ ↦
          .pure v
    | .literal .. | .list .. | .unary .. | .binary .. | .logical .. | .assign .. | .call ..
    | .method .. =>
      rw [evalExpr]
      exact .bind (ends_evalExpr hc value) fun _ ↦ .step (.throw _)
  -- The only recursion that is not along the expression is in a call.
  | .call callee args span =>
    rw [evalExpr]
    refine .bind (ends_evalExpr hc callee) fun f ↦ .bind (ends_evalExprs hc args) fun vs ↦ ?_
    cases f with
    | function f => exact hc f vs span
    | native native => exact .step (.inStore span _)
    | _ => exact .step (.throw _)
  | .property object name span =>
    rw [evalExpr]
    exact .bind (ends_evalExpr hc object) fun v ↦ .bind (.step (steps.receiver v span)) fun o ↦
      .step (.inStore span _)
  | .method object name args named span =>
    rw [evalExpr]
    exact .bind (ends_evalExpr hc object) fun v ↦ .bind (.step (steps.receiver v span)) fun o ↦
      .bind (ends_evalExprs hc args) fun vs ↦ .bind (ends_evalNamed hc named) fun ks ↦
        .step (.inStore span _)

/-- If calls end, expressions from left to right do. -/
theorem ends_evalExprs (hc : CallsEnd limits n room) (es : List Expr) :
    Ends n (evalExprs limits es) (SafariScript.evalExprs (callWith limits room) es) := by
  match es with
  | [] =>
    rw [evalExprs]
    exact .pure _
  | e :: es =>
    rw [evalExprs]
    exact .bind (ends_evalExpr hc e) fun v ↦ .bind (ends_evalExprs hc es) fun vs ↦ .pure _

theorem ends_evalNamed (hc : CallsEnd limits n room) (es : List (String × Expr)) :
    Ends n (evalNamed limits es) (SafariScript.evalNamed (callWith limits room) es) := by
  match es with
  | [] =>
    rw [evalNamed]
    exact .pure _
  | (key, e) :: es =>
    rw [evalNamed]
    exact .bind (ends_evalExpr hc e) fun v ↦ .bind (ends_evalNamed hc es) fun vs ↦ .pure _

end

/-! ### Statements -/

theorem ends_execExpr (hc : CallsEnd limits n room) (e : Expr) :
    Ends n (execExpr limits e) (SafariScript.evalExpr (callWith limits room) e).toExec := by
  rw [execExpr]
  exact (ends_evalExpr hc e).toExec

/-- Statements that end in place end in another frame. -/
theorem ends_execIn {stmts : List Stmt}
    (hs : Ends n (execStmts limits .null stmts)
      (SafariScript.execStmts limits (callWith limits room) .null stmts)) (frame : FrameId) :
    Ends n (execIn limits stmts frame)
      (ExecM.inFrame frame (SafariScript.execStmts limits (callWith limits room) .null stmts)) := by
  refine ⟨.inFrame hs.keeps frame, fun m hm ↦ ?_⟩
  have henter : (modify fun m ↦ { m with frame := frame } : Run PUnit) m =
      some ((), { m with frame := frame }) := rfl
  have hrun : (execStmts limits .null stmts).run { m with frame := frame } = _ :=
    hs.eq { m with frame := frame } hm
  rw [execIn, ExecM.inFrame, run_bind _ (show (get : Run Machine) m = some (m, m) from rfl),
    run_bind _ henter]
  cases hr : SafariScript.execStmts limits (callWith limits room) .null stmts
      { m with frame := frame } with
  | ok v m' =>
    rw [hr] at hrun
    rw [run_bind _ hrun]
    rfl
  | error e m' =>
    rw [hr] at hrun
    rw [run_bind _ hrun]
    rfl

/-- A block ends when its statements do. -/
theorem ends_execBlock {stmts : List Stmt}
    (hs : Ends n (execStmts limits .null stmts)
      (SafariScript.execStmts limits (callWith limits room) .null stmts)) :
    Ends n (execBlock limits stmts)
      (ExecM.inNewFrame (SafariScript.execStmts limits (callWith limits room) .null stmts)) := by
  refine ⟨.inNewFrame hs.keeps, fun m hm ↦ ?_⟩
  have hnew : Ends n (do
      let frame ← step (EvalM.onStore (Store.newFrame m.frame)).toExec
      execIn limits stmts frame) (do
      let frame ← (EvalM.onStore (Store.newFrame m.frame)).toExec
      ExecM.inFrame frame (SafariScript.execStmts limits (callWith limits room) .null stmts)) :=
    .bind (.step (.toExec (.onStore _))) fun frame ↦ ends_execIn hs frame
  rw [execBlock]
  exact hnew.eq m hm

/-- A repetition ends when its body does: the induction is on the number of iterations that are
left. -/
theorem ends_repeatFrom {body : List Stmt}
    (hs : Ends n (execStmts limits .null body)
      (SafariScript.execStmts limits (callWith limits room) .null body)) (line left i : Nat) :
    Ends n (repeatFrom limits body line (i + left) i)
      (ExecM.iterate (ExecM.inNewFrame
        (SafariScript.execStmts limits (callWith limits room) .null body)) line i left) := by
  induction left generalizing i with
  | zero =>
    rw [repeatFrom, if_neg (by omega)]
    exact .pure _
  | succ left ih =>
    have hblock := ends_execBlock hs
    refine ⟨?_, fun m hm ↦ ?_⟩
    · rw [ExecM.iterate_succ]
      exact .turn hblock.keeps (ih (i + 1)).keeps line i
    · have hcount : (modify fun m ↦ { m with iterations := m.iterations + 1 } : Run PUnit) m =
          some ((), { m with iterations := m.iterations + 1 }) := rfl
      have hrun : (execBlock limits body).run { m with iterations := m.iterations + 1 } = _ :=
        hblock.eq { m with iterations := m.iterations + 1 } hm
      rw [ExecM.iterate_succ, ExecM.turn, repeatFrom, if_pos (by omega), run_bind _ hcount]
      -- The repetition goes on behind a body that came to its end, not behind one left or failed.
      rcases hr : ExecM.inNewFrame (SafariScript.execStmts limits (callWith limits room) .null body)
          { m with iterations := m.iterations + 1 } with ⟨v, m'⟩ | ⟨span | e, m'⟩
      · rw [hr] at hrun
        rw [run_bind _ hrun]
        have hi : i + 1 + left = i + (left + 1) := by omega
        have hm' : m'.active = n := (Ends.active_of_ok hblock.keeps hr).trans hm
        exact hi ▸ (ih (i + 1)).eq m' hm'
      · rw [hr] at hrun
        rw [run_bind _ hrun]
        rfl
      · rw [hr] at hrun
        rw [run_bind _ hrun]
        rfl

mutual

/-- If calls end, statements do, along their structure. -/
theorem ends_execStmt (hc : CallsEnd limits n room) (stmt : Stmt) :
    Ends n (execStmt limits stmt)
      (SafariScript.execStmt limits (callWith limits room) stmt) := by
  have steps := closed_registerLockstep limits
  have htick (span : Span) : Ends n (step (tick limits span).toExec) (tick limits span).toExec :=
    .step (.toExec (steps.tick span))
  match stmt with
  | .expr value =>
    rw [execStmt]
    exact .bind (htick _) fun _ ↦ ends_execExpr hc value
  | .var name none span =>
    rw [execStmt]
    exact .bind (htick _) fun _ ↦ .bind (.step (.toExec (steps.bindVar name .null))) fun _ ↦
      .pure _
  | .var name (some init) span =>
    rw [execStmt]
    exact .bind (htick _) fun _ ↦ .bind (ends_execExpr hc init) fun v ↦
      .bind (.step (.toExec (steps.bindVar name v))) fun _ ↦ .pure _
  | .print value span =>
    rw [execStmt]
    exact .bind (htick _) fun _ ↦ .bind (ends_execExpr hc value) fun v ↦
      .bind (ends_printLine n v span) fun _ ↦ .pure _
  | .cond condition body (some other) span =>
    rw [execStmt]
    refine .bind (htick _) fun _ ↦ .bind (ends_execExpr hc condition) fun v ↦ ?_
    split
    · exact ends_execBlock (ends_execStmts hc .null body)
    · exact ends_execBlock (ends_execStmts hc .null other)
  | .cond condition body none span =>
    rw [execStmt]
    refine .bind (htick _) fun _ ↦ .bind (ends_execExpr hc condition) fun v ↦ ?_
    split
    · exact ends_execBlock (ends_execStmts hc .null body)
    · exact .pure _
  | .block body span =>
    rw [execStmt]
    exact .bind (htick _) fun _ ↦ .bind (ends_execBlock (ends_execStmts hc .null body)) fun _ ↦
      .pure _
  | .loop count body span =>
    rw [execStmt]
    refine .bind (htick _) fun _ ↦ .bind (ends_execExpr hc count) fun v ↦
      .bind (.step (.toExec (steps.countOfValue v count.span))) fun k ↦ .bind ?_ fun _ ↦ .pure _
    have hrep := ends_repeatFrom (ends_execStmts hc .null body) span.line k 0
    rwa [Nat.zero_add] at hrep
  | .define name params body span =>
    rw [execStmt]
    exact .bind (htick _) fun _ ↦
      .bind (.step (.toExec (steps.defineFunction name params body))) fun _ ↦ .pure _
  | .throwBall zone target span =>
    rw [execStmt]
    exact .bind (htick _) fun _ ↦ .bind (ends_execExpr hc zone) fun v ↦
      .bind (.step (.toExec (steps.thrownIn v span))) fun z ↦
        .bind (ends_execExpr hc target) fun w ↦
          .bind (.step (.toExec (steps.thrownAt w span))) fun p ↦
            .bind (.step (.toExec (steps.throwBall z p span))) fun _ ↦ .pure _
  | .run span =>
    rw [execStmt]
    exact .bind (htick _) fun _ ↦ ⟨.throw _, fun _ _ ↦ rfl⟩

/-- If calls end, statements in order do. -/
theorem ends_execStmts (hc : CallsEnd limits n room) (last : Value) (stmts : List Stmt) :
    Ends n (execStmts limits last stmts)
      (SafariScript.execStmts limits (callWith limits room) last stmts) := by
  match stmts with
  | [] =>
    rw [execStmts]
    exact .pure last
  | s :: ss =>
    rw [execStmts]
    exact .bind (ends_execStmt hc s) fun v ↦ ends_execStmts hc v ss

end

/-! ### Calls -/

section InCall

variable {α : Type} {name : String} {frame : FrameId} {x : ExecM α} {m m' : Machine}

/-- A call whose body has a result ends with it, with one active call less. -/
theorem inCall_ok {a : α} (h : (ExecM.inFrame frame x).settle (m.called name) = .ok a m') :
    ExecM.inCall name frame x m = .ok a { m' with active := m'.active - 1 } := by
  show Bracket.whileActive.leave m ((ExecM.inFrame frame x).settle (m.called name)) = _
  rw [h]
  rfl

/-- A call whose body fails ends with the error, with one active call less. -/
theorem inCall_error {e : RuntimeError}
    (h : (ExecM.inFrame frame x).settle (m.called name) = .error e m') :
    ExecM.inCall name frame x m = .error e { m' with active := m'.active - 1 } := by
  show Bracket.whileActive.leave m ((ExecM.inFrame frame x).settle (m.called name)) = _
  rw [h]
  rfl

end InCall

/-- The body of a function ends in a call if it ends with one more call active. -/
theorem ends_runBody {f : Function}
    (hs : Ends (n + 1) (execStmts limits .null f.body)
      (SafariScript.execStmts limits (callWith limits room) .null f.body)) (frame : FrameId) :
    Ends n (runBody limits f frame) (ExecM.inCall f.name frame
      (SafariScript.execStmts limits (callWith limits room) .null f.body)) := by
  refine ⟨.inCall hs.keeps f.name frame, fun m hm ↦ ?_⟩
  have hactive : (modify fun m ↦ { m with active := m.active + 1 } : Run PUnit) m =
      some ((), { m with active := m.active + 1 }) := rfl
  have htell : (modify fun m ↦ m.tell (.called f.name m.active) : Run PUnit)
      { m with active := m.active + 1 } = some ((), m.called f.name) := rfl
  have hrun : execIn limits f.body frame (m.called f.name) = _ :=
    (ends_execIn hs frame).eq (m.called f.name) (congrArg (· + 1) hm)
  rw [runBody, run_bind _ hactive, run_bind _ htell]
  rcases hr : ExecM.inFrame frame
      (SafariScript.execStmts limits (callWith limits room) .null f.body) (m.called f.name)
    with ⟨v, m'⟩ | ⟨span | e, m'⟩
  · rw [hr] at hrun
    rw [run_bind _ hrun, inCall_ok (settle_ok hr)]
    rfl
  · rw [hr] at hrun
    rw [run_bind _ hrun, inCall_error (settle_exit hr)]
    rfl
  · rw [hr] at hrun
    rw [run_bind _ hrun, inCall_error (settle_error hr)]
    rfl

/-- Every call ends. The induction is on the number of calls that may still become active: a call
that finds none left is an error, and any other runs a body that may make one call less. -/
theorem ends_call (limits : Limits) (room n : Nat) (h : n + room = limits.maxCallDepth) :
    CallsEnd limits n room := by
  have steps := closed_registerLockstep limits
  induction room generalizing n with
  | zero =>
    intro f args span
    rw [call, callWith]
    -- As many calls are active as may be, and the machine has counted them.
    refine .bind (.step (steps.checkArity f args span)) fun _ ↦ ⟨.throw _, fun m hm ↦ ?_⟩
    have hget : (get : RunExcept RuntimeError Machine) m = some (.ok m, m) := rfl
    rw [bind_ok _ hget, if_pos (by omega)]
    rfl
  | succ room ih =>
    intro f args span
    -- In the body one more call is active, and one less may become so.
    have hbody := ends_execStmts (ih (n + 1) (by omega)) .null f.body
    have henter : Ends n (step (parameterFrame f args) >>= fun frame ↦ runBody limits f frame)
        (parameterFrame f args >>= fun frame ↦ ExecM.inCall f.name frame
          (SafariScript.execStmts limits (callWith limits room) .null f.body)) :=
      .bind (.step (.onStore _)) fun frame ↦ ends_runBody hbody frame
    rw [call, callWith]
    refine .bind (.step (steps.checkArity f args span)) fun _ ↦ ⟨henter.keeps, fun m hm ↦ ?_⟩
    have hget : (get : RunExcept RuntimeError Machine) m = some (.ok m, m) := rfl
    rw [bind_ok _ hget, if_neg (by omega)]
    exact henter.eq m hm

/-! ### Programs -/

/-- The statements of a program end, one by one, when no call is active before them. -/
theorem ends_runProgram (limits : Limits) (program : Program) {m : Machine} (hm : m.active = 0) :
    runProgram limits program m = some (ofResult (SafariScript.runProgram limits program m)) := by
  induction program generalizing m with
  | nil => rfl
  | cons s ss ih =>
    have hs := ends_execStmt (ends_call limits limits.maxCallDepth 0 (Nat.zero_add _)) s
    have hrun : (execStmt limits s).run m = _ := hs.eq m hm
    rw [runProgram, SafariScript.runProgram]
    rcases hr : SafariScript.execStmt limits (callWith limits limits.maxCallDepth) s m with
      ⟨v, m'⟩ | ⟨span | e, m'⟩
    · rw [hr] at hrun
      rw [run_bind _ hrun, SafariScript.bind_ok _ (backToGlobal_ok (settle_ok hr))]
      exact ih ((Ends.active_of_ok hs.keeps hr).trans hm)
    · rw [hr] at hrun
      rw [run_bind _ hrun, SafariScript.bind_error _ (backToGlobal_error (settle_exit hr))]
      rfl
    · rw [hr] at hrun
      rw [run_bind _ hrun, SafariScript.bind_error _ (backToGlobal_error (settle_error hr))]
      rfl

/-- The evaluation of a program ends, with the outcome of the evaluator. -/
theorem ends_evaluate (limits : Limits) (program : Program) (m : Machine) :
    evaluate limits program m = some (ofResult (SafariScript.evaluate limits program m)) := by
  have hstart : (modify Machine.restart : Run PUnit) m = some ((), m.restart) := rfl
  have hstart' : (modify Machine.restart : EvalM PUnit) m = .ok () m.restart := rfl
  have hrun := ends_runProgram limits program (m := m.restart) rfl
  rw [evaluate, SafariScript.evaluate, run_bind _ hstart, SafariScript.bind_ok _ hstart']
  cases hr : SafariScript.runProgram limits program m.restart with
  | ok u m' =>
    rw [hr] at hrun
    rw [run_bind _ hrun, SafariScript.bind_ok _ hr]
    rfl
  | error e m' =>
    rw [hr] at hrun
    rw [run_bind _ hrun, SafariScript.bind_error _ hr]
    rfl

/-- **Evaluation ends.** From every machine and under every limit of active calls, a budget of steps
or none, the plain recursion over a program ends, in success or in an error, and `evaluate` ends in
the same way on the same machine. Comparing values and spelling them out end as well. -/
theorem evaluation_ends (limits : Limits) (program : Program) (m : Machine) :
    ((∃ m', evaluate limits program m = some (.ok (), m') ∧
        SafariScript.evaluate limits program m = .ok () m') ∨
      ∃ e m', evaluate limits program m = some (.error e, m') ∧
        SafariScript.evaluate limits program m = .error e m') ∧
    (∀ v w : Value, v.compared w = some (v.equals w)) ∧
    ∀ (objectText : Object → String) (v : Value),
      v.spelled objectText = some (v.text objectText) := by
  refine ⟨?_, Value.compared_eq, Value.spelled_eq⟩
  have hends := ends_evaluate limits program m
  cases hr : SafariScript.evaluate limits program m with
  | ok u m' =>
    rw [hr] at hends
    exact .inl ⟨m', hends, rfl⟩
  | error e m' =>
    rw [hr] at hends
    exact .inr ⟨e, m', hends, rfl⟩

end Recursive

end SafariScript
