import SafariScript.Machine.Eval

/-!
# Evaluation by plain recursion

The evaluator once more, as a recursion that **nothing in its shape brings to an end**. An
expression is evaluated by evaluating its parts, a statement is executed by executing its parts,
and a call executes the body of a function, which comes out of the store and is no part of the
call. The only thing that a call asks is whether as many calls are active as may be: it looks at
the counter of the machine, not at an argument of its own. A repetition counts up to its count.

Such a recursion need not have a result. `Option` stands for that: these functions are the least
solution of their equations (`partial_fixpoint`), so they give `some` outcome where the recursion
ends, and `none` where it goes on for ever. The same goes for comparing values and for spelling
them out, which follow lists into their items.

Single steps, which do not evaluate anything themselves, are those of the evaluator (`step`).
-/

namespace SafariScript

/-! ### Values -/

namespace Value

/-- Whether two values are equal for a script, where lists are followed into their items. -/
def compared (v w : Value) : Option Bool := do
  match v, w with
  | .list i as, .list j bs =>
    if i == j then return true
    if as.length != bs.length then return false
    (as.zip bs).allM fun pair ↦ pair.1 |>.compared pair.2
  | _, _ => return v.equals w
partial_fixpoint

/-- What a script prints for a value, given the text of objects; strings are quoted in lists. -/
def spelled (objectText : Object → String) (v : Value) : Option String := do
  match v with
  | .list _ items =>
    let texts ← items.mapM fun item ↦
      match item with
      | .str s => some (Text.quote s)
      | item => item |>.spelled objectText
    return "[" ++ String.intercalate ", " texts ++ "]"
  | _ => return v.text objectText
partial_fixpoint

end Value

/-- An evaluator by plain recursion is given by its limits. -/
abbrev Recursive := Limits

namespace Recursive

/-! ### Computations -/

/-- A recursion on the machine, which may go on for ever. -/
abbrev Run := StateT Machine Option

/-- A recursion on the machine that may fail. -/
abbrev RunExcept (ε : Type) := ExceptT ε Run

/-- An outcome as the value or the error, beside the machine. -/
def ofResult {ε α : Type} : EStateM.Result ε Machine α → Except ε α × Machine
  | .ok a m => (.ok a, m)
  | .error e m => (.error e, m)

/-- A single step. -/
def step {ε α : Type} (x : EStateM ε Machine α) : RunExcept ε α := fun m ↦ some (ofResult (x m))

/-- A part that may go on for ever, but leaves the machine alone. -/
def part {ε α : Type} (x : Option α) : RunExcept ε α := fun m ↦ x.map fun a ↦ (.ok a, m)

/-- The end of an expression as part of a statement. -/
def toExec {α : Type} : Except RuntimeError α → Except Signal α
  | .ok a => .ok a
  | .error e => .error (.error e)

/-- The end of statements at the border of a function or a program. -/
def settle {α : Type} : Except Signal α → Except RuntimeError α
  | .ok a => .ok a
  | .error (.exit span) => .error ⟨.exitOutsideLoop, span⟩
  | .error (.error e) => .error e

/-- Applies an operator to two values. -/
def applyBinary (op : BinaryOp) (l r : Value) (span : Span) : RunExcept RuntimeError Value := do
  let m ← get
  match op, l, r with
  | .eq, _, _ => return .bool (← part (l.compared r))
  | .notEq, _, _ => return .bool !(← part (l.compared r))
  | .add, .str _, _ | .add, _, .str _ =>
    let left ← part (l.spelled m.store.objectText)
    let right ← part (r.spelled m.store.objectText)
    return .str (left ++ right)
  | _, _, _ => step (EvalM.check span (op.onNumbers l r))

/-- Writes what a script prints for a value. -/
def printLine (v : Value) (span : Span) : RunExcept Signal Unit := do
  let line ← part (v.spelled (← get).store.objectText)
  step (EvalM.writeLine line span).toExec

/-! ### Expressions, statements and calls -/

mutual

/-- Evaluates an expression. -/
def evalExpr (limits : Recursive) (e : Expr) : RunExcept RuntimeError Value := do
  match e with
  | .literal value _ => return .ofLiteral value
  | .list items _ =>
    let vs ← limits |>.evalExprs items
    step (EvalM.onStore (Store.newList vs))
  | .ident name span => step (readVar name span)
  | .unary op operand span =>
    let v ← limits |>.evalExpr operand
    step (EvalM.check span (op.apply v))
  | .binary op left right span =>
    let l ← limits |>.evalExpr left
    let r ← limits |>.evalExpr right
    applyBinary op l r span
  | .logical op left right _ =>
    let l ← limits |>.evalExpr left
    if op.decidedBy l.isTruthy then return .bool l.isTruthy
    let r ← limits |>.evalExpr right
    return .bool r.isTruthy
  | .assign target value span =>
    let v ← limits |>.evalExpr value
    match target with
    | .ident name _ =>
      step (writeVar name v span.line)
      return v
    | .property object name here =>
      let w ← limits |>.evalExpr object
      let o ← step (receiver w here)
      step (EvalM.inStore here (Store.setProperty o name v))
      return v
    | _ => step (EvalM.raise .invalidAssignmentTarget span)
  | .call callee args span =>
    let f ← limits |>.evalExpr callee
    let vs ← limits |>.evalExprs args
    match f with
    | .function f => limits |>.call f vs span
    | .native n => step (EvalM.inStore span (Store.callNative n vs))
    | _ => step (EvalM.raise (.notCallable f.ty) span)
  | .property object name span =>
    let v ← limits |>.evalExpr object
    let o ← step (receiver v span)
    step (EvalM.inStore span (Store.getProperty o name))
  | .method object name args named span =>
    let v ← limits |>.evalExpr object
    let o ← step (receiver v span)
    let vs ← limits |>.evalExprs args
    let ks ← limits |>.evalNamed named
    step (EvalM.inStore span (Store.callMethod o name vs ks))
partial_fixpoint

/-- Evaluates expressions from left to right. -/
def evalExprs (limits : Recursive) (es : List Expr) : RunExcept RuntimeError (List Value) := do
  match es with
  | [] => return []
  | e :: es =>
    let v ← limits |>.evalExpr e
    let vs ← limits |>.evalExprs es
    return v :: vs
partial_fixpoint

/-- Evaluates named arguments from left to right. -/
def evalNamed (limits : Recursive) (es : List (String × Expr)) :
    RunExcept RuntimeError (List (String × Value)) := do
  match es with
  | [] => return []
  | (key, e) :: es =>
    let v ← limits |>.evalExpr e
    let vs ← limits |>.evalNamed es
    return (key, v) :: vs
partial_fixpoint

/-- Calls a function, unless as many calls are active as may be. -/
def call (limits : Recursive) (f : Function) (args : List Value) (span : Span) :
    RunExcept RuntimeError Value := do
  step (checkArity f args span)
  if limits.maxCallDepth ≤ (← get).active then
    step (EvalM.raise (.stackOverflow limits.maxCallDepth f.name) span)
  else
    let frame ← step (parameterFrame f args)
    limits |>.runBody f frame
partial_fixpoint

/-- Runs the body of a function in the frame of its parameters. -/
def runBody (limits : Recursive) (f : Function) (frame : FrameId) :
    Run (Except RuntimeError Value) := do
  modify fun m ↦ { m with active := m.active + 1 }
  modify fun m ↦ m.tell (.called f.name m.active)
  let result ← limits |>.execIn f.body frame
  modify fun m ↦ { m with active := m.active - 1 }
  return settle result
partial_fixpoint

/-- Evaluates an expression as part of a statement. -/
def execExpr (limits : Recursive) (e : Expr) : Run (Except Signal Value) := do
  let result ← (limits |>.evalExpr e).run
  return toExec result
partial_fixpoint

/-- Executes a statement. -/
def execStmt (limits : Recursive) (stmt : Stmt) : RunExcept Signal Value := do
  step (tick limits stmt.span).toExec
  match stmt with
  | .expr value => limits |>.execExpr value
  | .var name none _ =>
    step (bindVar name .null).toExec
    return .null
  | .var name (some init) _ =>
    let v ← limits |>.execExpr init
    step (bindVar name v).toExec
    return .null
  | .print value span =>
    let v ← limits |>.execExpr value
    printLine v span
    return .null
  | .cond condition body otherwise _ =>
    let v ← limits |>.execExpr condition
    if v.isTruthy then limits |>.execBlock body
    else
      match otherwise with
      | some body => limits |>.execBlock body
      | none => return .null
  | .block body _ =>
    let _ ← limits |>.execBlock body
    return .null
  | .loop count body span =>
    let v ← limits |>.execExpr count
    let n ← step (countOfValue v count.span).toExec
    limits |>.repeatFrom body span.line n 0
    return .null
  | .define name params body _ =>
    step (defineFunction name params body).toExec
    return .null
  | .throwBall zone target span =>
    let v ← limits |>.execExpr zone
    let z ← step (thrownIn v span).toExec
    let w ← limits |>.execExpr target
    let p ← step (thrownAt w span).toExec
    step (throwBall z p span).toExec
    return .null
  | .run span => throw (.exit span)
partial_fixpoint

/-- Executes statements in order and gives the value of the last one, or `last`. -/
def execStmts (limits : Recursive) (last : Value) (stmts : List Stmt) : RunExcept Signal Value := do
  match stmts with
  | [] => return last
  | s :: ss =>
    let v ← limits |>.execStmt s
    limits |>.execStmts v ss
partial_fixpoint

/-- Executes statements in the given frame, and comes back to the current one. -/
def execIn (limits : Recursive) (stmts : List Stmt) (frame : FrameId) :
    Run (Except Signal Value) := do
  let outer := (← get).frame
  modify fun m ↦ { m with frame := frame }
  let result ← (limits |>.execStmts .null stmts).run
  modify fun m ↦ { m with frame := outer }
  return result
partial_fixpoint

/-- Executes statements in a new frame inside the current one. -/
def execBlock (limits : Recursive) (stmts : List Stmt) : RunExcept Signal Value := do
  let frame ← step (EvalM.onStore (Store.newFrame (← get).frame)).toExec
  limits |>.execIn stmts frame
partial_fixpoint

/-- Executes statements from iteration `i` on, as long as `i` is below `n`; to leave them ends the
repetition, which stands on the given line. -/
def repeatFrom (limits : Recursive) (body : List Stmt) (line n i : Nat) :
    Run (Except Signal Unit) := do
  if i < n then
    modify fun m ↦ { m with iterations := m.iterations + 1 }
    let result ← (limits |>.execBlock body).run
    match result with
    | .ok _ => limits |>.repeatFrom body line n (i + 1)
    | .error (.exit _) =>
      modify (Machine.tell (.leftRepeat i line))
      return .ok ()
    | .error (.error e) => return .error (.error e)
  else return .ok ()
partial_fixpoint

end

/-! ### Programs -/

/-- Executes the statements of a program one by one, up to the first error; the current frame is
then the global one again. -/
def runProgram (limits : Limits) : Program → Run (Except RuntimeError Unit)
  | [] => return .ok ()
  | s :: ss => do
    let result ← (execStmt limits s).run
    match settle result with
    | .ok _ => runProgram limits ss
    | .error e =>
      modify fun m ↦ { m with frame := globalFrame }
      return .error e

/-- Evaluates a program in the global frame, up to the first error. -/
def evaluate (limits : Limits) (program : Program) : Run (Except RuntimeError Unit) := do
  modify Machine.restart
  match ← runProgram limits program with
  | .ok _ =>
    modify fun m ↦ m.tell (.evaluated program.length m.steps)
    return .ok ()
  | .error e => return .error e

end Recursive

end SafariScript
