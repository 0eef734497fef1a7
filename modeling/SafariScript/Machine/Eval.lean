import SafariScript.Machine.Basic
import SafariScript.Operator

/-!
# Evaluation

Expressions and statements are evaluated along their structure, given how a function of the script
is called (`Caller`). A call itself runs the body of a function, which is no part of the calling
expression; but it only may do so while calls remain (`callWith`), and the body is run with one
call less. So evaluation always comes to an end, whatever the program: there is no bound on it
besides the number of calls that may be active at once.
-/

namespace SafariScript

/-- How a function is called with arguments, from an expression at the given place. -/
abbrev Caller := Function → List Value → Span → EvalM Value

open EvalM ExecM

/-! ### Steps -/

/-- Counts a statement; an error if it is one too many. -/
def tick (limits : Limits) (span : Span) : EvalM Unit := do
  modify fun m ↦ { m with steps := m.steps + 1 }
  match limits.maxSteps with
  | none => pure ()
  | some limit => if (← get).steps > limit then raise (.stepLimitExceeded limit) span

/-- The value of a variable. -/
def readVar (name : String) (span : Span) : EvalM Value := do
  let m ← get
  match m.store.frames.get? m.frame name with
  | some v => pure v
  | none => raise (.undefinedVariable name) span

/-- Assigns to a variable; a new global variable is worth telling. -/
def writeVar (name : String) (v : Value) (line : Nat) : EvalM Unit := do
  if ← onStore (Store.assign (← get).frame name v) then tell (.implicitGlobal name line)

/-- Binds a name in the current frame. -/
def bindVar (name : String) (v : Value) : EvalM Unit :=
  modify fun m ↦ { m with store := m.store.define m.frame name v }

/-- The object that a property or method is asked of. -/
def receiver (v : Value) (span : Span) : EvalM Object :=
  match v with
  | .object o => pure o
  | _ => raise (.notAnObject v.ty) span

/-- Calls a value with arguments. -/
def callValue (call : Caller) (callee : Value) (args : List Value) (span : Span) : EvalM Value :=
  match callee with
  | .function f => call f args span
  | .native n => inStore span (Store.callNative n args)
  | _ => raise (.notCallable callee.ty) span

/-- Applies an operator to two values. -/
def applyBinary (op : BinaryOp) (l r : Value) (span : Span) : EvalM Value := do
  check span (op.apply (← get).text l r)

/-- Writes what a script prints for a value. -/
def printValue (v : Value) (span : Span) : EvalM Unit := do writeLine ((← get).text v) span

/-- Makes a function that remembers the current frame, and binds it there. -/
def defineFunction (name : String) (params : List String) (body : List Stmt) : EvalM Unit := do
  let f ← onStore (Store.newFunction name params body (← get).frame)
  bindVar name f

/-- Throws a ball, tells it, and writes what became of it. -/
def throwBall (zone : Nat) (target : PokemonId) (span : Span) : EvalM Unit := do
  let outcome ← onStore (Store.throwBall zone target)
  let name := ((← get).store.pokemonAt target).name
  tell (.threw name outcome)
  (outcome.messages name).forM fun line ↦ writeLine line span

/-! ### Expressions -/

mutual

/-- Evaluates an expression. -/
def evalExpr (call : Caller) : Expr → EvalM Value
  | .literal value _ => pure (.ofLiteral value)
  | .list items _ => do
    let vs ← evalExprs call items
    onStore (Store.newList vs)
  | .ident name span => readVar name span
  | .unary op operand span => do
    let v ← evalExpr call operand
    check span (op.apply v)
  | .binary op left right span => do
    let l ← evalExpr call left
    let r ← evalExpr call right
    applyBinary op l r span
  | .logical op left right _ => do
    let l ← evalExpr call left
    if op.decidedBy l.isTruthy then return .bool l.isTruthy
    let r ← evalExpr call right
    return .bool r.isTruthy
  | .assign (.ident name _) value span => do
    let v ← evalExpr call value
    writeVar name v span.line
    return v
  | .assign (.property object name here) value _ => do
    let v ← evalExpr call value
    let o ← receiver (← evalExpr call object) here
    inStore here (Store.setProperty o name v)
    return v
  | .assign _ value span => do
    let _ ← evalExpr call value
    raise .invalidAssignmentTarget span
  | .call callee args span => do
    let f ← evalExpr call callee
    let vs ← evalExprs call args
    callValue call f vs span
  | .property object name span => do
    let o ← receiver (← evalExpr call object) span
    inStore span (Store.getProperty o name)
  | .method object name args named span => do
    let o ← receiver (← evalExpr call object) span
    let vs ← evalExprs call args
    let ks ← evalNamed call named
    inStore span (Store.callMethod o name vs ks)

/-- Evaluates expressions from left to right. -/
def evalExprs (call : Caller) : List Expr → EvalM (List Value)
  | [] => pure []
  | e :: es => do
    let v ← evalExpr call e
    let vs ← evalExprs call es
    return v :: vs

/-- Evaluates named arguments from left to right. -/
def evalNamed (call : Caller) : List (String × Expr) → EvalM (List (String × Value))
  | [] => pure []
  | (key, e) :: es => do
    let v ← evalExpr call e
    let vs ← evalNamed call es
    return (key, v) :: vs

end

/-! ### Statements -/

/-- The number of iterations that a count asks for. -/
def countOfValue (v : Value) (span : Span) : EvalM Nat :=
  match v with
  | .int n => pure n.toInt.toNat
  | _ => raise (.notACount v.ty) span

/-- The zone that a ball is thrown in. -/
def thrownIn (v : Value) (span : Span) : EvalM Nat :=
  match v with
  | .object (.zone id) => pure id
  | _ => raise (.badThrow .zone v.ty) span

/-- The Pokémon that a ball is thrown at. -/
def thrownAt (v : Value) (span : Span) : EvalM PokemonId :=
  match v with
  | .object (.pokemon id) => pure id
  | _ => raise (.badThrow .pokemon v.ty) span

mutual

/-- Executes a statement and gives its value: that of an expression, or that of the body which a
condition chose; all other statements have the value null. -/
def execStmt (limits : Limits) (call : Caller) (stmt : Stmt) : ExecM Value := do
  tick limits stmt.span
  match stmt with
  | .expr value => evalExpr call value
  | .var name none _ =>
    bindVar name .null
    return .null
  | .var name (some init) _ =>
    bindVar name (← evalExpr call init)
    return .null
  | .print value span =>
    let v ← evalExpr call value
    printValue v span
    return .null
  | .cond condition body otherwise _ =>
    if (← evalExpr call condition).isTruthy then inNewFrame (execStmts limits call .null body)
    else
      match otherwise with
      | some body => inNewFrame (execStmts limits call .null body)
      | none => return .null
  | .block body _ =>
    let _ ← inNewFrame (execStmts limits call .null body)
    return .null
  | .loop count body span =>
    let n ← countOfValue (← evalExpr call count) count.span
    iterate (inNewFrame (execStmts limits call .null body)) span.line 0 n
    return .null
  | .define name params body _ =>
    defineFunction name params body
    return .null
  | .throwBall zone target span =>
    let z ← thrownIn (← evalExpr call zone) span
    let p ← thrownAt (← evalExpr call target) span
    throwBall z p span
    return .null
  | .run span => throw (.exit span)

/-- Executes statements in order and gives the value of the last one, or `last` if there is
none. -/
def execStmts (limits : Limits) (call : Caller) (last : Value) : List Stmt → ExecM Value
  | [] => pure last
  | s :: ss => do
    let v ← execStmt limits call s
    execStmts limits call v ss

end

/-! ### Functions and programs -/

/-- A function takes as many arguments as it has parameters. -/
def checkArity (f : Function) (args : List Value) (span : Span) : EvalM Unit :=
  if f.params.length = args.length then pure ()
  else raise (.wrongArity f.name f.params.length args.length) span

/-- A new frame inside the one where the function was defined, with its parameters bound to the
arguments. -/
def parameterFrame (f : Function) (args : List Value) : EvalM FrameId :=
  onStore fun s ↦
    let (frame, s) := s.newFrame f.closure
    (frame, s.defineAll frame (f.params.zip args))

/-- Calls a function while `room` more calls may become active. -/
def callWith (limits : Limits) : (room : Nat) → Caller
  | 0 => fun f args span ↦ do
    checkArity f args span
    raise (.stackOverflow limits.maxCallDepth f.name) span
  | room + 1 => fun f args span ↦ do
    checkArity f args span
    let frame ← parameterFrame f args
    inCall f.name frame (execStmts limits (callWith limits room) .null f.body)

/-- Executes the statements of a program one by one, up to the first error; the current frame is
then the global one again. -/
def runProgram (limits : Limits) : Program → EvalM Unit
  | [] => pure ()
  | s :: ss => do
    let _ ← backToGlobal (settle (execStmt limits (callWith limits limits.maxCallDepth) s))
    runProgram limits ss

/-- Evaluates a program in the global frame, up to the first error. -/
def evaluate (limits : Limits) (program : Program) : EvalM Unit := do
  modify Machine.restart
  runProgram limits program
  tell (.evaluated program.length (← get).steps)

end SafariScript
