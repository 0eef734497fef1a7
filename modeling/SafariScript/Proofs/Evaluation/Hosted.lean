import SafariScript.Proofs.Evaluation.Brackets
import SafariScript.Proofs.Evaluation.Hosts

/-!
# Evaluation that gives frames back

A second evaluator, which is a `Host` at all times. A block or a call that is left gives back the
handle on its frame, however it is left (`Hosted.inFrame`). All that evaluation still needs is held
meanwhile (`Hosted.holding`): the left operand while the right one is evaluated, a function and the
arguments before, an object and what it is asked with, the value that is assigned, and the value of
the statement before.

A frame that nobody can get at may also be **gone** on its own, as things are that are counted. Then
it holds neither values nor the frame around it, and what it held is not counted any more. When this
happens is up to a `Collector`, of which only is known that it takes no frame that the host can
still get at. Whatever is gone goes before a frame is given back, so the counts are those of the
frames that are left.
-/

namespace SafariScript

open EvalM

/-! ### Frames that are gone -/

/-- The frames, of which some are gone. -/
def Frames.sweep (fs : Frames) (gone : FrameId → Bool) : Frames where
  toArray := fs.toArray.mapIdx fun i f ↦ if gone i then ⟨none, []⟩ else f
  older i f p hf hp := by
    rw [Array.getElem?_mapIdx] at hf
    obtain ⟨g, hg, rfl⟩ := Option.map_eq_some_iff.1 hf
    split at hp
    · cases hp
    · exact fs.older i g p hg hp

/-- The store, in which some frames are gone. -/
def Store.sweep (s : Store) (gone : FrameId → Bool) : Store :=
  { s with frames := s.frames.sweep gone }

/-- What can be got at is found by those who leave nothing to be found. -/
theorem Store.Reaches.mem_of_closed {s : Store} {rs found : List Ref} {r : Ref}
    (h : s.Reaches rs r) (hroots : ∀ r ∈ rs, r ∈ found)
    (hclosed : ∀ r ∈ found, ∀ r' ∈ s.targets r, r' ∈ found) : r ∈ found := by
  induction h with
  | root hmem => exact hroots _ hmem
  | next _ hnext ih => exact hclosed _ ih _ hnext

/-- Which frames are gone. -/
structure Collector where
  gone : Host → FrameId → Bool
  /-- A frame that the host can get at is there. -/
  unreachable : ∀ (h : Host) (i : FrameId), gone h i = true →
    ¬ h.machine.store.Reaches h.refs (.frame i)

namespace Collector

/-- All frames stay. -/
def keeping : Collector := ⟨fun _ _ ↦ false, fun _ _ hgone ↦ nomatch hgone⟩

/-- What one step leads to from the given references, besides themselves. -/
def expand (s : Store) (rs : List Ref) : List Ref :=
  (rs ++ rs.flatMap s.targets).eraseDups

/-- Takes all frames that are not found from what the host refers to, if nothing is left to be
found. -/
def tracing : Collector where
  gone h i :=
    let s := h.machine.store
    let found := (s.frames.size + s.zones.size + s.teams.size).repeat (expand s) h.refs
    decide ((∀ r ∈ h.refs, r ∈ found) ∧ (∀ r ∈ found, ∀ r' ∈ s.targets r, r' ∈ found) ∧
      Ref.frame i ∉ found)
  unreachable h i hgone hreaches := by
    obtain ⟨hrefs, hclosed, hi⟩ := of_decide_eq_true hgone
    exact hi (hreaches.mem_of_closed hrefs hclosed)

end Collector

/-! ### Computations of a host -/

/-- A computation of a host. -/
abbrev HostedM (ε : Type) := EStateM ε Host

namespace Hosted

variable {ε ε' α β : Type}

/-- Does a step in the machine. -/
def onMachine (x : EStateM ε Machine α) : HostedM ε α := fun h ↦
  match x h.machine with
  | .ok a m => .ok a { h with machine := m }
  | .error e m => .error e { h with machine := m }

/-- Holds values until something else is done. -/
def holding (vs : List Value) (x : HostedM ε α) : HostedM ε α := fun h ↦
  match x (h.hold vs) with
  | .ok a n => .ok a { n with values := h.values }
  | .error e n => .error e { n with values := h.values }

/-- Runs a computation inside of a bracket. -/
def inside (b : Bracket ε α ε' β) (x : HostedM ε α) : HostedM ε' β := fun h ↦
  match x { h with machine := b.enter h.machine } with
  | .ok a n => onMachine (fun m ↦ b.leave h.machine (.ok a m)) n
  | .error e n => onMachine (fun m ↦ b.leave h.machine (.error e m)) n

/-- The host `n` gives back the latest handle, and is then where the host `h` was: in the same
frame, and with the values that `h` held. -/
def leave (C : Collector) (h n : Host) : Host :=
  let swept := n.withStore (n.machine.store.sweep (C.gone n))
  let left := swept.release true h.handles.length
  ⟨{ left.machine with frame := h.machine.frame }, left.handles, h.values⟩

/-- The host goes into a frame, on which it gets a handle. -/
def enter (h : Host) (frame : FrameId) : Host :=
  ⟨{ h.machine with frame := frame }, h.handles ++ [frame], h.values⟩

/-- Runs in the given frame and gives it back, however it ends. The value that comes out is held
when the frame is given back. -/
def inFrame (C : Collector) (frame : FrameId) (x : HostedM Signal Value) : HostedM Signal Value :=
  fun h ↦
    match x (enter h frame) with
    | .ok v n => .ok v (leave C h (n.hold [v]))
    | .error e n => .error e (leave C h n)

/-- Runs in a new frame inside the current one. -/
def inNewFrame (C : Collector) (x : HostedM Signal Value) : HostedM Signal Value := fun h ↦
  inFrame C h.machine.enterBlock.frame x (h.withStore h.machine.enterBlock.store)

/-- Runs the body of a function in a new frame with its parameters. -/
def inCall (C : Collector) (f : Function) (args : List Value) (x : HostedM Signal Value) :
    HostedM RuntimeError Value := fun h ↦
  inside (.inCall f.name) (inside .settle (inFrame C (h.machine.enterBody f args).frame x))
    (h.withStore (h.machine.enterBody f args).store)

/-- Runs `body` up to `n` times, the first time as the iteration `i`. -/
def iterate (body : HostedM Signal α) (line : Nat) : (i n : Nat) → HostedM Signal Unit
  | _, 0 => pure ()
  | i, n + 1 => do
    if ← inside (.attempt line i) body then pure ()
    else iterate body line (i + 1) n

/-! ### Expressions -/

/-- How a function is called with arguments, from an expression at the given place. -/
abbrev Caller := Function → List Value → Span → HostedM RuntimeError Value

/-- Calls a value with arguments. A function is held until it has returned. -/
def callValue (call : Caller) (callee : Value) (args : List Value) (span : Span) :
    HostedM RuntimeError Value :=
  match callee with
  | .function f => holding [callee] (call f args span)
  | .native n => onMachine (inStore span (Store.callNative n args))
  | _ => onMachine (raise (.notCallable callee.ty) span)

mutual

/-- Evaluates an expression. -/
def evalExpr (call : Caller) : Expr → HostedM RuntimeError Value
  | .literal value _ => pure (.ofLiteral value)
  | .list items _ => do
    let vs ← evalExprs call items
    onMachine (onStore (Store.newList vs))
  | .ident name span => onMachine (readVar name span)
  | .unary op operand span => do
    let v ← evalExpr call operand
    onMachine (check span (op.apply v))
  | .binary op left right span => do
    let l ← evalExpr call left
    let r ← holding [l] (evalExpr call right)
    onMachine (applyBinary op l r span)
  | .logical op left right _ => do
    let l ← evalExpr call left
    if op.decidedBy l.isTruthy then return .bool l.isTruthy
    let r ← evalExpr call right
    return .bool r.isTruthy
  | .assign (.ident name _) value span => do
    let v ← evalExpr call value
    onMachine (writeVar name v span.line)
    return v
  | .assign (.property object name here) value _ => do
    let v ← evalExpr call value
    let u ← holding [v] (evalExpr call object)
    let o ← onMachine (receiver u here)
    onMachine (inStore here (Store.setProperty o name v))
    return v
  | .assign _ value span => do
    let _ ← evalExpr call value
    onMachine (raise .invalidAssignmentTarget span)
  | .call callee args span => do
    let f ← evalExpr call callee
    let vs ← holding [f] (evalExprs call args)
    callValue call f vs span
  | .property object name span => do
    let u ← evalExpr call object
    let o ← onMachine (receiver u span)
    onMachine (inStore span (Store.getProperty o name))
  | .method object name args named span => do
    let u ← evalExpr call object
    let o ← onMachine (receiver u span)
    let vs ← holding [.object o] (evalExprs call args)
    let ks ← holding (.object o :: vs) (evalNamed call named)
    onMachine (inStore span (Store.callMethod o name vs ks))

/-- Evaluates expressions from left to right. -/
def evalExprs (call : Caller) : List Expr → HostedM RuntimeError (List Value)
  | [] => pure []
  | e :: es => do
    let v ← evalExpr call e
    let vs ← holding [v] (evalExprs call es)
    return v :: vs

/-- Evaluates named arguments from left to right. -/
def evalNamed (call : Caller) : List (String × Expr) → HostedM RuntimeError (List (String × Value))
  | [] => pure []
  | (key, e) :: es => do
    let v ← evalExpr call e
    let vs ← holding [v] (evalNamed call es)
    return (key, v) :: vs

end

/-! ### Statements -/

variable (C : Collector)

mutual

/-- Executes a statement and gives its value. -/
def execStmt (limits : Limits) (call : Caller) (stmt : Stmt) : HostedM Signal Value := do
  onMachine (tick limits stmt.span).toExec
  match stmt with
  | .expr value => inside .toExec (evalExpr call value)
  | .var name none _ =>
    onMachine (bindVar name .null).toExec
    return .null
  | .var name (some init) _ =>
    let v ← inside .toExec (evalExpr call init)
    onMachine (bindVar name v).toExec
    return .null
  | .print value span =>
    let v ← inside .toExec (evalExpr call value)
    onMachine (printValue v span).toExec
    return .null
  | .cond condition body otherwise _ =>
    if (← inside .toExec (evalExpr call condition)).isTruthy then
      inNewFrame C (execStmts limits call .null body)
    else
      match otherwise with
      | some body => inNewFrame C (execStmts limits call .null body)
      | none => return .null
  | .block body _ =>
    let _ ← inNewFrame C (execStmts limits call .null body)
    return .null
  | .loop count body span =>
    let v ← inside .toExec (evalExpr call count)
    let n ← onMachine (countOfValue v count.span).toExec
    iterate (inNewFrame C (execStmts limits call .null body)) span.line 0 n
    return .null
  | .define name params body _ =>
    onMachine (defineFunction name params body).toExec
    return .null
  | .throwBall zone target span =>
    let v ← inside .toExec (evalExpr call zone)
    let z ← onMachine (thrownIn v span).toExec
    let u ← holding [.object (.zone z)] (inside .toExec (evalExpr call target))
    let p ← onMachine (thrownAt u span).toExec
    onMachine (throwBall z p span).toExec
    return .null
  | .run span => throw (.exit span)

/-- Executes statements in order and gives the value of the last one, or `last` if there is none.
The value of a statement is held until the next one has a value. -/
def execStmts (limits : Limits) (call : Caller) (last : Value) : List Stmt → HostedM Signal Value
  | [] => pure last
  | s :: ss => do
    let v ← holding [last] (execStmt limits call s)
    execStmts limits call v ss

end

/-! ### Functions and programs -/

/-- Calls a function while `room` more calls may become active. -/
def callWith (limits : Limits) : (room : Nat) → Caller
  | 0 => fun f args span ↦ do
    onMachine (checkArity f args span)
    onMachine (raise (.stackOverflow limits.maxCallDepth f.name) span)
  | room + 1 => fun f args span ↦ do
    onMachine (checkArity f args span)
    inCall C f args (execStmts C limits (callWith limits room) .null f.body)

/-- Executes the statements of a program one by one, up to the first error. -/
def runProgram (limits : Limits) : Program → HostedM RuntimeError Unit
  | [] => pure ()
  | s :: ss => do
    let _ ← inside .backToGlobal
      (inside .settle (execStmt C limits (callWith C limits limits.maxCallDepth) s))
    runProgram limits ss

/-- Evaluates a program in the global frame, up to the first error. -/
def evaluate (limits : Limits) (program : Program) : HostedM RuntimeError Unit := do
  onMachine (modify Machine.restart)
  runProgram C limits program
  onMachine do tell (.evaluated program.length (← get).steps)

/-- `define outer() { define g() {} { var h = g; } }`, and a call: in the block there is a second
reference to the function that the frame of the call holds. -/
def closureInBlock : Program :=
  [.define "outer" [] [.define "g" [] [] default,
      .block [.var "h" (some (.ident "g" default)) default] default] default,
    .expr (.call (.ident "outer" default) [] default)]

/-- The names in the frame of the call, afterwards. -/
def namesLeft (C : Collector) : List String :=
  match evaluate C {} closureInBlock (.new (.new none)) with
  | .ok _ h => (h.machine.store.frames.vars 1).map Prod.fst
  | .error _ h => (h.machine.store.frames.vars 1).map Prod.fst

-- the frame of the block is gone when that of the call is given back, or it is still counted
example : namesLeft .tracing = [] ∧ namesLeft .keeping = ["g"] := by decide +kernel

end Hosted

end SafariScript
