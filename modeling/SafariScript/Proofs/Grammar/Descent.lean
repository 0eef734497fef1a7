import SafariScript.Proofs.Grammar.Cursor
import SafariScript.Proofs.Grammar.Expressions

/-!
# Reading by plain descent

A third reader of programs, as a recursion that **nothing in its shape brings to an end**. Its
productions call one another and themselves, many of them before a token is taken, and a loop is a
production that calls itself. Beside the index of the cursor there are two counters: of the bodies
of conditions and repetitions that are open, and of the levels that are nested. They are changed on
the way into a production and set back on the way out, also if it fails (`Descent.within`). The only
bounds are what the productions ask themselves: whether there is room for another level, and whether
`run` may stand here.

Such a recursion need not have a result. `Option` stands for that: the productions are the least
solution of their equations (`partial_fixpoint`), so they give `some` outcome where the recursion
ends, and `none` where it goes on for ever. What is done to single tokens is done by the cursor
(`Descent.step`).
-/

namespace SafariScript

/-- Where the reading is, and what is open there. -/
structure Registers where
  /-- The place of the next token. -/
  index : Nat
  /-- The bodies of conditions and repetitions that are open, up to the body of a function. -/
  control : Nat
  /-- The expressions, operands and blocks that are open. -/
  nesting : Nat

/-- A recursion on the registers, which may go on for ever. -/
abbrev Pass := ReaderT (Array Token) (StateT Registers Option)

/-- A recursion on the registers that may end early. -/
abbrev Descent := ExceptT Halt Pass

/-- The productions, by what they give. -/
inductive Production : Type → Type 1
  | stmt : Production Stmt
  | varStmt : Production Stmt
  | printStmt : Production Stmt
  | ifStmt : Production Stmt
  | repeatStmt : Production Stmt
  | defineStmt : Production Stmt
  | throwBallStmt : Production Stmt
  | runStmt : Production Stmt
  | exprStmt : Production Stmt
  /-- A block, one level further in. -/
  | block : Production (List Stmt)
  /-- A block as the body of a condition or a repetition. -/
  | controlBlock : Production (List Stmt)
  /-- A block as the body of a function. -/
  | functionBlock : Production (List Stmt)
  | braces : Production (List Stmt)
  /-- Statements behind those that were found, in reverse order. -/
  | stmts (ends : Token → Bool) (found : List Stmt) : Production (List Stmt)
  /-- An expression, one level further in. -/
  | expr : Production Expr
  | assignment : Production Expr
  /-- Operands with the operators of a level between them. -/
  | operation (level : Language.Level) : Production Expr
  /-- Further operators and operands of a level behind an expression. -/
  | operators (level : Language.Level) (left : Expr) : Production Expr
  /-- The operand of a unary operator, one level further in. -/
  | operand : Production Expr
  | unary : Production Expr
  | suffixed : Production Expr
  /-- Properties, methods and calls behind an expression. -/
  | suffixes (e : Expr) : Production Expr
  | primary : Production Expr
  | name : Production String
  | argument : Production Grammar.Argument
  /-- Items of a list behind those that were found, in reverse order. -/
  | items {α : Type} (close : Symbol) (item : Production α) (found : List α) : Production (List α)

namespace Descent

open Cursor (peek advance atEnd failHere symbol keyword ident symbol? take?)
open Cursor.Level (atKey propertyOf)
open Grammar (Argument positionalArgs namedArgs unaryOp? operator? isTarget Arm bareName?)

variable {α β : Type}

/-- A single step of the cursor. -/
def step (c : Cursor α) : Descent α := fun tokens r ↦
  match c tokens r.index with
  | .ok (a, j) => some (.ok a, { r with index := j })
  | .error halt => some (.error halt, r)

/-- Changes the registers on the way in and on the way out, whether the rest fails or not. -/
abbrev within (enter leave : Registers → Registers) (x : Descent α) : Pass (Except Halt α) := do
  modify enter
  let result ← x.run
  modify leave
  return result

variable (call : {α : Type} → Production α → Descent α)

/-- A production one level further in, if there is room for one. -/
abbrev nested (p : Production α) : Descent α := do
  if maxNesting ≤ (← getThe Registers).nesting then step (failHere .nestingTooDeep)
  else
    within (fun r ↦ { r with nesting := r.nesting + 1 })
      (fun r ↦ { r with nesting := r.nesting - 1 }) (call p)

/-- Goes on with a loop or ends it: a round gives the next state, or else the result. -/
abbrev repeated (round : Descent (α ⊕ β)) (again : α → Production β) : Descent β := do
  match ← round with
  | .inl a => call (again a)
  | .inr b => return b

/-! ### Lists -/

/-- Another statement in front of those that were found. -/
abbrev nextStmt (ends : Token → Bool) (found : List Stmt) : Descent (List Stmt ⊕ List Stmt) := do
  if ends (← step peek) || (← step atEnd) then return .inr found.reverse
  return .inl ((← call .stmt) :: found)

/-- Another item in front of those that were found. If no comma follows, it is the last one. -/
abbrev nextItem (close : Symbol) (item : Production α) (found : List α) :
    Descent (List α ⊕ List α) := do
  if (← step peek).isSymbol close || (← step atEnd) then return .inr found.reverse
  let a ← call item
  if ← step (symbol? .comma) then return .inl (a :: found) else return .inr (a :: found).reverse

/-! ### Expressions -/

/-- A literal, a name, an expression in parentheses, or a list in brackets. -/
abbrev primary : Descent Expr := do
  let t ← step peek
  match t.kind with
  | .literal value => do
    let _ ← step advance
    return .literal value t.span
  | .ident name => do
    let _ ← step advance
    return .ident name t.span
  | .symbol .leftParen => do
    let _ ← step advance
    let e ← call .expr
    let _ ← step (symbol .rightParen)
    return e
  | .symbol .leftBracket => do
    let _ ← step advance
    let es ← call (.items .rightBracket .expr [])
    let _ ← step (symbol .rightBracket)
    return .list es t.span
  | _ => step (Cursor.fail .expectedExpression t)

/-- An argument of a method call. -/
abbrev argument : Descent Argument := do
  if ← step atKey then
    let key ← step ident
    let _ ← step (symbol .equal)
    return .named key (← call .expr)
  else return .positional (← call .expr)

/-- What follows `->`. -/
abbrev methodCall (object : Expr) : Descent Expr := do
  let t ← step peek
  let name ← step ident
  if ← step (symbol? .leftParen) then
    let args ← call (.items .rightParen .argument [])
    let _ ← step (symbol .rightParen)
    return .method object name (positionalArgs args) (namedArgs args) t.span
  else
    return .method object name [] [] t.span

/-- What follows `(` behind a callee. -/
abbrev callOf (callee : Expr) : Descent Expr := do
  let args ← call (.items .rightParen .expr [])
  let _ ← step (symbol .rightParen)
  return .call callee args callee.span

/-- A property, a method or a call behind an expression. -/
abbrev nextSuffix (e : Expr) : Descent (Expr ⊕ Expr) := do
  let t ← step peek
  match t.kind with
  | .symbol .dot => do
    let _ ← step advance
    return .inl (← step (propertyOf e))
  | .symbol .arrow => do
    let _ ← step advance
    return .inl (← methodCall call e)
  | .symbol .leftParen => do
    let _ ← step advance
    return .inl (← callOf call e)
  | _ => return .inr e

/-- A primary expression and what stands behind it. -/
abbrev suffixed : Descent Expr := do
  let e ← call .primary
  call (.suffixes e)

/-- A unary operator before its operand, or a suffixed expression. -/
abbrev unary : Descent Expr := do
  let t ← step peek
  match ← step (take? unaryOp?) with
  | some op => return .unary op (← call .operand) t.span
  | none => call .suffixed

/-- What the operators of a level stand between. -/
def operandOf : Language.Level → Production Expr
  | .disjunction => .operation .conjunction
  | .conjunction => .operation .equality
  | .equality => .operation .comparison
  | .comparison => .operation .sum
  | .sum => .operation .product
  | .product => .unary

/-- An operator of a level behind an expression, and its other operand. -/
abbrev nextOperator (level : Language.Level) (left : Expr) : Descent (Expr ⊕ Expr) := do
  let t ← step peek
  match operator? level t with
  | some build => do
    let _ ← step advance
    let right ← call (operandOf level)
    return .inl (build left right t.span)
  | none => return .inr left

/-- Operands with the operators of a level between them. -/
abbrev operation (level : Language.Level) : Descent Expr := do
  let first ← call (operandOf level)
  call (.operators level first)

/-- A disjunction, or an assignment. -/
abbrev assignment : Descent Expr := do
  let target ← call (.operation .disjunction)
  match ← step (take? fun t ↦ if t.isSymbol .equal then some t else none) with
  | none => return target
  | some t => do
    let value ← call .expr
    if isTarget target then return .assign target value t.span
    else step (Cursor.fail .invalidAssignmentTarget t)

/-! ### Statements -/

/-- `var name = init;`, where the value may be left out. -/
abbrev varStmt : Descent Stmt := do
  let t ← step (keyword .var)
  let name ← step ident
  let init ← if ← step (symbol? .equal) then some <$> call .expr else pure none
  let _ ← step (symbol .semicolon)
  return .var name init t.span

/-- `print value;`. -/
abbrev printStmt : Descent Stmt := do
  let t ← step (keyword .print)
  let value ← call .expr
  let _ ← step (symbol .semicolon)
  return .print value t.span

/-- What follows the body of a condition: behind `else` another condition or a block, or nothing. -/
abbrev elses (first : Arm) : Descent Stmt := do
  match ← step (take? fun t ↦ if t.isWord .elseWord then some t else none) with
  | none => return .cond first.condition first.body none first.span
  | some _ => do
    if (← step peek).isWord .ifWord then
      let inner ← call .ifStmt
      return .cond first.condition first.body (some [inner]) first.span
    else
      let otherwise ← call .controlBlock
      return .cond first.condition first.body (some otherwise) first.span

/-- `if condition block`, and what follows. -/
abbrev ifStmt : Descent Stmt := do
  let t ← step (keyword .ifWord)
  let condition ← call .expr
  let body ← call .controlBlock
  elses call ⟨condition, body, t.span⟩

/-- `repeat count block`. -/
abbrev repeatStmt : Descent Stmt := do
  let t ← step (keyword .repeatWord)
  let count ← call .expr
  let body ← call .controlBlock
  return .loop count body t.span

/-- `define name(params) block`. -/
abbrev defineStmt : Descent Stmt := do
  let t ← step (keyword .define)
  let name ← step ident
  let _ ← step (symbol .leftParen)
  let params ← call (.items .rightParen .name [])
  let _ ← step (symbol .rightParen)
  let body ← call .functionBlock
  return .define name params body t.span

/-- `throwBall(zone, target);`. -/
abbrev throwBallStmt : Descent Stmt := do
  let t ← step (keyword .throwBall)
  let _ ← step (symbol .leftParen)
  let zone ← call .expr
  let _ ← step (symbol .comma)
  let target ← call .expr
  let _ ← step (symbol .rightParen)
  let _ ← step (symbol .semicolon)
  return .throwBall zone target t.span

/-- `run;`, where a body of a condition or a repetition is open. The token under the cursor is taken
without a look at it. -/
def runStmt : Descent Stmt := do
  if (← getThe Registers).control = 0 then step (failHere .exitOutsideControl)
  else
    let t ← step advance
    let _ ← step (symbol .semicolon)
    return .run t.span

/-- `value;`, where the value is not one identifier. -/
abbrev exprStmt : Descent Stmt := do
  let first ← step peek
  let value ← call .expr
  match bareName? first value with
  | some name => step (Cursor.fail (.standaloneIdentifier name) first)
  | none => do
    let _ ← step (symbol .semicolon)
    return .expr value

/-- `block`. -/
abbrev blockStmt : Descent Stmt := do
  let t ← step peek
  return .block (← call .block) t.span

/-- A statement, by its first token. -/
abbrev stmt : Descent Stmt := do
  let t ← step peek
  match t.kind with
  | .keyword .var => call .varStmt
  | .keyword .print => call .printStmt
  | .keyword .ifWord => call .ifStmt
  | .keyword .repeatWord => call .repeatStmt
  | .keyword .define => call .defineStmt
  | .keyword .throwBall => call .throwBallStmt
  | .keyword .run => call .runStmt
  | .symbol .leftBrace => blockStmt call
  | _ => call .exprStmt

/-- Statements in braces. -/
abbrev braces : Descent (List Stmt) := do
  let _ ← step (symbol .leftBrace)
  let body ← call (.stmts (fun t ↦ t.isSymbol .rightBrace) [])
  let _ ← step (symbol .rightBrace)
  return body

/-- A block with one body of a condition or a repetition more around it. -/
abbrev controlBlock : Pass (Except Halt (List Stmt)) :=
  within (fun r ↦ { r with control := r.control + 1 })
    (fun r ↦ { r with control := r.control - 1 }) (call .block)

/-- A block with no such body around it; those around the function are open again behind it. -/
abbrev functionBlock : Pass (Except Halt (List Stmt)) := do
  let outer := (← getThe Registers).control
  within (fun r ↦ { r with control := 0 }) (fun r ↦ { r with control := outer }) (call .block)

end Descent

open Descent

/-- What a production comes to. -/
def Production.run {α : Type} (p : Production α) : Descent α :=
  letI call {α : Type} (q : Production α) : Descent α := q |>.run
  match p with
  | .stmt => Descent.stmt call
  | .varStmt => Descent.varStmt call
  | .printStmt => Descent.printStmt call
  | .ifStmt => Descent.ifStmt call
  | .repeatStmt => Descent.repeatStmt call
  | .defineStmt => Descent.defineStmt call
  | .throwBallStmt => Descent.throwBallStmt call
  | .runStmt => Descent.runStmt
  | .exprStmt => Descent.exprStmt call
  | .block => nested call .braces
  | .controlBlock => Descent.controlBlock call
  | .functionBlock => Descent.functionBlock call
  | .braces => Descent.braces call
  | .stmts ends found => repeated call (nextStmt call ends found) (.stmts ends)
  | .expr => nested call .assignment
  | .assignment => Descent.assignment call
  | .operation level => Descent.operation call level
  | .operators level left =>
    repeated call (nextOperator call level left) (.operators level)
  | .operand => nested call .unary
  | .unary => Descent.unary call
  | .suffixed => Descent.suffixed call
  | .suffixes e => repeated call (nextSuffix call e) .suffixes
  | .primary => Descent.primary call
  | .name => step Cursor.ident
  | .argument => Descent.argument call
  | .items close item found =>
    repeated call (nextItem call close item found) (.items close item)
partial_fixpoint

/-- A name is a single step of the cursor. -/
theorem Production.run_name : Production.name.run = step Cursor.ident := by rw [run]

/-- The program that is read from before the first token, with nothing open. -/
def Program.byDescent (ts : List Token) : Option (Except Halt Program) :=
  (Production.run (.stmts (fun _ ↦ false) []) (terminated ts).toArray ⟨0, 0, 0⟩).map Prod.fst

end SafariScript
