import SafariScript.Program.Grammar

/-!
# Reading with a cursor

A second reader of programs, which keeps an index into an array of tokens. It looks at the token
under the cursor, and in one place at the one behind it, and moves by one token at a time; the last
token is never passed. Nothing is known of the array. In particular it may be empty and it may hold
any number of marks of the end, so this reader has two ways to go wrong that a `Parser` has not
(`Halt`): it may look **outside of the array**, and it may be **stuck** in a loop that it repeats
without moving.

The productions are those of the grammar, and a `Level` is what a `Grammar` is there. Tokens are not
cut off at the first mark of the end. What ends a list of statements, arguments or items is a look
at the token under the cursor (`atEnd`), and all other productions take a mark of the end for what
it is: a token that none of them expects.
-/

namespace SafariScript

/-- What ends the reading early. -/
inductive Halt where
  /-- A token is needed where the array has none. -/
  | outside
  /-- A round of a loop was passed without moving. -/
  | stuck
  /-- The tokens form no program. -/
  | failed (e : ParseError)

/-- A reader with an index into an array of tokens. -/
abbrev Cursor := ReaderT (Array Token) (StateT Nat (Except Halt))

namespace Cursor

variable {α β : Type}

/-! ### Single tokens -/

/-- The token under the cursor. -/
def peek : Cursor Token := fun tokens i ↦
  match tokens[i]? with
  | some t => .ok (t, i)
  | none => .error .outside

/-- Whether the given symbol stands behind the cursor; nothing need stand there. -/
def nextIs (s : Symbol) : Cursor Bool := fun tokens i ↦
  .ok (tokens[i + 1]?.any fun t ↦ t.isSymbol s, i)

/-- Gives the token under the cursor, and moves unless it is the last one. -/
def advance : Cursor Token := fun tokens i ↦
  match tokens[i]? with
  | some t => .ok (t, if i + 1 < tokens.size then i + 1 else i)
  | none => .error .outside

/-- Whether the token under the cursor marks the end. -/
def atEnd : Cursor Bool := return (← peek).kind.isEnd

/-- Fails at the given token. -/
def fail (cause : ParseError.Cause) (token : Token) : Cursor α := throw (.failed ⟨cause, token⟩)

/-- Fails at the token under the cursor. -/
def failHere (cause : ParseError.Cause) : Cursor α := do fail cause (← peek)

/-- Takes the token under the cursor if it is accepted, and nothing otherwise. -/
def take? (accepts : Token → Option α) : Cursor (Option α) := do
  match accepts (← peek) with
  | some a => do
    let _ ← advance
    return some a
  | none => return none

/-- Takes the token under the cursor if it is accepted, and fails there otherwise. -/
def take (accepts : Token → Option α) (cause : ParseError.Cause) : Cursor α := do
  match ← take? accepts with
  | some a => return a
  | none => failHere cause

/-- Takes the given symbol. -/
def symbol (s : Symbol) : Cursor Token :=
  take (fun t ↦ if t.isSymbol s then some t else none) (.expected (.symbol s))

/-- Takes the given keyword. -/
def keyword (k : Keyword) : Cursor Token :=
  take (fun t ↦ if t.isWord k then some t else none) (.expected (.keyword k))

/-- Takes an identifier and gives its name. -/
def ident : Cursor String := take Parser.identName? .expectedIdentifier

/-- Takes the given symbol if it stands under the cursor, and says whether it did. -/
def symbol? (s : Symbol) : Cursor Bool := do
  let found ← take? fun t ↦ if t.isSymbol s then some t else none
  return found.isSome

/-! ### Loops -/

/-- Repeats rounds from the state `a` at the index `i`. A round gives the next state, or else the
result. -/
def roundsFrom (round : α → Cursor (α ⊕ β)) (tokens : Array Token) (i : Nat) (a : α) :
    Except Halt (β × Nat) :=
  match round a tokens i with
  | .error halt => .error halt
  | .ok (.inr b, j) => .ok (b, j)
  | .ok (.inl a, j) =>
    if tokens.size - j < tokens.size - i then roundsFrom round tokens j a else .error .stuck
termination_by tokens.size - i

/-- Repeats rounds from the state `a`. -/
def rounds (round : α → Cursor (α ⊕ β)) (a : α) : Cursor β :=
  fun tokens i ↦ roundsFrom round tokens i a

/-- A token that continues what was read is taken, and gives the next state. -/
def continuing (next? : α → Token → Option (Cursor α)) (a : α) : Cursor (α ⊕ α) := do
  match next? a (← peek) with
  | none => return .inr a
  | some next => do
    let _ ← advance
    return .inl (← next)

/-- Repeats rounds as long as the token under the cursor starts one. -/
def loop (next? : α → Token → Option (Cursor α)) (a : α) : Cursor α := rounds (continuing next?) a

/-- Another statement in front of those that were found, in reverse order. -/
def oneMore (ends : Token → Bool) (one : Cursor α) (found : List α) :
    Cursor (List α ⊕ List α) := do
  if ends (← peek) || (← atEnd) then return .inr found.reverse
  return .inl ((← one) :: found)

/-- Repeats `one` up to a mark of the end or a token that ends the sequence. -/
def many (ends : Token → Bool) (one : Cursor α) : Cursor (List α) := rounds (oneMore ends one) []

/-- Another item in front of those that were found, in reverse order. If no comma follows, it is the
last one. -/
def oneItem (close : Symbol) (item : Cursor α) (found : List α) : Cursor (List α ⊕ List α) := do
  if (← peek).isSymbol close || (← atEnd) then return .inr found.reverse
  let found := (← item) :: found
  if ← symbol? .comma then return .inl found else return .inr found.reverse

/-- The items of a list that ends before the symbol `close`. -/
def items (close : Symbol) (item : Cursor α) : Cursor (List α) := rounds (oneItem close item) []

/-! ### Expressions -/

/-- How to read what lies one level further in. -/
structure Level where
  expr : Cursor Expr
  operand : Cursor Expr
  block : (control : Bool) → Cursor (List Stmt)

namespace Level

open Grammar (Argument positionalArgs namedArgs unaryOp? productOp? sumOp? comparisonOp? equalityOp?
  andOp? orOp? isTarget Arm chain Tail bareName?)

/-- A literal, a name, an expression in parentheses, or a list in brackets. -/
def primary (l : Level) : Cursor Expr := do
  let t ← peek
  match t.kind with
  | .literal value => do
    let _ ← advance
    return .literal value t.span
  | .ident name => do
    let _ ← advance
    return .ident name t.span
  | .symbol .leftParen => do
    let _ ← advance
    let e ← l.expr
    let _ ← symbol .rightParen
    return e
  | .symbol .leftBracket => do
    let _ ← advance
    let es ← items .rightBracket l.expr
    let _ ← symbol .rightBracket
    return .list es t.span
  | _ => fail .expectedExpression t

/-- Whether the cursor is at an identifier that `=` follows. What follows other tokens is not looked
at. -/
def atKey : Cursor Bool := do
  match (← peek).kind with
  | .ident _ => nextIs .equal
  | _ => return false

/-- An argument of a method call. -/
def argument (l : Level) : Cursor Argument := do
  if ← atKey then
    let key ← ident
    let _ ← symbol .equal
    return .named key (← l.expr)
  else return .positional (← l.expr)

/-- What follows `->`. -/
def methodCall (l : Level) (object : Expr) : Cursor Expr := do
  let t ← peek
  let name ← ident
  if ← symbol? .leftParen then
    let args ← items .rightParen l.argument
    let _ ← symbol .rightParen
    return .method object name (positionalArgs args) (namedArgs args) t.span
  else
    return .method object name [] [] t.span

/-- What follows `.`. -/
def propertyOf (object : Expr) : Cursor Expr := do
  let t ← peek
  return .property object (← ident) t.span

/-- What follows `(` behind a callee. -/
def callOf (l : Level) (callee : Expr) : Cursor Expr := do
  let args ← items .rightParen l.expr
  let _ ← symbol .rightParen
  return .call callee args callee.span

/-- How a token continues the expression before it as a suffix. -/
def suffix? (l : Level) (e : Expr) (t : Token) : Option (Cursor Expr) :=
  match t.kind with
  | .symbol .dot => some (propertyOf e)
  | .symbol .arrow => some (l.methodCall e)
  | .symbol .leftParen => some (l.callOf e)
  | _ => none

/-- A primary expression and the properties, methods and calls behind it. -/
def suffixed (l : Level) : Cursor Expr := do loop l.suffix? (← l.primary)

/-- A unary operator before its operand, or a suffixed expression. -/
def unary (l : Level) : Cursor Expr := do
  let t ← peek
  match ← take? unaryOp? with
  | some op => return .unary op (← l.operand) t.span
  | none => l.suffixed

/-- Operands with operators of one level between them. -/
def leftAssoc (operator? : Token → Option (Expr → Expr → Span → Expr)) (operand : Cursor Expr) :
    Cursor Expr := do
  loop (fun left t ↦ (operator? t).map fun build ↦ do
    return build left (← operand) t.span) (← operand)

/-- Everything that binds closer than an assignment. -/
def disjunction (l : Level) : Cursor Expr :=
  leftAssoc orOp? <| leftAssoc andOp? <| leftAssoc equalityOp? <| leftAssoc comparisonOp? <|
    leftAssoc sumOp? <| leftAssoc productOp? l.unary

/-- A disjunction, or an assignment. -/
def assignment (l : Level) : Cursor Expr := do
  let target ← l.disjunction
  match ← take? fun t ↦ if t.isSymbol .equal then some t else none with
  | none => return target
  | some t => do
    let value ← l.expr
    if isTarget target then return .assign target value t.span
    else fail .invalidAssignmentTarget t

/-! ### Statements -/

/-- `var name = init;`, where the value may be left out. -/
def varStmt (l : Level) : Cursor Stmt := do
  let t ← keyword .var
  let name ← ident
  let init ← if ← symbol? .equal then some <$> l.expr else pure none
  let _ ← symbol .semicolon
  return .var name init t.span

/-- `print value;`. -/
def printStmt (l : Level) : Cursor Stmt := do
  let t ← keyword .print
  let value ← l.expr
  let _ ← symbol .semicolon
  return .print value t.span

/-- `if condition block`. -/
def arm (l : Level) : Cursor Arm := do
  let t ← keyword .ifWord
  let condition ← l.expr
  let body ← l.block true
  return ⟨condition, body, t.span⟩

/-- How a token continues a chain of guarded bodies. -/
def else? (l : Level) (tail : Tail) (t : Token) : Option (Cursor Tail) :=
  match tail.otherwise, t.isWord .elseWord with
  | none, true => some do
    if (← peek).isWord .ifWord then return { tail with arms := (← l.arm) :: tail.arms }
    else return { tail with otherwise := some (← l.block true) }
  | _, _ => none

/-- `if condition block`, followed by further conditions and a last body. -/
def ifStmt (l : Level) : Cursor Stmt := do
  let first ← l.arm
  let tail ← loop l.else? ⟨[], none⟩
  return chain first tail.otherwise tail.arms.reverse

/-- `repeat count block`. -/
def repeatStmt (l : Level) : Cursor Stmt := do
  let t ← keyword .repeatWord
  let count ← l.expr
  let body ← l.block true
  return .loop count body t.span

/-- `define name(params) block`. -/
def defineStmt (l : Level) : Cursor Stmt := do
  let t ← keyword .define
  let name ← ident
  let _ ← symbol .leftParen
  let params ← items .rightParen ident
  let _ ← symbol .rightParen
  let body ← l.block false
  return .define name params body t.span

/-- `throwBall(zone, target);`. -/
def throwBallStmt (l : Level) : Cursor Stmt := do
  let t ← keyword .throwBall
  let _ ← symbol .leftParen
  let zone ← l.expr
  let _ ← symbol .comma
  let target ← l.expr
  let _ ← symbol .rightParen
  let _ ← symbol .semicolon
  return .throwBall zone target t.span

/-- `run;`, where it is allowed. The cursor is known to be at `run`. -/
def runStmt (control : Bool) : Cursor Stmt := do
  if control then
    let t ← advance
    let _ ← symbol .semicolon
    return .run t.span
  else failHere .exitOutsideControl

/-- `value;`, where the value is not one identifier. -/
def exprStmt (l : Level) : Cursor Stmt := do
  let first ← peek
  let value ← l.expr
  match bareName? first value with
  | some name => fail (.standaloneIdentifier name) first
  | none => do
    let _ ← symbol .semicolon
    return .expr value

/-- `block`. -/
def blockStmt (l : Level) (control : Bool) : Cursor Stmt := do
  let t ← peek
  return .block (← l.block control) t.span

/-- The statement that begins with a token of the given kind. -/
def stmtOf (l : Level) (control : Bool) (first : Token.Kind) : Cursor Stmt :=
  match first with
  | .keyword .var => l.varStmt
  | .keyword .print => l.printStmt
  | .keyword .ifWord => l.ifStmt
  | .keyword .repeatWord => l.repeatStmt
  | .keyword .define => l.defineStmt
  | .keyword .throwBall => l.throwBallStmt
  | .keyword .run => runStmt control
  | .symbol .leftBrace => l.blockStmt control
  | _ => l.exprStmt

/-- A statement. -/
def stmt (l : Level) (control : Bool) : Cursor Stmt := do l.stmtOf control (← peek).kind

/-! ### Levels -/

/-- Statements in braces. -/
def braces (l : Level) (control : Bool) : Cursor (List Stmt) := do
  let _ ← symbol .leftBrace
  let body ← many (fun t ↦ t.isSymbol .rightBrace) (l.stmt control)
  let _ ← symbol .rightBrace
  return body

/-- Below the deepest level nothing is read. -/
def refusing : Level where
  expr := failHere .nestingTooDeep
  operand := failHere .nestingTooDeep
  block _ := failHere .nestingTooDeep

/-- A level is read with the help of the next one. -/
def deeper (l : Level) : Level where
  expr := l.assignment
  operand := l.unary
  block control := l.braces control

/-- The level with room for so many further ones. -/
def withRoom : Nat → Level
  | 0 => refusing
  | room + 1 => (withRoom room).deeper

/-- The statements of a whole program. -/
def program : Cursor Program := many (fun _ ↦ false) ((withRoom maxNesting).stmt false)

end Level

end Cursor

/-! ### Programs -/

/-- An empty mark of the end right behind a token, or at the start if there is none. -/
def endBehind : Option Token → Token
  | some t => ⟨.endOfInput, "", { t.position with
      column := t.position.column + t.len, offset := t.position.offset + t.len }⟩
  | none => ⟨.endOfInput, "", .start⟩

/-- Tokens that end with a mark of the end: if the last one is none, one is put behind it. -/
def terminated (ts : List Token) : List Token :=
  if ts.getLast?.any fun t ↦ t.kind.isEnd then ts else ts ++ [endBehind ts.getLast?]

/-- The program that a cursor reads from its place before the first token. -/
def Program.byCursor (ts : List Token) : Except Halt Program := do
  let (program, _) ← Cursor.Level.program (terminated ts).toArray 0
  return program

end SafariScript
