import SafariScript.Program.Basic
import SafariScript.Program.Parser

/-!
# The grammar of programs

Reading tokens as a program, by descent through the levels of binding strength:

```
assignment < or < and < equality < comparison < sum < product < unary < suffix < primary
```

Three things nest: a block, an expression inside another construct, and the operand of a unary
operator. A `Grammar` is how these three are read **one level further in**. `Grammar.deeper` makes
the grammar of a level from the grammar of the next one, and at the level that is too deep
(`Grammar.refusing`) every attempt fails; so the descent ends without looking at the tokens, and
no construct is read more than `maxNesting` levels deep. An `else if` chain is not nested: it is
read as a list of guarded bodies.

The flag `control` says whether `run` may stand here: inside the body of a condition or a
repetition, but not across the border of a function's body.
-/

namespace SafariScript

/-- How to read what lies one level further in. -/
structure Grammar where
  /-- An expression. -/
  expr : Parser Expr
  /-- The operand of a unary operator. -/
  operand : Parser Expr
  /-- The statements of a block, braces included. -/
  block : (control : Bool) → Parser (List Stmt)
  /-- A block has at least its opening brace. -/
  strict_block : ∀ control, (block control).Strict

namespace Grammar

open SafariScript.Parser

/-! ### Expressions -/

/-- A literal, a name, an expression in parentheses, or a list in brackets. -/
def primary (g : Grammar) : Parser Expr := do
  let t ← peek
  match t.kind with
  | .literal value => do
    let _ ← take some .expectedExpression
    return .literal value t.span
  | .ident name => do
    let _ ← take some .expectedExpression
    return .ident name t.span
  | .symbol .leftParen => do
    let _ ← symbol .leftParen
    let e ← g.expr
    let _ ← symbol .rightParen
    return e
  | .symbol .leftBracket => do
    let _ ← symbol .leftBracket
    let es ← items .rightBracket g.expr
    let _ ← symbol .rightBracket
    return .list es t.span
  | _ => fail .expectedExpression t

/-- An argument of a method call. -/
inductive Argument where
  | positional (value : Expr)
  | named (key : String) (value : Expr)

/-- The arguments without a key, in order. -/
def positionalArgs : List Argument → List Expr :=
  List.filterMap fun
    | .positional value => some value
    | .named _ _ => none

/-- The arguments with a key, in order. -/
def namedArgs : List Argument → List (String × Expr) :=
  List.filterMap fun
    | .positional _ => none
    | .named key value => some (key, value)

/-- The two next tokens, as far as there are any. -/
def peekTwo : Parser (List Token) where
  run _ ts := .ok (ts.take 2, ts)
  shrinks h := by
    cases h
    exact Nat.le_refl _

/-- An argument of a method call: an identifier that `=` follows is a key. -/
def argument (g : Grammar) : Parser Argument := do
  match ← peekTwo with
  | [t, u] =>
    match t.kind, u.isSymbol .equal with
    | .ident _, true => do
      let key ← ident
      let _ ← symbol .equal
      return .named key (← g.expr)
    | _, _ => return .positional (← g.expr)
  | _ => return .positional (← g.expr)

/-- What follows `->`: the name of a method and its arguments, if there are any. -/
def methodCall (g : Grammar) (object : Expr) : Parser Expr := do
  let t ← peek
  let name ← ident
  if ← symbol? .leftParen then
    let args ← items .rightParen g.argument
    let _ ← symbol .rightParen
    return .method object name (positionalArgs args) (namedArgs args) t.span
  else
    return .method object name [] [] t.span

/-- What follows `.`: the name of a property. -/
def propertyOf (object : Expr) : Parser Expr := do
  let t ← peek
  return .property object (← ident) t.span

/-- What follows `(` behind a callee: the arguments. -/
def callOf (g : Grammar) (callee : Expr) : Parser Expr := do
  let args ← items .rightParen g.expr
  let _ ← symbol .rightParen
  return .call callee args callee.span

/-- How a token continues the expression before it as a suffix. -/
def suffix? (g : Grammar) (e : Expr) (t : Token) : Option (Parser Expr) :=
  match t.kind with
  | .symbol .dot => some (propertyOf e)
  | .symbol .arrow => some (g.methodCall e)
  | .symbol .leftParen => some (g.callOf e)
  | _ => none

/-- A primary expression and the properties, methods and calls behind it. -/
def suffixed (g : Grammar) : Parser Expr := do loop g.suffix? (← g.primary)

/-- The unary operators. -/
def unaryOp? (t : Token) : Option UnaryOp :=
  match t.kind with
  | .symbol .minus => some .neg
  | .keyword .not => some .not
  | _ => none

/-- A unary operator before its operand, or a suffixed expression. -/
def unary (g : Grammar) : Parser Expr := do
  let t ← peek
  match ← take? unaryOp? with
  | some op => return .unary op (← g.operand) t.span
  | none => g.suffixed

/-- Operands with operators of one level between them, grouped to the left. -/
def leftAssoc (operator? : Token → Option (Expr → Expr → Span → Expr)) (operand : Parser Expr) :
    Parser Expr := do
  loop (fun left t ↦ (operator? t).map fun build ↦ do
    return build left (← operand) t.span) (← operand)

/-- The operators of products. -/
def productOp? (t : Token) : Option (Expr → Expr → Span → Expr) :=
  match t.kind with
  | .symbol .star => some (.binary .mul)
  | .symbol .slash => some (.binary .div)
  | .symbol .percent => some (.binary .mod)
  | _ => none

/-- The operators of sums. -/
def sumOp? (t : Token) : Option (Expr → Expr → Span → Expr) :=
  match t.kind with
  | .symbol .plus => some (.binary .add)
  | .symbol .minus => some (.binary .sub)
  | _ => none

/-- The operators of comparisons. -/
def comparisonOp? (t : Token) : Option (Expr → Expr → Span → Expr) :=
  match t.kind with
  | .symbol .less => some (.binary .lt)
  | .symbol .lessEqual => some (.binary .ltEq)
  | .symbol .greater => some (.binary .gt)
  | .symbol .greaterEqual => some (.binary .gtEq)
  | _ => none

/-- The operators of equality. -/
def equalityOp? (t : Token) : Option (Expr → Expr → Span → Expr) :=
  match t.kind with
  | .symbol .equalEqual => some (.binary .eq)
  | .symbol .bangEqual => some (.binary .notEq)
  | _ => none

/-- The word of conjunctions. -/
def andOp? (t : Token) : Option (Expr → Expr → Span → Expr) :=
  match t.kind with
  | .keyword .and => some (.logical .and)
  | _ => none

/-- The word of disjunctions. -/
def orOp? (t : Token) : Option (Expr → Expr → Span → Expr) :=
  match t.kind with
  | .keyword .or => some (.logical .or)
  | _ => none

/-- Everything that binds closer than an assignment. -/
def disjunction (g : Grammar) : Parser Expr :=
  leftAssoc orOp? <| leftAssoc andOp? <| leftAssoc equalityOp? <| leftAssoc comparisonOp? <|
    leftAssoc sumOp? <| leftAssoc productOp? g.unary

/-- Whether an assignment may have the expression on its left. -/
def isTarget : Expr → Bool
  | .ident _ _ => true
  | .property _ _ _ => true
  | _ => false

/-- A disjunction, or an assignment; the value is read before the target is judged. -/
def assignment (g : Grammar) : Parser Expr := do
  let target ← g.disjunction
  match ← take? fun t ↦ if t.isSymbol .equal then some t else none with
  | none => return target
  | some t => do
    let value ← g.expr
    if isTarget target then return .assign target value t.span
    else fail .invalidAssignmentTarget t

/-! ### Statements -/

/-- `var name = init;`, where the value may be left out. -/
def varStmt (g : Grammar) : Parser Stmt := do
  let t ← keyword .var
  let name ← ident
  let init ← if ← symbol? .equal then some <$> g.expr else pure none
  let _ ← symbol .semicolon
  return .var name init t.span

/-- `print value;`. -/
def printStmt (g : Grammar) : Parser Stmt := do
  let t ← keyword .print
  let value ← g.expr
  let _ ← symbol .semicolon
  return .print value t.span

/-- A condition with the body it guards. -/
structure Arm where
  condition : Expr
  body : List Stmt
  span : Span

/-- `if condition block`. -/
def arm (g : Grammar) : Parser Arm := do
  let t ← keyword .ifWord
  let condition ← g.expr
  let body ← g.block true
  return ⟨condition, body, t.span⟩

/-- A chain of guarded bodies as one statement; the body for when no condition holds stands in the
innermost. -/
def chain (first : Arm) (otherwise : Option (List Stmt)) : (further : List Arm) → Stmt
  | [] => .cond first.condition first.body otherwise first.span
  | next :: further =>
    .cond first.condition first.body (some [chain next otherwise further]) first.span

/-- What follows the first guarded body: the further ones in reverse order, and the last body. -/
structure Tail where
  arms : List Arm
  otherwise : Option (List Stmt)

/-- How a token continues a chain of guarded bodies: `else`, as long as there is no last body. -/
def else? (g : Grammar) (tail : Tail) (t : Token) : Option (Parser Tail) :=
  match tail.otherwise, t.isWord .elseWord with
  | none, true => some do
    if (← peek).isWord .ifWord then return { tail with arms := (← g.arm) :: tail.arms }
    else return { tail with otherwise := some (← g.block true) }
  | _, _ => none

/-- `if condition block`, followed by further conditions and a last body. -/
def ifStmt (g : Grammar) : Parser Stmt := do
  let first ← g.arm
  let tail ← loop g.else? ⟨[], none⟩
  return chain first tail.otherwise tail.arms.reverse

/-- `repeat count block`. -/
def repeatStmt (g : Grammar) : Parser Stmt := do
  let t ← keyword .repeatWord
  let count ← g.expr
  let body ← g.block true
  return .loop count body t.span

/-- `define name(params) block`. -/
def defineStmt (g : Grammar) : Parser Stmt := do
  let t ← keyword .define
  let name ← ident
  let _ ← symbol .leftParen
  let params ← items .rightParen ident
  let _ ← symbol .rightParen
  let body ← g.block false
  return .define name params body t.span

/-- `throwBall(zone, target);`. -/
def throwBallStmt (g : Grammar) : Parser Stmt := do
  let t ← keyword .throwBall
  let _ ← symbol .leftParen
  let zone ← g.expr
  let _ ← symbol .comma
  let target ← g.expr
  let _ ← symbol .rightParen
  let _ ← symbol .semicolon
  return .throwBall zone target t.span

/-- `run;`, where it is allowed. -/
def runStmt (control : Bool) : Parser Stmt := do
  if control then
    let t ← keyword .run
    let _ ← symbol .semicolon
    return .run t.span
  else failHere .exitOutsideControl

/-- The name of a statement that is one identifier: it begins with the identifier, so it is not in
parentheses. -/
def bareName? (first : Token) (e : Expr) : Option String :=
  match first.kind, e with
  | .ident _, .ident name _ => some name
  | _, _ => none

/-- `value;`, where the value is not one identifier. -/
def exprStmt (g : Grammar) : Parser Stmt := do
  let first ← peek
  let value ← g.expr
  match bareName? first value with
  | some name => fail (.standaloneIdentifier name) first
  | none => do
    let _ ← symbol .semicolon
    return .expr value

/-- `block`. -/
def blockStmt (g : Grammar) (control : Bool) : Parser Stmt := do
  let t ← peek
  return .block (← g.block control) t.span

/-- The statement that begins with a token of the given kind. -/
def stmtOf (g : Grammar) (control : Bool) (first : Token.Kind) : Parser Stmt :=
  match first with
  | .keyword .var => g.varStmt
  | .keyword .print => g.printStmt
  | .keyword .ifWord => g.ifStmt
  | .keyword .repeatWord => g.repeatStmt
  | .keyword .define => g.defineStmt
  | .keyword .throwBall => g.throwBallStmt
  | .keyword .run => runStmt control
  | .symbol .leftBrace => g.blockStmt control
  | _ => g.exprStmt

/-- A statement. -/
def stmt (g : Grammar) (control : Bool) : Parser Stmt := do g.stmtOf control (← peek).kind

/-! ### Every statement takes a token -/

theorem strict_symbol (s : Symbol) : (symbol s).Strict := strict_take _ _

theorem strict_keyword (k : Keyword) : (keyword k).Strict := strict_take _ _

/-- Whatever the expression takes, the semicolon is a token. -/
theorem strict_exprStmt (g : Grammar) : g.exprStmt.Strict := by
  refine .bind_right _ fun first ↦ .bind_right _ fun value ↦ ?_
  cases bareName? first value with
  | some name => exact strict_fail _ _
  | none => exact .bind_left (strict_symbol _) _

/-- Where nothing may be left, the statement fails instead. -/
theorem strict_runStmt (control : Bool) : (runStmt control).Strict := by
  cases control with
  | true => exact .bind_left (strict_keyword _) _
  | false => exact strict_failHere _

theorem strict_blockStmt (g : Grammar) (control : Bool) : (g.blockStmt control).Strict :=
  .bind_right _ fun _ ↦ .bind_left (g.strict_block control) _

/-- A condition takes its keyword. -/
theorem strict_ifStmt (g : Grammar) : g.ifStmt.Strict :=
  .bind_left (.bind_left (strict_keyword _) _) _

/-- Every statement takes a token, by its first one. -/
theorem strict_stmtOf (g : Grammar) (control : Bool) (first : Token.Kind) :
    (g.stmtOf control first).Strict := by
  unfold stmtOf
  split
  · exact .bind_left (strict_keyword _) _
  · exact .bind_left (strict_keyword _) _
  · exact g.strict_ifStmt
  · exact .bind_left (strict_keyword _) _
  · exact .bind_left (strict_keyword _) _
  · exact .bind_left (strict_keyword _) _
  · exact strict_runStmt control
  · exact g.strict_blockStmt control
  · exact g.strict_exprStmt

/-- So statements in a row come to an end. -/
theorem strict_stmt (g : Grammar) (control : Bool) : (g.stmt control).Strict :=
  .bind_right _ fun t ↦ g.strict_stmtOf control t.kind

/-! ### Levels -/

/-- The statements up to the end of the input or a closing brace. -/
def stmts (g : Grammar) (control : Bool) : Parser (List Stmt) :=
  many (fun t ↦ t.isSymbol .rightBrace) (g.stmt control) (g.strict_stmt control)

/-- Statements in braces. -/
def braces (g : Grammar) (control : Bool) : Parser (List Stmt) := do
  let _ ← symbol .leftBrace
  let body ← g.stmts control
  let _ ← symbol .rightBrace
  return body

/-- Below the deepest level nothing is read. -/
def refusing : Grammar where
  expr := failHere .nestingTooDeep
  operand := failHere .nestingTooDeep
  block _ := failHere .nestingTooDeep
  strict_block _ := strict_failHere _

/-- A level is read with the help of the next one. -/
def deeper (g : Grammar) : Grammar where
  expr := g.assignment
  operand := g.unary
  block control := g.braces control
  strict_block _ := .bind_left (strict_symbol _) _

/-- The grammar with room for so many levels. -/
def withRoom : Nat → Grammar
  | 0 => refusing
  | room + 1 => (withRoom room).deeper

/-- The statements of a whole program. -/
def program : Parser Program :=
  many (fun _ ↦ false) ((withRoom maxNesting).stmt false) (strict_stmt _ _)

end Grammar

/-! ### Programs from tokens -/

/-- The token that marks the end: the first such token, or else an empty one behind the last
token. -/
def endOfTokens (ts : List Token) : Token :=
  match ts.find? fun t ↦ t.kind.isEnd with
  | some t => t
  | none =>
    match ts.getLast? with
    | some t => ⟨.endOfInput, "", { t.position with
        column := t.position.column + t.len, offset := t.position.offset + t.len }⟩
    | none => ⟨.endOfInput, "", .start⟩

/-- The program that the tokens form, or the first thing wrong with them. Tokens behind the first
mark of the end are not looked at. -/
def Program.ofTokens (ts : List Token) : Except ParseError Program := do
  let (program, _) ← Grammar.program.run (endOfTokens ts) (ts.takeWhile fun t ↦ !t.kind.isEnd)
  return program

end SafariScript
