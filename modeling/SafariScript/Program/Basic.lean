import SafariScript.Literal
import SafariScript.Span

/-!
# Programs

The tree of a script: expressions, statements, and a program as a list of statements. Every node
carries the span of the token that reports about it points at. Nothing here says which trees a
text can give: a host may build any tree and evaluate it.
-/

namespace SafariScript

/-- The operators with one operand. -/
inductive UnaryOp where
  | neg
  | not
deriving DecidableEq, Inhabited

/-- The spelling. -/
def UnaryOp.text : UnaryOp → String
  | neg => "-"
  | not => "not"

/-- The operators that evaluate both operands. -/
inductive BinaryOp where
  | add
  | sub
  | mul
  | div
  | mod
  | eq
  | notEq
  | lt
  | ltEq
  | gt
  | gtEq
deriving DecidableEq, Inhabited

/-- The spelling. -/
def BinaryOp.text : BinaryOp → String
  | add => "+"
  | sub => "-"
  | mul => "*"
  | div => "/"
  | mod => "%"
  | eq => "=="
  | notEq => "!="
  | lt => "<"
  | ltEq => "<="
  | gt => ">"
  | gtEq => ">="

/-- The operators that may leave their right operand alone. -/
inductive LogicalOp where
  | and
  | or
deriving DecidableEq, Inhabited

/-- The spelling. -/
def LogicalOp.text : LogicalOp → String
  | and => "and"
  | or => "or"

/-- An expression. -/
inductive Expr where
  | literal (value : Literal) (span : Span)
  | list (items : List Expr) (span : Span)
  | ident (name : String) (span : Span)
  | unary (op : UnaryOp) (operand : Expr) (span : Span)
  | binary (op : BinaryOp) (left right : Expr) (span : Span)
  | logical (op : LogicalOp) (left right : Expr) (span : Span)
  /-- `target = value`. -/
  | assign (target value : Expr) (span : Span)
  /-- `callee(args)`. -/
  | call (callee : Expr) (args : List Expr) (span : Span)
  /-- `object.name`. -/
  | property (object : Expr) (name : String) (span : Span)
  /-- `object->name(args, key=value)`. -/
  | method (object : Expr) (name : String) (args : List Expr) (named : List (String × Expr))
    (span : Span)
deriving Inhabited

/-- The span that reports about the expression point at. -/
def Expr.span : Expr → Span
  | literal _ span => span
  | list _ span => span
  | ident _ span => span
  | unary _ _ span => span
  | binary _ _ _ span => span
  | logical _ _ _ span => span
  | assign _ _ span => span
  | call _ _ span => span
  | property _ _ span => span
  | method _ _ _ _ span => span

/-- A statement. -/
inductive Stmt where
  | expr (value : Expr)
  | var (name : String) (init : Option Expr) (span : Span)
  | print (value : Expr) (span : Span)
  /-- A condition, the body for when it holds, and the body for when it does not, if there is one.
  A chain of further conditions is a second body of one statement. -/
  | cond (condition : Expr) (body : List Stmt) (otherwise : Option (List Stmt)) (span : Span)
  | block (body : List Stmt) (span : Span)
  /-- A count and the body to repeat so many times. -/
  | loop (count : Expr) (body : List Stmt) (span : Span)
  | define (name : String) (params : List String) (body : List Stmt) (span : Span)
  | throwBall (zone target : Expr) (span : Span)
  /-- Leave the innermost repetition. -/
  | run (span : Span)
deriving Inhabited

/-- The span that reports about the statement point at. -/
def Stmt.span : Stmt → Span
  | expr value => value.span
  | var _ _ span => span
  | print _ span => span
  | cond _ _ _ span => span
  | block _ span => span
  | loop _ _ span => span
  | define _ _ _ span => span
  | throwBall _ _ span => span
  | run span => span

/-- A program: statements in order. -/
abbrev Program := List Stmt

end SafariScript
