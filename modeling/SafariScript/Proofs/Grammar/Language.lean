import SafariScript.Program.Grammar

/-!
# The language of programs

Which tokens form a program, and which tree they form, said **without a parser**: every phrase is
an inductive relation between tokens and a tree, with one rule for each way to build the phrase.

```
program     → statement*
statement   → "var" NAME ( "=" expression )? ";"  |  "print" expression ";"  |  condition
            | "repeat" expression block  |  "define" NAME "(" items(NAME) ")" block
            | "throwBall" "(" expression "," expression ")" ";"  |  "run" ";"
            | block  |  expression ";"
condition   → "if" expression block ( "else" ( condition | block ) )?
block       → "{" statement* "}"
expression  → disjunction ( "=" expression )?
disjunction → conjunction ( "or" conjunction )*         and so on down to products
unary       → ( "-" | "not" ) unary  |  suffixed
suffixed    → primary suffix*
suffix      → "." NAME  |  "->" NAME ( "(" items(argument) ")" )?  |  "(" items(expression) ")"
argument    → NAME "=" expression  |  expression
primary     → LITERAL | NAME | "(" expression ")" | "[" items(expression) "]"
items(x)    → ( x ( "," x )* ","? )?
```

Some rules have side conditions, stated on the tokens and the tree: what may stand left of `=`,
when an argument is a named one, whose arguments stand in parentheses behind a method's name, which
expression is not a statement, and where `run` may stand.

Blocks, expressions inside other phrases and operands of unary operators **nest**. A `Language` says
what may stand one level further in, and the rules are relative to it; `Language.within n` is the
language in which these are nested at most `n` deep.
-/

namespace SafariScript

/-- What may stand one level further in: tokens with the tree they form. -/
structure Language where
  /-- Expressions. -/
  expr : List Token → Expr → Prop
  /-- Operands of unary operators. -/
  operand : List Token → Expr → Prop
  /-- Blocks, with or without a condition or a repetition around them. -/
  block : (control : Bool) → List Token → List Stmt → Prop

namespace Language

/-! ### Sequences -/

section Sequences

variable {α : Type}

/-- One phrase after the other. -/
inductive Many (R : List Token → α → Prop) : List Token → List α → Prop
  | nil : Many R [] []
  | cons {xs ys : List Token} {a : α} {as : List α} :
      R xs a → Many R ys as → Many R (xs ++ ys) (a :: as)

/-- At least one phrase, with commas between them. -/
inductive Separated (R : List Token → α → Prop) : List Token → List α → Prop
  | one {xs : List Token} {a : α} : R xs a → Separated R xs [a]
  | more {xs ys : List Token} {as : List α} {a : α} {comma : Token} :
      Separated R xs as → comma.kind = .symbol .comma → R ys a →
      Separated R (xs ++ comma :: ys) (as ++ [a])

/-- Any number of phrases with commas between them; one more comma may follow the last phrase. -/
inductive Items (R : List Token → α → Prop) : List Token → List α → Prop
  | none : Items R [] []
  | separated {xs : List Token} {as : List α} : Separated R xs as → Items R xs as
  | trailing {xs : List Token} {as : List α} {comma : Token} :
      Separated R xs as → comma.kind = .symbol .comma → Items R (xs ++ [comma]) as

end Sequences

/-- A single identifier. -/
inductive Name : List Token → String → Prop
  | ident {t : Token} {name : String} : t.kind = .ident name → Name [t] name

/-! ### Expressions -/

/-- A literal, a name, an expression in parentheses, or a list in brackets. -/
inductive Primary (L : Language) : List Token → Expr → Prop
  | literal {t : Token} {value : Literal} :
      t.kind = .literal value → Primary L [t] (.literal value t.span)
  | ident {t : Token} {name : String} :
      t.kind = .ident name → Primary L [t] (.ident name t.span)
  | group {left right : Token} {xs : List Token} {e : Expr} :
      left.kind = .symbol .leftParen → L.expr xs e → right.kind = .symbol .rightParen →
      Primary L (left :: (xs ++ [right])) e
  | list {left right : Token} {xs : List Token} {es : List Expr} :
      left.kind = .symbol .leftBracket → Items L.expr xs es → right.kind = .symbol .rightBracket →
      Primary L (left :: (xs ++ [right])) (.list es left.span)

/-- The tokens begin with an identifier and `=`, as a named argument does. -/
inductive BeginsNamed : List Token → Prop
  | key {t u : Token} {name : String} {xs : List Token} :
      t.kind = .ident name → u.kind = .symbol .equal → BeginsNamed (t :: u :: xs)

/-- An argument of a method. What begins as a named argument is never a positional one. -/
inductive Argument (L : Language) : List Token → Grammar.Argument → Prop
  | named {t u : Token} {name : String} {xs : List Token} {e : Expr} :
      t.kind = .ident name → u.kind = .symbol .equal → L.expr xs e →
      Argument L (t :: u :: xs) (.named name e)
  | positional {xs : List Token} {e : Expr} :
      L.expr xs e → ¬ BeginsNamed xs → Argument L xs (.positional e)

/-- The tokens end with `->` and an identifier. -/
inductive EndsInMethod : List Token → Prop
  | name {t u : Token} {name : String} {xs : List Token} :
      t.kind = .symbol .arrow → u.kind = .ident name → EndsInMethod (xs ++ [t, u])

/-- A primary expression with properties, methods and calls behind it. What stands in parentheses
behind the name of a method is the arguments of the method, so it is no call. -/
inductive Suffixed (L : Language) : List Token → Expr → Prop
  | primary {xs : List Token} {e : Expr} : Primary L xs e → Suffixed L xs e
  | property {xs : List Token} {e : Expr} {dot t : Token} {name : String} :
      Suffixed L xs e → dot.kind = .symbol .dot → t.kind = .ident name →
      Suffixed L (xs ++ [dot, t]) (.property e name t.span)
  | method {xs : List Token} {e : Expr} {arrow t : Token} {name : String} :
      Suffixed L xs e → arrow.kind = .symbol .arrow → t.kind = .ident name →
      Suffixed L (xs ++ [arrow, t]) (.method e name [] [] t.span)
  | methodArgs {xs ys : List Token} {e : Expr} {arrow t left right : Token} {name : String}
      {args : List Grammar.Argument} :
      Suffixed L xs e → arrow.kind = .symbol .arrow → t.kind = .ident name →
      left.kind = .symbol .leftParen → Items (Argument L) ys args →
      right.kind = .symbol .rightParen →
      Suffixed L (xs ++ arrow :: t :: left :: (ys ++ [right]))
        (.method e name (Grammar.positionalArgs args) (Grammar.namedArgs args) t.span)
  | call {xs ys : List Token} {e : Expr} {left right : Token} {args : List Expr} :
      Suffixed L xs e → ¬ EndsInMethod xs → left.kind = .symbol .leftParen →
      Items L.expr ys args → right.kind = .symbol .rightParen →
      Suffixed L (xs ++ left :: (ys ++ [right])) (.call e args e.span)

/-- The unary operators. -/
inductive UnaryOperator : Token.Kind → UnaryOp → Prop
  | neg : UnaryOperator (.symbol .minus) .neg
  | not : UnaryOperator (.keyword .not) .not

/-- A unary operator before its operand, or a suffixed expression. -/
inductive Unary (L : Language) : List Token → Expr → Prop
  | operator {t : Token} {op : UnaryOp} {xs : List Token} {e : Expr} :
      UnaryOperator t.kind op → L.operand xs e → Unary L (t :: xs) (.unary op e t.span)
  | suffixed {xs : List Token} {e : Expr} : Suffixed L xs e → Unary L xs e

/-- The levels of operators with two operands. -/
inductive Level where
  | disjunction
  | conjunction
  | equality
  | comparison
  | sum
  | product

/-- The operators of each level, with the tree that an operator makes of two operands. -/
inductive Operator : Level → Token.Kind → (Expr → Expr → Span → Expr) → Prop
  | or : Operator .disjunction (.keyword .or) (.logical .or)
  | and : Operator .conjunction (.keyword .and) (.logical .and)
  | eq : Operator .equality (.symbol .equalEqual) (.binary .eq)
  | notEq : Operator .equality (.symbol .bangEqual) (.binary .notEq)
  | lt : Operator .comparison (.symbol .less) (.binary .lt)
  | ltEq : Operator .comparison (.symbol .lessEqual) (.binary .ltEq)
  | gt : Operator .comparison (.symbol .greater) (.binary .gt)
  | gtEq : Operator .comparison (.symbol .greaterEqual) (.binary .gtEq)
  | add : Operator .sum (.symbol .plus) (.binary .add)
  | sub : Operator .sum (.symbol .minus) (.binary .sub)
  | mul : Operator .product (.symbol .star) (.binary .mul)
  | div : Operator .product (.symbol .slash) (.binary .div)
  | mod : Operator .product (.symbol .percent) (.binary .mod)

/-- Operands with operators of one level between them, grouped to the left. -/
inductive LeftAssoc (level : Level) (R : List Token → Expr → Prop) : List Token → Expr → Prop
  | operand {xs : List Token} {e : Expr} : R xs e → LeftAssoc level R xs e
  | operator {xs ys : List Token} {left right : Expr} {t : Token}
      {build : Expr → Expr → Span → Expr} :
      LeftAssoc level R xs left → Operator level t.kind build → R ys right →
      LeftAssoc level R (xs ++ t :: ys) (build left right t.span)

/-- Everything that binds closer than an assignment. -/
def Disjunction (L : Language) : List Token → Expr → Prop :=
  LeftAssoc .disjunction <| LeftAssoc .conjunction <| LeftAssoc .equality <|
    LeftAssoc .comparison <| LeftAssoc .sum <| LeftAssoc .product <| Unary L

/-- What may stand on the left of an assignment. -/
inductive Target : Expr → Prop
  | ident (name : String) (span : Span) : Target (.ident name span)
  | property (object : Expr) (name : String) (span : Span) : Target (.property object name span)

/-- A disjunction, or an assignment. Its value is an expression again, so assignments are grouped to
the right. -/
inductive Assignment (L : Language) : List Token → Expr → Prop
  | plain {xs : List Token} {e : Expr} : Disjunction L xs e → Assignment L xs e
  | assign {xs ys : List Token} {target value : Expr} {t : Token} :
      Disjunction L xs target → Target target → t.kind = .symbol .equal → L.expr ys value →
      Assignment L (xs ++ t :: ys) (.assign target value t.span)

/-! ### Statements -/

/-- A condition with its body, and what follows `else`: a further condition or a last body. -/
inductive Condition (L : Language) : List Token → Stmt → Prop
  | single {word : Token} {xs ys : List Token} {e : Expr} {body : List Stmt} :
      word.kind = .keyword .ifWord → L.expr xs e → L.block true ys body →
      Condition L (word :: (xs ++ ys)) (.cond e body none word.span)
  | otherwise {word other : Token} {xs ys zs : List Token} {e : Expr} {body last : List Stmt} :
      word.kind = .keyword .ifWord → L.expr xs e → L.block true ys body →
      other.kind = .keyword .elseWord → L.block true zs last →
      Condition L (word :: (xs ++ (ys ++ other :: zs))) (.cond e body (some last) word.span)
  | further {word other : Token} {xs ys zs : List Token} {e : Expr} {body : List Stmt}
      {next : Stmt} :
      word.kind = .keyword .ifWord → L.expr xs e → L.block true ys body →
      other.kind = .keyword .elseWord → Condition L zs next →
      Condition L (word :: (xs ++ (ys ++ other :: zs))) (.cond e body (some [next]) word.span)

/-- A statement. The flag says whether `run` may stand here: the bodies of conditions and
repetitions allow it, the body of a function does not, and any other block leaves it as it is. -/
inductive Statement (L : Language) (control : Bool) : List Token → Stmt → Prop
  | var {word t semicolon : Token} {name : String} :
      word.kind = .keyword .var → t.kind = .ident name → semicolon.kind = .symbol .semicolon →
      Statement L control [word, t, semicolon] (.var name none word.span)
  | varInit {word t equal semicolon : Token} {name : String} {xs : List Token} {e : Expr} :
      word.kind = .keyword .var → t.kind = .ident name → equal.kind = .symbol .equal →
      L.expr xs e → semicolon.kind = .symbol .semicolon →
      Statement L control (word :: t :: equal :: (xs ++ [semicolon])) (.var name (some e) word.span)
  | print {word semicolon : Token} {xs : List Token} {e : Expr} :
      word.kind = .keyword .print → L.expr xs e → semicolon.kind = .symbol .semicolon →
      Statement L control (word :: (xs ++ [semicolon])) (.print e word.span)
  | cond {xs : List Token} {s : Stmt} : Condition L xs s → Statement L control xs s
  | loop {word : Token} {xs ys : List Token} {count : Expr} {body : List Stmt} :
      word.kind = .keyword .repeatWord → L.expr xs count → L.block true ys body →
      Statement L control (word :: (xs ++ ys)) (.loop count body word.span)
  | define {word t left right : Token} {name : String} {xs ys : List Token}
      {params : List String} {body : List Stmt} :
      word.kind = .keyword .define → t.kind = .ident name → left.kind = .symbol .leftParen →
      Items Name xs params → right.kind = .symbol .rightParen → L.block false ys body →
      Statement L control (word :: t :: left :: (xs ++ right :: ys))
        (.define name params body word.span)
  | throwBall {word left comma right semicolon : Token} {xs ys : List Token}
      {zone target : Expr} :
      word.kind = .keyword .throwBall → left.kind = .symbol .leftParen → L.expr xs zone →
      comma.kind = .symbol .comma → L.expr ys target → right.kind = .symbol .rightParen →
      semicolon.kind = .symbol .semicolon →
      Statement L control (word :: left :: (xs ++ comma :: (ys ++ [right, semicolon])))
        (.throwBall zone target word.span)
  | run {word semicolon : Token} :
      control = true → word.kind = .keyword .run → semicolon.kind = .symbol .semicolon →
      Statement L control [word, semicolon] (.run word.span)
  | block {left : Token} {xs : List Token} {body : List Stmt} :
      L.block control (left :: xs) body → Statement L control (left :: xs) (.block body left.span)
  | expr {xs : List Token} {e : Expr} {semicolon : Token} :
      L.expr xs e → (∀ name, ¬ Name xs name) → semicolon.kind = .symbol .semicolon →
      Statement L control (xs ++ [semicolon]) (.expr e)

/-- Statements in braces. -/
inductive Braces (L : Language) (control : Bool) : List Token → List Stmt → Prop
  | braces {left right : Token} {xs : List Token} {body : List Stmt} :
      left.kind = .symbol .leftBrace → Many (Statement L control) xs body →
      right.kind = .symbol .rightBrace → Braces L control (left :: (xs ++ [right])) body

/-! ### Levels -/

/-- A language with one level of nesting more. -/
def deeper (L : Language) : Language where
  expr := Assignment L
  operand := Unary L
  block := Braces L

/-- What is nested at most so many levels deep. -/
def within : Nat → Language
  | 0 => ⟨fun _ _ ↦ False, fun _ _ ↦ False, fun _ _ _ ↦ False⟩
  | n + 1 => (within n).deeper

end Language

/-- The tokens form the program. -/
def Program.Derives (ts : List Token) (program : Program) : Prop :=
  Language.Many (Language.Statement (Language.within maxNesting) false) ts program

end SafariScript
