import SafariScript.Literal
import SafariScript.Span

/-!
# Tokens

A token is a kind, the exact text it was written as, and its place. Keywords and symbols have one
spelling each (`Keyword.text`, `Symbol.text`); a word that is no keyword is a truth value, `null`
or an identifier (`Kind.ofWord`).
-/

namespace SafariScript

/-- The words with a fixed meaning in statements and conditions. -/
inductive Keyword where
  | var
  | print
  | ifWord
  | elseWord
  | repeatWord
  | define
  | throwBall
  | run
  | and
  | or
  | not
deriving DecidableEq, Inhabited

namespace Keyword

/-- The spelling. -/
def text : Keyword → String
  | var => "var"
  | print => "print"
  | ifWord => "if"
  | elseWord => "else"
  | repeatWord => "repeat"
  | define => "define"
  | throwBall => "throwBall"
  | run => "run"
  | and => "and"
  | or => "or"
  | not => "not"

/-- Every keyword. -/
def all : List Keyword :=
  [var, print, ifWord, elseWord, repeatWord, define, throwBall, run, and, or, not]

end Keyword

/-- Operators and punctuation. -/
inductive Symbol where
  | plus
  | minus
  | star
  | slash
  | percent
  | equal
  | equalEqual
  | bangEqual
  | less
  | lessEqual
  | greater
  | greaterEqual
  | arrow
  | comma
  | semicolon
  | dot
  | leftParen
  | rightParen
  | leftBrace
  | rightBrace
  | leftBracket
  | rightBracket
deriving DecidableEq, Inhabited

namespace Symbol

/-- The spelling. -/
def text : Symbol → String
  | plus => "+"
  | minus => "-"
  | star => "*"
  | slash => "/"
  | percent => "%"
  | equal => "="
  | equalEqual => "=="
  | bangEqual => "!="
  | less => "<"
  | lessEqual => "<="
  | greater => ">"
  | greaterEqual => ">="
  | arrow => "->"
  | comma => ","
  | semicolon => ";"
  | dot => "."
  | leftParen => "("
  | rightParen => ")"
  | leftBrace => r"{"
  | rightBrace => r"}"
  | leftBracket => "["
  | rightBracket => "]"

end Symbol

namespace Token

/-- What a token stands for. -/
inductive Kind where
  | literal (value : Literal)
  | ident (name : String)
  | keyword (word : Keyword)
  | symbol (mark : Symbol)
  | endOfInput
deriving Inhabited

namespace Kind

/-- The kind of a word: a keyword, a truth value, `null`, and otherwise an identifier. -/
def ofWord (word : String) : Kind :=
  match Keyword.all.find? fun k ↦ k.text == word with
  | some k => .keyword k
  | none =>
    if word = "true" then .literal (.bool true)
    else if word = "false" then .literal (.bool false)
    else if word = "null" then .literal .null
    else .ident word

/-- How messages name the kind. -/
def describe : Kind → String
  | .literal (.int n) => "integer `" ++ intText n ++ "`"
  | .literal (.decimal x) => "decimal `" ++ Decimal.text x ++ "`"
  | .literal (.str s) => "string \"" ++ s ++ "\""
  | .literal (.bool b) => "`" ++ boolText b ++ "`"
  | .literal .null => "`null`"
  | .ident name => "identifier `" ++ name ++ "`"
  | .keyword word => "keyword `" ++ word.text ++ "`"
  | .symbol mark => "`" ++ mark.text ++ "`"
  | .endOfInput => "end of input"

/-- Whether the kind is a keyword. Truth values and `null` are literals, not keywords. -/
def isKeyword : Kind → Bool
  | .keyword _ => true
  | _ => false

/-- Whether the kind marks the end of the input. -/
def isEnd : Kind → Bool
  | .endOfInput => true
  | _ => false

/-- The value of a literal. -/
def literal? : Kind → Option Literal
  | .literal value => some value
  | _ => none

end Kind

end Token

/-- A token: its kind, the text it was written as, and the place of that text. -/
structure Token where
  kind : Token.Kind
  lexeme : String
  position : Position
deriving Inhabited

namespace Token

/-- The length of the text in bytes. -/
def len (t : Token) : Nat := t.lexeme.utf8ByteSize

/-- The place and the length of the text. -/
def span (t : Token) : Span := { t.position with len := t.len }

/-- Whether the token is the given symbol. -/
def isSymbol (t : Token) (s : Symbol) : Bool :=
  match t.kind with
  | .symbol s' => s' == s
  | _ => false

/-- Whether the token is the given keyword. -/
def isWord (t : Token) (k : Keyword) : Bool :=
  match t.kind with
  | .keyword k' => k' == k
  | _ => false

end Token

end SafariScript
