import SafariScript.Power
import SafariScript.Token.Basic
import SafariScript.Token.ScanError

/-!
# Scanning

A text is cut into pieces from the left. `piece` looks at the first character and says what stands
there and **how many further characters** belong to it: a gap (blank space or a comment) or a
token. `scan` walks along these cuts, so the pieces tile the text, and every token is placed by the
characters before it.

The longest piece wins: a run of digits or letters is taken whole, and a symbol of two characters
before a symbol of one.
-/

namespace SafariScript.Token

open scoped Power

/-- The blank characters between tokens. -/
def isSpace (c : Char) : Bool := c == ' ' || c == '\t' || c == '\r' || c == '\n'

/-- The characters that begin a word. -/
def isWordStart (c : Char) : Bool := ('a' ≤ c && c ≤ 'z') || ('A' ≤ c && c ≤ 'Z') || c == '_'

/-- The characters that continue a word. -/
def isWordPart (c : Char) : Bool := isWordStart c || Text.isDigit c

/-- The symbols of one character. -/
def single? : Char → Option Symbol
  | '+' => some .plus
  | '-' => some .minus
  | '*' => some .star
  | '/' => some .slash
  | '%' => some .percent
  | '=' => some .equal
  | '<' => some .less
  | '>' => some .greater
  | ',' => some .comma
  | ';' => some .semicolon
  | '.' => some .dot
  | '(' => some .leftParen
  | ')' => some .rightParen
  | '{' => some .leftBrace
  | '}' => some .rightBrace
  | '[' => some .leftBracket
  | ']' => some .rightBracket
  | _ => none

/-- The symbols of two characters. -/
def pair? : Char → Char → Option Symbol
  | '-', '>' => some .arrow
  | '=', '=' => some .equalEqual
  | '!', '=' => some .bangEqual
  | '<', '=' => some .lessEqual
  | '>', '=' => some .greaterEqual
  | _, _ => none

/-- What stands at the front of a text. -/
inductive Piece where
  /-- Blank space or a comment. -/
  | gap
  /-- A token of the given kind. -/
  | token (kind : Kind)

/-- A fault in the piece at the front of a text: the cause, how many characters of the piece stand
before the marked text, and the length of the marked text in bytes. -/
structure Flaw where
  cause : ScanError.Cause
  skip : Nat
  len : Nat

/-- The flaw that marks `len` bytes from the front of the piece. -/
def Flaw.atFront (cause : ScanError.Cause) (len : Nat) : Flaw := ⟨cause, 0, len⟩

/-- The number of characters up to the end of a block comment, of which `n` are already counted. -/
def commentLength (n : Nat) : List Char → Option Nat
  | '*' :: '/' :: _ => some (n + 2)
  | _ :: cs => commentLength (n + 1) cs
  | [] => none

/-- The character that an escape stands for. -/
def unescape? : Char → Option Char
  | 'n' => some '\n'
  | 't' => some '\t'
  | '"' => some '"'
  | '\\' => some '\\'
  | _ => none

/-- Reads a string behind its opening quote: the value, and the number of characters up to the
closing quote. Of these, `n` are counted already, and `value` holds what they stand for in reverse
order. -/
def stringBody (value : List Char) (n : Nat) : List Char → Except Flaw (String × Nat)
  | '"' :: _ => .ok (String.ofList value.reverse, n + 1)
  | '\\' :: c :: cs =>
    match unescape? c with
    | some v => stringBody (v :: value) (n + 2) cs
    | none => .error ⟨.invalidEscape c, n + 1, 2⟩
  | ['\\'] => .error (.atFront .unterminatedString 1)
  | c :: cs => stringBody (c :: value) (n + 1) cs
  | [] => .error (.atFront .unterminatedString 1)

/-- The largest integer that can be written. -/
def maxInt : Nat := 2 ^ (63 : Nat) - 1

/-- Reads a number whose first digit is `c`. A point belongs to it only if a digit follows, and no
letter may follow the digits. -/
def number (c : Char) (cs : List Char) : Except Flaw (Piece × Nat) :=
  let whole := cs.takeWhile Text.isDigit
  let fraction :=
    match cs.dropWhile Text.isDigit with
    | '.' :: ds => ds.takeWhile Text.isDigit
    | _ => []
  let more := if fraction.isEmpty then whole.length else whole.length + 1 + fraction.length
  let glued := (cs.drop more).takeWhile isWordPart
  let flaw : Flaw :=
    let text := c :: cs.take (more + glued.length)
    .atFront (.invalidNumber (String.ofList text)) text.length
  if !glued.isEmpty then .error flaw
  else if !fraction.isEmpty then
    .ok (.token (.literal (.decimal (Decimal.ofDigits (c :: whole) fraction))), more)
  else if Text.digitsValue (c :: whole) ≤ maxInt then
    .ok (.token (.literal (.int (Int64.ofNat (Text.digitsValue (c :: whole))))), more)
  else .error flaw

/-- Reads the word whose first character is `c`. -/
def word (c : Char) (cs : List Char) : Piece × Nat :=
  let parts := cs.takeWhile isWordPart
  (.token (.ofWord (String.ofList (c :: parts))), parts.length)

/-- Reads the symbol that begins with `c`, of two characters if possible. -/
def symbol (c : Char) (cs : List Char) : Except Flaw (Piece × Nat) :=
  match cs.head?.bind (pair? c) with
  | some s => .ok (.token (.symbol s), 1)
  | none =>
    match single? c with
    | some s => .ok (.token (.symbol s), 0)
    | none =>
      if c = '!' then .error (.atFront .bareBang 1)
      else .error (.atFront (.unexpectedCharacter c) c.utf8Size)

/-- What stands at the front of the text `c :: cs`, and how many characters of `cs` belong to
it. -/
def piece (c : Char) (cs : List Char) : Except Flaw (Piece × Nat) :=
  if isSpace c then .ok (.gap, (cs.takeWhile isSpace).length)
  else if c = '/' && cs.head? == some '/' then .ok (.gap, (cs.takeWhile (· ≠ '\n')).length)
  else if c = '/' && cs.head? == some '*' then
    match commentLength 1 cs.tail with
    | some n => .ok (.gap, n)
    | none => .error (.atFront .unterminatedComment 2)
  else if c = '"' then do
    let (value, n) ← stringBody [] 0 cs
    return (.token (.literal (.str value)), n)
  else if Text.isDigit c then number c cs
  else if isWordStart c then .ok (word c cs)
  else symbol c cs

/-- The flaw as an error, in the text `cs` that begins at `p`. -/
def Flaw.toError (flaw : Flaw) (p : Position) (cs : List Char) : ScanError :=
  ⟨flaw.cause, { p.afterAll (cs.take flaw.skip) with len := flaw.len }⟩

/-- Scans the text `cs` that begins at `p`; `found` holds the tokens before it in reverse order. -/
def scanFrom (found : List Token) (p : Position) : List Char → Except ScanError (List Token)
  | [] => .ok (⟨.endOfInput, "", p⟩ :: found).reverse
  | c :: cs =>
    match piece c cs with
    | .error flaw => .error (flaw.toError p (c :: cs))
    | .ok (front, more) =>
      let taken := c :: cs.take more
      let found :=
        match front with
        | .gap => found
        | .token kind => ⟨kind, String.ofList taken, p⟩ :: found
      scanFrom found (p.afterAll taken) (cs.drop more)
termination_by cs => cs.length

/-- The tokens of a script, ending with the mark of its end, or the first thing wrong with it. -/
def scan (source : String) : Except ScanError (List Token) :=
  scanFrom [] .start source.toList

end SafariScript.Token
