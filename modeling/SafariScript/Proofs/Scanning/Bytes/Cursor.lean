import SafariScript.Proofs.Scanning.Literals

/-!
# Scanning with a cursor on bytes

A second scanner, which goes through the bytes of a source and keeps three counters: the offset of
the next byte, and the line and the column where it stands. It looks at that byte, and at the one
behind it in a few places, and moves by one byte at a time. Nothing is known of the bytes. In
particular they need not form characters, so this scanner has ways to go wrong that `Token.scan` has
not: it may read **outside** of the bytes, it may cut out a text that begins or ends **inside a
character**, and it may be **stuck** in a loop that it repeats without moving. It then gives `none`.

A byte is compared with characters as the character that has its number (`Char.ofUInt8`). For the
bytes of a character outside of ASCII this is another character, but none that a token or a comment
begins or ends with.
-/

namespace SafariScript

open Token

/-- An error of scanning as it is reported: the code and the message of its cause, and the text that
it marks. -/
structure ScanReport where
  code : String
  message : String
  span : Span

/-- The report of an error. -/
def ScanError.report (e : ScanError) : ScanReport := ⟨e.cause.code, e.cause.message, e.span⟩

/-- The place that follows the byte `b`, when it stands at `p`. -/
def Position.afterByte (p : Position) (b : UInt8) : Position :=
  if b = 0x0a then ⟨p.line + 1, 1, p.offset + 1⟩ else ⟨p.line, p.column + 1, p.offset + 1⟩

/-- A scanner with three counters on the bytes of a source. -/
abbrev ByteCursor := ReaderT (List UInt8) (StateT Position (ExceptT ScanReport Option))

namespace ByteCursor

variable {α β : Type}

/-! ### Single bytes -/

/-- The place of the next byte. -/
def here : ByteCursor Position := fun _ p ↦ some (.ok (p, p))

/-- Whether all bytes are passed. -/
def atEnd : ByteCursor Bool := fun bytes p ↦ some (.ok (decide (bytes.length ≤ p.offset), p))

/-- The next byte, or the byte zero at the end. -/
def peek : ByteCursor Char := fun bytes p ↦
  some (.ok (Char.ofUInt8 (bytes.getD p.offset 0), p))

/-- The byte behind the next one, or the byte zero if there is none. -/
def peekNext : ByteCursor Char := fun bytes p ↦
  some (.ok (Char.ofUInt8 (bytes.getD (p.offset + 1) 0), p))

/-- Takes the next byte, which has to be there. -/
def advance : ByteCursor UInt8 := fun bytes p ↦
  bytes[p.offset]?.map fun b ↦ .ok (b, p.afterByte b)

/-- Takes so many bytes. -/
def advanceBy : Nat → ByteCursor Unit
  | 0 => pure ()
  | n + 1 => do
    let _ ← advance
    advanceBy n

/-- The text from an offset up to here; both have to stand between characters. -/
def textFrom (start : Nat) : ByteCursor String := fun bytes p ↦
  (String.fromUTF8? ((bytes.drop start).take (p.offset - start)).toByteArray).map fun s ↦ .ok (s, p)

/-- The character at an offset, or `c` if the text ends there; the offset has to stand between
characters. -/
def charAt (start : Nat) (c : Char) : ByteCursor Char := fun bytes p ↦
  (String.fromUTF8? (bytes.drop start).toByteArray).map fun s ↦ .ok (s.toList.headD c, p)

/-- The text that bytes form; they have to form one. -/
def textOf (value : List UInt8) : ByteCursor String := fun _ p ↦
  (String.fromUTF8? value.toByteArray).map fun s ↦ .ok (s, p)

/-- Fails with an error that marks `len` bytes from `start` on. -/
def fail (cause : ScanError.Cause) (start : Position) (len : Nat) : ByteCursor α :=
  throw ⟨cause.code, cause.message, ⟨start, len⟩⟩

/-! ### Loops -/

/-- Repeats rounds from the state `a` at the place `p`. A round gives the next state, or else the
result. -/
def roundsFrom (round : α → ByteCursor (α ⊕ β)) (bytes : List UInt8) (p : Position) (a : α) :
    Option (Except ScanReport (β × Position)) :=
  match round a bytes p with
  | none => none
  | some (.error e) => some (.error e)
  | some (.ok (.inr b, q)) => some (.ok (b, q))
  | some (.ok (.inl a, q)) =>
    if bytes.length - q.offset < bytes.length - p.offset then roundsFrom round bytes q a else none
termination_by bytes.length - p.offset

/-- Repeats rounds from the state `a`. -/
def rounds (round : α → ByteCursor (α ⊕ β)) (a : α) : ByteCursor β :=
  fun bytes p ↦ roundsFrom round bytes p a

/-- Takes another byte, if there is more to take. -/
def skipRound (more : ByteCursor Bool) (_ : Unit) : ByteCursor (Unit ⊕ Unit) := do
  if ← more then
    let _ ← advance
    return .inl ()
  else return .inr ()

/-- Takes bytes as long as there is more to take. -/
def skipWhile (more : ByteCursor Bool) : ByteCursor Unit := rounds (skipRound more) ()

/-! ### Blank space and comments -/

/-- Takes blank space. -/
def skipSpace : ByteCursor Unit := skipWhile do return !(← atEnd) && isSpace (← peek)

/-- Takes the rest of a line. -/
def skipLine : ByteCursor Unit := skipWhile do return !(← atEnd) && decide ((← peek) ≠ '\n')

/-- Takes another byte of the block comment that begins at `start`, or its closing mark. -/
def commentRound (start : Position) (_ : Unit) : ByteCursor (Unit ⊕ Unit) := do
  if ← atEnd then fail .unterminatedComment start 2
  else if (← peek) == '*' && (← peekNext) == '/' then
    let _ ← advance
    let _ ← advance
    return .inr ()
  else
    let _ ← advance
    return .inl ()

/-- Takes the rest of the block comment that begins at `start`, behind its first character. -/
def skipComment (start : Position) : ByteCursor Unit := do
  let _ ← advance
  rounds (commentRound start) ()

/-! ### Strings, numbers and words -/

/-- Takes another byte or escape of the string that begins at `start`, or its closing quote. What
the string stands for so far is in `found`, in reverse order. -/
def stringRound (start : Position) (found : List UInt8) :
    ByteCursor (List UInt8 ⊕ List UInt8) := do
  if ← atEnd then fail .unterminatedString start 1
  else
    let place ← here
    let b ← advance
    if b = 0x22 then return .inr found.reverse
    else if b = 0x5c then
      if ← atEnd then fail .unterminatedString start 1
      else
        let e ← advance
        match unescapeByte? e with
        | some v => return .inl (v :: found)
        | none =>
          throw ⟨"L005", "unknown escape sequence `\\" ++ (Char.ofUInt8 e).toString ++ "`",
            ⟨place, 2⟩⟩
    else return .inl (b :: found)

/-- Reads the string that begins at `start`, behind its opening quote. -/
def string (start : Position) : ByteCursor Kind := do
  let value ← rounds (stringRound start) []
  return .literal (.str (← textOf value))

/-- Takes digits. -/
def skipDigits : ByteCursor Unit := skipWhile do return Text.isDigit (← peek)

/-- Takes what continues a word. -/
def skipWord : ByteCursor Unit := skipWhile do return isWordPart (← peek)

/-- The literal that is written by digits, with a point between them or without. -/
def literalOf? (pointed : Bool) (text : String) : Option Literal :=
  let cs := text.toList
  if pointed then
    some (.decimal (Decimal.ofDigits (cs.takeWhile Text.isDigit) (cs.dropWhile Text.isDigit).tail))
  else if Text.digitsValue cs ≤ maxInt then some (.int (Int64.ofNat (Text.digitsValue cs)))
  else none

/-- Fails with the text from `start` up to here, which is no number. -/
def failNumber (start : Position) : ByteCursor α := do
  let text ← textFrom start.offset
  fail (.invalidNumber text) start text.utf8ByteSize

/-- Takes a point and the digits behind it, if they belong to the number. -/
def skipFraction (pointed : Bool) : ByteCursor Unit :=
  if pointed then do
    let _ ← advance
    skipDigits
  else return ()

/-- Reads the number that begins at `start`, behind its first digit. A point belongs to it only if a
digit follows. -/
def number (start : Position) : ByteCursor Kind := do
  skipDigits
  let pointed := (← peek) == '.' && Text.isDigit (← peekNext)
  skipFraction pointed
  if isWordStart (← peek) then
    skipWord
    failNumber start
  else
    match literalOf? pointed (← textFrom start.offset) with
    | some value => return .literal value
    | none => failNumber start

/-- Reads the word that begins at `start`, behind its first character. -/
def word (start : Position) : ByteCursor Kind := do
  skipWord
  return .ofWord (← textFrom start.offset)

/-! ### Tokens -/

/-- Fails with the character at `start`, of which the first byte is `c`. -/
def failCharacter (start : Position) (c : Char) : ByteCursor α := do
  let c ← charAt start.offset c
  advanceBy (c.utf8Size - 1)
  fail (.unexpectedCharacter c) start c.utf8Size

/-- Reads the symbol that begins at `start`, behind its first character. -/
def symbol (start : Position) (c : Char) : ByteCursor Kind := do
  match pair? c (← peek) with
  | some s =>
    let _ ← advance
    return .symbol s
  | none =>
    match single? c with
    | some s => return .symbol s
    | none => if c = '!' then fail .bareBang start 1 else failCharacter start c

/-- Reads what begins at `start`, behind its first byte `c`. -/
def kindFrom (start : Position) (c : Char) : ByteCursor Kind :=
  if c = '"' then string start
  else if Text.isDigit c then number start
  else if isWordStart c then word start
  else symbol start c

/-- Takes a token or a comment. -/
def nextToken : ByteCursor (Option Token) := do
  let start ← here
  let c := Char.ofUInt8 (← advance)
  if c == '/' && (← peek) == '/' then
    skipLine
    return none
  else if c == '/' && (← peek) == '*' then
    skipComment start
    return none
  else
    let kind ← kindFrom start c
    return some ⟨kind, ← textFrom start.offset, start⟩

/-- Takes blank space and what follows it; `found` holds the tokens before it in reverse order. -/
def tokenRound (found : List Token) : ByteCursor (List Token ⊕ List Token) := do
  skipSpace
  if ← atEnd then return .inr (⟨.endOfInput, "", ← here⟩ :: found).reverse
  else
    match ← nextToken with
    | some t => return .inl (t :: found)
    | none => return .inl found

end ByteCursor

/-- The tokens of the source with the given bytes. -/
def Token.scanBytes (bytes : List UInt8) : Option (Except ScanReport (List Token)) :=
  (ByteCursor.roundsFrom ByteCursor.tokenRound bytes .start []).map (Except.map Prod.fst)

end SafariScript
