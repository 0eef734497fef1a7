import SafariScript.Span

/-!
# Scanning errors

What can be wrong with the characters of a script: a cause, and the stretch of text it is about.
-/

namespace SafariScript

namespace ScanError

/-- Why a text cannot be cut into tokens. -/
inductive Cause where
  /-- A character that begins no token. -/
  | unexpectedCharacter (c : Char)
  /-- A `!` that is not followed by `=`. -/
  | bareBang
  /-- A string without its closing quote. -/
  | unterminatedString
  /-- A block comment without its closing mark. -/
  | unterminatedComment
  /-- Digits that run into letters, or an integer above the largest one. -/
  | invalidNumber (text : String)
  /-- A backslash before a character that has no escape; only its first byte is looked at. -/
  | invalidEscape (c : Char)
deriving DecidableEq

/-- The first byte of a character's UTF-8 form, read as a code point. -/
def leadByte (c : Char) : Char :=
  let n := c.toNat
  Char.ofNat <|
    if n < 0x80 then n
    else if n < 0x800 then 0xc0 + n / 0x40
    else if n < 0x10000 then 0xe0 + n / 0x1000
    else 0xf0 + n / 0x40000

namespace Cause

/-- The code under which the cause is reported. -/
def code : Cause → String
  | unexpectedCharacter _ => "L001"
  | bareBang => "L001"
  | unterminatedString => "L002"
  | unterminatedComment => "L003"
  | invalidNumber _ => "L004"
  | invalidEscape _ => "L005"

/-- The wording of the cause. -/
def message : Cause → String
  | unexpectedCharacter c => "unexpected character `" ++ c.toString ++ "`"
  | bareBang => "expected `!=`, bare `!` is not valid (use `not`)"
  | unterminatedString => "unterminated string literal"
  | unterminatedComment => "unterminated block comment"
  | invalidNumber text => "invalid numeric literal `" ++ text ++ "`"
  | invalidEscape c => "unknown escape sequence `\\" ++ (leadByte c).toString ++ "`"

/-- The note beside the marked text. -/
def label : Cause → String
  | unexpectedCharacter _ => "not valid here"
  | bareBang => "not valid here"
  | unterminatedString => "string starts here"
  | unterminatedComment => "comment starts here"
  | invalidNumber _ => "malformed number"
  | invalidEscape _ => "unknown escape"

end Cause

end ScanError

/-- A scanning error: its cause and the text it marks. -/
structure ScanError where
  cause : ScanError.Cause
  span : Span
deriving DecidableEq

end SafariScript
