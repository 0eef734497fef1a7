import SafariScript.Fault
import SafariScript.Program.ParseError
import SafariScript.Token.ScanError

/-!
# Failures

Why a script did not come to its end: an error of scanning, of parsing or of evaluation. All three
are reported alike, by a code, a message, and a marked stretch of text with a note beside it.
-/

namespace SafariScript

/-- An error of any stage. -/
inductive Failure where
  | scan (e : ScanError)
  | parse (e : ParseError)
  | runtime (e : RuntimeError)

namespace Failure

/-- The code under which the failure is reported. -/
def code : Failure → String
  | scan e => e.cause.code
  | parse e => e.cause.code
  | runtime e => e.fault.category.code

/-- The wording. -/
def message : Failure → String
  | scan e => e.cause.message
  | parse e => e.cause.message e.token.kind
  | runtime e => e.fault.message

/-- The marked text. -/
def span : Failure → Span
  | scan e => e.span
  | parse e => e.token.span
  | runtime e => e.span

/-- The note beside the marked text. -/
def label : Failure → String
  | scan e => e.cause.label
  | parse _ => "here"
  | runtime _ => "while evaluating this"

/-- The length to mark: at least one byte. -/
def labelLen (f : Failure) : Nat := max f.span.len 1

/-- Advice, if there is any. -/
def help : Failure → Option String
  | parse e => e.cause.help
  | _ => none

/-- Where the failure is, as its text says it. -/
def place : Failure → String
  | runtime e => "line " ++ toString e.span.line
  | f => toString f.span.line ++ ":" ++ toString f.span.column

/-- The failure in one line. -/
def text (f : Failure) : String := "[" ++ f.code ++ "] " ++ f.place ++ ": " ++ f.message

end Failure

end SafariScript
