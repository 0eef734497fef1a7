import SafariScript.Token.Basic

/-!
# Parse errors

What can be wrong with the tokens of a script: a cause, and the token at which it showed.
-/

namespace SafariScript

/-- The number of blocks, expressions and operands of unary operators that may enclose one
another. -/
def maxNesting : Nat := 256

namespace ParseError

/-- Why tokens do not form a program. -/
inductive Cause where
  /-- An expression has to stand here. -/
  | expectedExpression
  /-- This keyword or symbol has to stand here. -/
  | expected (kind : Token.Kind)
  /-- An identifier has to stand here. -/
  | expectedIdentifier
  /-- The left side of an assignment is neither a variable nor a property. -/
  | invalidAssignmentTarget
  /-- `run` stands neither in a condition nor in a repetition of its function. -/
  | exitOutsideControl
  /-- A statement that is one identifier. -/
  | standaloneIdentifier (name : String)
  /-- More levels than `maxNesting`. -/
  | nestingTooDeep

namespace Cause

/-- The code under which the cause is reported. -/
def code : Cause → String
  | expectedExpression => "P001"
  | expected _ => "P002"
  | expectedIdentifier => "P002"
  | invalidAssignmentTarget => "P003"
  | exitOutsideControl => "P004"
  | standaloneIdentifier _ => "P005"
  | nestingTooDeep => "P006"

/-- Advice that goes with the cause. -/
def help : Cause → Option String
  | invalidAssignmentTarget => some "only variables and `.` properties can be assigned"
  | exitOutsideControl => some "`run` must appear inside an `if` or `repeat` block"
  | standaloneIdentifier _ => some "a bare name does nothing; did you mean to call or print it?"
  | nestingTooDeep => some "pull inner parts out into variables or functions"
  | _ => none

/-- The wording of the cause, at a token of the given kind. -/
def message (found : Token.Kind) : Cause → String
  | expectedExpression => "expected expression, found " ++ found.describe
  | expected kind => "expected " ++ kind.describe ++ ", found " ++ found.describe
  | expectedIdentifier => "expected identifier, found " ++ found.describe
  | invalidAssignmentTarget => "invalid assignment target"
  | exitOutsideControl => "`run` is only allowed inside an `if` or `repeat` block"
  | standaloneIdentifier name => "standalone identifier `" ++ name ++ "` is not a statement"
  | nestingTooDeep =>
    "expression or block nested more than " ++ toString maxNesting ++ " levels deep"

end Cause

end ParseError

/-- A parse error: its cause and the token at which it showed. -/
structure ParseError where
  cause : ParseError.Cause
  token : Token

end SafariScript
