/-!
# Complete inputs

When lines are typed one by one, a chunk is handed on as soon as it is complete: no string or block
comment is open, and no brace is left to be closed. Braces in strings and comments do not count,
and a closing brace too many is left for the parser to complain about.
-/

namespace SafariScript

/-- Where in a text a character stands. -/
inductive Region where
  | code
  | string
  | lineComment
  | blockComment
deriving DecidableEq

/-- Whether the text is complete at its end, when it is read from the given region on with so many
open braces. -/
def completeFrom : Region → (depth : Int) → List Char → Bool
  | .code, depth, [] => depth ≤ 0
  | .code, depth, '"' :: cs => completeFrom .string depth cs
  | .code, depth, '/' :: '/' :: cs => completeFrom .lineComment depth cs
  | .code, depth, '/' :: '*' :: cs => completeFrom .blockComment depth cs
  | .code, depth, '{' :: cs => completeFrom .code (depth + 1) cs
  | .code, depth, '}' :: cs => completeFrom .code (depth - 1) cs
  | .code, depth, _ :: cs => completeFrom .code depth cs
  | .string, _, [] => false
  | .string, depth, '"' :: cs => completeFrom .code depth cs
  | .string, depth, '\\' :: _ :: cs => completeFrom .string depth cs
  | .string, depth, _ :: cs => completeFrom .string depth cs
  | .lineComment, depth, [] => depth ≤ 0
  | .lineComment, depth, '\n' :: cs => completeFrom .code depth cs
  | .lineComment, depth, _ :: cs => completeFrom .lineComment depth cs
  | .blockComment, _, [] => false
  | .blockComment, depth, '*' :: '/' :: cs => completeFrom .code depth cs
  | .blockComment, depth, _ :: cs => completeFrom .blockComment depth cs

/-- Whether a chunk of input is complete. -/
def isComplete (input : String) : Bool := completeFrom .code 0 input.toList

end SafariScript
