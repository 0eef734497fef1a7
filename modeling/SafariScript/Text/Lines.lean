/-!
# Lines

A text as the lines that a reader gets to see: a line ends at a line feed, and a carriage return
right before it belongs to the end. What stands behind the last line feed is a line, if there is
anything.
-/

namespace SafariScript.Text

/-- The line held in reverse order, without a carriage return at its end. -/
def closedLine : List Char → String
  | '\r' :: cs => String.ofList cs.reverse
  | cs => String.ofList cs.reverse

/-- The lines of a text whose first line begins with the characters in `held`, in reverse order. -/
def linesFrom (held : List Char) : List Char → List String
  | [] => if held.isEmpty then [] else [String.ofList held.reverse]
  | '\n' :: cs => closedLine held :: linesFrom [] cs
  | c :: cs => linesFrom (c :: held) cs

/-- The lines of a text. -/
def lines (s : String) : List String := linesFrom [] s.toList

end SafariScript.Text
