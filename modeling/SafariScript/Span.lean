/-!
# Places in a source text

A `Position` is the place of a character, a `Span` the place of a stretch of text. Lines and
columns start at one, offsets at zero. Columns, offsets and lengths count **bytes** of the UTF-8
form, and only a line feed starts a new line: `Position.after` moves past one character and
`Position.afterAll` past several.
-/

namespace SafariScript

/-- The place of a character: line and column for the reader, offset in bytes for programs. -/
structure Position where
  line : Nat
  column : Nat
  offset : Nat
deriving DecidableEq, Inhabited

namespace Position

/-- The place of the first character of a text. -/
def start : Position := ⟨1, 1, 0⟩

/-- The place that follows `c`, when `c` stands at `p`. -/
def after (p : Position) (c : Char) : Position :=
  if c = '\n' then ⟨p.line + 1, 1, p.offset + 1⟩
  else ⟨p.line, p.column + c.utf8Size, p.offset + c.utf8Size⟩

/-- The place that follows the characters `cs`, when the first of them stands at `p`. -/
def afterAll (p : Position) (cs : List Char) : Position := cs.foldl after p

@[simp] theorem afterAll_nil (p : Position) : p.afterAll [] = p := rfl

@[simp] theorem afterAll_cons (p : Position) (c : Char) (cs : List Char) :
    p.afterAll (c :: cs) = (p.after c).afterAll cs := rfl

/-- To go past texts in a row is to go past one after the other. -/
theorem afterAll_append (p : Position) (cs ds : List Char) :
    p.afterAll (cs ++ ds) = (p.afterAll cs).afterAll ds :=
  List.foldl_append

end Position

/-- The place and the length of a stretch of text. -/
structure Span extends Position where
  len : Nat
deriving DecidableEq, Inhabited

end SafariScript
