import SafariScript.Text.Printable

/-!
# Quoted text

The written form of a string that shows every character: quotes around it, a backslash form for
the quote, the backslash, tab, line feed, carriage return and NUL, the code point in hexadecimal
for any other character that is not printable, and everything else as itself.
-/

namespace SafariScript.Text

/-- How one character is written between quotes. -/
def escape (c : Char) : List Char :=
  if c = '"' then ['\\', '"']
  else if c = '\\' then ['\\', '\\']
  else if c = '\n' then ['\\', 'n']
  else if c = '\t' then ['\\', 't']
  else if c = '\r' then ['\\', 'r']
  else if c = '\x00' then ['\\', '0']
  else if isPrintable c then [c]
  else ['\\', 'u', '{'] ++ Nat.toDigits 16 c.toNat ++ ['}']

/-- The characters of the quoted form. -/
def quoteChars (cs : List Char) : List Char := '"' :: (cs.flatMap escape ++ ['"'])

/-- The string in quotes, with every character that needs it escaped. -/
def quote (s : String) : String := String.ofList (quoteChars s.toList)

end SafariScript.Text
