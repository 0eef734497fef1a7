/-!
# Sinks

Where the output of a session goes. A sink may close after so many bytes: what fits of a text is
kept, to the byte, and the writing of the text fails.
-/

namespace SafariScript

/-- The bytes written so far, and how many are accepted in all, if there is a bound. -/
structure Sink where
  written : ByteArray
  capacity : Option Nat

namespace Sink

/-- A sink that nothing was written to. -/
def new (capacity : Option Nat) : Sink := ⟨.empty, capacity⟩

/-- Writes bytes as far as they are accepted, and says whether they all were. -/
def write (sink : Sink) (bytes : ByteArray) : Bool × Sink :=
  let room := (sink.capacity.getD (sink.written.size + bytes.size)) - sink.written.size
  if bytes.size ≤ room then (true, { sink with written := sink.written ++ bytes })
  else (false, { sink with written := sink.written ++ bytes.extract 0 room })

/-- Writes a text and the end of the line. -/
def writeLine (sink : Sink) (text : String) : Bool × Sink := sink.write (text ++ "\n").toUTF8

/-- The text of bytes that begin with whole characters; the beginning of a cut-off character at the
end is shown by the replacement character. -/
def decode (bytes : ByteArray) : String :=
  match String.fromUTF8? bytes with
  | some s => s
  | none =>
    let cut? (n : Nat) : Option String := String.fromUTF8? (bytes.extract 0 (bytes.size - n))
    (([1, 2, 3].findSome? cut?).getD "") ++ "�"

/-- The text written since there were `start` bytes. -/
def textFrom (sink : Sink) (start : Nat) : String :=
  decode (sink.written.extract start sink.written.size)

end Sink

end SafariScript
