import SafariScript.CommandLine.Basic

/-!
# The program

Reads what the request needs, and writes what came of it.
-/

namespace SafariScript

/-- Writes a text at once. -/
def display (text : String) : IO Unit := do
  let out ← IO.getStdout
  out.putStr text
  out.flush

/-- Reports failures, one line each. -/
def reportAll (failures : List Failure) : IO Unit := failures.forM fun f ↦ IO.eprintln f.text

/-- Writes what came of a run, and gives the exit status. -/
def finish (outcome : CommandLine.Outcome) : IO UInt32 := do
  display outcome.output
  reportAll outcome.failures
  return outcome.exit.toUInt32

/-- Writes what an interactive session has shown and reported since the state before. -/
def showSince (before after : Interactive) : IO Unit := do
  let fresh := after.shown.length - before.shown.length
  display (String.join ((after.shown.take fresh).reverse.map Shown.text))
  reportAll (after.failures.take (after.failures.length - before.failures.length)).reverse

/-- Holds an interactive session with the lines of the standard input as they come. -/
partial def converse (input : IO.FS.Stream) (i : Interactive) : IO Unit := do
  let asked := i.ask
  showSince i asked
  let line ← input.getLine
  match Text.lines line with
  | [] => return
  | text :: _ =>
    let (goesOn, next) := asked.line text
    showSince asked next
    if goesOn then converse input next

/-- The text of a file, or of the standard input, if it can be read. -/
def readSource (path : String) : IO (Option String) := do
  try
    if path = "-" then
      return some (← (← IO.getStdin).readToEnd)
    else
      return some (← IO.FS.readFile path)
  catch _ => return none

end SafariScript

open SafariScript in
/-- Runs the program. -/
def main (args : List String) : IO UInt32 := do
  match CommandLine.request args with
  | .run o =>
    match o.file with
    | none =>
      let i := Interactive.start o.limits
      display i.screen
      converse (← IO.getStdin) i
      return 0
    | some path =>
      match ← readSource path with
      | some source => finish (CommandLine.runScript o source)
      | none =>
        IO.eprintln ("safari: cannot read " ++ path)
        return 1
  | _ => finish (CommandLine.run args "" fun _ ↦ none)
