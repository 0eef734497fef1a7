import SafariScript.Program.Outline
import SafariScript.Session.Basic
import SafariScript.Session.Complete
import SafariScript.Text.Blank

/-!
# Interactive sessions

Lines are gathered until they form a complete chunk, which is then a command (it begins with a
colon) or a script for the session. What appears is a sequence of prompts and printed texts, kept
apart so that the one can be told from the other. Failures do not appear there: they are kept beside
it, each as it was reported.
-/

namespace SafariScript

/-- What appears on the screen. -/
inductive Shown where
  | prompt (text : String)
  | printed (text : String)

/-- The characters that appear. -/
def Shown.text : Shown → String
  | prompt text => text
  | printed text => text

/-- The state of an interactive session. -/
structure Interactive where
  session : Session
  /-- Whether the outline of each script is shown before it is evaluated. -/
  showOutline : Bool
  /-- The lines of the chunk that is not complete yet. -/
  pending : String
  /-- What appeared, the latest first. -/
  shown : List Shown
  /-- The failures that were reported, the latest first. -/
  failures : List Failure

namespace Interactive

/-- The line at the beginning. -/
def banner : String := "Safari REPL - :help for commands, Ctrl+D to exit\n"

/-- The answer to `:help`. -/
def helpText : String :=
  "Commands:\n  :help   show this message\n  :quit   leave the REPL (Ctrl+D works too)\n" ++
    "  :env    list global bindings\n  :ast    toggle printing the AST of each input\n"

/-- An interactive session at its beginning. -/
def start (limits : Limits) : Interactive where
  session := .new limits (.new none)
  showOutline := false
  pending := ""
  shown := [.printed banner]
  failures := []

/-- Prints a text. -/
def print (text : String) (i : Interactive) : Interactive :=
  { i with shown := .printed text :: i.shown }

/-- Asks for a line: differently at the beginning of a chunk and inside it. -/
def ask (i : Interactive) : Interactive :=
  { i with shown := .prompt (if i.pending.isEmpty then "safari> " else "...... ") :: i.shown }

/-- Prints what the session has written since there were `before` bytes. -/
def printFrom (before : Nat) (i : Interactive) : Interactive :=
  i.print (i.session.machine.sink.textFrom before)

/-- Evaluates a program, prints its output and keeps its failure. -/
def evaluate (program : Program) (i : Interactive) : Interactive :=
  let before := i.session.machine.sink.written.size
  let (failure, session) := i.session.evaluate program
  let i := printFrom before { i with session := session }
  { i with failures := failure.toList ++ i.failures }

/-- Evaluates a script, after showing its outline if that is wanted. -/
def script (source : String) (i : Interactive) : Interactive :=
  match i.session.parse source with
  | (.error failure, session) => { i with session := session, failures := failure :: i.failures }
  | (.ok program, session) =>
    let i := { i with session := session }
    (if i.showOutline then i.print (program.outline ++ "\n") else i).evaluate program

/-- The lines of `:env`. -/
def bindingLines (s : Session) : String :=
  String.join (s.globals.map fun (name, _, text) ↦ name ++ " = " ++ text ++ "\n")

/-- Obeys a command other than the one to quit. -/
def command (name : String) (i : Interactive) : Interactive :=
  match name with
  | "help" | "h" => i.print helpText
  | "env" => i.print (bindingLines i.session)
  | "ast" =>
    let i := { i with showOutline := !i.showOutline }
    i.print ("AST echo " ++ (if i.showOutline then "on" else "off") ++ "\n")
  | _ => i.print ("unknown command `:" ++ name ++ "`; try :help\n")

/-- Handles a complete chunk, and says whether the session goes on. -/
def chunk (text : String) (i : Interactive) : Bool × Interactive :=
  match Text.trimChars text.toList with
  | [] => (true, i)
  | ':' :: cs =>
    let name := String.ofList (Text.trimChars cs)
    if name = "quit" || name = "q" then (false, i) else (true, i.command name)
  | _ => (true, i.script text)

/-- Handles a line, and says whether the session goes on. -/
def line (text : String) (i : Interactive) : Bool × Interactive :=
  let text := if i.pending.isEmpty then text else i.pending ++ "\n" ++ text
  if isComplete text then chunk text { i with pending := "" }
  else (true, { i with pending := text })

/-- Asks for each line and handles it, until the session is quit or the lines end. -/
def lines : List String → Interactive → Interactive
  | [], i => i.ask
  | text :: texts, i =>
    match i.ask.line text with
    | (true, i) => lines texts i
    | (false, i) => i

/-- All that appeared. -/
def screen (i : Interactive) : String := String.join (i.shown.reverse.map Shown.text)

end Interactive

end SafariScript
