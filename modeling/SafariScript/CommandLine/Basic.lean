import SafariScript.CommandLine.Options
import SafariScript.Session.Interactive
import SafariScript.Text.Lines

/-!
# The command line

What the program does for its arguments: run a script from a file or from the standard input, show
its tokens or its outline instead, or hold an interactive session. The outcome is what is printed,
the failures that are reported, and the exit status.
-/

namespace SafariScript.CommandLine

/-- What came of a run of the program. -/
structure Outcome where
  output : String
  failures : List Failure
  exit : Nat

/-- The answer to a question for the version. -/
def versionText : String := "safari 0.1.0\n"

/-- The answer to a question for help. -/
def helpText : String :=
  "Run Safari Zone scripts, or start a REPL\n\n" ++
  "Usage: safari [OPTIONS] [FILE]\n\n" ++
  "Arguments:\n" ++
  "  [FILE]  Script to run (`-` reads stdin). Starts the REPL when omitted\n\n" ++
  "Options:\n" ++
  "      --dump-tokens    Print the token stream instead of running\n" ++
  "      --dump-ast       Print the parsed AST instead of running\n" ++
  "      --max-steps <N>  Abort after this many executed statements\n" ++
  "      --max-depth <N>  Maximum nesting of user function calls [default: 200]\n" ++
  "      --no-history     Do not load or save REPL history\n" ++
  "  -h, --help           Print help\n" ++
  "  -V, --version        Print version\n"

/-- The text behind blanks, so that it takes at least `width` characters. -/
def padLeft (width : Nat) (s : String) : String := blanks (width - s.length) ++ s

/-- The text before blanks, so that it takes at least `width` characters. -/
def padRight (width : Nat) (s : String) : String := s ++ blanks (width - s.length)

/-- The line that shows a token: its place, what it is, and its text in quotes. -/
def tokenLine (t : Token) : String :=
  padLeft 4 (toString t.position.line) ++ ":" ++ padRight 4 (toString t.position.column) ++ " " ++
    padRight 24 t.kind.describe ++ " " ++ Text.quote t.lexeme ++ "\n"

/-- The outcome of printing and then failing. -/
def failed (output : String) (failure : Failure) : Outcome := ⟨output, [failure], 1⟩

/-- Runs a script, or shows what was asked for instead. -/
def runScript (o : Options) (source : String) : Outcome :=
  match Token.scan source with
  | .error e => failed "" (.scan e)
  | .ok ts =>
    let shownTokens := if o.dumpTokens then String.join (ts.map tokenLine) else ""
    match Program.ofTokens ts with
    | .error e => failed shownTokens (.parse e)
    | .ok program =>
      let shownOutline := if o.dumpOutline then program.outline ++ "\n" else ""
      if o.dumpTokens || o.dumpOutline then ⟨shownTokens ++ shownOutline, [], 0⟩
      else
        match (Session.new o.limits (.new none)).evaluate program with
        | (none, s) => ⟨s.machine.sink.textFrom 0, [], 0⟩
        | (some failure, s) => failed (s.machine.sink.textFrom 0) failure

/-- Holds an interactive session on the lines of a text. -/
def runLines (o : Options) (input : String) : Outcome :=
  let i := Interactive.lines (Text.lines input) (.start o.limits)
  ⟨i.screen, i.failures.reverse, 0⟩

/-- What the program does for its arguments, with the given text on the standard input, where
`file?` gives the texts of files. -/
def run (args : List String) (input : String) (file? : String → Option String) : Outcome :=
  match request args with
  | .usage => ⟨"", [], 2⟩
  | .help => ⟨helpText, [], 0⟩
  | .version => ⟨versionText, [], 0⟩
  | .run o =>
    match o.file with
    | none => runLines o input
    | some path =>
      match if path = "-" then some input else file? path with
      | none => ⟨"", [], 1⟩
      | some source => runScript o source

end SafariScript.CommandLine
