import SafariScript.Main
import SafariScript.Proofs.Evaluation.Sequence
import SafariScript.Proofs.Evaluation.Termination
import SafariScript.Proofs.Grammar.Statements
import SafariScript.Store.Release
import SafariScript.Proofs.Evaluation.CutOff
import SafariScript.Proofs.Evaluation.Budget
import SafariScript.Proofs.Scanning.Complete
import SafariScript.Proofs.Evaluation.Scopes
import SafariScript.Proofs.Evaluation.Reachable
import SafariScript.Proofs.Store.Sharing
import SafariScript.Proofs.Evaluation.Noninterference
import SafariScript.Proofs.Scanning.Tiling
import SafariScript.Proofs.Scanning.Seam
import SafariScript.Proofs.Grammar.Joined
import SafariScript.Proofs.Evaluation.Conduct
import SafariScript.Proofs.Evaluation.Exits
import SafariScript.Proofs.Evaluation.Counters
import SafariScript.Proofs.Evaluation.Iterations
import SafariScript.Proofs.Grammar.Origin
import SafariScript.Proofs.Grammar.Failing
import SafariScript.Proofs.Evaluation.Diagnostics
import SafariScript.Proofs.Decimal.Rounding
import SafariScript.Proofs.Decimal.Written
import SafariScript.Proofs.Outline.Forms
import SafariScript.Proofs.Outline.Sources
import SafariScript.Proofs.Evaluation.Places
import SafariScript.Proofs.Evaluation.Transcript
import SafariScript.Proofs.Session.Chunks
import SafariScript.Proofs.Session.Agreement
import SafariScript.Proofs.Grammar.Braces
import SafariScript.Proofs.Grammar.Narrowing
import SafariScript.Proofs.Grammar.Nesting
import SafariScript.Proofs.Session.Reports
import SafariScript.Proofs.Evaluation.CallDepth
import SafariScript.Proofs.Scanning.Lexemes
import SafariScript.Proofs.Scanning.Longest
import SafariScript.Proofs.Scanning.Spacing
import SafariScript.Proofs.Evaluation.ClosedSink
import SafariScript.Proofs.Evaluation.OneRoot
import SafariScript.Proofs.Scanning.Marks
import SafariScript.Proofs.Store.Aliasing
import SafariScript.Proofs.Grammar.Cursor
import SafariScript.Proofs.Scanning.Literals
import SafariScript.Proofs.Scanning.Bytes.Tokens
import SafariScript.Proofs.Evaluation.Released
import SafariScript.Proofs.Grammar.Agreement
import SafariScript.Proofs.Grammar.Ended
import SafariScript.Proofs.Store.Objects
import SafariScript.Proofs.Store.Throws
import SafariScript.Proofs.Store.Properties
import SafariScript.Proofs.Store.Numbers
import SafariScript.Proofs.Store.Release
import SafariScript.Proofs.Evaluation.Numbering
import SafariScript.Proofs.Evaluation.Hosts
import SafariScript.Proofs.Store.Rosters
import SafariScript.Proofs.Store.Selection
import SafariScript.Proofs.Value.Display
import SafariScript.Proofs.Value.Arithmetic
import SafariScript.Proofs.Outline.Layout
import SafariScript.Proofs.Grammar.Descent
import SafariScript.Proofs.Grammar.Following
import SafariScript.Proofs.Grammar.Progress
