import SafariScript.Machine.Basic
import SafariScript.Power
import SafariScript.Text.Digits

/-!
# Options of the command line

Arguments are read from left to right. A flag may be given once, an option takes a number behind an
equals sign or as the next argument, and there is room for one file. To ask for help or for the
version takes effect at once, unless something before it was wrong.
-/

namespace SafariScript.CommandLine

open scoped Power

/-- What the arguments ask for. -/
structure Options where
  file : Option String := none
  dumpTokens : Bool := false
  dumpOutline : Bool := false
  maxSteps : Option Nat := none
  maxDepth : Option Nat := none
  noHistory : Bool := false

/-- The limits of evaluation. -/
def Options.limits (o : Options) : Limits where
  maxCallDepth := o.maxDepth.getD 200
  maxSteps := o.maxSteps

/-- What to do. -/
inductive Request where
  | usage
  | help
  | version
  | run (options : Options)

/-- A number of at most 64 bits: digits, perhaps behind a plus sign. -/
def number? (s : String) : Option Nat :=
  let digits :=
    match s.toList with
    | '+' :: cs => cs
    | cs => cs
  if !digits.isEmpty && digits.all Text.isDigit && Text.digitsValue digits < 2 ^ (64 : Nat) then
    some (Text.digitsValue digits)
  else none

/-- The name of a long argument, and what stands behind its equals sign, if it has one. -/
def splitLong (cs : List Char) : String × Option String :=
  match cs.dropWhile (· ≠ '=') with
  | [] => (String.ofList cs, none)
  | _ :: value => (String.ofList (cs.takeWhile (· ≠ '=')), some (String.ofList value))

/-- Whether an argument cannot be the value of the option before it. -/
def looksLikeOption (arg : String) : Bool :=
  match arg.toList with
  | '-' :: _ :: _ => true
  | _ => false

/-- Takes a file. -/
def Options.withFile (o : Options) (path : String) : Option Options :=
  if o.file.isSome || path.isEmpty then none else some { o with file := some path }

/-- Takes a flag. -/
def Options.withFlag (o : Options) (name : String) : Option Options :=
  match name with
  | "dump-tokens" => if o.dumpTokens then none else some { o with dumpTokens := true }
  | "dump-ast" => if o.dumpOutline then none else some { o with dumpOutline := true }
  | "no-history" => if o.noHistory then none else some { o with noHistory := true }
  | _ => none

/-- Takes an option with its value. -/
def Options.withValue (o : Options) (name value : String) : Option Options :=
  match number? value, name with
  | some n, "max-steps" => if o.maxSteps.isSome then none else some { o with maxSteps := some n }
  | some n, "max-depth" => if o.maxDepth.isSome then none else some { o with maxDepth := some n }
  | _, _ => none

/-- The options that take a value. -/
def takesValue (name : String) : Bool := name == "max-steps" || name == "max-depth"

/-- Reads files only. -/
def filesFrom (o : Options) : List String → Request
  | [] => .run o
  | path :: args =>
    match o.withFile path with
    | some o => filesFrom o args
    | none => .usage

/-- Reads the arguments that are left, with the options so far. -/
def requestFrom (o : Options) : List String → Request
  | [] => .run o
  | arg :: args =>
    match arg.toList with
    | ['-', '-'] => filesFrom o args
    | '-' :: '-' :: cs =>
      match splitLong cs with
      | ("help", none) => .help
      | ("version", none) => .version
      | (name, some value) =>
        match o.withValue name value with
        | some o => requestFrom o args
        | none => .usage
      | (name, none) =>
        if takesValue name then
          match args with
          | value :: args =>
            if looksLikeOption value then .usage
            else
              match o.withValue name value with
              | some o => requestFrom o args
              | none => .usage
          | [] => .usage
        else
          match o.withFlag name with
          | some o => requestFrom o args
          | none => .usage
    | '-' :: 'h' :: _ => .help
    | '-' :: 'V' :: _ => .version
    | '-' :: _ :: _ => .usage
    | _ =>
      match o.withFile arg with
      | some o => requestFrom o args
      | none => .usage

/-- What the arguments ask for. -/
def request (args : List String) : Request := requestFrom {} args

end SafariScript.CommandLine
