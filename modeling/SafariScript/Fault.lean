import SafariScript.Literal
import SafariScript.Program.Basic
import SafariScript.Value.Ty

/-!
# Faults of evaluation

What can go wrong while a program runs. A `Fault` is a cause with what is needed to report it; its
category (`Fault.Category`) has the code, and `Fault.message` the wording. A `RuntimeError` is a
fault at a place in the program.
-/

namespace SafariScript

/-- Where a value of the wrong kind was given. -/
inductive Place where
  /-- The one argument of a native function. -/
  | native (name : String)
  /-- A named argument of a native function. -/
  | argument (function param : String)
  /-- A property that is written to. -/
  | property (ty : Ty) (name : String)
  /-- The argument of a method. -/
  | method (ty : Ty) (name : String)
deriving DecidableEq

/-- How reports name the place. -/
def Place.text : Place → String
  | native name => "`" ++ name ++ "`"
  | argument function param => "`" ++ function ++ "` " ++ param
  | property ty name => "`" ++ ty.name ++ "." ++ name ++ "`"
  | method ty name => "`" ++ ty.name ++ "->" ++ name ++ "`"

/-- What went wrong. -/
inductive Fault where
  | undefinedVariable (name : String)
  | unknownProperty (ty : Ty) (name : String)
  | readOnlyProperty (ty : Ty) (name : String)
  | unknownMethod (ty : Ty) (name : String)
  /-- A value of another kind than those expected. -/
  | wrongType (place : Place) (expected : List Ty) (got : Ty)
  /-- An operator between values that it does not apply to. -/
  | operandTypes (op : BinaryOp) (left right : Ty)
  /-- A minus sign before a value that is no number. -/
  | notANumber (got : Ty)
  /-- The count of a repetition is no integer. -/
  | notACount (got : Ty)
  /-- One of the two sides of a throw is of the wrong kind. -/
  | badThrow (expected got : Ty)
  | divisionByZero (op : BinaryOp)
  | wrongArity (name : String) (expected got : Nat)
  | wrongArityRange (name : String) (least most got : Nat)
  | invalidAssignmentTarget
  | notCallable (ty : Ty)
  | notAnObject (ty : Ty)
  /-- No member of the team has the name. -/
  | noSuchMember (name : String)
  /-- A method that takes no named arguments was given one. -/
  | namedArgument (method key : String)
  /-- A counter cannot be negative. -/
  | negativeCounter (place : Place) (n : Int64)
  /-- A counter cannot be raised by a negative amount. -/
  | negativeAmount (method : String) (n : Int64)
  /-- A selection without any criterion. -/
  | noCriterion
  /-- The result of an operator does not fit in an integer. -/
  | overflow (operator : String)
  /-- A counter would not fit in an integer. -/
  | counterOverflow (method : String)
  | exitOutsideLoop
  | stackOverflow (limit : Nat) (name : String)
  | stepLimitExceeded (limit : Nat)
  /-- The sink takes no more output. -/
  | sinkClosed
deriving DecidableEq

namespace Fault

/-- The categories of faults. -/
inductive Category where
  | undefinedVariable
  | unknownProperty
  | readOnlyProperty
  | unknownMethod
  | typeMismatch
  | divisionByZero
  | arityMismatch
  | invalidAssignmentTarget
  | notCallable
  | notAnObject
  | notFound
  | invalidArgument
  | overflow
  | exitOutsideLoop
  | stackOverflow
  | stepLimitExceeded
  | output
deriving DecidableEq, Inhabited

/-- The code under which the category is reported. -/
def Category.code : Category → String
  | undefinedVariable => "R001"
  | unknownProperty => "R002"
  | readOnlyProperty => "R003"
  | unknownMethod => "R004"
  | typeMismatch => "R005"
  | divisionByZero => "R006"
  | arityMismatch => "R007"
  | invalidAssignmentTarget => "R008"
  | notCallable => "R009"
  | notAnObject => "R010"
  | notFound => "R011"
  | invalidArgument => "R012"
  | overflow => "R013"
  | exitOutsideLoop => "R014"
  | stackOverflow => "R015"
  | stepLimitExceeded => "R016"
  | output => "R017"

/-- The category of a fault. -/
def category : Fault → Category
  | undefinedVariable _ => .undefinedVariable
  | unknownProperty _ _ => .unknownProperty
  | readOnlyProperty _ _ => .readOnlyProperty
  | unknownMethod _ _ => .unknownMethod
  | wrongType _ _ _ => .typeMismatch
  | operandTypes _ _ _ => .typeMismatch
  | notANumber _ => .typeMismatch
  | notACount _ => .typeMismatch
  | badThrow _ _ => .typeMismatch
  | divisionByZero _ => .divisionByZero
  | wrongArity _ _ _ => .arityMismatch
  | wrongArityRange _ _ _ _ => .arityMismatch
  | invalidAssignmentTarget => .invalidAssignmentTarget
  | notCallable _ => .notCallable
  | notAnObject _ => .notAnObject
  | noSuchMember _ => .notFound
  | namedArgument _ _ => .invalidArgument
  | negativeCounter _ _ => .invalidArgument
  | negativeAmount _ _ => .invalidArgument
  | noCriterion => .invalidArgument
  | overflow _ => .overflow
  | counterOverflow _ => .overflow
  | exitOutsideLoop => .exitOutsideLoop
  | stackOverflow _ _ => .stackOverflow
  | stepLimitExceeded _ => .stepLimitExceeded
  | sinkClosed => .output

/-- The wording of a fault. -/
def message : Fault → String
  | undefinedVariable name => "undefined variable `" ++ name ++ "`"
  | unknownProperty ty name => "`" ++ ty.name ++ "` has no property `" ++ name ++ "`"
  | readOnlyProperty ty name => "`" ++ ty.name ++ "." ++ name ++ "` is read-only"
  | unknownMethod ty name => "`" ++ ty.name ++ "` has no method `" ++ name ++ "`"
  | wrongType place expected got =>
    place.text ++ " expects " ++ String.intercalate " or " (expected.map Ty.name) ++ ", got " ++
      got.name
  | operandTypes op left right =>
    "cannot apply `" ++ op.text ++ "` to " ++ left.name ++ " and " ++ right.name
  | notANumber got => "unary `-` needs a number, got " ++ got.name
  | notACount got => "`repeat` count must be an int, got " ++ got.name
  | badThrow expected got => "`throwBall` expects a " ++ expected.name ++ ", got " ++ got.name
  | divisionByZero op => "division by zero in `" ++ op.text ++ "`"
  | wrongArity name expected got =>
    "`" ++ name ++ "` expects " ++ toString expected ++ " argument(s), got " ++ toString got
  | wrongArityRange name least most got =>
    "`" ++ name ++ "` expects " ++ toString least ++ " to " ++ toString most ++
      " arguments, got " ++ toString got
  | invalidAssignmentTarget => "only variables and properties can be assigned"
  | notCallable ty => ty.name ++ " is not callable"
  | notAnObject ty => ty.name ++ " has no properties or methods"
  | noSuchMember name => "no Pokemon named \"" ++ name ++ "\" in the team"
  | namedArgument method key =>
    "`" ++ method ++ "` does not take named arguments (got `" ++ key ++ "=`)"
  | negativeCounter place n => place.text ++ " cannot be negative (got " ++ intText n ++ ")"
  | negativeAmount method n => "`" ++ method ++ "` needs a non-negative amount, got " ++ intText n
  | noCriterion => "`filter` needs at least one `attribute=value` criterion"
  | overflow operator => "integer overflow in `" ++ operator ++ "`"
  | counterOverflow method => "`" ++ method ++ "` overflowed the counter"
  | exitOutsideLoop =>
    "`run` reached the edge of a function or the program without an enclosing `repeat`"
  | stackOverflow limit name =>
    "call depth exceeded " ++ toString limit ++ " in `" ++ name ++ "`"
  | stepLimitExceeded limit => "step budget of " ++ toString limit ++ " exhausted"
  | sinkClosed => "failed to write output: closed"

end Fault

/-- A fault at a place in the program. -/
structure RuntimeError where
  fault : Fault
  span : Span
deriving DecidableEq

end SafariScript
