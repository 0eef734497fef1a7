import SafariScript.Fault
import SafariScript.Value.Basic

/-!
# Operators

What the operators make of values. Equality applies to all values, and `+` joins texts as soon as
one side is a string. Two integers stay integers, exactly or not at all; an integer beside a
decimal is turned into one.
-/

namespace SafariScript

/-- The result of checked integer arithmetic. -/
def checked (op : BinaryOp) : Option Int64 → Except Fault Value
  | some n => .ok (.int n)
  | none => .error (.overflow op.text)

namespace BinaryOp

/-- An operator between two integers. -/
def onInts (op : BinaryOp) (a b : Int64) : Except Fault Value :=
  match op with
  | add => checked op (Integer.add? a b)
  | sub => checked op (Integer.sub? a b)
  | mul => checked op (Integer.mul? a b)
  | div => if b = 0 then .error (.divisionByZero op) else checked op (Integer.div? a b)
  | mod => if b = 0 then .error (.divisionByZero op) else checked op (Integer.rem? a b)
  | eq => .ok (.bool (a == b))
  | notEq => .ok (.bool (a != b))
  | lt => .ok (.bool (a < b))
  | ltEq => .ok (.bool (a ≤ b))
  | gt => .ok (.bool (b < a))
  | gtEq => .ok (.bool (b ≤ a))

/-- An operator between two decimals; `left` and `right` are the kinds of the operands before they
were turned into decimals. -/
def onDecimals (op : BinaryOp) (left right : Ty) (a b : Float) : Except Fault Value :=
  match op with
  | add => .ok (.decimal (a + b))
  | sub => .ok (.decimal (a - b))
  | mul => .ok (.decimal (a * b))
  | div => if b == 0.0 then .error (.divisionByZero op) else .ok (.decimal (a / b))
  | mod => .error (.operandTypes op left right)
  | eq => .ok (.bool (a == b))
  | notEq => .ok (.bool (a != b))
  | lt => .ok (.bool (a < b))
  | ltEq => .ok (.bool (a ≤ b))
  | gt => .ok (.bool (b < a))
  | gtEq => .ok (.bool (b ≤ a))

/-- An operator between two numbers. -/
def onNumbers (op : BinaryOp) (l r : Value) : Except Fault Value :=
  match l, r with
  | .int a, .int b => op.onInts a b
  | _, _ =>
    match l.toDecimal?, r.toDecimal? with
    | some a, some b => op.onDecimals l.ty r.ty a b
    | _, _ => .error (.operandTypes op l.ty r.ty)

/-- An operator between two values, where `text` is what a script prints for a value. -/
def apply (text : Value → String) (op : BinaryOp) (l r : Value) : Except Fault Value :=
  match op, l, r with
  | eq, _, _ => .ok (.bool (l.equals r))
  | notEq, _, _ => .ok (.bool (!l.equals r))
  | add, .str _, _ => .ok (.str (text l ++ text r))
  | add, _, .str _ => .ok (.str (text l ++ text r))
  | _, _, _ => op.onNumbers l r

end BinaryOp

/-- A unary operator before a value. -/
def UnaryOp.apply (op : UnaryOp) (v : Value) : Except Fault Value :=
  match op, v with
  | neg, .int n => checked .sub (Integer.neg? n)
  | neg, .decimal x => .ok (.decimal (-x))
  | neg, _ => .error (.notANumber v.ty)
  | not, _ => .ok (.bool !v.isTruthy)

/-- Whether the left operand alone decides. -/
def LogicalOp.decidedBy (op : LogicalOp) (left : Bool) : Bool :=
  match op with
  | and => !left
  | or => left

end SafariScript
