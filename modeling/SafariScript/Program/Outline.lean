import SafariScript.Program.Basic

/-!
# Outlines

A program written as nested parentheses. An expression takes one line; a body that is not empty
starts a new line for each of its statements, behind the indentation of the body. The bodies of a
condition, a repetition and a definition are indented by two more than the statement they belong
to, a block that stands alone by as much as itself.
-/

namespace SafariScript

mutual

/-- The outline of an expression. -/
def Expr.outline : Expr → String
  | .literal value _ => value.text
  | .list items _ => "(list" ++ outlines items ++ ")"
  | .ident name _ => name
  | .unary op operand _ => "(" ++ op.text ++ " " ++ operand.outline ++ ")"
  | .binary op left right _ => "(" ++ op.text ++ " " ++ left.outline ++ " " ++ right.outline ++ ")"
  | .logical op left right _ => "(" ++ op.text ++ " " ++ left.outline ++ " " ++ right.outline ++ ")"
  | .assign target value _ => "(= " ++ target.outline ++ " " ++ value.outline ++ ")"
  | .call callee args _ => "(call " ++ callee.outline ++ outlines args ++ ")"
  | .property object name _ => "(. " ++ object.outline ++ " " ++ name ++ ")"
  | .method object name args named _ =>
    "(-> " ++ object.outline ++ " " ++ name ++ outlines args ++ namedOutlines named ++ ")"

/-- The outlines of expressions, each behind a blank. -/
def outlines : List Expr → String
  | [] => ""
  | e :: es => " " ++ e.outline ++ outlines es

/-- The outlines of named arguments, each behind a blank. -/
def namedOutlines : List (String × Expr) → String
  | [] => ""
  | (name, e) :: es => " " ++ name ++ "=" ++ e.outline ++ namedOutlines es

end

/-- So many blanks. -/
def blanks (n : Nat) : String := String.ofList (List.replicate n ' ')

mutual

/-- The outline of a statement that stands behind `indent` blanks. -/
def Stmt.outline (indent : Nat) : Stmt → String
  | .expr value => value.outline
  | .var name none _ => "(var " ++ name ++ ")"
  | .var name (some init) _ => "(var " ++ name ++ " " ++ init.outline ++ ")"
  | .print value _ => "(print " ++ value.outline ++ ")"
  | .cond condition body none _ =>
    "(if " ++ condition.outline ++ " " ++ bodyOutline (indent + 2) body ++ ")"
  | .cond condition body (some otherwise) _ =>
    "(if " ++ condition.outline ++ " " ++ bodyOutline (indent + 2) body ++ " " ++
      bodyOutline (indent + 2) otherwise ++ ")"
  | .block body _ => bodyOutline indent body
  | .loop count body _ =>
    "(repeat " ++ count.outline ++ " " ++ bodyOutline (indent + 2) body ++ ")"
  | .define name params body _ =>
    "(define " ++ name ++ " (" ++ String.intercalate " " params ++ ") " ++
      bodyOutline (indent + 2) body ++ ")"
  | .throwBall zone target _ => "(throwBall " ++ zone.outline ++ " " ++ target.outline ++ ")"
  | .run _ => "(run)"

/-- The outline of a body whose statements stand behind `indent` blanks. -/
def bodyOutline (indent : Nat) : List Stmt → String
  | [] => "(block)"
  | s :: ss => "(block" ++ linesOutline indent (s :: ss) ++ ")"

/-- The outlines of statements, each on a new line behind `indent` blanks. -/
def linesOutline (indent : Nat) : List Stmt → String
  | [] => ""
  | s :: ss => "\n" ++ blanks indent ++ s.outline indent ++ linesOutline indent ss

end

/-- The outline of a program: that of each statement on a new line. -/
def Program.outline (program : Program) : String :=
  String.intercalate "\n" (program.map (Stmt.outline 0))

end SafariScript
