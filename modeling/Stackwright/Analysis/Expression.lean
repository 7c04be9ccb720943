import Stackwright.Analysis.Basic

/-! The types of expressions. A part of type `error` makes the whole of type `error` without a
second diagnostic, so each mistake is reported once. -/

set_option autoImplicit false

namespace Stackwright.Checker

/-- Report a mistake in an expression. -/
def refuse (cause : Diagnostic.Cause) (span : Span) : Checker Ty := do
  report cause span
  return .error

def checkLiteral (literal : Literal) (span : Span) : Checker Ty :=
  match literal with
  | .int _ => return .int
  | .bool _ => return .bool
  | .char _ | .float _ | .string _ => refuse (.unsupported literal.description) span

def binaryType (operator : BinaryOperator) (left right : Ty) (span : Span) : Checker Ty :=
  if left.isError || right.isError then return .error
  else
    match operator.resolve? left right with
    | some result => return result
    | none => refuse (.noMatchingOperator operator.text (Ty.listText [left, right])) span

def unaryType (operator : UnaryOperator) (operand : Ty) (span : Span) : Checker Ty :=
  if operand.isError then return .error
  else
    match operator.resolve? operand with
    | some result => return result
    | none => refuse (.noMatchingOperator operator.text operand.text) span

/-- The type of a call of a name of type `function` with arguments of the given types. -/
def callType (callee : Name) (function : Ty) (arguments : List Ty) (list : Span) : Checker Ty :=
  if function.isError || arguments.any Ty.isError then return .error
  else
    match function.signature? with
    | none => refuse (.notCallable callee.text function.text) callee.node.span
    | some signature =>
      if signature.accepts arguments then return signature.result
      else
        let expected := "(" ++ Ty.listText signature.parameters ++ ")"
        refuse (.argumentMismatch callee.text expected (Ty.listText arguments)) list

mutual

/-- The type of an expression in a scope; it may be `void` for a call. -/
def checkExpr (scope : Nat) : Expr → Checker Ty
  | .literal value node => do
    let ty ← checkLiteral value node.span
    setType node.id ty
    return ty
  | .named name => return (← resolve scope name).ty
  | .binary operator left right node => do
    let left ← checkExpr scope left
    let right ← checkExpr scope right
    let ty ← binaryType operator left right node.span
    setType node.id ty
    return ty
  | .unary operator operand node => do
    let operand ← checkExpr scope operand
    let ty ← unaryType operator operand node.span
    setType node.id ty
    return ty
  | .call callee arguments list node => do
    let function ← resolve scope callee
    let arguments ← checkArguments scope arguments
    let ty ← callType callee function.ty arguments list.span
    setType node.id ty
    return ty
  | .invalid node => do
    setType node.id .error
    return .error

/-- The types of arguments, first to last. -/
def checkArguments (scope : Nat) : List Expr → Checker (List Ty)
  | [] => return []
  | argument :: rest => do
    let ty ← checkExpr scope argument
    return ty :: (← checkArguments scope rest)

end

/-- The type of an expression whose value is needed: anything but a value is reported. -/
def checkValue (scope : Nat) (context : String) (expr : Expr) : Checker Ty := do
  let ty ← checkExpr scope expr
  if ty.isValue || ty.isError then return ty
  else refuse (.notAValue context ty.text) expr.span

end Stackwright.Checker
