import Stackwright.Tree.Literal
import Stackwright.Tree.Parser.Cursor

/-! Expressions, by precedence climbing: an expression is an operand followed by operators
that hold it at least as tightly as asked. The rules recurse on a budget; they take a token
at least every other call, so twice the number of tokens is always enough. -/

set_option autoImplicit false

namespace Stackwright.Parser

/-- Whether a token of the kind can begin an expression. -/
def startsExpression (kind : Kind) : Bool :=
  kind.isLiteral || kind == .identifier || kind == .mark .minus || kind == .mark .leftParen

/-- A budget that the rules for expressions cannot use up. -/
def expressionBudget (cursor : Cursor) : Nat := 2 * cursor.rest.length + 4

def literal (token : Token) : Parser Expr := do
  let _ ← advance
  match Literal.ofToken token with
  | .ok value => return .literal value ⟨← freshId, token.span⟩
  | .error fault => throw fault

mutual

/-- An expression whose operators all bind at least as tightly as `minimum`. -/
def expressionWithin : (budget : Nat) → (minimum : Nat) → Parser Expr
  | 0, _ => do throw (.unexpectedEnd (← peek).span)
  | budget + 1, minimum => do
    let left ← operandWithin budget
    operatorsWithin budget minimum left

/-- Operators and their right operands, for as long as they bind tightly enough. -/
def operatorsWithin : (budget : Nat) → (minimum : Nat) → (left : Expr) → Parser Expr
  | 0, _, left => return left
  | budget + 1, minimum, left => do
    match BinaryOperator.ofKind? (← peek).kind with
    | none => return left
    | some operator =>
      if operator.leftPower < minimum then return left
      else
        let _ ← advance
        let right ← expressionWithin budget operator.rightPower
        let node : Node := ⟨← freshId, left.span.merge right.span⟩
        operatorsWithin budget minimum (.binary operator left right node)

/-- A literal, name, call, negation or expression in parentheses. -/
def operandWithin : (budget : Nat) → Parser Expr
  | 0 => do throw (.unexpectedEnd (← peek).span)
  | budget + 1 => do
    let token ← peek
    match token.kind with
    | .intLiteral | .floatLiteral | .charLiteral | .stringLiteral
    | .keyword .trueWord | .keyword .falseWord => literal token
    | .identifier =>
      let name ← identifier
      if ← check (.mark .leftParen) then return (← callWithin budget name).expr
      else return .named name
    | .mark .minus =>
      let _ ← advance
      let operand ← expressionWithin budget UnaryOperator.negate.power
      return .unary .negate operand ⟨← freshId, token.span.merge operand.span⟩
    | .mark .leftParen =>
      let _ ← advance
      let inner ← expressionWithin budget 0
      let _ ← expect (.mark .rightParen)
      return inner
    | .endOfFile => throw (.unexpectedEnd token.span)
    | other => throw (.expectedExpression token.span other.description)

/-- The argument list of a call, whose callee has been taken. -/
def callWithin : (budget : Nat) → (callee : Name) → Parser Call
  | 0, _ => do throw (.unexpectedEnd (← peek).span)
  | budget + 1, callee => do
    let opening := (← expect (.mark .leftParen)).span
    let list ← freshId
    let arguments ← if ← check (.mark .rightParen) then pure [] else argumentsWithin budget
    let closing := (← expect (.mark .rightParen)).span
    return ⟨callee, arguments, ⟨list, opening.merge closing⟩, ⟨← freshId, callee.node.span.merge closing⟩⟩

/-- One or more arguments divided by commas. -/
def argumentsWithin : (budget : Nat) → Parser (List Expr)
  | 0 => do throw (.unexpectedEnd (← peek).span)
  | budget + 1 => do
    let first ← expressionWithin budget 0
    if ← eat (.mark .comma) then return first :: (← argumentsWithin budget)
    else return [first]

end

/-- An expression whose operators all bind at least as tightly as `minimum`. -/
def expression (minimum : Nat) : Parser Expr := fun cursor =>
  expressionWithin (expressionBudget cursor) minimum cursor

/-- The argument list of a call, whose callee has been taken. -/
def call (callee : Name) : Parser Call := fun cursor =>
  callWithin (expressionBudget cursor) callee cursor

end Stackwright.Parser
