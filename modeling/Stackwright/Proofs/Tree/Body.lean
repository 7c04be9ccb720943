import Stackwright.Proofs.Tree.Reading

/-! The recursion of the parser without budgets. Each rule that takes part in it is written with the rules
that it calls as parameters, and `body` is one level of the recursion, for all goals at once. The rules of
the parser are levels of it that stand on each other, one for each unit of the budget. -/

set_option autoImplicit false

namespace Stackwright.Parser

/-- What a rule that takes part in the recursion is asked for. -/
inductive Goal
  | expression (minimum : Nat)
  | operators (minimum : Nat) (left : Expr)
  | operand
  | call (callee : Name)
  | arguments
  | printValues
  | statement
  | block
  | statements
  | parameters
  | functions
  | program

abbrev Goal.Value : Goal → Type
  | .expression _ | .operators _ _ | .operand => Expr
  | .call _ => Call
  | .arguments => List Expr
  | .printValues => List PrintItem
  | .statement => Stmt
  | .block => Block
  | .statements => List Stmt
  | .parameters => List Parameter
  | .functions => List Function
  | .program => Program

/-- A rule for every goal. -/
abbrev Rules := (goal : Goal) → Parser goal.Value

section Body

variable (rules : Rules)

def operandBy : Parser Expr := do
  let token ← peek
  match token.kind with
  | .intLiteral | .floatLiteral | .charLiteral | .stringLiteral
  | .keyword .trueWord | .keyword .falseWord => literal token
  | .identifier =>
    let name ← identifier
    if ← check (.mark .leftParen) then return Call.expr (← rules (.call name))
    else return .named name
  | .mark .minus =>
    let _ ← advance
    let operand : Expr ← rules (.expression UnaryOperator.negate.power)
    return .unary .negate operand ⟨← freshId, token.span.merge operand.span⟩
  | .mark .leftParen =>
    let _ ← advance
    let inner ← rules (.expression 0)
    let _ ← expect (.mark .rightParen)
    return inner
  | .endOfFile => throw (.unexpectedEnd token.span)
  | other => throw (.expectedExpression token.span other.description)

def callBy (callee : Name) : Parser Call := do
  let opening := (← expect (.mark .leftParen)).span
  let list ← freshId
  let arguments ← if ← check (.mark .rightParen) then pure [] else rules .arguments
  let closing := (← expect (.mark .rightParen)).span
  return ⟨callee, arguments, ⟨list, opening.merge closing⟩, ⟨← freshId, callee.node.span.merge closing⟩⟩

def declarationBy : Parser Stmt := do
  let keyword ← advance
  let id ← freshId
  let name ← identifier
  let _ ← expect (.mark .assign)
  let value ← rules (.expression 0)
  let finish := (← expect (.mark .semicolon)).span
  return .declare (keyword.kind == .keyword .mutWord) name value ⟨id, keyword.span.merge finish⟩

def assignmentBy : Parser Stmt := do
  let id ← freshId
  let target ← identifier
  let _ ← expect (.mark .assign)
  let value ← rules (.expression 0)
  let finish := (← expect (.mark .semicolon)).span
  return .assign target value ⟨id, target.node.span.merge finish⟩

def callStatementBy : Parser Stmt := do
  let start := (← expect (.keyword .callWord)).span
  let id ← freshId
  let callee ← identifier
  let call ← rules (.call callee)
  let finish := (← expect (.mark .semicolon)).span
  return .call call ⟨id, start.merge finish⟩

def returnStatementBy : Parser Stmt := do
  let start := (← expect (.keyword .returnWord)).span
  let id ← freshId
  let value ← if ← check (.mark .semicolon) then pure none else some <$> rules (.expression 0)
  let finish := (← expect (.mark .semicolon)).span
  return .ret value ⟨id, start.merge finish⟩

def printStatementBy : Parser Stmt := do
  let start := (← expect (.keyword .printWord)).span
  let id ← freshId
  let leading := (← separators).filterMap separatorItem?
  let items ← rules .printValues
  let finish := (← expect (.mark .semicolon)).span
  return .print (leading ++ items) ⟨id, start.merge finish⟩

def branchBy : Parser Stmt := do
  let start := (← expect (.keyword .ifWord)).span
  let id ← freshId
  let _ ← expect (.mark .leftParen)
  let condition ← rules (.expression 0)
  let _ ← expect (.mark .rightParen)
  let thenBlock : Block ← rules .block
  let elseBlock ← if ← eat (.keyword .elseWord) then some <$> rules .block else pure none
  let finish := (elseBlock.getD thenBlock).span
  return .branch condition thenBlock elseBlock ⟨id, start.merge finish⟩

def statementBy : Parser Stmt := do
  let token ← peek
  match token.kind with
  | .keyword .immWord | .keyword .mutWord => declarationBy rules
  | .identifier => assignmentBy rules
  | .keyword .printWord => printStatementBy rules
  | .keyword .callWord => callStatementBy rules
  | .keyword .ifWord => branchBy rules
  | .keyword .returnWord => returnStatementBy rules
  | .mark .leftBrace => return .nested (← rules .block)
  | .endOfFile => throw (.unexpectedEnd token.span)
  | other => throw (.expectedStatement token.span other.description)

def parameterListBy : Parser (List Parameter × Node) := do
  let opening := (← expect (.mark .leftParen)).span
  let id ← freshId
  let list ← if ← check (.mark .rightParen) then pure [] else rules .parameters
  let closing := (← expect (.mark .rightParen)).span
  return (list, ⟨id, opening.merge closing⟩)

def functionBy : Parser Function := do
  let start := (← expect (.keyword .funcWord)).span
  let id ← freshId
  let result ← typeMark
  let name ← identifier
  let (parameters, list) ← parameterListBy rules
  let body : Block ← rules .block
  return ⟨result, name, parameters, list, body, ⟨id, start.merge body.span⟩⟩

def mainBlockBy : Parser Block := do
  let _ ← expect (.keyword .mainWord)
  rules .block

/-- One level of the recursion: how each goal is met when `rules` meets the goals it leads to. -/
def body : Rules
  | .expression minimum => do
    let left ← rules .operand
    rules (.operators minimum left)
  | .operators minimum left => do
    match BinaryOperator.ofKind? (← peek).kind with
    | none => return left
    | some operator =>
      if operator.leftPower < minimum then return left
      else
        let _ ← advance
        let right : Expr ← rules (.expression operator.rightPower)
        let node : Node := ⟨← freshId, left.span.merge right.span⟩
        rules (.operators minimum (.binary operator left right node))
  | .operand => operandBy rules
  | .call callee => callBy rules callee
  | .arguments => do
    let first ← rules (.expression 0)
    if ← eat (.mark .comma) then return first :: (← rules .arguments)
    else return [first]
  | .printValues => do
    if startsExpression (← peek).kind then
      let value ← rules (.expression 0)
      if ← check (.mark .semicolon) then return [.value value]
      else
        let marks ← separators
        if marks.isEmpty then
          let found ← peek
          throw (.expectedToken found.span "',', '\\s', '\\n' or ';'" found.kind.description)
        else return .value value :: marks.filterMap separatorItem? ++ (← rules .printValues)
    else return []
  | .statement => statementBy rules
  | .block => do
    let start := (← openBlock).span
    let id ← freshId
    let statements ← rules .statements
    let finish := (← expect (.mark .rightBrace)).span
    return .mk statements ⟨id, start.merge finish⟩
  | .statements => do
    let token ← peek
    if token.kind == .mark .rightBrace || token.kind == .endOfFile then return []
    else
      let statement ← ofRecovering (recover (rules .statement) (recoverStatement token.span))
      return statement :: (← rules .statements)
  | .parameters => do
    let first ← parameter
    if ← eat (.mark .comma) then return first :: (← rules .parameters)
    else return [first]
  | .functions => do
    if (← peek).kind = .keyword .funcWord then
      let definition ← ofRecovering (recover (do return [← functionBy rules]) recoverFunction)
      return definition ++ (← rules .functions)
    else return []
  | .program => do
    let start ← get
    let id ← freshId
    let functions ← rules .functions
    let main ← ofRecovering (recover (mainBlockBy rules) recoverMain)
    modify expectEnd
    let finish ← get
    return ⟨functions, main, ⟨id, start.peek.span.merge finish.previousSpan⟩, finish.nextId⟩

end Body

/-- The parser's rules on a budget. -/
def within (budget : Nat) : Rules
  | .expression minimum => expressionWithin budget minimum
  | .operators minimum left => operatorsWithin budget minimum left
  | .operand => operandWithin budget
  | .call callee => callWithin budget callee
  | .arguments => argumentsWithin budget
  | .printValues => printValuesWithin budget
  | .statement => statementWithin budget
  | .block => blockWithin budget
  | .statements => ofRecovering (statementsWithin budget)
  | .parameters => parametersWithin budget
  | .functions => ofRecovering (functionsWithin budget)
  | .program => ofRecovering program

namespace Goal

/-- The budget that the parser starts the goal with. -/
def budget (cursor : Cursor) : Goal → Nat
  | .expression _ | .operators _ _ | .operand | .call _ | .arguments => expressionBudget cursor
  | .statement | .block | .statements => statementBudget cursor
  | .printValues | .parameters | .functions | .program => cursor.rest.length + 1

/-- Rules that spend from one budget are in one layer. -/
@[simp] def layer : Goal → Nat
  | .expression _ | .operators _ _ | .operand | .call _ | .arguments => 0
  | .printValues => 1
  | .statement | .block | .statements => 2
  | .parameters => 3
  | .functions => 4
  | .program => 5

end Goal

/-- The parser's rules. -/
def rules : Rules := fun goal cursor => within (goal.budget cursor) goal cursor

/-- Rules of one layer on a budget, and the parser's rules for the other goals. -/
def spending (layer budget : Nat) : Rules := fun goal =>
  if goal.layer = layer then within budget goal else rules goal

theorem within_succ (budget : Nat) (goal : Goal) :
    within (budget + 1) goal = body (spending goal.layer budget) goal := by
  cases goal with
  | expression minimum => rfl
  | operators minimum left => rfl
  | operand => rfl
  | call callee => rfl
  | arguments => rfl
  | printValues => rfl
  | statement =>
    change statementWithin (budget + 1) = statementBy (spending 2 budget)
    rw [statementWithin]
    rfl
  | block =>
    change blockWithin (budget + 1) = _
    rw [blockWithin]
    rfl
  | statements =>
    funext cursor
    change ofRecovering (statementsWithin (budget + 1)) cursor = (ite _ _ _ : Parser (List Stmt)) cursor
    unfold ofRecovering
    rw [statementsWithin_succ]
    by_cases ends : (cursor.peek.kind == .mark .rightBrace || cursor.peek.kind == .endOfFile) = true
    · rw [if_pos ends, if_pos ends]
      rfl
    · rw [if_neg ends, if_neg ends]
      rfl
  | parameters => rfl
  | functions =>
    funext cursor
    change ofRecovering (functionsWithin (budget + 1)) cursor = (ite _ _ _ : Parser (List Function)) cursor
    unfold ofRecovering
    rw [functionsWithin_succ]
    by_cases goes : cursor.peek.kind = .keyword .funcWord
    · rw [if_pos goes, if_pos goes]
      rfl
    · rw [if_neg goes, if_neg goes]
      rfl
  | program =>
    funext cursor
    change ofRecovering program cursor = _
    unfold ofRecovering
    rw [program_eq]
    rfl

end Stackwright.Parser
