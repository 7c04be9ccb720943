import Stackwright.Tree.Parser.Expression

/-! Statements and blocks. A statement that cannot be read is recorded, replaced by an
`invalid` node, and reading goes on behind the next `;` or at the next closing brace. -/

set_option autoImplicit false

namespace Stackwright.Parser

/-- `imm name := value;` or `mut name := value;` -/
def declaration : Parser Stmt := do
  let keyword ← advance
  let id ← freshId
  let name ← identifier
  let _ ← expect (.mark .assign)
  let value ← expression 0
  let finish := (← expect (.mark .semicolon)).span
  return .declare (keyword.kind == .keyword .mutWord) name value ⟨id, keyword.span.merge finish⟩

/-- `target := value;` -/
def assignment : Parser Stmt := do
  let id ← freshId
  let target ← identifier
  let _ ← expect (.mark .assign)
  let value ← expression 0
  let finish := (← expect (.mark .semicolon)).span
  return .assign target value ⟨id, target.node.span.merge finish⟩

/-- `call callee(arguments);` -/
def callStatement : Parser Stmt := do
  let start := (← expect (.keyword .callWord)).span
  let id ← freshId
  let callee ← identifier
  let call ← call callee
  let finish := (← expect (.mark .semicolon)).span
  return .call call ⟨id, start.merge finish⟩

/-- `return;` or `return value;` -/
def returnStatement : Parser Stmt := do
  let start := (← expect (.keyword .returnWord)).span
  let id ← freshId
  let value ← if ← check (.mark .semicolon) then pure none else some <$> expression 0
  let finish := (← expect (.mark .semicolon)).span
  return .ret value ⟨id, start.merge finish⟩

/-- Whether a token divides print items. -/
def isSeparator (token : Token) : Bool :=
  token.kind == .mark .comma || token.kind == .mark .space || token.kind == .mark .newline

/-- What a divider prints; a comma prints nothing. -/
def separatorItem? (token : Token) : Option PrintItem :=
  match token.kind with
  | .mark .space => some (.space token.span)
  | .mark .newline => some (.newline token.span)
  | _ => none

/-- Take a run of dividers, which may be empty. -/
def separators : Parser (List Token) := fun cursor =>
  let taken := cursor.rest.takeWhile isSeparator
  let previous := (taken.getLast?.map Token.span).or cursor.previous
  .ok taken { cursor with rest := cursor.rest.dropWhile isSeparator, previous := previous }

/-- Values with dividers between them; the last value may be followed by dividers too. -/
def printValuesWithin : (budget : Nat) → Parser (List PrintItem)
  | 0 => return []
  | budget + 1 => do
    if startsExpression (← peek).kind then
      let value ← expression 0
      if ← check (.mark .semicolon) then return [.value value]
      else
        let marks ← separators
        if marks.isEmpty then
          let found ← peek
          throw (.expectedToken found.span "',', '\\s', '\\n' or ';'" found.kind.description)
        else return .value value :: marks.filterMap separatorItem? ++ (← printValuesWithin budget)
    else return []

def printValues : Parser (List PrintItem) := fun cursor =>
  printValuesWithin (cursor.rest.length + 1) cursor

/-- `print items;` -/
def printStatement : Parser Stmt := do
  let start := (← expect (.keyword .printWord)).span
  let id ← freshId
  let leading := (← separators).filterMap separatorItem?
  let items ← printValues
  let finish := (← expect (.mark .semicolon)).span
  return .print (leading ++ items) ⟨id, start.merge finish⟩

/-- The opening brace of a block; anything else is a missing block. -/
def openBlock : Parser Token := fun cursor =>
  match expect (.mark .leftBrace) cursor with
  | .ok token cursor => .ok token cursor
  | .error fault cursor => .error { fault with kind := .expectedBlock } cursor

/-- Record a fault, go on behind the statement and stand in for it. -/
def recoverStatement (start : Span) (fault : SyntaxFault) : Recovering Stmt := fun cursor =>
  let cursor := (cursor.record fault).resumeStatement
  (.invalid ⟨cursor.nextId, start.merge cursor.previousSpan⟩, { cursor with nextId := cursor.nextId + 1 })

mutual

/-- One statement, told by its first token. -/
def statementWithin : (budget : Nat) → Parser Stmt
  | 0 => do throw (.unexpectedEnd (← peek).span)
  | budget + 1 => do
    let token ← peek
    match token.kind with
    | .keyword .immWord | .keyword .mutWord => declaration
    | .identifier => assignment
    | .keyword .printWord => printStatement
    | .keyword .callWord => callStatement
    | .keyword .ifWord =>
      let start := (← expect (.keyword .ifWord)).span
      let id ← freshId
      let _ ← expect (.mark .leftParen)
      let condition ← expression 0
      let _ ← expect (.mark .rightParen)
      let thenBlock ← blockWithin budget
      let elseBlock ← if ← eat (.keyword .elseWord) then some <$> blockWithin budget else pure none
      let finish := (elseBlock.getD thenBlock).span
      return .branch condition thenBlock elseBlock ⟨id, start.merge finish⟩
    | .keyword .returnWord => returnStatement
    | .mark .leftBrace => return .nested (← blockWithin budget)
    | .endOfFile => throw (.unexpectedEnd token.span)
    | other => throw (.expectedStatement token.span other.description)

/-- Statements in braces. -/
def blockWithin : (budget : Nat) → Parser Block
  | 0 => do throw (.unexpectedEnd (← peek).span)
  | budget + 1 => do
    let start := (← openBlock).span
    let id ← freshId
    let statements ← ofRecovering (statementsWithin budget)
    let finish := (← expect (.mark .rightBrace)).span
    return .mk statements ⟨id, start.merge finish⟩

/-- Statements up to a closing brace or the end of the file. -/
def statementsWithin : (budget : Nat) → Recovering (List Stmt)
  | 0 => return []
  | budget + 1 => do
    let token := (← get).peek
    if token.kind == .mark .rightBrace || token.kind == .endOfFile then return []
    else
      let statement ← recover (statementWithin budget) (recoverStatement token.span)
      return statement :: (← statementsWithin budget)

end

/-- A budget that the rules for statements cannot use up: they take a token at least every
third call. -/
def statementBudget (cursor : Cursor) : Nat := 3 * cursor.rest.length + 4

def statement : Parser Stmt := fun cursor => statementWithin (statementBudget cursor) cursor

def block : Parser Block := fun cursor => blockWithin (statementBudget cursor) cursor

end Stackwright.Parser
