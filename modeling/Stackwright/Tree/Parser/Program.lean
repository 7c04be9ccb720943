import Stackwright.Tree.Parser.Statement

/-! Function definitions and whole programs. Reading a program never fails: it gives the tree
that could be recovered together with every fault. -/

set_option autoImplicit false

namespace Stackwright

namespace Parser

def typeMark : Parser TypeMark := do
  let token ← peek
  let mark (primitive : Primitive) : Parser TypeMark := do
    let _ ← advance
    return ⟨primitive, ⟨← freshId, token.span⟩⟩
  match token.kind with
  | .keyword .intWord => mark .int
  | .keyword .boolWord => mark .bool
  | .keyword .voidWord => mark .void
  | .endOfFile => throw (.unexpectedEnd token.span)
  | other => throw (.expectedType token.span other.description)

def parameter : Parser Parameter := do
  let id ← freshId
  let type ← typeMark
  if type.primitive = .void then
    throw ⟨.expectedType, type.node.span, "parameters must be int or bool"⟩
  let name ← identifier
  return ⟨type, name, ⟨id, type.node.span.merge name.node.span⟩⟩

/-- One or more parameters divided by commas. -/
def parametersWithin : (budget : Nat) → Parser (List Parameter)
  | 0 => do throw (.unexpectedEnd (← peek).span)
  | budget + 1 => do
    let first ← parameter
    if ← eat (.mark .comma) then return first :: (← parametersWithin budget)
    else return [first]

def parameters : Parser (List Parameter) := fun cursor =>
  parametersWithin (cursor.rest.length + 1) cursor

/-- The parameters of a function in parentheses, and the node of the list. -/
def parameterList : Parser (List Parameter × Node) := do
  let opening := (← expect (.mark .leftParen)).span
  let id ← freshId
  let list ← if ← check (.mark .rightParen) then pure [] else parameters
  let closing := (← expect (.mark .rightParen)).span
  return (list, ⟨id, opening.merge closing⟩)

/-- `func type name(parameters) body` -/
def function : Parser Function := do
  let start := (← expect (.keyword .funcWord)).span
  let id ← freshId
  let result ← typeMark
  let name ← identifier
  let (parameters, list) ← parameterList
  let body ← block
  return ⟨result, name, parameters, list, body, ⟨id, start.merge body.span⟩⟩

/-- Record a fault and go on behind the function definition. -/
def recoverFunction (fault : SyntaxFault) : Recovering (List Function) := fun cursor =>
  ([], (cursor.record fault).resumeItem)

/-- The function definitions that could be read, for as long as `func` follows. -/
def functionsWithin : (budget : Nat) → Recovering (List Function)
  | 0 => return []
  | budget + 1 => do
    if (← get).peek.kind = .keyword .funcWord then
      let definition ← recover (do return [← function]) recoverFunction
      return definition ++ (← functionsWithin budget)
    else return []

def functions : Recovering (List Function) := fun cursor =>
  functionsWithin (cursor.rest.length + 1) cursor

def mainBlock : Parser Block := do
  let _ ← expect (.keyword .mainWord)
  block

/-- Record a fault and stand in with an empty block. -/
def recoverMain (fault : SyntaxFault) : Recovering Block := fun cursor =>
  (.mk [] ⟨cursor.nextId, cursor.peek.span⟩, { cursor.record fault with nextId := cursor.nextId + 1 })

/-- Nothing may follow the main block. -/
def expectEnd (cursor : Cursor) : Cursor :=
  let token := cursor.peek
  if token.kind = .endOfFile then cursor
  else
    let message := "expected end of file after main block, found " ++ token.kind.description
    cursor.record ⟨.unexpectedToken, token.span, message⟩

/-- Function definitions, then `main` and its block. The program itself has the first number. -/
def program : Recovering Program := do
  let start ← get
  set { start with nextId := start.nextId + 1 }
  let functions ← functions
  let main ← recover mainBlock recoverMain
  modify expectEnd
  let finish ← get
  return ⟨functions, main, ⟨start.nextId, start.peek.span.merge finish.previousSpan⟩, finish.nextId⟩

end Parser

/-- The recovered tree of a source text and every fault in it: those of the text that is no
token first, then the others in the order they were met. -/
def Program.read (source : String) : Program × List SyntaxFault :=
  let (program, cursor) := Parser.program (Cursor.ofText source)
  (program, cursor.faults)

/-- The tree of a source text without faults. -/
def Program.parse (source : String) : Except (List SyntaxFault) Program :=
  match Program.read source with
  | (program, []) => .ok program
  | (_, faults) => .error faults

end Stackwright
