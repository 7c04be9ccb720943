import Stackwright.Lowering.Expression

/-! Code for statements. It leaves the operand stack as it found it, except that a `return`
leaves its value there for the end of the function. -/

set_option autoImplicit false

namespace Stackwright.Lowering

/-- Store the value of an expression in a variable. -/
def store (analysis : Analysis) (target : Name) (source : Expr) : Emit Code := do
  let binding := analysis.bindingOf target.node.id
  let source ← value analysis source
  return binding.addressCode ++ source ++ [.plain binding.ty.storeOpcode]

/-- Print a fixed format. -/
def printFormat (format : String) : Code :=
  [.withLabel .pushAddress format, .plain .print]

/-- Replace a truth value by the address of its text. -/
def selectText (labels : LabelFamily) : Code :=
  [.withLabel .jumpTrue (labels.label "true"),
    .withLabel .pushAddress Reserved.falseString,
    .withLabel .jump (labels.label "join"),
    .withLabel .label (labels.label "true"),
    .withLabel .pushAddress Reserved.trueString,
    .withLabel .label (labels.label "join")]

def printValue (analysis : Analysis) (expr : Expr) : Emit Code := do
  let source ← value analysis expr
  if analysis.typeOf expr.id = .bool then
    let labels ← family "print-boolean"
    return source ++ selectText labels ++ printFormat Reserved.booleanFormat
  else return source ++ printFormat Reserved.integerFormat

def printItems (analysis : Analysis) : List PrintItem → Emit Code
  | [] => return []
  | item :: rest => do
    let first ←
      match item with
      | .value expr => printValue analysis expr
      | .space _ => pure (printFormat Reserved.spaceFormat)
      | .newline _ => pure (printFormat Reserved.newlineFormat)
    return first ++ (← printItems analysis rest)

mutual

/-- Code for a statement; `epilogue` is the label at the end of the function around it. -/
def statement (analysis : Analysis) (epilogue : Option String) : Stmt → Emit Code
  | .declare _ name source _ => store analysis name source
  | .assign target source _ => store analysis target source
  | .branch condition thenBlock elseBlock _ => do
    let labels ← family "if"
    let condition ← value analysis condition
    let thenCode ← block analysis epilogue thenBlock
    match elseBlock with
    | none =>
      return condition ++ [.withLabel .jumpFalse (labels.label "end")] ++ thenCode ++
        [.withLabel .jump (labels.label "end"), .withLabel .label (labels.label "end")]
    | some elseBlock =>
      let elseCode ← block analysis epilogue elseBlock
      return condition ++ [.withLabel .jumpFalse (labels.label "else")] ++ thenCode ++
        [.withLabel .jump (labels.label "end"), .withLabel .label (labels.label "else")] ++ elseCode ++
        [.withLabel .label (labels.label "end")]
  | .ret result _ => do
    let source ←
      match result with
      | some expr => value analysis expr
      | none => pure []
    let leave : Code := epilogue.toList.map fun label => .withLabel .jump label
    return source ++ leave
  | .call call _ => do
    let source ← value analysis call.expr
    return source ++ [.plain .pop]
  | .print items _ => printItems analysis items
  | .nested body => block analysis epilogue body
  | .invalid _ => return []

def block (analysis : Analysis) (epilogue : Option String) : Block → Emit Code
  | .mk body _ => statements analysis epilogue body

def statements (analysis : Analysis) (epilogue : Option String) : List Stmt → Emit Code
  | [] => return []
  | first :: rest => do
    let code ← statement analysis epilogue first
    return code ++ (← statements analysis epilogue rest)

end

end Stackwright.Lowering
