import Stackwright.Analysis.Basic
import Stackwright.Assembly.Labeller
import Stackwright.Lowering.Environment

/-! Code for expressions. A name leaves the address of its variable, everything else leaves a
value; where a value is needed, an address is loaded through. -/

set_option autoImplicit false

namespace Stackwright

namespace Analysis

def typeOf (analysis : Analysis) (node : Nat) : Ty := (analysis.types[node]?).getD .error

def bindingOf (analysis : Analysis) (node : Nat) : Binding := (analysis.bindings[node]?).getD .null

/-- The storage that the scope of a node needs. -/
def sizeOf (analysis : Analysis) (node : Nat) : Nat :=
  (analysis.nodeScopes[node]?.map analysis.scopes.allocatedSize).getD 0

end Analysis

/-- A step of code generation; it takes labels from a labeller. -/
abbrev Emit := StateM Labeller

namespace Lowering

def family (name : String) : Emit LabelFamily := modifyGet fun labeller => labeller.family name

def literalValue : Literal → Int32
  | .int value => Int32.ofNat value
  | .bool value => if value then 1 else 0
  | .char _ | .float _ | .string _ => 0

/-- The instruction for an operator; a comparison begins with the difference. -/
def arithmetic : BinaryOperator → Opcode
  | .add => .add
  | .subtract | .greater => .subtract
  | .multiply => .multiply

/-- Leave 1 if the difference of the values that `left` and `right` leave is positive, and 0
otherwise. -/
def comparison (labels : LabelFamily) (left right : Code) : Code :=
  [.withLabel .label (labels.label "arg1")] ++ left ++
  [.withLabel .label (labels.label "arg2")] ++ right ++
  [.withLabel .label (labels.label "sub"),
    .plain .subtract,
    .withLabel .jumpPositive (labels.label "true"),
    .withLabel .jump (labels.label "false"),
    .withLabel .label (labels.label "true"),
    .withInt .pushInt 1,
    .withLabel .jump (labels.label "join"),
    .withLabel .label (labels.label "false"),
    .withInt .pushInt 0,
    .withLabel .jump (labels.label "join"),
    .withLabel .label (labels.label "join")]

def size (ty : Ty) : Int32 := Int32.ofNat ty.size

/-- Make room on the call stack for an argument and store the value that `value` leaves. -/
def pushArgument (ty : Ty) (value : Code) : Code :=
  Code.loadFrom Reserved.stackPointer ++
  [.withInt .pushInt (size ty), .plain .subtract] ++
  Code.storeTo Reserved.stackPointer ++
  Code.loadFrom Reserved.stackPointer ++
  value ++
  [.plain ty.storeOpcode]

/-- Pick up the result of a call; a call without one leaves 0. -/
def pickUpResult (result : Ty) : Code :=
  if result.isValue then Code.loadFrom Reserved.stackPointer ++ [.plain result.loadOpcode]
  else [.withInt .pushInt 0]

/-- Call a function whose arguments `arguments` pushes, and release the call stack after it. -/
def invocation (callee : Binding) (signature : Signature) (arguments : Code) : Code :=
  arguments ++
  callee.addressCode ++
  [.plain .loadInt, .plain .call] ++
  pickUpResult signature.result ++
  Code.loadFrom Reserved.stackPointer ++
  [.withInt .pushInt (Int32.ofNat (signature.result.size + signature.argumentSize)), .plain .add] ++
  Code.storeTo Reserved.stackPointer

mutual

def expression (analysis : Analysis) : Expr → Emit Fragment
  | .literal literal _ => return ⟨.value, [.withInt .pushInt (literalValue literal)]⟩
  | .named name => return ⟨.address, (analysis.bindingOf name.node.id).addressCode⟩
  | .binary .greater left right _ => do
    let labels ← family "compare"
    let left := (← expression analysis left).valueCode (analysis.typeOf left.id)
    let right := (← expression analysis right).valueCode (analysis.typeOf right.id)
    return ⟨.value, comparison labels left right⟩
  | .binary operator left right _ => do
    let left := (← expression analysis left).valueCode (analysis.typeOf left.id)
    let right := (← expression analysis right).valueCode (analysis.typeOf right.id)
    return ⟨.value, left ++ right ++ [.plain (arithmetic operator)]⟩
  | .unary .negate operand _ => do
    let operand := (← expression analysis operand).valueCode (analysis.typeOf operand.id)
    return ⟨.value, operand ++ [.plain .negate]⟩
  | .call callee arguments _ _ => do
    let callee := analysis.bindingOf callee.node.id
    match callee.ty.signature? with
    | none => return ⟨.value, [.withInt .pushInt 0]⟩
    | some signature =>
      let arguments ← pushArguments analysis arguments signature.parameters
      return ⟨.value, invocation callee signature arguments⟩
  | .invalid _ => return ⟨.value, [.withInt .pushInt 0]⟩

/-- Arguments are evaluated and pushed last to first. -/
def pushArguments (analysis : Analysis) : List Expr → List Ty → Emit Code
  | argument :: arguments, ty :: types => do
    let later ← pushArguments analysis arguments types
    let value := (← expression analysis argument).valueCode (analysis.typeOf argument.id)
    return later ++ pushArgument ty value
  | _, _ => return []

end

/-- Code that leaves the value of an expression. -/
def value (analysis : Analysis) (expr : Expr) : Emit Code := do
  return (← expression analysis expr).valueCode (analysis.typeOf expr.id)

end Lowering

end Stackwright
