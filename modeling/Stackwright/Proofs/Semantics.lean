import Stackwright.Proofs.Nest
import Stackwright.Tree.Basic

/-! The meaning of programs, stated for trees without tables, storage or code. Names stand for
values in nested blocks, and a call opens a nest of its own. A run is given a bound on how deep its
calls may nest, so that it always comes to an end; what goes wrong is told apart from running out. -/

set_option autoImplicit false

namespace Stackwright

inductive Value where
  | int (value : Int32)
  | bool (value : Bool)
  deriving DecidableEq, Repr

namespace Value

def ty : Value → Ty
  | .int _ => .int
  | .bool _ => .bool

theorem isValue_ty (value : Value) : value.ty.isValue = true := by
  cases value <;> rfl

/-- What printing the value writes. -/
def text : Value → String
  | .int value => toString value.toInt
  | .bool true => "true"
  | .bool false => "false"

end Value

/-- What a name stands for while a program runs. -/
inductive Meaning where
  | value (value : Value)
  | function (function : Function)

/-- Why a run has no result. -/
inductive Stop where
  /-- A name without a meaning, a value of the wrong type, or a result that is missing. -/
  | stuck
  /-- Calls nest more deeply than the run may go. -/
  | timeout
  deriving DecidableEq, Repr

/-- A run that adds to what was printed so far. -/
abbrev Exec := StateT String (Except Stop)

namespace Exec

def stuck {α : Type} : Exec α := fun _ => .error .stuck

def timeout {α : Type} : Exec α := fun _ => .error .timeout

def write (text : String) : Exec Unit := fun output => .ok ((), output ++ text)

theorem bind_apply {α β : Type} (run : Exec α) (follow : α → Exec β) (output : String) :
    (run >>= follow) output =
      match run output with
      | .ok (value, output) => follow value output
      | .error stop => .error stop := by
  change (run output >>= fun result => follow result.1 result.2) = _
  cases run output <;> rfl

end Exec

/-- Integers wrap around, and one is greater than another if their difference is positive. -/
def BinaryOperator.apply : BinaryOperator → Value → Value → Exec Value
  | .greater, .int left, .int right => return .bool (decide (0 < left - right))
  | .add, .int left, .int right => return .int (left + right)
  | .subtract, .int left, .int right => return .int (left - right)
  | .multiply, .int left, .int right => return .int (left * right)
  | _, _, _ => .stuck

def UnaryOperator.apply : UnaryOperator → Value → Exec Value
  | .negate, .int value => return .int (-value)
  | _, _ => .stuck

/-- How a function is called: with the values of its arguments, for its result if it has one. -/
abbrev Invoke := Function → List Value → Exec (Option Value)

/-- Call what a name stands for, once its arguments are evaluated. -/
def Invoke.named (invoke : Invoke) (names : Nest Meaning) (callee : String)
    (arguments : Exec (List Value)) : Exec (Option Value) :=
  match names.find? callee with
  | some (.function function) => do invoke function (← arguments)
  | _ => .stuck

mutual

/-- The value of an expression; the left operand comes before the right one. -/
def Expr.evaluate (invoke : Invoke) (names : Nest Meaning) : Expr → Exec Value
  | .literal (.int value) _ => return .int (Int32.ofNat value)
  | .literal (.bool value) _ => return .bool value
  | .literal _ _ => .stuck
  | .named name =>
    match names.find? name.text with
    | some (.value value) => return value
    | _ => .stuck
  | .binary operator left right _ => do
    let left ← left.evaluate invoke names
    let right ← right.evaluate invoke names
    operator.apply left right
  | .unary operator operand _ => do
    let operand ← operand.evaluate invoke names
    operator.apply operand
  | .call callee arguments _ _ => do
    match ← invoke.named names callee.text (Expr.evaluateAll invoke names arguments) with
    | some value => return value
    | none => .stuck
  | .invalid _ => .stuck

/-- The values of arguments; the last one comes first. -/
def Expr.evaluateAll (invoke : Invoke) (names : Nest Meaning) : List Expr → Exec (List Value)
  | [] => return []
  | first :: rest => do
    let values ← Expr.evaluateAll invoke names rest
    let value ← first.evaluate invoke names
    return value :: values

end

/-- A call for its effect; its result, if there is one, is dropped. -/
def Call.perform (invoke : Invoke) (names : Nest Meaning) (call : Call) : Exec Unit := do
  let _ ← invoke.named names call.callee.text (Expr.evaluateAll invoke names call.arguments)

def PrintItem.perform (invoke : Invoke) (names : Nest Meaning) : PrintItem → Exec Unit
  | .value expr => do
    let value ← expr.evaluate invoke names
    Exec.write value.text
  | .space _ => Exec.write " "
  | .newline _ => Exec.write "\n"

def PrintItem.performAll (invoke : Invoke) (names : Nest Meaning) : List PrintItem → Exec Unit
  | [] => return
  | item :: rest => do
    item.perform invoke names
    PrintItem.performAll invoke names rest

/-- Where a statement leads. -/
inductive Flow where
  /-- To the next statement, with what the names stand for then. -/
  | next (names : Nest Meaning)
  /-- Out of the function around it. -/
  | returned (value : Option Value)

/-- The names of the innermost block end with it. -/
def Flow.leaveBlock : Flow → Flow
  | .next names => .next names.tail
  | .returned value => .returned value

mutual

def Stmt.perform (invoke : Invoke) (names : Nest Meaning) : Stmt → Exec Flow
  | .declare _ name value _ => do
    let value ← value.evaluate invoke names
    return .next (names.declare name.text (.value value))
  | .assign target value _ => do
    let value ← value.evaluate invoke names
    match names.find? target.text with
    | some (.value old) =>
      if value.ty = old.ty then return .next (names.assign target.text (.value value)) else .stuck
    | _ => .stuck
  | .branch condition thenBlock elseBlock _ => do
    match ← condition.evaluate invoke names with
    | .bool true => thenBlock.perform invoke names
    | .bool false =>
      match elseBlock with
      | some elseBlock => elseBlock.perform invoke names
      | none => return .next names
    | .int _ => .stuck
  | .ret (some value) _ => do
    let value ← value.evaluate invoke names
    return .returned (some value)
  | .ret none _ => return .returned none
  | .call call _ => do
    call.perform invoke names
    return .next names
  | .print items _ => do
    PrintItem.performAll invoke names items
    return .next names
  | .nested body => body.perform invoke names
  | .invalid _ => .stuck

def Block.perform (invoke : Invoke) (names : Nest Meaning) : Block → Exec Flow
  | .mk statements _ => do
    let flow ← Stmt.performAll invoke ([] :: names) statements
    return flow.leaveBlock

def Stmt.performAll (invoke : Invoke) (names : Nest Meaning) : List Stmt → Exec Flow
  | [] => return .next names
  | first :: rest => do
    match ← first.perform invoke names with
    | .next names => Stmt.performAll invoke names rest
    | .returned value => return .returned value

end

/-- What the names of functions stand for, the latest first. -/
def Function.meanings (functions : List Function) : List (String × Meaning) :=
  (functions.map fun function => (function.name.text, .function function)).reverse

/-- What parameters stand for, given the arguments of a call, the latest first. -/
def Parameter.meanings (parameters : List Parameter) (arguments : List Value) : List (String × Meaning) :=
  (parameters.zipWith (fun parameter value => (parameter.name.text, .value value)) arguments).reverse

/-- The result of a function whose body led somewhere: a function without a result may come to its
end, any other has to return a value of its type. -/
def Function.finish (function : Function) : Flow → Exec (Option Value)
  | .returned (some value) => if value.ty = function.result.ty then return some value else .stuck
  | .returned none | .next _ => if function.result.ty = .void then return none else .stuck

/-- Call a function, with calls nested at most as deep as the bound. Each activation has its own
parameters and sees the functions of the program besides. -/
def Function.invoke (functions : List Function) : (bound : Nat) → Invoke
  | 0 => fun _ _ => .timeout
  | bound + 1 => fun function arguments => do
    if arguments.map Value.ty = function.signature.parameters then
      let names := [Parameter.meanings function.parameters arguments, Function.meanings functions]
      function.finish (← function.body.perform (Function.invoke functions bound) names)
    else .stuck

/-- Run a program, with calls nested at most as deep as the bound. -/
def Program.perform (program : Program) (bound : Nat) : Exec Unit := do
  match ← program.main.perform (Function.invoke program.functions bound) [Function.meanings program.functions] with
  | .next _ => return
  | .returned _ => .stuck

end Stackwright
