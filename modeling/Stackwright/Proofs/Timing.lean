import Stackwright.Proofs.Lowering.Templates
import Stackwright.Proofs.Machine.Steps
import Stackwright.Proofs.Semantics

/-! The meaning of programs once more, told apart into the steps of the machine. A run shows a beat for
every instruction that the code of the program executes. Which code that is depends on the tree and on
the values it comes to, but not on where code and variables lie. Without the beats it is the meaning of
the program. -/

set_option autoImplicit false

namespace Stackwright

open Machine

/-- By how much an instruction makes the operand stack grow; printing takes what its format asks for
besides. -/
def Opcode.growth : Opcode → Int
  | .pushInt | .pushAddress | .memoryTop | .duplicate => 1
  | .pop | .add | .subtract | .multiply | .jumpFalse | .jumpTrue | .jumpPositive | .ret | .print => -1
  | .storeInt | .storeByte => -2
  | _ => 0

/-- What can be seen of executing every instruction once, if it prints nothing. -/
def Code.beats (code : Code) : List Beat := code.map fun instruction => ⟨instruction.opcode.growth, ""⟩

namespace Code

@[simp] theorem beats_nil : Code.beats [] = [] := rfl

@[simp] theorem beats_append (first second : Code) : Code.beats (first ++ second) = first.beats ++ second.beats :=
  List.map_append

@[simp] theorem length_beats (code : Code) : code.beats.length = code.length := List.length_map _

theorem printed_beats (code : Code) : Beat.printed code.beats = "" := by
  induction code with
  | nil => rfl
  | cons instruction rest ih => exact ih

end Code

/-- A run, with what can be seen of it up to its end. -/
structure Timed (α : Type) where
  beats : List Beat
  ending : Except Stop α

namespace Timed

variable {α β : Type}

def stuck : Timed α := ⟨[], .error .stuck⟩

def timeout : Timed α := ⟨[], .error .timeout⟩

/-- Steps of the machine with nothing else to show for them. -/
def emit (beats : List Beat) : Timed Unit := ⟨beats, .ok ()⟩

/-- Execute every instruction of a piece of code once. -/
abbrev spend (code : Code) : Timed Unit := emit code.beats

instance : Monad Timed where
  pure value := ⟨[], .ok value⟩
  bind run follow :=
    match run.ending with
    | .ok value => ⟨run.beats ++ (follow value).beats, (follow value).ending⟩
    | .error stop => ⟨run.beats, .error stop⟩

/-- Steps can be told in two parts. -/
theorem emit_append (first second : List Beat) (run : Timed α) :
    (do emit (first ++ second); run) = (do emit first; emit second; run) :=
  congrArg (fun beats => Timed.mk beats run.ending) (List.append_assoc _ _ _)

/-- How a function is called. -/
abbrev Invoke := Function → List Value → Timed (Option Value)

/-- The code that finds a variable. -/
def find (base : Base) : Code := Location.addressCode ⟨base, 0⟩ ""

/-- The code that goes to a function. -/
def enter : Code := find .global ++ [.plain .loadInt, .plain .call]

/-- Call what a name stands for, once its arguments are pushed. -/
def Invoke.named (invoke : Invoke) (names : Nest Meaning) (callee : String) (arguments : Timed (List Value)) :
    Timed (Option Value) :=
  match names.find? callee with
  | some (.function function) => do
    let values ← arguments
    spend enter
    let result ← invoke function values
    spend (Lowering.pickUpResult function.result.ty)
    spend (Lowering.releaseCode function.signature)
    return result
  | _ => stuck

end Timed

/-- The end of a comparison; one of its branches is executed. -/
def BinaryOperator.decision (truth : Bool) : List Opcode :=
  if truth then [.label, .subtract, .jumpPositive, .label, .pushInt, .jump, .label]
  else [.label, .subtract, .jumpPositive, .jump, .label, .pushInt, .jump, .label]

/-- Instructions without their operands. -/
def Opcode.code (opcodes : List Opcode) : Code := opcodes.map Instruction.plain

/-- The label in front of each operand of a comparison. -/
def BinaryOperator.mark : BinaryOperator → Code
  | .greater => [.plain .label]
  | _ => []

def BinaryOperator.timed : BinaryOperator → Value → Value → Timed Value
  | .greater, .int left, .int right => do
    Timed.spend (Opcode.code (BinaryOperator.decision (decide (0 < left - right))))
    return .bool (decide (0 < left - right))
  | .add, .int left, .int right => do
    Timed.spend [.plain .add]
    return .int (left + right)
  | .subtract, .int left, .int right => do
    Timed.spend [.plain .subtract]
    return .int (left - right)
  | .multiply, .int left, .int right => do
    Timed.spend [.plain .multiply]
    return .int (left * right)
  | _, _, _ => .stuck

def UnaryOperator.timed : UnaryOperator → Value → Timed Value
  | .negate, .int value => do
    Timed.spend [.plain .negate]
    return .int (-value)
  | _, _ => .stuck

mutual

/-- The steps of evaluating an expression, in a place where variables lie at the base. -/
def Expr.timed (invoke : Timed.Invoke) (base : Base) (names : Nest Meaning) : Expr → Timed Value
  | .literal (.int value) _ => do
    Timed.spend [.plain .pushInt]
    return .int (Int32.ofNat value)
  | .literal (.bool value) _ => do
    Timed.spend [.plain .pushInt]
    return .bool value
  | .literal _ _ => .stuck
  | .named name =>
    match names.find? name.text with
    | some (.value value) => do
      Timed.spend (Timed.find base)
      Timed.spend [.plain value.ty.loadOpcode]
      return value
    | _ => .stuck
  | .binary operator left right _ => do
    Timed.spend operator.mark
    let left ← left.timed invoke base names
    Timed.spend operator.mark
    let right ← right.timed invoke base names
    operator.timed left right
  | .unary operator operand _ => do
    let operand ← operand.timed invoke base names
    operator.timed operand
  | .call callee arguments _ _ => do
    match ← invoke.named names callee.text (Expr.timedAll invoke base names arguments) with
    | some value => return value
    | none => .stuck
  | .invalid _ => .stuck

/-- The steps of pushing arguments. -/
def Expr.timedAll (invoke : Timed.Invoke) (base : Base) (names : Nest Meaning) : List Expr → Timed (List Value)
  | [] => return []
  | first :: rest => do
    let values ← Expr.timedAll invoke base names rest
    Timed.spend (Lowering.roomCode .int)
    let value ← first.timed invoke base names
    Timed.spend [.plain value.ty.storeOpcode]
    return value :: values

end

/-- The steps of putting the value of an expression into a variable. -/
def Expr.timedStore (invoke : Timed.Invoke) (base : Base) (names : Nest Meaning) (source : Expr) : Timed Value := do
  Timed.spend (Timed.find base)
  let value ← source.timed invoke base names
  Timed.spend [.plain value.ty.storeOpcode]
  return value

/-- The steps of a call for its effect. -/
def Call.timed (invoke : Timed.Invoke) (base : Base) (names : Nest Meaning) (call : Call) : Timed Unit := do
  let _ ← invoke.named names call.callee.text (Expr.timedAll invoke base names call.arguments)
  Timed.spend [.plain .pop]

/-- The steps of printing a format; `taken` values are taken for it. -/
def Timed.print (text : String) (taken : Nat) : Timed Unit :=
  Timed.emit [⟨1, ""⟩, ⟨-1 - taken, text⟩]

/-- Choosing the text of a truth value; one of the branches is executed. -/
def Value.selection (truth : Bool) : List Opcode :=
  if truth then [.jumpTrue, .label, .pushAddress, .label] else [.jumpTrue, .pushAddress, .jump, .label]

def Value.timed : Value → Timed Unit
  | .int value => Timed.print (Value.int value).text 1
  | .bool value => do
    Timed.spend (Opcode.code (Value.selection value))
    Timed.print (Value.bool value).text 1

def PrintItem.timed (invoke : Timed.Invoke) (base : Base) (names : Nest Meaning) : PrintItem → Timed Unit
  | .value expr => do
    let value ← expr.timed invoke base names
    value.timed
  | .space _ => Timed.print " " 0
  | .newline _ => Timed.print "\n" 0

def PrintItem.timedAll (invoke : Timed.Invoke) (base : Base) (names : Nest Meaning) : List PrintItem → Timed Unit
  | [] => return
  | item :: rest => do
    item.timed invoke base names
    PrintItem.timedAll invoke base names rest

/-- Steps that are taken if a statement comes to its end. -/
def Flow.timed (opcodes : List Opcode) : Flow → Timed Flow
  | .next names => do
    Timed.spend (Opcode.code opcodes)
    return .next names
  | .returned value => return .returned value

mutual

def Stmt.timed (invoke : Timed.Invoke) (base : Base) (names : Nest Meaning) : Stmt → Timed Flow
  | .declare _ name value _ => do
    let value ← value.timedStore invoke base names
    return .next (names.declare name.text (.value value))
  | .assign target value _ => do
    let value ← value.timedStore invoke base names
    match names.find? target.text with
    | some (.value old) =>
      if value.ty = old.ty then return .next (names.assign target.text (.value value)) else .stuck
    | _ => .stuck
  | .branch condition thenBlock elseBlock _ => do
    match ← condition.timed invoke base names with
    | .bool true => do
      Timed.spend [.plain .jumpFalse]
      (← thenBlock.timed invoke base names).timed [.jump, .label]
    | .bool false => do
      Timed.spend (Opcode.code [.jumpFalse, .label])
      match elseBlock with
      | some elseBlock => (← elseBlock.timed invoke base names).timed [.label]
      | none => return .next names
    | .int _ => .stuck
  | .ret (some value) _ => do
    let value ← value.timed invoke base names
    Timed.spend [.plain .jump]
    return .returned (some value)
  | .ret none _ => do
    Timed.spend [.plain .jump]
    return .returned none
  | .call call _ => do
    call.timed invoke base names
    return .next names
  | .print items _ => do
    PrintItem.timedAll invoke base names items
    return .next names
  | .nested body => body.timed invoke base names
  | .invalid _ => .stuck

def Block.timed (invoke : Timed.Invoke) (base : Base) (names : Nest Meaning) : Block → Timed Flow
  | .mk statements _ => do
    let flow ← Stmt.timedAll invoke base ([] :: names) statements
    return flow.leaveBlock

def Stmt.timedAll (invoke : Timed.Invoke) (base : Base) (names : Nest Meaning) : List Stmt → Timed Flow
  | [] => return .next names
  | first :: rest => do
    match ← first.timed invoke base names with
    | .next names => Stmt.timedAll invoke base names rest
    | .returned value => return .returned value

end

/-- The steps at the end of a function, if its body led somewhere that gives a result. -/
def Function.timedEnd (function : Function) (flow : Flow) : Timed (Option Value) :=
  let leave (result : Option Value) : Timed (Option Value) := do
    Timed.spend (Lowering.restoreCode "")
    Timed.spend (Lowering.handOver function.result.ty)
    Timed.spend [.plain .ret]
    return result
  match flow with
  | .returned (some value) => if value.ty = function.result.ty then leave (some value) else .stuck
  | .returned none | .next _ => if function.result.ty = .void then leave none else .stuck

/-- The steps of calling a function. -/
def Function.timed (functions : List Function) : (bound : Nat) → Timed.Invoke
  | 0 => fun _ _ => .timeout
  | bound + 1 => fun function arguments => do
    if arguments.map Value.ty = function.signature.parameters then
      Timed.spend (Lowering.saveFrameCode "")
      Timed.spend Lowering.saveReturnCode
      Timed.spend (Lowering.moveFrameCode 0)
      let names := [Parameter.meanings function.parameters arguments, Function.meanings functions]
      function.timedEnd (← function.body.timed (Function.timed functions bound) .frame names)
    else .stuck

/-- The steps of a program from the first instruction on, without the one that ends it. -/
def Program.timed (program : Program) (bound : Nat) : Timed Unit := do
  Timed.spend (Opcode.code [.jump, .label] ++ Environment.stackStart)
  Timed.spend (program.functions.flatMap fun _ => Timed.find .global ++ Opcode.code [.pushAddress, .storeInt])
  match ← program.main.timed (Function.timed program.functions bound) .global
      [Function.meanings program.functions] with
  | .next _ => return
  | .returned _ => .stuck

section Erasing

/-- The run without its beats. -/
def Timed.erase {α : Type} (run : Timed α) : Exec α := fun output =>
  match run.ending with
  | .ok value => .ok (value, output ++ Beat.printed run.beats)
  | .error stop => .error stop

theorem Machine.Beat.printed_append (first second : List Beat) :
    Beat.printed (first ++ second) = Beat.printed first ++ Beat.printed second := by
  induction first with
  | nil => exact String.empty_append.symm
  | cons beat rest ih =>
    change beat.text ++ Beat.printed (rest ++ second) = beat.text ++ Beat.printed rest ++ Beat.printed second
    rw [ih, String.append_assoc]

namespace Timed

variable {α β : Type}

@[simp] theorem erase_pure (value : α) : (Pure.pure value : Timed α).erase = Pure.pure value := by
  funext output
  exact congrArg (fun text => Except.ok (value, text)) String.append_empty

@[simp] theorem erase_stuck : (stuck : Timed α).erase = Exec.stuck := rfl

@[simp] theorem erase_timeout : (timeout : Timed α).erase = Exec.timeout := rfl

@[simp] theorem erase_bind (run : Timed α) (follow : α → Timed β) :
    (run >>= follow).erase = run.erase >>= fun value => (follow value).erase := by
  funext output
  obtain ⟨beats, ending⟩ := run
  rw [Exec.bind_apply]
  cases ending with
  | error stop => rfl
  | ok value =>
    change erase ⟨beats ++ (follow value).beats, (follow value).ending⟩ output = (follow value).erase _
    unfold erase
    rw [Beat.printed_append, String.append_assoc]

/-- Steps that print nothing cannot be seen without their beats. -/
@[simp] theorem erase_spend (code : Code) : (spend code).erase = Pure.pure () := by
  funext output
  change Except.ok ((), output ++ Beat.printed code.beats) = Except.ok ((), output)
  rw [code.printed_beats, String.append_empty]

@[simp] theorem erase_print (text : String) (taken : Nat) : (Timed.print text taken).erase = Exec.write text := by
  funext output
  change Except.ok ((), output ++ ("" ++ (text ++ ""))) = _
  rw [String.empty_append, String.append_empty]
  rfl

end Timed

variable {invoke : Timed.Invoke} {invoke' : Invoke} {base : Base} {names : Nest Meaning}

theorem BinaryOperator.erase_timed (operator : BinaryOperator) (left right : Value) :
    (operator.timed left right).erase = operator.apply left right := by
  cases operator <;> cases left <;> cases right <;>
    simp [BinaryOperator.timed, BinaryOperator.apply]

theorem UnaryOperator.erase_timed (operator : UnaryOperator) (operand : Value) :
    (operator.timed operand).erase = operator.apply operand := by
  cases operand <;> simp [UnaryOperator.timed, UnaryOperator.apply]

theorem Value.erase_timed (value : Value) : value.timed.erase = Exec.write value.text := by
  cases value <;> simp [Value.timed]

theorem Flow.erase_timed (opcodes : List Opcode) (flow : Flow) : (flow.timed opcodes).erase = pure flow := by
  cases flow <;> simp [Flow.timed]

theorem Function.erase_timedEnd (function : Function) (flow : Flow) :
    (function.timedEnd flow).erase = function.finish flow := by
  rcases flow with names | (_ | value) <;> simp only [Function.timedEnd, Function.finish] <;> split <;> simp

section Calls

variable (calls : ∀ function values, (invoke function values).erase = invoke' function values)

include calls

theorem Invoke.erase_named (callee : String) (arguments : Timed (List Value)) :
    (invoke.named names callee arguments).erase = invoke'.named names callee arguments.erase := by
  unfold Timed.Invoke.named Invoke.named
  cases names.find? callee with
  | none => rfl
  | some meaning =>
    cases meaning with
    | value value => rfl
    | function function => simp [calls]

-- The members of a family share its hypotheses, also those that a member only hands on to the others.
set_option linter.unusedSectionVars false in
mutual

theorem Expr.erase_timed : ∀ expr : Expr, (expr.timed invoke base names).erase = expr.evaluate invoke' names
  | .literal value node => by
    cases value <;> simp [Expr.timed, Expr.evaluate]
  | .named name => by
    rw [Expr.timed, Expr.evaluate]
    cases names.find? name.text with
    | none => rfl
    | some meaning => cases meaning <;> simp
  | .binary operator left right node => by
    simp [Expr.timed, Expr.evaluate, erase_timed left, erase_timed right, BinaryOperator.erase_timed]
  | .unary operator operand node => by
    simp [Expr.timed, Expr.evaluate, erase_timed operand, UnaryOperator.erase_timed]
  | .call callee arguments list node => by
    rw [Expr.timed, Expr.evaluate, Timed.erase_bind, Invoke.erase_named calls, erase_timedAll arguments]
    refine congrArg _ (funext fun result => ?_)
    cases result <;> simp
  | .invalid node => by
    rw [Expr.timed, Expr.evaluate]
    rfl

theorem Expr.erase_timedAll : ∀ exprs : List Expr,
    (Expr.timedAll invoke base names exprs).erase = Expr.evaluateAll invoke' names exprs
  | [] => by simp [Expr.timedAll, Expr.evaluateAll]
  | first :: rest => by
    simp [Expr.timedAll, Expr.evaluateAll, erase_timed first, erase_timedAll rest]

end

theorem Expr.erase_timedStore (source : Expr) :
    (source.timedStore invoke base names).erase = source.evaluate invoke' names := by
  simp [Expr.timedStore, source.erase_timed calls]

theorem Call.erase_timed (call : Call) : (call.timed invoke base names).erase = call.perform invoke' names := by
  simp [Call.timed, Call.perform, Invoke.erase_named calls, Expr.erase_timedAll calls]

theorem PrintItem.erase_timed (item : PrintItem) :
    (item.timed invoke base names).erase = item.perform invoke' names := by
  cases item <;> simp [PrintItem.timed, PrintItem.perform, Expr.erase_timed calls, Value.erase_timed]

theorem PrintItem.erase_timedAll (items : List PrintItem) :
    (PrintItem.timedAll invoke base names items).erase = PrintItem.performAll invoke' names items := by
  induction items with
  | nil => simp [PrintItem.timedAll, PrintItem.performAll]
  | cons item rest ih => simp [PrintItem.timedAll, PrintItem.performAll, item.erase_timed calls, ih]

-- The members of a family share its hypotheses, also those that a member only hands on to the others.
set_option linter.unusedSectionVars false in
mutual

theorem Stmt.erase_timed (names : Nest Meaning) : ∀ stmt : Stmt,
    (stmt.timed invoke base names).erase = stmt.perform invoke' names
  | .declare isMutable name value node => by
    simp [Stmt.timed, Stmt.perform, value.erase_timedStore calls]
  | .assign target value node => by
    rw [Stmt.timed, Stmt.perform, Timed.erase_bind, value.erase_timedStore calls]
    refine congrArg _ (funext fun result => ?_)
    cases names.find? target.text with
    | none => rfl
    | some meaning =>
      cases meaning with
      | function function => rfl
      | value old =>
        by_cases same : result.ty = old.ty <;> simp [same]
  | .branch condition thenBlock none node => by
    rw [Stmt.timed, Stmt.perform, Timed.erase_bind, condition.erase_timed calls]
    refine congrArg _ (funext fun result => ?_)
    match result with
    | .int _ => rfl
    | .bool true => simp [erase_timed_block names thenBlock, Flow.erase_timed]
    | .bool false => simp
  | .branch condition thenBlock (some elseBlock) node => by
    rw [Stmt.timed, Stmt.perform, Timed.erase_bind, condition.erase_timed calls]
    refine congrArg _ (funext fun result => ?_)
    match result with
    | .int _ => rfl
    | .bool true => simp [erase_timed_block names thenBlock, Flow.erase_timed]
    | .bool false => simp [erase_timed_block names elseBlock, Flow.erase_timed]
  | .ret value node => by
    cases value <;> simp [Stmt.timed, Stmt.perform, Expr.erase_timed calls]
  | .call called node => by simp [Stmt.timed, Stmt.perform, called.erase_timed calls]
  | .print items node => by simp [Stmt.timed, Stmt.perform, PrintItem.erase_timedAll calls]
  | .nested body => by rw [Stmt.timed, Stmt.perform, erase_timed_block names body]
  | .invalid node => by
    rw [Stmt.timed, Stmt.perform]
    rfl

theorem Stmt.erase_timed_block (names : Nest Meaning) : ∀ block : Block,
    (block.timed invoke base names).erase = block.perform invoke' names
  | .mk statements node => by
    simp [Block.timed, Block.perform, erase_timedAll ([] :: names) statements]

theorem Stmt.erase_timedAll (names : Nest Meaning) : ∀ stmts : List Stmt,
    (Stmt.timedAll invoke base names stmts).erase = Stmt.performAll invoke' names stmts
  | [] => by simp [Stmt.timedAll, Stmt.performAll]
  | first :: rest => by
    rw [Stmt.timedAll, Stmt.performAll, Timed.erase_bind, erase_timed names first]
    refine congrArg _ (funext fun flow => ?_)
    cases flow with
    | next names => exact erase_timedAll names rest
    | returned value => simp

end

end Calls

theorem Function.erase_timed (functions : List Function) (bound : Nat) (function : Function) (values : List Value) :
    (Function.timed functions bound function values).erase = Function.invoke functions bound function values := by
  induction bound generalizing function values with
  | zero => rfl
  | succ bound ih =>
    unfold Function.timed Function.invoke
    split
    · simp [Stmt.erase_timed_block ih, Function.erase_timedEnd]
    · rfl

/-- Without its beats a run is the meaning of the program. -/
theorem Program.erase_timed (program : Program) (bound : Nat) : (program.timed bound).erase = program.perform bound := by
  have calls := Function.erase_timed program.functions bound
  simp only [Program.timed, Program.perform, Timed.erase_bind, Timed.erase_spend, pure_bind,
    Stmt.erase_timed_block calls]
  refine congrArg _ (funext fun flow => ?_)
  cases flow <;> simp

end Erasing

end Stackwright
