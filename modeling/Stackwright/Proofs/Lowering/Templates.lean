import Stackwright.Proofs.Lowering.Emission

/-! The code of expressions, statements and functions, put together from the code of their parts and the fixed
pieces around it. -/

set_option autoImplicit false

namespace Stackwright

namespace Lowering

variable (analysis : Analysis)

theorem value_greater (left right : Expr) (node : Node) (labeller : Labeller) :
    ∃ labels first second, (value analysis (.binary .greater left right node) labeller).1 =
      comparison labels (value analysis left first).1 (value analysis right second).1 := by
  refine ⟨(labeller.family "compare").1, (labeller.family "compare").2,
    (value analysis left (labeller.family "compare").2).2, ?_⟩
  rw [value, bind_apply, expression]
  rfl

theorem value_arithmetic {operator : BinaryOperator} (kind : operator ≠ .greater) (left right : Expr) (node : Node)
    (labeller : Labeller) :
    ∃ first second, (value analysis (.binary operator left right node) labeller).1 =
      (value analysis left first).1 ++
        ((value analysis right second).1 ++ [Instruction.plain (arithmetic operator)]) := by
  refine ⟨labeller, (value analysis left labeller).2, ?_⟩
  cases operator with
  | greater => exact absurd rfl kind
  | add | subtract | multiply =>
    rw [value, bind_apply, expression, ← List.append_assoc]
    · rfl
    · simp

theorem value_negate (operand : Expr) (node : Node) (labeller : Labeller) :
    (value analysis (.unary .negate operand node) labeller).1 =
      (value analysis operand labeller).1 ++ [Instruction.plain .negate] := by
  rw [value, bind_apply, expression]
  rfl

theorem value_named (name : Name) (labeller : Labeller) :
    (value analysis (.named name) labeller).1 =
      (analysis.bindingOf name.node.id).addressCode ++
        [Instruction.plain (analysis.typeOf name.node.id).loadOpcode] := by
  rw [value, bind_apply, expression]
  rfl

theorem value_literal (literal : Literal) (node : Node) (labeller : Labeller) :
    (value analysis (.literal literal node) labeller).1 = [.withInt .pushInt (literalValue literal)] := by
  rw [value, bind_apply, expression]
  rfl

theorem value_call {callee : Name} {binding : Binding} {parameters : List Ty} {result : Ty}
    (noted : analysis.bindingOf callee.node.id = binding) (callable : binding.ty = .function parameters result)
    (arguments : List Expr) (list node : Node) (labeller : Labeller) :
    (value analysis (.call callee arguments list node) labeller).1 =
      invocation binding ⟨parameters, result⟩ (pushArguments analysis arguments parameters labeller).1 := by
  have known : binding.ty.signature? = some ⟨parameters, result⟩ := by
    rw [callable]
    rfl
  rw [value, bind_apply, expression]
  simp only [noted, known]
  rfl

theorem pushArguments_cons (argument : Expr) (arguments : List Expr) (ty : Ty) (types : List Ty) (labeller : Labeller) :
    ∃ next, (pushArguments analysis (argument :: arguments) (ty :: types) labeller).1 =
      (pushArguments analysis arguments types labeller).1 ++ pushArgument ty (value analysis argument next).1 := by
  refine ⟨(pushArguments analysis arguments types labeller).2, ?_⟩
  rw [pushArguments]
  rfl

/-- The code at the end of a comparison, which leaves 1 or 0 for the difference of two values. -/
def decideCode (labels : LabelFamily) : Code :=
  [.withLabel .label (labels.label "sub"), .plain .subtract,
    .withLabel .jumpPositive (labels.label "true"), .withLabel .jump (labels.label "false"),
    .withLabel .label (labels.label "true"), .withInt .pushInt 1, .withLabel .jump (labels.label "join"),
    .withLabel .label (labels.label "false"), .withInt .pushInt 0, .withLabel .jump (labels.label "join"),
    .withLabel .label (labels.label "join")]

theorem comparison_eq (labels : LabelFamily) (left right : Code) :
    comparison labels left right = [Instruction.withLabel .label (labels.label "arg1")] ++ (left ++
      ([Instruction.withLabel .label (labels.label "arg2")] ++ (right ++ decideCode labels))) := by
  simp only [comparison, decideCode, List.append_assoc]

/-- The code that lowers the stack pointer for an argument, and pushes it as the address. -/
def roomCode (ty : Ty) : Code :=
  below Reserved.stackPointer (size ty) ++ Code.storeTo Reserved.stackPointer ++ Code.loadFrom Reserved.stackPointer

theorem pushArgument_eq (ty : Ty) (value : Code) :
    pushArgument ty value = roomCode ty ++ (value ++ [.plain ty.storeOpcode]) := by
  simp only [pushArgument, roomCode, below, List.append_assoc]

/-- The code that goes to a function when the arguments have been pushed. -/
def enterCode (callee : Binding) : Code := callee.addressCode ++ [.plain .loadInt, .plain .call]

/-- The code that gives up the storage of the arguments and the result of a call. -/
def releaseCode (signature : Signature) : Code :=
  Code.loadFrom Reserved.stackPointer ++
  [.withInt .pushInt (Int32.ofNat (signature.result.size + signature.argumentSize)), .plain .add] ++
  Code.storeTo Reserved.stackPointer

theorem invocation_eq (callee : Binding) (signature : Signature) (arguments : Code) :
    invocation callee signature arguments =
      arguments ++ (enterCode callee ++ (pickUpResult signature.result ++ releaseCode signature)) := by
  simp only [invocation, enterCode, releaseCode, List.append_assoc]

/-- The code that saves the frame pointer of the caller. -/
def saveFrameCode (name : String) : Code :=
  [(Instruction.withLabel .label name).annotate ("%% function " ++ name)] ++
  (below Reserved.stackPointer 4 ++ (Code.loadFrom Reserved.framePointer ++ [.plain .storeInt]))

/-- The code that saves the return address. -/
def saveReturnCode : Code :=
  below Reserved.stackPointer (Int32.ofNat 8) ++ ([.plain .exchange] ++ [.plain .storeInt])

/-- The code that moves both pointers to a new frame. -/
def moveFrameCode (frameSize : Nat) : Code :=
  Code.loadFrom Reserved.stackPointer ++ (Code.storeTo Reserved.framePointer ++
    (below Reserved.stackPointer (Int32.ofNat 8) ++
      ([.withInt .pushInt (Int32.ofNat frameSize), .plain .subtract] ++ Code.storeTo Reserved.stackPointer)))

/-- The code that gives up a frame and leaves the return address. -/
def restoreCode (name : String) : Code :=
  [.withLabel .label (epilogueLabel name)] ++ (below Reserved.framePointer (Int32.ofNat 8) ++ ([.plain .loadInt] ++
    (Code.loadFrom Reserved.framePointer ++ (Code.storeTo Reserved.stackPointer ++
      (below Reserved.framePointer (Int32.ofNat 4) ++ ([.plain .loadInt] ++ Code.storeTo Reserved.framePointer))))))

theorem epilogue_parts (name : String) (result : Ty) :
    epilogue name result = restoreCode name ++ (handOver result ++ [Instruction.plain .ret]) := by
  simp only [epilogue, restoreCode, List.append_assoc]
  rfl

theorem handOver_eq {result : Ty} (isValue : result.isValue = true) :
    handOver result = [Instruction.plain .exchange] ++ (below Reserved.stackPointer (Int32.ofNat result.size) ++
      (Code.storeTo Reserved.stackPointer ++ (Code.loadFrom Reserved.stackPointer ++
        ([Instruction.plain .exchange] ++ [Instruction.plain result.storeOpcode])))) := by
  rw [handOver, if_pos isValue]
  simp only [List.append_assoc]
  rfl

/-- The code for one item of a print statement. -/
def printItem : PrintItem → Emit Code
  | .value expr => printValue analysis expr
  | .space _ => pure (printFormat Reserved.spaceFormat)
  | .newline _ => pure (printFormat Reserved.newlineFormat)

theorem printItems_cons (item : PrintItem) (rest : List PrintItem) (labeller : Labeller) :
    (printItems analysis (item :: rest) labeller).1 = (printItem analysis item labeller).1 ++
      (printItems analysis rest (printItem analysis item labeller).2).1 := by
  cases item <;> rfl

theorem printValue_bool {expr : Expr} (typed : analysis.typeOf expr.id = .bool) (labeller : Labeller) :
    ∃ labels, (printValue analysis expr labeller).1 = (value analysis expr labeller).1 ++
      (selectText labels ++ printFormat Reserved.booleanFormat) := by
  refine ⟨((value analysis expr labeller).2.family "print-boolean").1, ?_⟩
  rw [printValue, bind_apply, if_pos typed, ← List.append_assoc]
  rfl

theorem printValue_int {expr : Expr} (typed : analysis.typeOf expr.id ≠ .bool) (labeller : Labeller) :
    (printValue analysis expr labeller).1 =
      (value analysis expr labeller).1 ++ printFormat Reserved.integerFormat := by
  rw [printValue, bind_apply, if_neg typed]
  rfl

variable (exit : Option String)

theorem store_eq {target : Name} {binding : Binding} (noted : analysis.bindingOf target.node.id = binding)
    (source : Expr) (labeller : Labeller) :
    (store analysis target source labeller).1 =
      binding.addressCode ++ ((value analysis source labeller).1 ++ [Instruction.plain binding.ty.storeOpcode]) := by
  rw [store, bind_apply, noted, ← List.append_assoc]
  rfl

theorem statement_branch (condition : Expr) (thenBlock : Block) (node : Node) (labeller : Labeller) :
    ∃ labels first second, (statement analysis exit (.branch condition thenBlock none node) labeller).1 =
      (value analysis condition first).1 ++ ([Instruction.withLabel .jumpFalse (LabelFamily.label labels "end")] ++
        ((block analysis exit thenBlock second).1 ++
          [Instruction.withLabel .jump (labels.label "end"), .withLabel .label (labels.label "end")])) := by
  refine ⟨(labeller.family "if").1, (labeller.family "if").2, (value analysis condition (labeller.family "if").2).2, ?_⟩
  simp only [← List.append_assoc]
  rw [statement]
  rfl

theorem statement_branchElse (condition : Expr) (thenBlock elseBlock : Block) (node : Node) (labeller : Labeller) :
    ∃ labels first second third,
      (statement analysis exit (.branch condition thenBlock (some elseBlock) node) labeller).1 =
        (value analysis condition first).1 ++ ([Instruction.withLabel .jumpFalse (LabelFamily.label labels "else")] ++
          ((block analysis exit thenBlock second).1 ++
            ([Instruction.withLabel .jump (labels.label "end"), .withLabel .label (labels.label "else")] ++
              ((block analysis exit elseBlock third).1 ++ [Instruction.withLabel .label (labels.label "end")])))) := by
  refine ⟨(labeller.family "if").1, (labeller.family "if").2, (value analysis condition (labeller.family "if").2).2,
    (block analysis exit thenBlock (value analysis condition (labeller.family "if").2).2).2, ?_⟩
  simp only [← List.append_assoc]
  rw [statement]
  rfl

theorem statement_ret (node : Node) (labeller : Labeller) :
    (statement analysis exit (.ret none node) labeller).1 = exit.toList.map fun label => .withLabel .jump label := by
  rw [statement]
  rfl

theorem statement_retValue (source : Expr) (node : Node) (labeller : Labeller) :
    (statement analysis exit (.ret (some source) node) labeller).1 =
      (value analysis source labeller).1 ++ exit.toList.map fun label => .withLabel .jump label := by
  rw [statement]
  rfl

theorem statement_call (call : Call) (node : Node) (labeller : Labeller) :
    (statement analysis exit (.call call node) labeller).1 =
      (value analysis call.expr labeller).1 ++ [Instruction.plain .pop] := by
  rw [statement]
  rfl

theorem statements_cons (first : Stmt) (rest : List Stmt) (labeller : Labeller) :
    (statements analysis exit (first :: rest) labeller).1 = (statement analysis exit first labeller).1 ++
      (statements analysis exit rest (statement analysis exit first labeller).2).1 := by
  rw [statements]
  rfl

end Lowering

end Stackwright
