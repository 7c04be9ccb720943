import Stackwright.Proofs.Lowering.Emission
import Stackwright.Proofs.Placement

/-! How long generated code is. Each declared variable takes at least five instructions, and so does
each change of the stack pointer, which is what every `exchange` in the code of a body belongs to. -/

set_option autoImplicit false

namespace Stackwright

@[simp] theorem Instruction.opcode_annotate (instruction : Instruction) (comment : String) :
    (instruction.annotate comment).opcode = instruction.opcode := by
  unfold annotate
  split <;> rfl

namespace Code

theorem count_append (first second : Code) (opcode : Opcode) :
    Code.count (first ++ second) opcode = first.count opcode + second.count opcode :=
  List.countP_append

/-- The code has five instructions for every `exchange` in it, and so many to spare. -/
def Sparse (spare : Nat) (code : Code) : Prop := 5 * Code.count code .exchange + spare ≤ code.length

variable {code first second : Code} {spare more less : Nat}

theorem Sparse.append (one : Sparse spare first) (two : Sparse more second) :
    Sparse (spare + more) (first ++ second) := by
  rw [Sparse] at one two ⊢
  rw [count_append, List.length_append]
  omega

theorem Sparse.mono (sparse : Sparse spare code) (fewer : less ≤ spare) : Sparse less code :=
  Nat.le_trans (Nat.add_le_add_left fewer _) sparse

theorem sparse_nil : Sparse 0 [] := Nat.le_refl 0

/-- Code without an `exchange` has all its instructions to spare. -/
theorem sparse_of_none (none : Code.count code .exchange = 0) : Sparse code.length code := by
  have nothing : 5 * Code.count code .exchange + code.length = code.length := by
    rw [none, Nat.mul_zero, Nat.zero_add]
  exact Nat.le_of_eq nothing

end Code

open Code

namespace Lowering

variable {analysis : Analysis} {area : Allocator} {result : Option Ty} {epilogue : Option String}

theorem addressCode_none (binding : Binding) : Code.count binding.addressCode .exchange = 0 := by
  rw [Binding.addressCode, Location.addressCode]
  cases binding.location.base <;>
    simp only [Code.count, List.countP_cons, List.countP_nil, Instruction.opcode_annotate] <;> rfl

theorem addressCode_sparse (binding : Binding) : Sparse 1 binding.addressCode := by
  refine (sparse_of_none (addressCode_none binding)).mono ?_
  rw [Binding.addressCode, Location.addressCode]
  cases binding.location.base <;> simp

theorem addressCode_sparse_of_stored {binding : Binding} (stored : binding.location.base ≠ .null) :
    Sparse 3 binding.addressCode := by
  refine (sparse_of_none (addressCode_none binding)).mono ?_
  rw [Binding.addressCode, Location.addressCode]
  cases kind : binding.location.base with
  | null => exact absurd kind stored
  | global | frame => simp

theorem loadOpcode_sparse (ty : Ty) : Sparse 1 [.plain ty.loadOpcode] := by
  cases ty <;> exact Nat.le_refl 1

theorem storeOpcode_sparse (ty : Ty) : Sparse 1 [.plain ty.storeOpcode] := by
  cases ty <;> exact Nat.le_refl 1

theorem valueCode_sparse {fragment : Fragment} (ty : Ty) (sparse : Sparse 1 fragment.code) :
    Sparse 1 (fragment.valueCode ty) := by
  rw [Fragment.valueCode]
  split
  · exact (sparse.append (loadOpcode_sparse ty)).mono (by decide)
  · exact sparse

theorem comparison_sparse (labels : LabelFamily) {left right : Code} (one : Sparse 1 left) (two : Sparse 1 right) :
    Sparse 1 (comparison labels left right) := by
  have mark (label : String) : Sparse 1 [.withLabel .label label] := Nat.le_refl 1
  exact ((((mark _).append one).append (mark _)).append two).append (sparse_of_none rfl) |>.mono (by simp)

theorem pushArgument_sparse (ty : Ty) {value : Code} (sparse : Sparse 1 value) : Sparse 0 (pushArgument ty value) := by
  have front : Sparse 4 (Code.loadFrom Reserved.stackPointer ++
      [Instruction.withInt .pushInt (size ty), .plain .subtract] ++ Code.storeTo Reserved.stackPointer ++
      Code.loadFrom Reserved.stackPointer) := Nat.le_refl 9
  exact ((front.append sparse).append (storeOpcode_sparse ty)).mono (Nat.zero_le _)

theorem pickUpResult_sparse (result : Ty) : Sparse 1 (pickUpResult result) := by
  rw [pickUpResult]
  split
  · have load : Sparse 2 (Code.loadFrom Reserved.stackPointer) := Nat.le_refl 2
    exact (load.append (loadOpcode_sparse result)).mono (by decide)
  · exact Nat.le_refl 1

theorem invocation_sparse (callee : Binding) (signature : Signature) {arguments : Code}
    (sparse : Sparse 0 arguments) : Sparse 1 (invocation callee signature arguments) := by
  have jump : Sparse 2 [.plain .loadInt, .plain .call] := Nat.le_refl 2
  -- Setting the stack pointer takes an `exchange`, and is long enough with the sum in front of it.
  have release : Sparse 2 (Code.loadFrom Reserved.stackPointer ++
      ([Instruction.withInt .pushInt (Int32.ofNat (signature.result.size + signature.argumentSize)), .plain .add] ++
        Code.storeTo Reserved.stackPointer)) := Nat.le_refl 7
  have whole := (((sparse.append (addressCode_sparse callee)).append jump).append
    (pickUpResult_sparse signature.result)).append release
  rw [invocation]
  simp only [List.append_assoc] at whole ⊢
  exact whole.mono (by decide)

mutual

theorem expression_sparse : ∀ (expr : Expr) (labeller : Labeller),
    Sparse 1 (expression analysis expr labeller).1.code
  | .literal literal node, labeller => by
    rw [expression]
    exact Nat.le_refl 1
  | .named name, labeller => by
    rw [expression]
    exact addressCode_sparse (analysis.bindingOf name.node.id)
  | .binary .greater left right node, labeller => by
    rw [expression]
    exact comparison_sparse _ (valueCode_sparse _ (expression_sparse left _))
      (valueCode_sparse _ (expression_sparse right _))
  | .binary .add left right node, labeller | .binary .subtract left right node, labeller
  | .binary .multiply left right node, labeller => by
    have one := valueCode_sparse (analysis.typeOf left.id) (expression_sparse left labeller)
    have two := valueCode_sparse (analysis.typeOf right.id)
      (expression_sparse right (expression analysis left labeller).2)
    rw [expression]
    · exact ((one.append two).append (sparse_of_none rfl)).mono (by decide)
    · simp
  | .unary .negate operand node, labeller => by
    have one := valueCode_sparse (analysis.typeOf operand.id) (expression_sparse operand labeller)
    rw [expression]
    exact (one.append (sparse_of_none rfl)).mono (by decide)
  | .call callee arguments list node, labeller => by
    rw [expression]
    cases found : (analysis.bindingOf callee.node.id).ty.signature? with
    | none => exact Nat.le_refl 1
    | some signature => exact invocation_sparse _ signature (pushArguments_sparse arguments _ labeller)
  | .invalid node, labeller => by
    rw [expression]
    exact Nat.le_refl 1

theorem pushArguments_sparse : ∀ (arguments : List Expr) (types : List Ty) (labeller : Labeller),
    Sparse 0 (pushArguments analysis arguments types labeller).1
  | argument :: arguments, ty :: types, labeller => by
    have later := pushArguments_sparse arguments types labeller
    rw [pushArguments]
    exact later.append (pushArgument_sparse ty (valueCode_sparse _ (expression_sparse argument _)))
  | [], types, labeller => by
    rw [pushArguments]
    · exact sparse_nil
    · simp
  | argument :: arguments, [], labeller => by
    rw [pushArguments]
    · exact sparse_nil
    · simp

end

section

variable (analysis)

theorem value_sparse (expr : Expr) (labeller : Labeller) : Sparse 1 (value analysis expr labeller).1 :=
  valueCode_sparse _ (expression_sparse expr labeller)

/-- The last instruction of an expression is no exchange. -/
theorem value_getLast (expr : Expr) (labeller : Labeller) :
    ∃ last, (value analysis expr labeller).1.getLast? = some last ∧ last.opcode ≠ .exchange := by
  change ∃ last, ((expression analysis expr labeller).1.valueCode (analysis.typeOf expr.id)).getLast? = some last ∧ _
  cases expr with
  | literal literal node | invalid node =>
    rw [expression]
    exact ⟨_, rfl, Opcode.noConfusion⟩
  | named name =>
    rw [expression]
    refine ⟨.plain (analysis.typeOf name.node.id).loadOpcode, List.getLast?_concat, ?_⟩
    cases analysis.typeOf name.node.id <;> exact Opcode.noConfusion
  | binary operator left right node =>
    cases operator with
    | greater =>
      rw [expression]
      exact ⟨_, List.getLast?_append, Opcode.noConfusion⟩
    | add | subtract | multiply =>
      rw [expression]
      · exact ⟨_, List.getLast?_concat, Opcode.noConfusion⟩
      · simp
  | unary operator operand node =>
    cases operator
    rw [expression]
    exact ⟨_, List.getLast?_concat, Opcode.noConfusion⟩
  | call callee arguments list node =>
    rw [expression]
    cases (analysis.bindingOf callee.node.id).ty.signature? with
    | none => exact ⟨_, rfl, Opcode.noConfusion⟩
    | some signature => exact ⟨_, List.getLast?_append, Opcode.noConfusion⟩

theorem value_length_pos (expr : Expr) (labeller : Labeller) : 0 < (value analysis expr labeller).1.length := by
  obtain ⟨last, ends, _⟩ := value_getLast analysis expr labeller
  exact List.length_pos_of_mem (List.mem_of_getLast? ends)

theorem printValue_sparse (expr : Expr) (labeller : Labeller) : Sparse 0 (printValue analysis expr labeller).1 := by
  have source := value_sparse analysis expr labeller
  simp only [printValue, bind_apply]
  split
  · exact ((source.append (sparse_of_none rfl)).append (sparse_of_none rfl)).mono (Nat.zero_le _)
  · exact (source.append (sparse_of_none rfl)).mono (Nat.zero_le _)

theorem printItems_sparse : ∀ (items : List PrintItem) (labeller : Labeller),
    Sparse 0 (printItems analysis items labeller).1
  | [], _ => sparse_nil
  | .value expr :: rest, labeller =>
    (printValue_sparse analysis expr labeller).append (printItems_sparse rest (printValue analysis expr labeller).2)
  | .space _ :: rest, labeller | .newline _ :: rest, labeller =>
    (Sparse.append (sparse_of_none rfl) (printItems_sparse rest labeller)).mono (Nat.zero_le _)

end

theorem store_sparse {name : Name} (source : Expr) (labeller : Labeller) {spare : Nat}
    (address : Sparse spare (analysis.bindingOf name.node.id).addressCode) :
    Sparse (spare + 2) (store analysis name source labeller).1 :=
  (address.append (value_sparse analysis source labeller)).append (storeOpcode_sparse _)

mutual

/-- Each declaration in a statement adds five instructions to spare. -/
theorem statement_sparse (proper : area.base ≠ .null) {names after : Nest Binding} {stmt : Stmt} (labeller : Labeller) :
    Stmt.Placed analysis area result names stmt after →
      Sparse (5 * stmt.declarations) (statement analysis epilogue stmt labeller).1
  | @Stmt.Placed.declare _ _ _ _ _ _ source _ _ _ _ _ _ noted covers _ => by
    rw [statement, Stmt.declarations]
    exact store_sparse source labeller (addressCode_sparse_of_stored (by rw [noted, covers.base]; exact proper))
  | @Stmt.Placed.assign _ _ _ _ target source _ _ _ _ _ _ => by
    rw [statement, Stmt.declarations]
    exact (store_sparse source labeller (addressCode_sparse _)).mono (Nat.zero_le _)
  | @Stmt.Placed.branch _ _ _ _ condition _ _ _ thenBlock => by
    have test := value_sparse analysis condition (labeller.family "if").2
    have inner := block_sparse proper (value analysis condition (labeller.family "if").2).2 thenBlock
    rw [statement, Stmt.declarations]
    refine (((test.append (sparse_of_none rfl)).append inner).append (sparse_of_none rfl)).mono ?_
    simp only [List.length_cons, List.length_nil]
    omega
  | @Stmt.Placed.branchElse _ _ _ _ condition thenTree _ _ _ thenBlock elseBlock => by
    have test := value_sparse analysis condition (labeller.family "if").2
    have inner := block_sparse proper (value analysis condition (labeller.family "if").2).2 thenBlock
    have inner' := block_sparse proper (block analysis epilogue thenTree
      (value analysis condition (labeller.family "if").2).2).2 elseBlock
    rw [statement, Stmt.declarations]
    refine (((((test.append (sparse_of_none rfl)).append inner).append (sparse_of_none rfl)).append inner').append
      (sparse_of_none rfl)).mono ?_
    simp only [List.length_cons, List.length_nil]
    omega
  | .ret _ => by
    rw [statement, Stmt.declarations]
    cases epilogue <;> exact (sparse_of_none rfl).mono (Nat.zero_le _)
  | @Stmt.Placed.retValue _ _ _ _ source _ _ _ _ _ => by
    have long := value_sparse analysis source labeller
    rw [statement, Stmt.declarations]
    cases epilogue <;> exact (long.append (sparse_of_none rfl)).mono (Nat.zero_le _)
  | @Stmt.Placed.call _ _ _ _ call _ _ _ => by
    have long := value_sparse analysis call.expr labeller
    rw [statement, Stmt.declarations]
    exact (long.append (sparse_of_none rfl)).mono (Nat.zero_le _)
  | @Stmt.Placed.print _ _ _ _ items _ _ => by
    rw [statement, Stmt.declarations]
    exact printItems_sparse analysis items labeller
  | .nested body => by
    rw [statement, Stmt.declarations]
    exact block_sparse proper labeller body

theorem block_sparse (proper : area.base ≠ .null) {names : Nest Binding} {body : Block} (labeller : Labeller) :
    Block.Placed analysis area result names body →
      Sparse (5 * body.declarations) (block analysis epilogue body labeller).1
  | .mk statements => by
    rw [block, Block.declarations]
    exact statements_sparse proper labeller statements

theorem statements_sparse (proper : area.base ≠ .null) {names after : Nest Binding} {stmts : List Stmt}
    (labeller : Labeller) :
    Stmt.PlacedAll analysis area result names stmts after →
      Sparse (5 * Stmt.declarationsAll stmts) (statements analysis epilogue stmts labeller).1
  | .nil => sparse_nil
  | @Stmt.PlacedAll.cons _ _ _ _ _ _ stmt _ first rest => by
    rw [statements, Stmt.declarationsAll, Nat.mul_add]
    exact (statement_sparse proper labeller first).append
      (statements_sparse proper (statement analysis epilogue stmt labeller).2 rest)

end

theorem block_length (proper : area.base ≠ .null) {names : Nest Binding} {body : Block} (labeller : Labeller)
    (placed : Block.Placed analysis area result names body) :
    5 * (body.declarations + Code.count (block analysis epilogue body labeller).1 .exchange) ≤
      (block analysis epilogue body labeller).1.length := by
  rw [Nat.mul_add, Nat.add_comm]
  exact block_sparse proper labeller placed

end Lowering

end Stackwright
