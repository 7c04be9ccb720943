import Mathlib
import Stackwright.Proofs.Lowering.Emission
import Stackwright.Proofs.Placement

/-! How many families of labels the code of a program takes: one for each comparison, each branch
and each truth value that is printed. -/

set_option autoImplicit false

namespace Stackwright

mutual

/-- How many comparisons an expression contains. -/
def Expr.comparisons : Expr → Nat
  | .binary .greater left right _ => left.comparisons + right.comparisons + 1
  | .binary _ left right _ => left.comparisons + right.comparisons
  | .unary _ operand _ => operand.comparisons
  | .call _ arguments _ _ => Expr.comparisonsAll arguments
  | .literal _ _ | .named _ | .invalid _ => 0

def Expr.comparisonsAll : List Expr → Nat
  | [] => 0
  | first :: rest => first.comparisons + Expr.comparisonsAll rest

end

/-- Comparisons inside of a print item, and the choice between the texts of a truth value. -/
def PrintItem.choices (analysis : Analysis) : PrintItem → Nat
  | .value expr => expr.comparisons + if analysis.typeOf expr.id = .bool then 1 else 0
  | .space _ | .newline _ => 0

mutual

/-- Comparisons, branches and truth values that are printed, those of nested blocks included. -/
def Stmt.choices (analysis : Analysis) : Stmt → Nat
  | .declare _ _ value _ | .assign _ value _ | .ret (some value) _ => value.comparisons
  | .branch condition thenBlock none _ => condition.comparisons + thenBlock.choices analysis + 1
  | .branch condition thenBlock (some elseBlock) _ =>
    condition.comparisons + thenBlock.choices analysis + elseBlock.choices analysis + 1
  | .call call _ => call.expr.comparisons
  | .print items _ => (items.map (PrintItem.choices analysis)).sum
  | .nested body => body.choices analysis
  | .ret none _ | .invalid _ => 0

def Block.choices (analysis : Analysis) : Block → Nat
  | .mk statements _ => Stmt.choicesAll analysis statements

def Stmt.choicesAll (analysis : Analysis) : List Stmt → Nat
  | [] => 0
  | first :: rest => first.choices analysis + Stmt.choicesAll analysis rest

end

def Program.choices (analysis : Analysis) (program : Program) : Nat :=
  program.main.choices analysis + (program.functions.map fun function => function.body.choices analysis).sum

namespace Lowering

/-- The step takes the given number of families, wherever it starts. -/
def Takes {α : Type} (count : Nat) (emit : Emit α) : Prop :=
  ∀ labeller, (emit labeller).2.families = labeller.families + count

section Takes

variable {α β : Type} {count count' : Nat} {emit : Emit α} {next : α → Emit β}

theorem Takes.pure (value : α) : Takes 0 (Pure.pure value) := fun _ => rfl

theorem Takes.bind (first : Takes count emit) (second : ∀ value, Takes count' (next value)) :
    Takes (count + count') (emit >>= next) := by
  intro labeller
  rw [bind_apply, second, first, Nat.add_assoc]

theorem Takes.map (first : Takes count emit) (change : α → β) :
    Takes count (emit >>= fun value => Pure.pure (change value)) :=
  first.bind fun _ => .pure _

theorem takes_family (name : String) : Takes 1 (family name) := fun _ => rfl

end Takes

variable {analysis : Analysis} {names after : Nest Binding}

mutual

theorem expression_takes {expr : Expr} {ty : Ty} :
    Resolved analysis names expr ty → Takes expr.comparisons (expression analysis expr)
  | .int _ | .bool _ => by
    rw [expression, Expr.comparisons]
    exact .pure _
  | .named _ _ _ => by
    rw [expression, Expr.comparisons]
    exact .pure _
  | .greater left right _ => by
    rw [expression, Expr.comparisons, Nat.add_comm _ 1]
    exact (takes_family "compare").bind fun _ =>
      (expression_takes left).bind fun _ => (expression_takes right).map _
  | @Resolved.arithmetic _ _ operator _ _ _ kind left right _ => by
    cases operator with
    | greater => exact absurd rfl kind
    | add | subtract | multiply =>
      rw [expression, Expr.comparisons]
      · exact (expression_takes left).bind fun _ => (expression_takes right).map _
      all_goals simp
  | .negate operand _ => by
    rw [expression, Expr.comparisons]
    exact (expression_takes operand).map _
  | @Resolved.call _ _ callee arguments list node binding parameters result _ callable noted resolved _ => by
    rw [expression, Expr.comparisons, noted, callable]
    exact (pushArguments_takes resolved).map _

theorem pushArguments_takes {exprs : List Expr} {types : List Ty} :
    ResolvedAll analysis names exprs types → Takes (Expr.comparisonsAll exprs) (pushArguments analysis exprs types)
  | .nil => by
    rw [pushArguments, Expr.comparisonsAll]
    · exact .pure _
    · simp
  | .cons first rest => by
    rw [pushArguments, Expr.comparisonsAll, Nat.add_comm]
    exact (pushArguments_takes rest).bind fun _ => (expression_takes first).map _

end

theorem value_takes {expr : Expr} {ty : Ty} (resolved : Resolved analysis names expr ty) :
    Takes expr.comparisons (value analysis expr) :=
  (expression_takes resolved).map _

theorem store_takes {target : Name} {source : Expr} {ty : Ty} (resolved : Resolved analysis names source ty) :
    Takes source.comparisons (store analysis target source) :=
  (value_takes resolved).map _

theorem printValue_takes {expr : Expr} {ty : Ty} (resolved : Resolved analysis names expr ty) :
    Takes (PrintItem.choices analysis (.value expr)) (printValue analysis expr) := by
  refine (value_takes resolved).bind fun _ => ?_
  split
  · exact (takes_family "print-boolean").map _
  · exact .pure _

theorem printItems_takes : ∀ {items : List PrintItem}, (∀ item ∈ items, item.Resolved analysis names) →
    Takes (items.map (PrintItem.choices analysis)).sum (printItems analysis items)
  | [], _ => .pure _
  | .value expr :: rest, resolved => by
    obtain ⟨ty, typed, _⟩ := resolved _ List.mem_cons_self
    have others := printItems_takes fun item member => resolved item (List.mem_cons_of_mem _ member)
    rw [List.map_cons, List.sum_cons]
    exact (printValue_takes typed).bind fun _ => others.map _
  | .space _ :: rest, resolved | .newline _ :: rest, resolved => by
    have others := printItems_takes fun item member => resolved item (List.mem_cons_of_mem _ member)
    rw [List.map_cons, List.sum_cons, PrintItem.choices, Nat.zero_add]
    exact others.map _

variable {area : Allocator} {result : Option Ty} (epilogue : Option String)

mutual

theorem statement_takes {names after : Nest Binding} {stmt : Stmt} :
    Stmt.Placed analysis area result names stmt after →
      Takes (stmt.choices analysis) (statement analysis epilogue stmt)
  | .declare resolved _ _ _ _ _ _ => by
    rw [statement, Stmt.choices]
    exact store_takes resolved
  | .assign _ _ _ resolved => by
    rw [statement, Stmt.choices]
    exact store_takes resolved
  | .branch condition thenBlock => by
    rw [statement, Stmt.choices, Nat.add_comm _ 1]
    exact (takes_family "if").bind fun _ => (value_takes condition).bind fun _ => (block_takes thenBlock).map _
  | .branchElse condition thenBlock elseBlock => by
    rw [statement, Stmt.choices, Nat.add_comm _ 1, Nat.add_assoc (Expr.comparisons _)]
    exact (takes_family "if").bind fun _ => (value_takes condition).bind fun _ =>
      (block_takes thenBlock).bind fun _ => (block_takes elseBlock).map _
  | .ret _ => by
    rw [statement, Stmt.choices]
    exact .pure _
  | .retValue resolved _ _ => by
    rw [statement, Stmt.choices]
    exact (value_takes resolved).map _
  | .call resolved => by
    rw [statement, Stmt.choices]
    exact (value_takes resolved).map _
  | .print items => by
    rw [statement, Stmt.choices]
    exact printItems_takes items
  | .nested body => by
    rw [statement, Stmt.choices]
    exact block_takes body

theorem block_takes {names : Nest Binding} {body : Block} :
    Block.Placed analysis area result names body → Takes (body.choices analysis) (block analysis epilogue body)
  | .mk statements => by
    rw [block, Block.choices]
    exact statements_takes statements

theorem statements_takes {names after : Nest Binding} {stmts : List Stmt} :
    Stmt.PlacedAll analysis area result names stmts after →
      Takes (Stmt.choicesAll analysis stmts) (statements analysis epilogue stmts)
  | .nil => by
    rw [statements, Stmt.choicesAll]
    exact .pure _
  | .cons first rest => by
    rw [statements, Stmt.choicesAll]
    exact (statement_takes first).bind fun _ => (statements_takes rest).map _

end

theorem functions_takes {program : Program} : ∀ {functions : List Function},
    (∀ function ∈ functions, function.Placed analysis program.functions) →
    Takes (functions.map fun function => function.body.choices analysis).sum (Lowering.functions analysis functions)
  | [], _ => .pure _
  | function :: functions, placed => by
    obtain ⟨after, body⟩ := (placed function List.mem_cons_self).body
    have here : Takes (function.body.choices analysis) (Lowering.function analysis function) := by
      refine Takes.map ?_ _
      cases same : function.body with
      | mk statements node =>
        rw [same] at body
        exact block_takes _ (.mk body)
    have others := functions_takes fun other member => placed other (List.mem_cons_of_mem _ member)
    rw [List.map_cons, List.sum_cons]
    exact here.bind fun _ => others.map _

/-- The code of a program takes one family for each choice. -/
theorem program_takes {program : Program} (placed : program.Placed analysis) (withEnvironment : Bool) :
    Takes (program.choices analysis) (Lowering.program analysis withEnvironment program) :=
  (block_takes none placed.main).bind fun _ => (functions_takes placed.functions).map _

end Lowering

end Stackwright
