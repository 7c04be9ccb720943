import Stackwright.Proofs.Checking.Function
import Stackwright.Proofs.Tree.Anchors

/-! Where diagnostics are reported: always at a node of the program. -/

set_option autoImplicit false

namespace Stackwright

theorem Expr.node_mem_nodes (expr : Expr) : expr.node ∈ expr.nodes := by
  cases expr <;> simp [Expr.node, Expr.nodes]

namespace Checker

open Analysis

/-- Whatever the step reports is at one of the nodes. -/
def ReportsAt {α : Type} (nodes : List Node) (step : Checker α) : Prop :=
  ∀ known : Analysis, ∃ found : List Diagnostic,
    (step known).2.diagnostics = known.diagnostics ++ found ∧
      ∀ diagnostic ∈ found, ∃ node ∈ nodes, diagnostic.span = node.span

namespace ReportsAt

variable {α β : Type} {nodes more : List Node}

theorem mono {step : Checker α} (reports : ReportsAt nodes step) (wider : nodes ⊆ more) : ReportsAt more step := by
  intro known
  obtain ⟨found, added, sited⟩ := reports known
  refine ⟨found, added, fun diagnostic member => ?_⟩
  obtain ⟨node, inside, same⟩ := sited diagnostic member
  exact ⟨node, wider inside, same⟩

theorem quiet {step : Checker α} (silent : ∀ known, (step known).2.diagnostics = known.diagnostics) :
    ReportsAt nodes step :=
  fun known => ⟨[], by rw [silent, List.append_nil], List.forall_mem_nil _⟩

theorem pure (value : α) : ReportsAt nodes (pure value : Checker α) := quiet fun _ => rfl

theorem report {node : Node} (member : node ∈ nodes) (cause : Diagnostic.Cause) :
    ReportsAt nodes (report cause node.span) :=
  fun _ => ⟨[⟨cause, node.span⟩], rfl, fun _ only => ⟨node, member, List.mem_singleton.mp only ▸ rfl⟩⟩

theorem bind {first : Checker α} {next : α → Checker β} (one : ReportsAt nodes first)
    (two : ∀ value, ReportsAt nodes (next value)) : ReportsAt nodes (first >>= next) := by
  intro known
  obtain ⟨found, added, sited⟩ := one known
  obtain ⟨later, added', sited'⟩ := two (first known).1 (first known).2
  refine ⟨found ++ later, ?_, List.forall_mem_append.mpr ⟨sited, sited'⟩⟩
  rw [bind_apply, added', added, List.append_assoc]

theorem forM {act : β → Checker Unit} {items : List β} (each : ∀ item ∈ items, ReportsAt nodes (act item)) :
    ReportsAt nodes (items.forM act) := by
  induction items with
  | nil => exact pure ()
  | cons first rest ih =>
    obtain ⟨one, others⟩ := List.forall_mem_cons.mp each
    exact one.bind fun _ => ih others

theorem refuse {node : Node} (member : node ∈ nodes) (cause : Diagnostic.Cause) :
    ReportsAt nodes (refuse cause node.span) :=
  (report member cause).bind fun _ => pure _

end ReportsAt

open ReportsAt (quiet)

variable {nodes : List Node}

/-- Noting down something about a node reports nothing. -/
theorem setType_reportsAt (id : Nat) (ty : Ty) : ReportsAt nodes (setType id ty) := quiet fun _ => rfl

theorem setBinding_reportsAt (id : Nat) (binding : Binding) : ReportsAt nodes (setBinding id binding) :=
  quiet fun _ => rfl

theorem setScope_reportsAt (id scope : Nat) : ReportsAt nodes (setScope id scope) := quiet fun _ => rfl

theorem openScope_reportsAt (opener : ScopeTree → Nat × ScopeTree) : ReportsAt nodes (openScope opener) :=
  quiet fun _ => rfl

theorem leaveScope_reportsAt (scope : Nat) : ReportsAt nodes (leaveScope scope) := quiet fun _ => rfl

theorem record_reportsAt (name : Name) (binding : Binding) : ReportsAt nodes (record name binding) :=
  quiet fun _ => rfl

theorem resolve_reportsAt (scope : Nat) {name : Name} (member : name.node ∈ nodes) :
    ReportsAt nodes (resolve scope name) := by
  refine (quiet fun _ => rfl : ReportsAt nodes (get : Checker Analysis)).bind fun known => ?_
  cases known.scopes.lookup scope name.text with
  | some binding => exact record_reportsAt name binding
  | none => exact (ReportsAt.report member _).bind fun _ => record_reportsAt name .null

theorem declare_reportsAt (scope : Nat) {name : Name} (ty : Ty) (isMutable : Bool) (member : name.node ∈ nodes) :
    ReportsAt nodes (declare scope name ty isMutable) := by
  refine (setType_reportsAt _ ty).bind fun _ => ?_
  refine (quiet fun _ => rfl : ReportsAt nodes (get : Checker Analysis)).bind fun known => ?_
  cases known.scopes.bind? scope name.text ty isMutable with
  | some made => exact quiet fun _ => rfl
  | none => exact (ReportsAt.report member _).bind fun _ => setBinding_reportsAt _ _

section Expr

variable {node : Node} (member : node ∈ nodes)

include member

theorem checkLiteral_reportsAt (literal : Literal) : ReportsAt nodes (checkLiteral literal node.span) := by
  cases literal with
  | int | bool => exact .pure _
  | char | float | string => exact .refuse member _

theorem binaryType_reportsAt (operator : BinaryOperator) (left right : Ty) :
    ReportsAt nodes (binaryType operator left right node.span) := by
  unfold binaryType
  split
  · exact .pure _
  · cases operator.resolve? left right with
    | some result => exact .pure _
    | none => exact .refuse member _

theorem unaryType_reportsAt (operator : UnaryOperator) (operand : Ty) :
    ReportsAt nodes (unaryType operator operand node.span) := by
  unfold unaryType
  split
  · exact .pure _
  · cases operator.resolve? operand with
    | some result => exact .pure _
    | none => exact .refuse member _

/-- Here the node is that of the argument list. -/
theorem callType_reportsAt {callee : Name} (named : callee.node ∈ nodes) (function : Ty) (arguments : List Ty) :
    ReportsAt nodes (callType callee function arguments node.span) := by
  unfold callType
  split
  · exact .pure _
  · cases function.signature? with
    | none => exact .refuse named _
    | some signature =>
      dsimp only
      split
      · exact .pure _
      · exact .refuse member _

end Expr

mutual

theorem checkExpr_reportsAt (scope : Nat) : ∀ expr : Expr, ReportsAt expr.nodes (checkExpr scope expr)
  | .literal value node => by
    rw [checkExpr]
    exact (checkLiteral_reportsAt (Expr.node_mem_nodes _) value).bind fun _ =>
      (setType_reportsAt _ _).bind fun _ => .pure _
  | .named name => by
    rw [checkExpr]
    exact (resolve_reportsAt scope (Expr.node_mem_nodes (.named name))).bind fun _ => .pure _
  | .binary operator left right node => by
    rw [checkExpr]
    refine ((checkExpr_reportsAt scope left).mono (by simp [Expr.nodes])).bind fun leftType => ?_
    refine ((checkExpr_reportsAt scope right).mono (by simp [Expr.nodes])).bind fun rightType => ?_
    exact (binaryType_reportsAt (Expr.node_mem_nodes _) operator leftType rightType).bind fun _ =>
      (setType_reportsAt _ _).bind fun _ => .pure _
  | .unary operator operand node => by
    rw [checkExpr]
    refine ((checkExpr_reportsAt scope operand).mono (by simp [Expr.nodes])).bind fun operandType => ?_
    exact (unaryType_reportsAt (Expr.node_mem_nodes _) operator operandType).bind fun _ =>
      (setType_reportsAt _ _).bind fun _ => .pure _
  | .call callee arguments list node => by
    rw [checkExpr]
    have named : callee.node ∈ (Expr.call callee arguments list node).nodes := by simp [Expr.nodes]
    have listed : list ∈ (Expr.call callee arguments list node).nodes := by simp [Expr.nodes]
    refine (resolve_reportsAt scope named).bind fun binding => ?_
    refine ((checkArguments_reportsAt scope arguments).mono (by grind [Expr.nodes])).bind fun types => ?_
    exact (callType_reportsAt listed named binding.ty types).bind fun _ =>
      (setType_reportsAt _ _).bind fun _ => .pure _
  | .invalid node => by
    rw [checkExpr]
    exact (setType_reportsAt _ _).bind fun _ => .pure _

theorem checkArguments_reportsAt (scope : Nat) :
    ∀ arguments : List Expr, ReportsAt (Expr.nodesAll arguments) (checkArguments scope arguments)
  | [] => by
    rw [checkArguments]
    exact .pure _
  | first :: rest => by
    rw [checkArguments]
    refine ((checkExpr_reportsAt scope first).mono (List.subset_append_left _ _)).bind fun ty => ?_
    exact ((checkArguments_reportsAt scope rest).mono (List.subset_append_right _ _)).bind fun _ => .pure _

end

theorem checkValue_reportsAt (scope : Nat) (context : String) (expr : Expr) :
    ReportsAt expr.nodes (checkValue scope context expr) := by
  refine (checkExpr_reportsAt scope expr).bind fun ty => ?_
  split
  · exact .pure _
  · exact .refuse expr.node_mem_nodes _

section Stmt

variable (place : Place) {node : Node}

theorem checkDeclaration_reportsAt (isMutable : Bool) {name : Name} (named : name.node ∈ nodes) {value : Expr}
    (values : value.nodes ⊆ nodes) : ReportsAt nodes (checkDeclaration place isMutable name value node) :=
  ((checkValue_reportsAt place.scope _ value).mono values).bind fun ty =>
    (setType_reportsAt _ ty).bind fun _ => declare_reportsAt place.scope ty isMutable named

theorem checkAssignment_reportsAt {target : Name} (named : target.node ∈ nodes) {value : Expr}
    (values : value.nodes ⊆ nodes) : ReportsAt nodes (checkAssignment place target value) := by
  refine (resolve_reportsAt place.scope named).bind fun binding => ?_
  refine ((checkExpr_reportsAt place.scope value).mono values).bind fun ty => ?_
  split
  · exact .pure _
  split
  · exact .report named _
  split
  · exact .report (values value.node_mem_nodes) _
  · exact .pure _

theorem checkCondition_reportsAt (condition : Expr) :
    ReportsAt condition.nodes (checkCondition place condition) := by
  refine (checkExpr_reportsAt place.scope condition).bind fun ty => ?_
  split
  · exact .report condition.node_mem_nodes _
  · exact .pure _

theorem checkResult_reportsAt (found : Ty) (member : node ∈ nodes) :
    ReportsAt nodes (checkResult place found node.span) := by
  unfold checkResult
  cases place.result with
  | none => exact .report member _
  | some expected =>
    dsimp only
    split
    · exact .report member _
    · exact .pure _

theorem checkReturn_reportsAt (value : Option Expr) :
    ReportsAt (Stmt.ret value node).nodes (checkReturn place value node.span) := by
  cases value with
  | none => exact checkResult_reportsAt place .void (by simp [Stmt.nodes])
  | some value =>
    refine ((checkExpr_reportsAt place.scope value).mono (by simp [Stmt.nodes])).bind fun ty => ?_
    split
    · exact checkResult_reportsAt place ty (by simp [Stmt.nodes])
    · exact .report (List.mem_cons_of_mem _ value.node_mem_nodes) _

theorem checkPrint_reportsAt : ∀ items : List PrintItem,
    ReportsAt (items.flatMap PrintItem.nodes) (checkPrint place items)
  | [] => .pure _
  | .value expr :: rest =>
    ((checkValue_reportsAt place.scope "print" expr).mono (List.subset_append_left _ _)).bind fun _ =>
      (checkPrint_reportsAt rest).mono (List.subset_append_right _ _)
  | .space _ :: rest | .newline _ :: rest => checkPrint_reportsAt rest

end Stmt

mutual

theorem checkStmt_reportsAt (place : Place) : ∀ stmt : Stmt, ReportsAt stmt.nodes (checkStmt place stmt)
  | .declare isMutable name value node => by
    rw [checkStmt]
    exact checkDeclaration_reportsAt place isMutable (by simp [Stmt.nodes]) (by grind [Stmt.nodes])
  | .assign target value node => by
    rw [checkStmt]
    exact checkAssignment_reportsAt place (by simp [Stmt.nodes]) (by grind [Stmt.nodes])
  | .branch condition thenBlock none node => by
    rw [checkStmt]
    refine ((checkCondition_reportsAt place condition).mono (by grind [Stmt.nodes])).bind fun _ => ?_
    exact ((checkNested_reportsAt place thenBlock).mono (by grind [Stmt.nodes])).bind fun _ => .pure _
  | .branch condition thenBlock (some elseBlock) node => by
    rw [checkStmt]
    refine ((checkCondition_reportsAt place condition).mono (by grind [Stmt.nodes])).bind fun _ => ?_
    refine ((checkNested_reportsAt place thenBlock).mono (by grind [Stmt.nodes])).bind fun _ => ?_
    exact (checkNested_reportsAt place elseBlock).mono (by grind [Stmt.nodes])
  | .ret value node => by
    rw [checkStmt]
    exact checkReturn_reportsAt place value
  | .call call node => by
    rw [checkStmt]
    exact ((checkExpr_reportsAt place.scope call.expr).mono (List.subset_cons_self _ _)).bind fun _ => .pure _
  | .print items node => by
    rw [checkStmt]
    exact (checkPrint_reportsAt place items).mono (List.subset_cons_self _ _)
  | .nested body => by
    rw [checkStmt]
    exact checkNested_reportsAt place body
  | .invalid node => by
    rw [checkStmt]
    exact .pure _

theorem checkNested_reportsAt (place : Place) : ∀ block : Block, ReportsAt block.nodes (checkNested place block)
  | .mk statements node => by
    rw [checkNested]
    refine (openScope_reportsAt _).bind fun scope => (setScope_reportsAt _ _).bind fun _ => ?_
    refine ((checkStatements_reportsAt { place with scope := scope } statements).mono
      (List.subset_cons_self _ _)).bind fun _ => leaveScope_reportsAt scope

theorem checkStatements_reportsAt (place : Place) :
    ∀ statements : List Stmt, ReportsAt (Stmt.nodesAll statements) (checkStatements place statements)
  | [] => by
    rw [checkStatements]
    exact .pure _
  | first :: rest => by
    rw [checkStatements]
    refine ((checkStmt_reportsAt place first).mono (List.subset_append_left _ _)).bind fun _ => ?_
    exact (checkStatements_reportsAt place rest).mono (List.subset_append_right _ _)

end

theorem checkBody_reportsAt (parameters : Nat) (result : Ty) (body : Block) :
    ReportsAt body.nodes (checkBody parameters result body) := by
  obtain ⟨statements, node⟩ := body
  refine (openScope_reportsAt _).bind fun scope => (setScope_reportsAt _ _).bind fun _ => ?_
  exact ((checkStatements_reportsAt ⟨scope, some result⟩ statements).mono
    (List.subset_cons_self _ _)).bind fun _ => leaveScope_reportsAt scope

section Function

variable (function : Function)

theorem declareFunction_reportsAt (root : Nat) : ReportsAt function.nodes (declareFunction root function) := by
  refine (setType_reportsAt _ _).bind fun _ => ?_
  refine (ReportsAt.forM fun parameter _ => setType_reportsAt _ _).bind fun _ => ?_
  exact (setType_reportsAt _ _).bind fun _ => declare_reportsAt root _ false (by simp [Function.nodes])

theorem checkPaths_reportsAt : ReportsAt function.nodes (checkPaths function) := by
  rw [checkPaths]
  split
  · exact .report (by simp [Function.nodes]) _
  · exact .pure _

theorem checkFunction_reportsAt (root : Nat) : ReportsAt function.nodes (checkFunction root function) := by
  have parameters (scope : Nat) : ReportsAt function.nodes (function.parameters.forM (declareParameter scope)) := by
    refine .forM fun parameter among => (setType_reportsAt _ _).bind fun _ => declare_reportsAt scope _ false ?_
    have named : parameter.name.node ∈ function.parameters.flatMap Parameter.nodes :=
      List.mem_flatMap.mpr ⟨parameter, among, by simp [Parameter.nodes]⟩
    grind [Function.nodes]
  have body (scope : Nat) : ReportsAt function.nodes (checkBody scope function.result.ty function.body) :=
    (checkBody_reportsAt scope _ function.body).mono (by grind [Function.nodes])
  refine (openScope_reportsAt _).bind fun scope => ?_
  refine (setScope_reportsAt _ _).bind fun _ => (setScope_reportsAt _ _).bind fun _ => ?_
  refine (parameters scope).bind fun _ => (body scope).bind fun _ => ?_
  exact (leaveScope_reportsAt scope).bind fun _ => checkPaths_reportsAt function

end Function

theorem checkProgram_reportsAt (program : Program) : ReportsAt program.nodes (checkProgram program) := by
  have inside (function : Function) (member : function ∈ program.functions) : function.nodes ⊆ program.nodes := by
    intro node among
    have listed : node ∈ program.functions.flatMap Function.nodes := List.mem_flatMap.mpr ⟨function, member, among⟩
    grind [Program.nodes]
  refine (openScope_reportsAt _).bind fun scope => (setScope_reportsAt _ _).bind fun _ => ?_
  refine (ReportsAt.forM fun function member =>
    (declareFunction_reportsAt function scope).mono (inside function member)).bind fun _ => ?_
  refine (ReportsAt.forM fun function member =>
    (checkFunction_reportsAt function scope).mono (inside function member)).bind fun _ => ?_
  refine ((checkNested_reportsAt ⟨scope, none⟩ program.main).mono ?_).bind fun _ => leaveScope_reportsAt scope
  grind [Program.nodes]

end Checker

/-- Every diagnostic is about a node of the program. -/
theorem Program.diagnostics_at_nodes (program : Program) :
    ∀ diagnostic ∈ program.analyze.diagnostics, ∃ node ∈ program.nodes, diagnostic.span = node.span := by
  obtain ⟨found, added, sited⟩ := Checker.checkProgram_reportsAt program Analysis.empty
  have all : program.analyze.diagnostics = found := added
  rwa [all]

end Stackwright
