import Stackwright.Proofs.Checking.Program
import Stackwright.Proofs.Checking.Reports
import Stackwright.Proofs.Lowering.Occurrence

/-! All expressions that are checked in a program, each with what is known by then. Whatever the program is
like, no function among the names has a result of type `error`, so the reports of every one of these
expressions explain its type. -/

set_option autoImplicit false

namespace Stackwright

/-- An expression that is checked, the scope that it is checked in and what is known by then. -/
structure Check where
  scope : Nat
  expr : Expr
  known : Analysis

namespace Check

open Checker

variable (check : Check)

/-- The type that is found. -/
def ty : Ty := (checkExpr check.scope check.expr check.known).1

/-- What is known afterwards. -/
def after : Analysis := (checkExpr check.scope check.expr check.known).2

/-- What is known when the operands have been checked. -/
def between : Analysis := afterOperands check.scope check.expr check.known

def reports : List Report := exprReports check.scope check.expr check.known

/-- Every fault of the expression is reported, and only once. -/
structure Reported : Prop where
  /-- Something was reported only if the expression is of type `error`. -/
  poisons : check.after.diagnostics ≠ check.known.diagnostics → check.ty = .error
  /-- The type `error` comes from a report, from text that could not be read, or from a declaration. -/
  reason : check.ty = .error → check.after.diagnostics ≠ check.known.diagnostics ∨ ¬ check.expr.Legible ∨
    ∃ name ∈ check.expr.names, ∃ binding,
      check.known.scopes.lookup check.scope name.text = some binding ∧ binding.ty = .error
  /-- The expression itself is reported only if nothing was in its operands. -/
  own : check.after.diagnostics ≠ check.between.diagnostics → check.between.diagnostics = check.known.diagnostics
  /-- These are the diagnostics, each with the part of the expression that it comes from. -/
  diagnostics : check.after.diagnostics = check.known.diagnostics ++ check.reports.map Report.diagnostic
  apart : check.reports.Pairwise Report.Apart

end Check

namespace Checker

open Analysis

mutual

def exprChecks (scope : Nat) : Expr → Analysis → List Check
  | .literal value node, known => [⟨scope, .literal value node, known⟩]
  | .named name, known => [⟨scope, .named name, known⟩]
  | .binary operator left right node, known =>
    ⟨scope, .binary operator left right node, known⟩ ::
      (exprChecks scope left known ++ exprChecks scope right (checkExpr scope left known).2)
  | .unary operator operand node, known =>
    ⟨scope, .unary operator operand node, known⟩ :: exprChecks scope operand known
  | .call callee arguments list node, known =>
    ⟨scope, .call callee arguments list node, known⟩ ::
      argumentsChecks scope arguments (resolve scope callee known).2
  | .invalid node, known => [⟨scope, .invalid node, known⟩]

def argumentsChecks (scope : Nat) : List Expr → Analysis → List Check
  | [], _ => []
  | argument :: rest, known =>
    exprChecks scope argument known ++ argumentsChecks scope rest (checkExpr scope argument known).2

end

def printChecks (place : Place) : List PrintItem → Analysis → List Check
  | [], _ => []
  | .value expr :: rest, known =>
    exprChecks place.scope expr known ++ printChecks place rest (checkValue place.scope "print" expr known).2
  | .space _ :: rest, known | .newline _ :: rest, known => printChecks place rest known

mutual

def stmtChecks (place : Place) : Stmt → Analysis → List Check
  | .declare _ _ value _, known => exprChecks place.scope value known
  | .assign target value _, known => exprChecks place.scope value (resolve place.scope target known).2
  | .branch condition thenBlock none _, known =>
    exprChecks place.scope condition known ++
      nestedChecks place thenBlock (checkCondition place condition known).2
  | .branch condition thenBlock (some elseBlock) _, known =>
    exprChecks place.scope condition known ++
      (nestedChecks place thenBlock (checkCondition place condition known).2 ++
        nestedChecks place elseBlock
          (checkNested place thenBlock (checkCondition place condition known).2).2)
  | .ret none _, _ => []
  | .ret (some value) _, known => exprChecks place.scope value known
  | .call call _, known => exprChecks place.scope call.expr known
  | .print items _, known => printChecks place items known
  | .nested body, known => nestedChecks place body known
  | .invalid _, _ => []

def nestedChecks (place : Place) : Block → Analysis → List Check
  | .mk statements node, known =>
    statementsChecks (innerPlace place known) statements (inside place node known)

def statementsChecks (place : Place) : List Stmt → Analysis → List Check
  | [], _ => []
  | statement :: rest, known =>
    stmtChecks place statement known ++ statementsChecks place rest (checkStmt place statement known).2

end

def functionChecks (root : Nat) (function : Function) (known : Analysis) : List Check :=
  let inner := atFunction known root function
  statementsChecks (bodyPlace inner function.result.ty) function.body.statements
    (atBody inner known.scopes.scopes.size function.body)

def functionsChecks (root : Nat) : List Function → Analysis → List Check
  | [], _ => []
  | function :: rest, known =>
    functionChecks root function known ++ functionsChecks root rest (checkFunction root function known).2

end Checker

open Checker in
/-- All expressions that are checked in a program. -/
def Program.checks (program : Program) : List Check :=
  functionsChecks 0 program.functions (atFunctions program) ++ nestedChecks ⟨0, none⟩ program.main (atMain program)

namespace Checker

open Analysis

section Complete

mutual

theorem map_exprChecks (scope : Nat) : ∀ (expr : Expr) (known : Analysis),
    (exprChecks scope expr known).map Check.expr = expr.parts
  | .literal _ _, _ | .named _, _ | .invalid _, _ => by rw [exprChecks, Expr.parts]; rfl
  | .binary _ left right _, known => by
    rw [exprChecks, Expr.parts, List.map_cons, List.map_append, map_exprChecks scope left,
      map_exprChecks scope right]
  | .unary _ operand _, known => by
    rw [exprChecks, Expr.parts, List.map_cons, map_exprChecks scope operand]
  | .call _ arguments _ _, known => by
    rw [exprChecks, Expr.parts, List.map_cons, map_argumentsChecks scope arguments]

theorem map_argumentsChecks (scope : Nat) : ∀ (arguments : List Expr) (known : Analysis),
    (argumentsChecks scope arguments known).map Check.expr = Expr.partsAll arguments
  | [], _ => by
    rw [argumentsChecks, Expr.partsAll]
    rfl
  | first :: rest, known => by
    rw [argumentsChecks, Expr.partsAll, List.map_append, map_exprChecks scope first, map_argumentsChecks scope rest]

end

theorem map_printChecks (place : Place) (items : List PrintItem) (known : Analysis) :
    (printChecks place items known).map Check.expr = items.flatMap PrintItem.exprs := by
  induction items generalizing known with
  | nil => rfl
  | cons item rest ih =>
    rw [List.flatMap_cons]
    cases item with
    | value expr => rw [printChecks, PrintItem.exprs, List.map_append, map_exprChecks, ih]
    | space | newline => exact ih known

mutual

theorem map_stmtChecks (place : Place) : ∀ (stmt : Stmt) (known : Analysis),
    (stmtChecks place stmt known).map Check.expr = stmt.exprs
  | .declare _ _ value _, known | .ret (some value) _, known => by
    rw [stmtChecks, Stmt.exprs, map_exprChecks]
  | .assign _ value _, known => by rw [stmtChecks, Stmt.exprs, map_exprChecks]
  | .branch condition thenBlock none _, known => by
    rw [stmtChecks, Stmt.exprs, List.map_append, map_exprChecks, map_nestedChecks place thenBlock]
  | .branch condition thenBlock (some elseBlock) _, known => by
    rw [stmtChecks, Stmt.exprs, List.map_append, List.map_append, map_exprChecks, map_nestedChecks place thenBlock,
      map_nestedChecks place elseBlock]
  | .ret none _, _ | .invalid _, _ => by
    rw [stmtChecks, Stmt.exprs]
    rfl
  | .call call _, known => by rw [stmtChecks, Stmt.exprs, map_exprChecks]
  | .print items _, known => by rw [stmtChecks, Stmt.exprs, map_printChecks]
  | .nested body, known => by rw [stmtChecks, Stmt.exprs, map_nestedChecks place body]

theorem map_nestedChecks (place : Place) : ∀ (block : Block) (known : Analysis),
    (nestedChecks place block known).map Check.expr = block.exprs
  | .mk statements _, known => by
    rw [nestedChecks, Block.exprs, map_statementsChecks _ statements]

theorem map_statementsChecks (place : Place) : ∀ (statements : List Stmt) (known : Analysis),
    (statementsChecks place statements known).map Check.expr = Stmt.exprsAll statements
  | [], _ => by
    rw [statementsChecks, Stmt.exprsAll]
    rfl
  | first :: rest, known => by
    rw [statementsChecks, Stmt.exprsAll, List.map_append, map_stmtChecks place first, map_statementsChecks place rest]

end

theorem map_functionsChecks (root : Nat) (functions : List Function) (known : Analysis) :
    (functionsChecks root functions known).map Check.expr = functions.flatMap fun function => function.body.exprs := by
  induction functions generalizing known with
  | nil => rfl
  | cons function rest ih =>
    have body : function.body.exprs = Stmt.exprsAll function.body.statements := by
      cases function.body
      rw [Block.exprs]
      rfl
    rw [functionsChecks, functionChecks, List.map_append, map_statementsChecks, ih, List.flatMap_cons, body]

end Complete

/-- All expressions of a program are checked. -/
theorem map_checks (program : Program) : program.checks.map Check.expr = program.exprs := by
  rw [Program.checks, Program.exprs, List.map_append, map_functionsChecks, map_nestedChecks]

section Own

variable {scope : Nat} {known : Analysis}

/-- An operator or a call adds diagnostics to those of its operands. -/
theorem afterOperands_prefix (expr : Expr) :
    (afterOperands scope expr known).diagnostics <+: (checkExpr scope expr known).2.diagnostics := by
  cases expr with
  | literal | named | invalid => exact (checkExpr_annotates scope _ known).reports
  | binary operator left right node =>
    rw [checkExpr]
    exact (binaryType_annotates _ operator _ _ node.span : Annotates [] _ _).reports
  | unary operator operand node =>
    rw [checkExpr]
    exact (unaryType_annotates _ operator _ node.span : Annotates [] _ _).reports
  | call callee arguments list node =>
    rw [checkExpr]
    exact (callType_annotates _ callee _ _ list.span : Annotates [] _ _).reports

/-- The last reports are those of the expression itself. -/
theorem exprReports_split (expr : Expr) : ∃ inner, exprReports scope expr known =
    inner ++ ownReports (afterOperands scope expr known) (checkExpr scope expr known).2 := by
  cases expr with
  | literal | named | invalid =>
    rw [exprReports]
    exact ⟨[], rfl⟩
  | binary | unary | call =>
    rw [exprReports]
    exact ⟨_, rfl⟩

end Own

/-- The reports of an expression explain its type if no function among the names has a result of type
`error`. -/
theorem reported_of_sound (check : Check) (sound : check.known.scopes.Typed Ty.Sound) : check.Reported := by
  have explains : Explains _ check.reports [check.ty] check.known check.after :=
    checkExpr_explains sound check.expr check.known rfl
  have unchanged_iff : check.after.diagnostics = check.known.diagnostics ↔ check.reports = [] := by
    rw [explains.diagnostics, List.append_right_eq_self, List.map_eq_nil_iff]
  refine ⟨fun changed => ?_, fun error => ?_, fun changed => ?_, explains.diagnostics, explains.apart⟩
  · exact (List.mem_singleton.mp (explains.poisons (mt unchanged_iff.mpr changed))).symm
  · exact (explains.reason (List.mem_singleton.mpr error.symm)).imp_left (mt unchanged_iff.mp)
  · obtain ⟨added, extended⟩ : check.between.diagnostics <+: check.after.diagnostics := afterOperands_prefix check.expr
    obtain ⟨inner, split⟩ : ∃ inner, check.reports = inner ++ ownReports check.between check.after :=
      exprReports_split check.expr
    have own : ownReports check.between check.after = added.map (Report.mk []) := by
      rw [ownReports, ← extended, List.drop_left]
    cases added with
    | nil => exact absurd (extended.symm.trans (List.append_nil _)) changed
    | cons first rest =>
      -- The whole contains all of its parts, so a report of the whole leaves no room for another.
      have alone : inner = [] := by
        rw [List.eq_nil_iff_forall_not_mem]
        intro report member
        have apart := explains.apart
        rw [split, own, List.pairwise_append] at apart
        exact (apart.2.2 report member ⟨[], first⟩ List.mem_cons_self).2 (List.nil_prefix)
      have total := explains.diagnostics
      rw [split, own, alone, List.nil_append, List.map_map, ← extended] at total
      have same : (first :: rest).map (Report.diagnostic ∘ Report.mk []) = first :: rest := List.map_id _
      rw [same] at total
      exact List.append_cancel_right total

/-- Checks that a step makes, if there are only sound types before it. -/
structure Reviews (checks : List Check) (known after : Analysis) : Prop where
  inside : known.scopes.Typed Ty.Sound → ∀ check ∈ checks, check.known.scopes.Typed Ty.Sound
  after : known.scopes.Typed Ty.Sound → after.scopes.Typed Ty.Sound

section Reviews

variable {checks more : List Check} {known between after : Analysis}

theorem Reviews.append (one : Reviews checks known between) (two : Reviews more between after) :
    Reviews (checks ++ more) known after :=
  ⟨fun sound => List.forall_mem_append.mpr ⟨one.inside sound, two.inside (one.after sound)⟩,
    fun sound => two.after (one.after sound)⟩

theorem Reviews.of_same (same : after.scopes = known.scopes)
    (among : ∀ check ∈ checks, check.known.scopes = known.scopes) : Reviews checks known after :=
  ⟨fun sound check member => among check member ▸ sound, fun sound => same.symm ▸ sound⟩

mutual

theorem exprChecks_scopes (scope : Nat) : ∀ (expr : Expr) (known : Analysis),
    ∀ check ∈ exprChecks scope expr known, check.known.scopes = known.scopes
  | .literal _ _, known | .named _, known | .invalid _, known => by
    rw [exprChecks]
    exact List.forall_mem_singleton.mpr rfl
  | .binary _ left right _, known => by
    rw [exprChecks]
    refine List.forall_mem_cons.mpr ⟨rfl, List.forall_mem_append.mpr ⟨exprChecks_scopes scope left known, ?_⟩⟩
    intro check member
    exact (exprChecks_scopes scope right _ check member).trans (checkExpr_annotates scope left known).scopes
  | .unary _ operand _, known => by
    rw [exprChecks]
    exact List.forall_mem_cons.mpr ⟨rfl, exprChecks_scopes scope operand known⟩
  | .call callee arguments _ _, known => by
    rw [exprChecks]
    refine List.forall_mem_cons.mpr ⟨rfl, fun check member => ?_⟩
    exact (argumentsChecks_scopes scope arguments _ check member).trans (resolve_annotates known scope callee).scopes

theorem argumentsChecks_scopes (scope : Nat) : ∀ (arguments : List Expr) (known : Analysis),
    ∀ check ∈ argumentsChecks scope arguments known, check.known.scopes = known.scopes
  | [], known => by
    rw [argumentsChecks]
    exact nofun
  | first :: rest, known => by
    rw [argumentsChecks]
    refine List.forall_mem_append.mpr ⟨exprChecks_scopes scope first known, fun check member => ?_⟩
    exact (argumentsChecks_scopes scope rest _ check member).trans (checkExpr_annotates scope first known).scopes

end

theorem exprChecks_reviews {ids : List Nat} (scope : Nat) (expr : Expr) (annotates : Annotates ids known after) :
    Reviews (exprChecks scope expr known) known after :=
  .of_same annotates.scopes (exprChecks_scopes scope expr known)

theorem declare_sound {scope : Nat} {name : Name} {ty : Ty} {isMutable : Bool} (isSound : ty.Sound)
    (sound : known.scopes.Typed Ty.Sound) : (declare scope name ty isMutable known).2.scopes.Typed Ty.Sound := by
  cases bound : known.scopes.bind? scope name.text ty isMutable with
  | none =>
    rw [declare_of_none bound]
    exact sound
  | some made =>
    rw [declare_of_some bound]
    exact sound.bind? isSound bound

/-- A variable has a type of values, unless its value went wrong. -/
theorem sound_of_checkValue (scope : Nat) (context : String) (expr : Expr) (known : Analysis) :
    (checkValue scope context expr known).1.Sound := by
  rw [checkValue, bind_apply]
  generalize (checkExpr scope expr known) = found
  split
  next fine =>
    intro parameters same
    rw [pure_apply] at same
    rw [same] at fine
    cases fine
  next => exact fun _ => Ty.noConfusion

theorem checkDeclaration_reviews (place : Place) (isMutable : Bool) (name : Name) (value : Expr) (node : Node)
    (known : Analysis) :
    Reviews (exprChecks place.scope value known) known (checkDeclaration place isMutable name value node known).2 := by
  have typed := checkValue_annotates place.scope ("declaration of '" ++ name.text ++ "'") value known
  have first := exprChecks_reviews place.scope value typed
  refine ⟨first.inside, fun sound => ?_⟩
  exact declare_sound (sound_of_checkValue place.scope _ value known) (first.after sound)

theorem printChecks_reviews (place : Place) (items : List PrintItem) (known : Analysis) :
    Reviews (printChecks place items known) known (checkPrint place items known).2 := by
  induction items generalizing known with
  | nil => exact .of_same rfl nofun
  | cons item rest ih =>
    cases item with
    | value expr =>
      exact (exprChecks_reviews place.scope expr (checkValue_annotates place.scope "print" expr known)).append (ih _)
    | space | newline => exact ih known

mutual

theorem checkStmt_reviews (place : Place) : ∀ (stmt : Stmt) (known : Analysis),
    Reviews (stmtChecks place stmt known) known (checkStmt place stmt known).2
  | .declare isMutable name value node, known => by
    rw [checkStmt, stmtChecks]
    exact checkDeclaration_reviews place isMutable name value node known
  | .assign target value _, known => by
    rw [checkStmt, stmtChecks]
    refine .of_same (checkAssignment_annotates place target value known).scopes fun check member => ?_
    exact (exprChecks_scopes place.scope value _ check member).trans (resolve_annotates known place.scope target).scopes
  | .branch condition thenBlock none _, known => by
    rw [checkStmt, stmtChecks]
    exact (exprChecks_reviews place.scope condition (checkCondition_annotates place condition known)).append
      (checkNested_reviews place thenBlock _)
  | .branch condition thenBlock (some elseBlock) _, known => by
    rw [checkStmt, stmtChecks]
    exact (exprChecks_reviews place.scope condition (checkCondition_annotates place condition known)).append
      ((checkNested_reviews place thenBlock _).append (checkNested_reviews place elseBlock _))
  | .ret none node, known => by
    rw [checkStmt, stmtChecks]
    exact .of_same (checkReturn_annotates place none node known).scopes nofun
  | .ret (some value) node, known => by
    rw [checkStmt, stmtChecks]
    exact exprChecks_reviews place.scope value (checkReturn_annotates place (some value) node known)
  | .call call _, known => by
    rw [checkStmt, stmtChecks]
    exact exprChecks_reviews place.scope call.expr (checkExpr_annotates place.scope call.expr known)
  | .print items _, known => by
    rw [checkStmt, stmtChecks]
    exact printChecks_reviews place items known
  | .nested body, known => by
    rw [checkStmt, stmtChecks]
    exact checkNested_reviews place body known
  | .invalid _, known => by
    rw [checkStmt, stmtChecks]
    exact .of_same rfl nofun

theorem checkNested_reviews (place : Place) : ∀ (block : Block) (known : Analysis),
    Reviews (nestedChecks place block known) known (checkNested place block known).2
  | .mk statements node, known => by
    rw [checkNested_eq, nestedChecks]
    have body := checkStatements_reviews (innerPlace place known) statements (inside place node known)
    exact ⟨fun sound => body.inside sound.openNested, fun sound => (body.after sound.openNested).leave⟩

theorem checkStatements_reviews (place : Place) : ∀ (statements : List Stmt) (known : Analysis),
    Reviews (statementsChecks place statements known) known (checkStatements place statements known).2
  | [], known => by
    rw [checkStatements, statementsChecks]
    exact .of_same rfl nofun
  | first :: rest, known => by
    rw [checkStatements, statementsChecks]
    exact (checkStmt_reviews place first known).append (checkStatements_reviews place rest _)

end

theorem Declares.sound {α : Type} {scope : Nat} {act : α → Checker Unit} {name : α → Name} {ty : α → Ty}
    {ids : α → List Nat} (declares : Declares scope act name ty ids) (isSound : ∀ item, (ty item).Sound)
    (items : List α) (sound : known.scopes.Typed Ty.Sound) : (items.forM act known).2.scopes.Typed Ty.Sound := by
  induction items generalizing known with
  | nil => exact sound
  | cons item rest ih =>
    obtain ⟨between, annotates, _, step⟩ := declares.step item known
    rw [forM_cons_apply]
    refine ih ?_
    rw [step]
    exact declare_sound (isSound item) (annotates.scopes.symm ▸ sound)

theorem sound_signature (function : Function) : function.signature.ty.Sound := by
  intro parameters same
  have result : function.result.primitive.ty = .error := (Ty.function.inj same).2
  cases primitive : function.result.primitive <;> rw [primitive] at result <;> cases result

theorem sound_parameter (parameter : Parameter) : parameter.type.ty.Sound := by
  intro parameters same
  have type : parameter.type.primitive.ty = .function parameters .error := same
  cases primitive : parameter.type.primitive <;> rw [primitive] at type <;> cases type

theorem checkFunction_reviews (root : Nat) (function : Function) (known : Analysis) :
    Reviews (functionChecks root function known) known (checkFunction root function known).2 := by
  have parameters (sound : known.scopes.Typed Ty.Sound) : (atFunction known root function).scopes.Typed Ty.Sound :=
    (declareParameter_declares known.scopes.scopes.size).sound sound_parameter function.parameters sound.addOwner
  have body := checkStatements_reviews (bodyPlace (atFunction known root function) function.result.ty)
    function.body.statements (atBody (atFunction known root function) known.scopes.scopes.size function.body)
  refine ⟨fun sound => body.inside (parameters sound).addOwner, fun sound => ?_⟩
  have last : (afterBody known root function).scopes.Typed Ty.Sound := (body.after (parameters sound).addOwner).leave
  rw [checkFunction_eq, (checkPaths_annotates function _ : Annotates [] _ _).scopes]
  exact last.leave

theorem checkFunctions_reviews (root : Nat) (functions : List Function) (known : Analysis) :
    Reviews (functionsChecks root functions known) known (functions.forM (checkFunction root) known).2 := by
  induction functions generalizing known with
  | nil => exact .of_same rfl nofun
  | cons function rest ih => exact (checkFunction_reviews root function known).append (ih _)

end Reviews

end Checker

open Checker in
/-- In every program, erroneous ones included, and wherever an expression is checked, every fault of the
expression is reported, and only once. The checks are those of all expressions in the program. -/
theorem Program.faults_reported_once (program : Program) :
    program.checks.map Check.expr = program.exprs ∧ ∀ check ∈ program.checks, check.Reported := by
  refine ⟨map_checks program, fun check member => reported_of_sound check ?_⟩
  have start : (atFunctions program).scopes.Typed Ty.Sound :=
    (declareFunction_declares 0).sound sound_signature program.functions ScopeTree.typed_empty.addOwner
  have reviews := (checkFunctions_reviews 0 program.functions (atFunctions program)).append
    (checkNested_reviews ⟨0, none⟩ program.main (atMain program))
  exact reviews.inside start check member

end Stackwright
