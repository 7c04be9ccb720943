import Stackwright.Proofs.Checking.Program

/-! The points of checking at which a name is bound or resolved, in their order. Each comes with the
scope that is worked in and with the scopes as they are at that point: those that the check has made
of the program until then. No name is given a binding anywhere else. -/

set_option autoImplicit false

namespace Stackwright

/-- A point of checking at which a name is bound or resolved. -/
structure Visit where
  name : Name
  scope : Nat
  tree : ScopeTree

namespace Checker

open Analysis

variable {α : Type}

/-- A name is resolved. -/
def resolveVisits (scope : Nat) (name : Name) (known : Analysis) : List Visit :=
  [⟨name, scope, known.scopes⟩]

/-- A name is bound: the scopes before and after the step that binds it. -/
def bindingVisits (scope : Nat) (name : Name) (act : Checker Unit) (known : Analysis) : List Visit :=
  [⟨name, scope, known.scopes⟩, ⟨name, scope, (act known).2.scopes⟩]

mutual

def exprVisits (scope : Nat) : Expr → Analysis → List Visit
  | .literal _ _, _ => []
  | .named name, known => resolveVisits scope name known
  | .binary _ left right _, known =>
    exprVisits scope left known ++ exprVisits scope right (checkExpr scope left known).2
  | .unary _ operand _, known => exprVisits scope operand known
  | .call callee arguments _ _, known =>
    resolveVisits scope callee known ++ argumentsVisits scope arguments (resolve scope callee known).2
  | .invalid _, _ => []

def argumentsVisits (scope : Nat) : List Expr → Analysis → List Visit
  | [], _ => []
  | argument :: rest, known =>
    exprVisits scope argument known ++ argumentsVisits scope rest (checkExpr scope argument known).2

end

def declarationVisits (place : Place) (isMutable : Bool) (name : Name) (value : Expr) (node : Node)
    (known : Analysis) : List Visit :=
  exprVisits place.scope value known ++
    bindingVisits place.scope name (checkDeclaration place isMutable name value node) known

def assignmentVisits (place : Place) (target : Name) (value : Expr) (known : Analysis) : List Visit :=
  resolveVisits place.scope target known ++
    exprVisits place.scope value (resolve place.scope target known).2

def printVisits (place : Place) : List PrintItem → Analysis → List Visit
  | [], _ => []
  | .value expr :: rest, known =>
    exprVisits place.scope expr known ++
      printVisits place rest (checkValue place.scope "print" expr known).2
  | .space _ :: rest, known | .newline _ :: rest, known => printVisits place rest known

mutual

def stmtVisits (place : Place) : Stmt → Analysis → List Visit
  | .declare isMutable name value node, known => declarationVisits place isMutable name value node known
  | .assign target value _, known => assignmentVisits place target value known
  | .branch condition thenBlock none _, known =>
    exprVisits place.scope condition known ++
      nestedVisits place thenBlock (checkCondition place condition known).2
  | .branch condition thenBlock (some elseBlock) _, known =>
    exprVisits place.scope condition known ++
      (nestedVisits place thenBlock (checkCondition place condition known).2 ++
        nestedVisits place elseBlock
          (checkNested place thenBlock (checkCondition place condition known).2).2)
  | .ret none _, _ => []
  | .ret (some value) _, known => exprVisits place.scope value known
  | .call call _, known => exprVisits place.scope call.expr known
  | .print items _, known => printVisits place items known
  | .nested body, known => nestedVisits place body known
  | .invalid _, _ => []

def nestedVisits (place : Place) : Block → Analysis → List Visit
  | .mk statements node, known =>
    statementsVisits (innerPlace place known) statements (inside place node known)

def statementsVisits (place : Place) : List Stmt → Analysis → List Visit
  | [], _ => []
  | statement :: rest, known =>
    stmtVisits place statement known ++ statementsVisits place rest (checkStmt place statement known).2

end

/-- The visits of a step that is done for each of some items. -/
def eachVisits (act : α → Checker Unit) (visits : α → Analysis → List Visit) :
    List α → Analysis → List Visit
  | [], _ => []
  | item :: rest, known => visits item known ++ eachVisits act visits rest (act item known).2

/-- The visits of a step that declares the name of each of some items. -/
def declaredVisits (scope : Nat) (act : α → Checker Unit) (name : α → Name) :
    List α → Analysis → List Visit :=
  eachVisits act fun item known => bindingVisits scope (name item) (act item) known

def bodyVisits (parameters : Nat) (result : Ty) (body : Block) (known : Analysis) : List Visit :=
  statementsVisits (bodyPlace known result) body.statements (atBody known parameters body)

def functionVisits (root : Nat) (function : Function) (known : Analysis) : List Visit :=
  declaredVisits known.scopes.scopes.size (declareParameter known.scopes.scopes.size) Parameter.name
      function.parameters (atParameters known root function) ++
    bodyVisits known.scopes.scopes.size function.result.ty function.body (atFunction known root function)

end Checker

open Checker in
/-- All points of checking a program at which a name is bound or resolved. -/
def Program.visits (program : Program) : List Visit :=
  declaredVisits 0 (declareFunction 0) Function.name program.functions (atStart program) ++
    (eachVisits (checkFunction 0) (functionVisits 0) program.functions (atFunctions program) ++
      nestedVisits ⟨0, none⟩ program.main (atMain program))

namespace Checker

open Analysis

variable {α : Type} {visits more : List Visit} {known between after : Analysis}

/-- The visits account for every binding that a step notes. -/
def Accounts (visits : List Visit) (known after : Analysis) : Prop :=
  ∀ id : Nat, after.bindings[id]? = known.bindings[id]? ∨ ∃ visit ∈ visits, visit.name.node.id = id

theorem Accounts.append (one : Accounts visits known between) (two : Accounts more between after) :
    Accounts (visits ++ more) known after := by
  intro id
  rcases one id with same | ⟨visit, member, named⟩
  · rcases two id with same' | ⟨visit, member, named⟩
    · exact .inl (same'.trans same)
    · exact .inr ⟨visit, List.mem_append_right _ member, named⟩
  · exact .inr ⟨visit, List.mem_append_left _ member, named⟩

/-- What follows without giving a name a binding. -/
theorem Accounts.finish (one : Accounts visits known between) (two : Accounts [] between after) :
    Accounts visits known after :=
  List.append_nil visits ▸ one.append two

theorem Accounts.of_eq (same : after.bindings = known.bindings) : Accounts visits known after :=
  fun id => .inl (by rw [same])

/-- What comes before without giving a name a binding. -/
theorem Accounts.start (rest : Accounts visits between after) (same : between.bindings = known.bindings) :
    Accounts visits known after :=
  fun id => same ▸ rest id

theorem Accounts.of_notes (notes : Notes [] known after) : Accounts visits known after :=
  fun _ => .inl (notes.same.bindings List.not_mem_nil)

theorem Accounts.of_visit {visit : Visit} (notes : Notes [visit.name.node.id] known after)
    (member : visit ∈ visits) : Accounts visits known after := by
  intro id
  by_cases named : visit.name.node.id = id
  · exact .inr ⟨visit, member, named⟩
  · exact .inl (notes.same.bindings fun twice => named (List.mem_singleton.mp twice).symm)

theorem setType_accounts (id : Nat) (ty : Ty) (known : Analysis) :
    Accounts visits known (setType id ty known).2 :=
  .of_eq rfl

theorem resolve_accounts (scope : Nat) (name : Name) (known : Analysis) :
    Accounts (resolveVisits scope name known) known (resolve scope name known).2 :=
  .of_visit (resolve_annotates known scope name).toNotes List.mem_cons_self

mutual

theorem checkExpr_accounts (scope : Nat) : ∀ (expr : Expr) (known : Analysis),
    Accounts (exprVisits scope expr known) known (checkExpr scope expr known).2
  | .literal value node, known => by
    rw [checkExpr, exprVisits]
    exact .finish (.of_notes (checkLiteral_annotates known value node.span).toNotes) (setType_accounts _ _ _)
  | .named name, known => by
    rw [checkExpr, exprVisits]
    exact resolve_accounts scope name known
  | .binary operator left right node, known => by
    rw [checkExpr, exprVisits]
    refine ((checkExpr_accounts scope left known).append (checkExpr_accounts scope right _)).finish ?_
    exact .finish (.of_notes (binaryType_annotates _ operator _ _ node.span).toNotes) (setType_accounts _ _ _)
  | .unary operator operand node, known => by
    rw [checkExpr, exprVisits]
    refine (checkExpr_accounts scope operand known).finish ?_
    exact .finish (.of_notes (unaryType_annotates _ operator _ node.span).toNotes) (setType_accounts _ _ _)
  | .call callee arguments list node, known => by
    rw [checkExpr, exprVisits]
    refine ((resolve_accounts scope callee known).append (checkArguments_accounts scope arguments _)).finish ?_
    exact .finish (.of_notes (callType_annotates _ callee _ _ list.span).toNotes) (setType_accounts _ _ _)
  | .invalid node, known => by
    rw [checkExpr]
    exact setType_accounts _ _ _

theorem checkArguments_accounts (scope : Nat) : ∀ (arguments : List Expr) (known : Analysis),
    Accounts (argumentsVisits scope arguments known) known (checkArguments scope arguments known).2
  | [], known => by
    rw [checkArguments]
    exact .of_eq rfl
  | first :: rest, known => by
    rw [checkArguments, argumentsVisits]
    exact (checkExpr_accounts scope first known).append (checkArguments_accounts scope rest _)

end

theorem checkValue_accounts (scope : Nat) (context : String) (expr : Expr) (known : Analysis) :
    Accounts (exprVisits scope expr known) known (checkValue scope context expr known).2 := by
  rw [checkValue, bind_apply]
  refine (checkExpr_accounts scope expr known).finish ?_
  split
  · exact .of_eq rfl
  · exact .of_notes (report_notes _ _ _)

theorem checkDeclaration_accounts (place : Place) (isMutable : Bool) (name : Name) (value : Expr)
    (node : Node) (known : Analysis) :
    Accounts (declarationVisits place isMutable name value node known) known
      (checkDeclaration place isMutable name value node known).2 := by
  rw [checkDeclaration, bind_apply]
  rcases step : checkValue place.scope ("declaration of '" ++ name.text ++ "'") value known with ⟨ty, between⟩
  have typed := checkValue_accounts place.scope ("declaration of '" ++ name.text ++ "'") value known
  rw [step] at typed
  refine typed.append (.start ?_ (rfl : (setType node.id ty between).2.bindings = _))
  exact .of_visit (declare_performs place.scope name ty isMutable _).toNotes List.mem_cons_self

theorem checkAssignment_accounts (place : Place) (target : Name) (value : Expr) (known : Analysis) :
    Accounts (assignmentVisits place target value known) known
      (checkAssignment place target value known).2 := by
  refine (resolve_accounts place.scope target known).append ?_
  refine (checkExpr_accounts place.scope value _).finish ?_
  simp only [checkAssignment, bind_apply]
  split
  · exact .of_eq rfl
  split
  · exact .of_notes (report_notes _ _ _)
  split
  · exact .of_notes (report_notes _ _ _)
  · exact .of_eq rfl

theorem checkCondition_accounts (place : Place) (condition : Expr) (known : Analysis) :
    Accounts (exprVisits place.scope condition known) known (checkCondition place condition known).2 := by
  refine (checkExpr_accounts place.scope condition known).finish ?_
  simp only [checkCondition, bind_apply]
  split
  · exact .of_notes (report_notes _ _ _)
  · exact .of_eq rfl

theorem checkReturn_accounts (place : Place) (value : Option Expr) (node : Node) (known : Analysis) :
    Accounts (stmtVisits place (.ret value node) known) known (checkReturn place value node.span known).2 := by
  cases value with
  | none => exact .of_notes (checkResult_annotates place .void node.span known _).toNotes
  | some value =>
    rw [stmtVisits]
    refine (checkExpr_accounts place.scope value known).finish ?_
    simp only [checkReturn, bind_apply]
    split
    · exact .of_notes (checkResult_annotates place _ node.span _ _).toNotes
    · exact .of_notes (report_notes _ _ _)

theorem checkPrint_accounts (place : Place) : ∀ (items : List PrintItem) (known : Analysis),
    Accounts (printVisits place items known) known (checkPrint place items known).2
  | [], _ => .of_eq rfl
  | .value expr :: rest, known =>
    (checkValue_accounts place.scope "print" expr known).append (checkPrint_accounts place rest _)
  | .space _ :: rest, known => checkPrint_accounts place rest known
  | .newline _ :: rest, known => checkPrint_accounts place rest known

mutual

theorem checkStmt_accounts (place : Place) : ∀ (stmt : Stmt) (known : Analysis),
    Accounts (stmtVisits place stmt known) known (checkStmt place stmt known).2
  | .declare isMutable name value node, known => by
    rw [checkStmt, stmtVisits]
    exact checkDeclaration_accounts place isMutable name value node known
  | .assign target value node, known => by
    rw [checkStmt, stmtVisits]
    exact checkAssignment_accounts place target value known
  | .branch condition thenBlock none node, known => by
    rw [checkStmt, stmtVisits]
    exact (checkCondition_accounts place condition known).append (checkNested_accounts place thenBlock _)
  | .branch condition thenBlock (some elseBlock) node, known => by
    rw [checkStmt, stmtVisits]
    exact (checkCondition_accounts place condition known).append
      ((checkNested_accounts place thenBlock _).append (checkNested_accounts place elseBlock _))
  | .ret value node, known => by
    rw [checkStmt]
    exact checkReturn_accounts place value node known
  | .call call node, known => by
    rw [checkStmt, stmtVisits]
    exact checkExpr_accounts place.scope call.expr known
  | .print items node, known => by
    rw [checkStmt, stmtVisits]
    exact checkPrint_accounts place items known
  | .nested body, known => by
    rw [checkStmt, stmtVisits]
    exact checkNested_accounts place body known
  | .invalid node, known => by
    rw [checkStmt]
    exact .of_eq rfl

theorem checkNested_accounts (place : Place) : ∀ (block : Block) (known : Analysis),
    Accounts (nestedVisits place block known) known (checkNested place block known).2
  | .mk statements node, known => by
    rw [checkNested_eq, nestedVisits]
    have body := checkStatements_accounts (innerPlace place known) statements (inside place node known)
    exact (body.finish (.of_eq rfl)).start rfl

theorem checkStatements_accounts (place : Place) : ∀ (statements : List Stmt) (known : Analysis),
    Accounts (statementsVisits place statements known) known (checkStatements place statements known).2
  | [], known => by
    rw [checkStatements]
    exact .of_eq rfl
  | first :: rest, known => by
    rw [checkStatements, statementsVisits]
    exact (checkStmt_accounts place first known).append (checkStatements_accounts place rest _)

end

theorem each_accounts {act : α → Checker Unit} {own : α → Analysis → List Visit}
    (step : ∀ item known, Accounts (own item known) known (act item known).2) (items : List α)
    (known : Analysis) : Accounts (eachVisits act own items known) known (items.forM act known).2 := by
  induction items generalizing known with
  | nil => exact .of_eq rfl
  | cons item rest ih =>
    rw [forM_cons_apply, eachVisits]
    exact (step item known).append (ih _)

theorem setTypes_bindings (parameters : List Parameter) (known : Analysis) :
    (parameters.forM (fun parameter => setType parameter.type.node.id parameter.type.ty) known).2.bindings =
      known.bindings := by
  induction parameters generalizing known with
  | nil => rfl
  | cons parameter rest ih => exact ih _

/-- What is known when the types that a definition writes down have been noted. -/
abbrev written (function : Function) (known : Analysis) : Analysis :=
  (setType function.node.id function.signature.ty
    (function.parameters.forM (fun parameter => setType parameter.type.node.id parameter.type.ty)
      (setType function.result.node.id function.result.ty known).2).2).2

theorem declareFunction_eq (scope : Nat) (function : Function) (known : Analysis) :
    declareFunction scope function known =
      declare scope function.name function.signature.ty false (written function known) := rfl

theorem declareFunction_accounts (scope : Nat) (function : Function) (known : Analysis) :
    Accounts (bindingVisits scope function.name (declareFunction scope function) known) known
      (declareFunction scope function known).2 := by
  have typed : (written function known).bindings = known.bindings := setTypes_bindings function.parameters _
  have performs := declare_performs scope function.name function.signature.ty false (written function known)
  rw [← declareFunction_eq] at performs
  exact .start (.of_visit performs.toNotes List.mem_cons_self) typed

theorem declareParameter_accounts (scope : Nat) (parameter : Parameter) (known : Analysis) :
    Accounts (bindingVisits scope parameter.name (declareParameter scope parameter) known) known
      (declareParameter scope parameter known).2 :=
  .start (.of_visit (declare_performs scope parameter.name _ false _).toNotes List.mem_cons_self)
    (rfl : (setType parameter.node.id parameter.type.ty known).2.bindings = _)

theorem checkBody_accounts (parameters : Nat) (result : Ty) (body : Block) (known : Analysis) :
    Accounts (bodyVisits parameters result body known) known (checkBody parameters result body known).2 := by
  rw [checkBody_eq]
  have statements := checkStatements_accounts (bodyPlace known result) body.statements
    (atBody known parameters body)
  exact (statements.finish (.of_eq rfl)).start rfl

theorem checkFunction_accounts (root : Nat) (function : Function) (known : Analysis) :
    Accounts (functionVisits root function known) known (checkFunction root function known).2 := by
  rw [checkFunction_eq]
  have parameters := each_accounts (declareParameter_accounts known.scopes.scopes.size) function.parameters
    (atParameters known root function)
  have body := checkBody_accounts known.scopes.scopes.size function.result.ty function.body
    (atFunction known root function)
  have paths : Annotates [] _ _ :=
    checkPaths_annotates function (leaveScope known.scopes.scopes.size (afterBody known root function)).2
  exact ((parameters.append body).finish (.start (.of_notes paths.toNotes) rfl)).start rfl

end Checker

open Checker

theorem Program.visits_account (program : Program) : Accounts program.visits .empty program.analyze := by
  have declared := each_accounts (declareFunction_accounts 0) program.functions (atStart program)
  have checked := each_accounts (checkFunction_accounts 0) program.functions (atFunctions program)
  have main := checkNested_accounts ⟨0, none⟩ program.main (atMain program)
  exact ((declared.append (checked.append main)).finish (.of_eq rfl)).start rfl

/-- Every node that has a binding in the end is that of a name that was visited. -/
theorem Program.visited_of_binding {program : Program} {id : Nat} {binding : Binding}
    (noted : program.analyze.bindings[id]? = some binding) :
    ∃ visit ∈ program.visits, visit.name.node.id = id := by
  rcases program.visits_account id with same | visited
  · rw [same] at noted
    simp [Analysis.empty] at noted
  · exact visited

end Stackwright
