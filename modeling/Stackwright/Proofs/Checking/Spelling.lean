import Stackwright.Proofs.Checking.Function
import Stackwright.Proofs.Scope.Types
import Stackwright.Proofs.Tree.Names

/-! How the bindings that are noted are spelled. A binding is made where a name is declared and spelled like that
name; whatever is noted about a name that is used is such a binding or the null binding. -/

set_option autoImplicit false

namespace Stackwright

/-- All bindings that are known are spelled well, and the null binding is. -/
structure Analysis.Spelled (good : String → Prop) (known : Analysis) : Prop where
  null : good Binding.null.lexeme
  scopes : known.scopes.AllBindings fun binding => good binding.lexeme
  noted : ∀ {id : Nat} {binding : Binding}, known.bindings[id]? = some binding → good binding.lexeme

namespace Analysis

variable {good : String → Prop} {known : Analysis}

theorem spelled_empty (null : good Binding.null.lexeme) : Analysis.empty.Spelled good where
  null := null
  scopes := ScopeTree.allBindings_empty
  noted found := by simp [Analysis.empty] at found

/-- What is noted about a node is its binding or the null binding. -/
theorem Spelled.bindingOf (spelled : known.Spelled good) (id : Nat) :
    good (known.bindingOf id).lexeme := by
  unfold Analysis.bindingOf
  cases found : known.bindings[id]? with
  | none => exact spelled.null
  | some binding => exact spelled.noted found

theorem Spelled.setBinding {binding : Binding} (spelled : known.Spelled good) (isGood : good binding.lexeme)
    (id : Nat) : (Checker.setBinding id binding known).2.Spelled good := by
  refine ⟨spelled.null, spelled.scopes, fun {other noted} found => ?_⟩
  simp only [Checker.setBinding, Checker.modify_apply, Std.TreeMap.getElem?_insert] at found
  split at found
  · exact Option.some.inj found ▸ isGood
  · exact spelled.noted found

end Analysis

namespace Checker

open Analysis

/-- The step keeps all bindings well spelled. -/
def Spells {α : Type} (good : String → Prop) (step : Checker α) : Prop :=
  ∀ known : Analysis, known.Spelled good → (step known).2.Spelled good

variable {α β : Type} {good : String → Prop}

namespace Spells

/-- A step that neither binds a name nor notes a binding. -/
theorem quiet {step : Checker α} (scopes : ∀ known, (step known).2.scopes = known.scopes)
    (bindings : ∀ known, (step known).2.bindings = known.bindings) : Spells good step := by
  intro known spelled
  refine ⟨spelled.null, spelled.scopes.congr (congrArg ScopeTree.scopes (scopes known)), fun found => ?_⟩
  rw [bindings] at found
  exact spelled.noted found

theorem pure (value : α) : Spells good (pure value : Checker α) := quiet (fun _ => rfl) fun _ => rfl

theorem report (cause : Diagnostic.Cause) (span : Span) : Spells good (report cause span) :=
  quiet (fun _ => rfl) fun _ => rfl

theorem setType (id : Nat) (ty : Ty) : Spells good (setType id ty) := quiet (fun _ => rfl) fun _ => rfl

theorem setScope (id scope : Nat) : Spells good (setScope id scope) := quiet (fun _ => rfl) fun _ => rfl

theorem bind {first : Checker α} {next : α → Checker β} (one : Spells good first)
    (two : ∀ value, Spells good (next value)) : Spells good (first >>= next) :=
  fun known spelled => two _ _ (one known spelled)

theorem forM {act : β → Checker Unit} {items : List β} (each : ∀ item ∈ items, Spells good (act item)) :
    Spells good (items.forM act) := by
  induction items with
  | nil => exact pure ()
  | cons first rest ih =>
    obtain ⟨one, others⟩ := List.forall_mem_cons.mp each
    exact one.bind fun _ => ih others

theorem refuse (cause : Diagnostic.Cause) (span : Span) : Spells good (refuse cause span) :=
  (report cause span).bind fun _ => pure _

/-- A new scope has no names. -/
theorem openScope {opener : ScopeTree → Nat × ScopeTree}
    (opens : ∀ tree : ScopeTree, tree.AllBindings (fun binding => good binding.lexeme) →
      (opener tree).2.AllBindings fun binding => good binding.lexeme) : Spells good (openScope opener) :=
  fun known spelled => ⟨spelled.null, opens known.scopes spelled.scopes, spelled.noted⟩

theorem leaveScope (scope : Nat) : Spells good (leaveScope scope) :=
  fun _ spelled => ⟨spelled.null, spelled.scopes.leave, spelled.noted⟩

end Spells

theorem resolve_spells (scope : Nat) (name : Name) : Spells good (resolve scope name) := by
  intro known spelled
  simp only [resolve, bind_apply, get_apply]
  cases found : known.scopes.lookup scope name.text with
  | some binding =>
    exact Spelled.setBinding (Spells.setType _ _ known spelled) (spelled.scopes.lookup found) _
  | none =>
    have reported := Spells.report (.useBeforeDefine name.text) name.node.span known spelled
    exact Spelled.setBinding (Spells.setType _ _ _ reported) spelled.null _

theorem declare_spells (scope : Nat) {name : Name} (isGood : good name.text) (ty : Ty) (isMutable : Bool) :
    Spells good (declare scope name ty isMutable) := by
  intro known spelled
  have typed := Spells.setType name.node.id ty known spelled
  cases bound : known.scopes.bind? scope name.text ty isMutable with
  | none =>
    rw [declare_of_none bound]
    exact Spelled.setBinding (Spells.report _ _ _ typed) spelled.null _
  | some made =>
    obtain ⟨binding, scopes⟩ := made
    rw [declare_of_some bound]
    obtain ⟨_, _, _, _, same, _⟩ := ScopeTree.of_bind? bound
    have lexeme : good binding.lexeme := same ▸ isGood
    have extended : ({ (setType name.node.id ty known).2 with scopes := scopes } : Analysis).Spelled good :=
      ⟨spelled.null, ScopeTree.AllBindings.bind? spelled.scopes lexeme bound, typed.noted⟩
    exact extended.setBinding lexeme _

theorem checkLiteral_spells (literal : Literal) (span : Span) : Spells good (checkLiteral literal span) := by
  cases literal with
  | int | bool => exact .pure _
  | char | float | string => exact .refuse _ _

theorem binaryType_spells (operator : BinaryOperator) (left right : Ty) (span : Span) :
    Spells good (binaryType operator left right span) := by
  unfold binaryType
  split
  · exact .pure _
  · cases operator.resolve? left right with
    | some result => exact .pure _
    | none => exact .refuse _ _

theorem unaryType_spells (operator : UnaryOperator) (operand : Ty) (span : Span) :
    Spells good (unaryType operator operand span) := by
  unfold unaryType
  split
  · exact .pure _
  · cases operator.resolve? operand with
    | some result => exact .pure _
    | none => exact .refuse _ _

theorem callType_spells (callee : Name) (function : Ty) (arguments : List Ty) (list : Span) :
    Spells good (callType callee function arguments list) := by
  unfold callType
  split
  · exact .pure _
  · cases function.signature? with
    | none => exact .refuse _ _
    | some signature =>
      dsimp only
      split
      · exact .pure _
      · exact .refuse _ _

mutual

theorem checkExpr_spells (scope : Nat) : ∀ expr : Expr, Spells good (checkExpr scope expr)
  | .literal value node => by
    rw [checkExpr]
    exact (checkLiteral_spells value node.span).bind fun _ => (Spells.setType _ _).bind fun _ => .pure _
  | .named name => by
    rw [checkExpr]
    exact (resolve_spells scope name).bind fun _ => .pure _
  | .binary operator left right node => by
    rw [checkExpr]
    refine (checkExpr_spells scope left).bind fun leftType => (checkExpr_spells scope right).bind fun rightType => ?_
    exact (binaryType_spells operator leftType rightType node.span).bind fun _ =>
      (Spells.setType _ _).bind fun _ => .pure _
  | .unary operator operand node => by
    rw [checkExpr]
    refine (checkExpr_spells scope operand).bind fun operandType => ?_
    exact (unaryType_spells operator operandType node.span).bind fun _ => (Spells.setType _ _).bind fun _ => .pure _
  | .call callee arguments list node => by
    rw [checkExpr]
    refine (resolve_spells scope callee).bind fun binding => ?_
    refine (checkArguments_spells scope arguments).bind fun types => ?_
    exact (callType_spells callee binding.ty types list.span).bind fun _ => (Spells.setType _ _).bind fun _ => .pure _
  | .invalid node => by
    rw [checkExpr]
    exact (Spells.setType _ _).bind fun _ => .pure _

theorem checkArguments_spells (scope : Nat) : ∀ arguments : List Expr, Spells good (checkArguments scope arguments)
  | [] => by
    rw [checkArguments]
    exact .pure _
  | first :: rest => by
    rw [checkArguments]
    exact (checkExpr_spells scope first).bind fun _ => (checkArguments_spells scope rest).bind fun _ => .pure _

end

theorem checkValue_spells (scope : Nat) (context : String) (expr : Expr) :
    Spells good (checkValue scope context expr) := by
  refine (checkExpr_spells scope expr).bind fun ty => ?_
  split
  · exact .pure _
  · exact .refuse _ _

section Stmt

variable (place : Place)

theorem checkDeclaration_spells (isMutable : Bool) {name : Name} (isGood : good name.text) (value : Expr)
    (node : Node) : Spells good (checkDeclaration place isMutable name value node) :=
  (checkValue_spells place.scope _ value).bind fun ty =>
    (Spells.setType _ ty).bind fun _ => declare_spells place.scope isGood ty isMutable

theorem checkAssignment_spells (target : Name) (value : Expr) : Spells good (checkAssignment place target value) := by
  refine (resolve_spells place.scope target).bind fun binding => ?_
  refine (checkExpr_spells place.scope value).bind fun ty => ?_
  split
  · exact .pure _
  split
  · exact .report _ _
  split
  · exact .report _ _
  · exact .pure _

theorem checkCondition_spells (condition : Expr) : Spells good (checkCondition place condition) := by
  refine (checkExpr_spells place.scope condition).bind fun ty => ?_
  split
  · exact .report _ _
  · exact .pure _

theorem checkResult_spells (found : Ty) (span : Span) : Spells good (checkResult place found span) := by
  unfold checkResult
  cases place.result with
  | none => exact .report _ _
  | some expected =>
    dsimp only
    split
    · exact .report _ _
    · exact .pure _

theorem checkReturn_spells (value : Option Expr) (span : Span) : Spells good (checkReturn place value span) := by
  cases value with
  | none => exact checkResult_spells place .void span
  | some value =>
    refine (checkExpr_spells place.scope value).bind fun ty => ?_
    split
    · exact checkResult_spells place ty span
    · exact .report _ _

theorem checkPrint_spells : ∀ items : List PrintItem, Spells good (checkPrint place items)
  | [] => .pure _
  | .value expr :: rest => (checkValue_spells place.scope "print" expr).bind fun _ => checkPrint_spells rest
  | .space _ :: rest | .newline _ :: rest => checkPrint_spells rest

end Stmt

mutual

theorem checkStmt_spells (place : Place) : ∀ stmt : Stmt, (∀ name ∈ stmt.declaredNames, good name.text) →
    Spells good (checkStmt place stmt)
  | .declare isMutable name value node, names => by
    rw [checkStmt]
    exact checkDeclaration_spells place isMutable (names name (List.mem_singleton.mpr rfl)) value node
  | .assign target value node, _ => by
    rw [checkStmt]
    exact checkAssignment_spells place target value
  | .branch condition thenBlock none node, names => by
    rw [checkStmt]
    exact (checkCondition_spells place condition).bind fun _ =>
      (checkNested_spells place thenBlock names).bind fun _ => .pure _
  | .branch condition thenBlock (some elseBlock) node, names => by
    rw [checkStmt]
    obtain ⟨inThen, inElse⟩ := List.forall_mem_append.mp names
    exact (checkCondition_spells place condition).bind fun _ =>
      (checkNested_spells place thenBlock inThen).bind fun _ => checkNested_spells place elseBlock inElse
  | .ret value node, _ => by
    rw [checkStmt]
    exact checkReturn_spells place value node.span
  | .call call node, _ => by
    rw [checkStmt]
    exact (checkExpr_spells place.scope call.expr).bind fun _ => .pure _
  | .print items node, _ => by
    rw [checkStmt]
    exact checkPrint_spells place items
  | .nested body, names => by
    rw [checkStmt]
    exact checkNested_spells place body names
  | .invalid node, _ => by
    rw [checkStmt]
    exact .pure _

theorem checkNested_spells (place : Place) : ∀ block : Block, (∀ name ∈ block.declaredNames, good name.text) →
    Spells good (checkNested place block)
  | .mk statements node, names => by
    rw [checkNested]
    refine (Spells.openScope fun _ all => all.openNested).bind fun scope => (Spells.setScope _ _).bind fun _ => ?_
    exact (checkStatements_spells { place with scope := scope } statements names).bind fun _ => .leaveScope scope

theorem checkStatements_spells (place : Place) : ∀ statements : List Stmt,
    (∀ name ∈ Stmt.declaredNamesAll statements, good name.text) → Spells good (checkStatements place statements)
  | [], _ => by
    rw [checkStatements]
    exact .pure _
  | first :: rest, names => by
    rw [checkStatements]
    obtain ⟨here, later⟩ := List.forall_mem_append.mp names
    exact (checkStmt_spells place first here).bind fun _ => checkStatements_spells place rest later

end

theorem checkBody_spells (parameters : Nat) (result : Ty) (body : Block)
    (names : ∀ name ∈ body.declaredNames, good name.text) : Spells good (checkBody parameters result body) := by
  obtain ⟨statements, node⟩ := body
  refine (Spells.openScope fun _ all => all.addOwner).bind fun scope => (Spells.setScope _ _).bind fun _ => ?_
  exact (checkStatements_spells ⟨scope, some result⟩ statements names).bind fun _ => .leaveScope scope

section Function

variable (root : Nat) {function : Function} (names : ∀ name ∈ function.declaredNames, good name.text)

include names

theorem declareFunction_spells : Spells good (declareFunction root function) := by
  refine (Spells.setType _ _).bind fun _ => (Spells.forM fun parameter _ => Spells.setType _ _).bind fun _ => ?_
  exact (Spells.setType _ _).bind fun _ => declare_spells root (names _ List.mem_cons_self) _ false

theorem checkFunction_spells : Spells good (checkFunction root function) := by
  obtain ⟨parameters, body⟩ := List.forall_mem_append.mp (List.forall_mem_cons.mp names).2
  refine (Spells.openScope fun _ all => all.addOwner).bind fun scope => ?_
  refine (Spells.setScope _ _).bind fun _ => (Spells.setScope _ _).bind fun _ => ?_
  have declared : Spells good (function.parameters.forM (declareParameter scope)) := by
    refine .forM fun parameter among => (Spells.setType _ _).bind fun _ => declare_spells scope ?_ _ false
    exact parameters _ (List.mem_map.mpr ⟨parameter, among, rfl⟩)
  refine declared.bind fun _ => (checkBody_spells scope _ function.body body).bind fun _ => ?_
  refine (Spells.leaveScope scope).bind fun _ => ?_
  rw [checkPaths]
  split
  · exact .report _ _
  · exact .pure _

end Function

theorem checkProgram_spells {program : Program} (names : ∀ name ∈ program.declaredNames, good name.text) :
    Spells good (checkProgram program) := by
  obtain ⟨inFunctions, inMain⟩ := List.forall_mem_append.mp names
  have inside (function : Function) (member : function ∈ program.functions) :
      ∀ name ∈ function.declaredNames, good name.text := fun name among =>
    inFunctions name (List.mem_flatMap.mpr ⟨function, member, among⟩)
  refine (Spells.openScope fun _ all => all.addOwner).bind fun scope => (Spells.setScope _ _).bind fun _ => ?_
  refine (Spells.forM fun function member => declareFunction_spells scope (inside function member)).bind fun _ => ?_
  refine (Spells.forM fun function member => checkFunction_spells scope (inside function member)).bind fun _ => ?_
  exact (checkNested_spells ⟨scope, Option.none⟩ program.main inMain).bind fun _ => .leaveScope scope

end Checker

/-- Every binding that is noted in the end is spelled like a name that the program declares, or is the null
binding. -/
theorem Program.lexeme_bindingOf (program : Program) (id : Nat) :
    (program.analyze.bindingOf id).lexeme = Binding.null.lexeme ∨
      ∃ name ∈ program.declaredNames, (program.analyze.bindingOf id).lexeme = name.text := by
  have spells : Checker.Spells
      (fun lexeme => lexeme = Binding.null.lexeme ∨ ∃ name ∈ program.declaredNames, lexeme = name.text)
      (Checker.checkProgram program) :=
    Checker.checkProgram_spells fun name member => .inr ⟨name, member, rfl⟩
  exact (spells Analysis.empty (Analysis.spelled_empty (.inl rfl))).bindingOf id

end Stackwright
