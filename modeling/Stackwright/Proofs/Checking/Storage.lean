import Stackwright.Proofs.Checking.Visits
import Stackwright.Proofs.Scope.Ownership

/-! The storage of variables. Wherever checking binds or resolves a name, of a correct program or not,
all names that are visible there have storage of their own; and in the end every name lies in the area
of its program, parameters or function body. -/

set_option autoImplicit false

namespace Stackwright

namespace ScopeTree

/-- The scopes are in order, and no two names that are visible from the scope share a byte. -/
structure Live (tree : ScopeTree) (number : Nat) : Prop where
  orderly : tree.Orderly
  settled : tree.Settled number
  apart : (tree.chain number).flatten.Pairwise fun one other => one.2.Apart other.2

/-- A scope for statements, below which others may be opened. -/
structure Working (tree : ScopeTree) (number : Nat) : Prop extends tree.Live number where
  roomy : ∃ scope, tree.scopes[number]? = some scope ∧ scope.kind ≠ .parameters

variable {tree next last : ScopeTree} {number : Nat} {scope : Scope} {name : String} {ty : Ty}
  {isMutable : Bool} {binding : Binding}

theorem Live.bind? (live : tree.Live number)
    (bound : tree.bind? number name ty isMutable = some (binding, next)) : next.Live number := by
  have binds := binds_of_bind? live.settled bound
  refine ⟨live.orderly.bind? bound, binds.settled, ?_⟩
  rw [binds.chain, Nest.flatten_declare]
  exact .cons (fun entry member => (binds.apart entry member).symm) live.apart

theorem Grows.roomy (grows : Grows number tree next)
    (roomy : ∃ scope, tree.scopes[number]? = some scope ∧ scope.kind ≠ .parameters) :
    ∃ scope, next.scopes[number]? = some scope ∧ scope.kind ≠ .parameters := by
  obtain ⟨scope, found, kind⟩ := roomy
  obtain ⟨names, found⟩ := grows.own found
  exact ⟨_, found, kind⟩

theorem Working.openNested (working : tree.Working number) :
    (tree.openNested number).2.Working tree.scopes.size := by
  obtain ⟨scope, found, kind⟩ := working.roomy
  refine ⟨⟨working.orderly.openNested found kind, openNested_settled working.settled, ?_⟩,
    ⟨_, getElem?_addScope_size, by simp⟩⟩
  rw [openNested_chain working.settled]
  exact working.apart

/-- What was true of a scope before one was opened in it is true after leaving that. -/
theorem Working.leave (working : tree.Working number) (inner : last.Live tree.scopes.size)
    (grows : Grows tree.scopes.size (tree.openNested number).2 last) :
    (last.leave tree.scopes.size).Working number := by
  have returns := returns_leave working.settled grows
  refine ⟨⟨inner.orderly.leave _, returns.settled, ?_⟩, returns.grows.roomy working.roomy⟩
  rw [returns.chain]
  exact working.apart

/-- Global variables, and nothing else, lie in the storage of the program. -/
theorem Orderly.global (orderly : tree.Orderly) (found : tree.scopes[number]? = some scope)
    (kind : scope.kind = .program) : ∀ entry ∈ scope.names, entry.2.location.base = .global := by
  obtain ⟨owner, own, owned, found', holds⟩ := orderly.holds found
  obtain rfl := owned.eq_of_owns found (by simp [kind])
  cases found.symm.trans found'
  intro entry member
  have held := holds entry member
  rw [Holds, kind] at held
  exact held.1

/-- Parameters lie at the frame pointer or above. -/
theorem Orderly.above (orderly : tree.Orderly) (found : tree.scopes[number]? = some scope)
    (kind : scope.kind = .parameters) : ∀ entry ∈ scope.names, 0 ≤ entry.2.location.offset := by
  obtain ⟨owner, own, owned, found', holds⟩ := orderly.holds found
  obtain rfl := owned.eq_of_owns found (by simp [kind])
  cases found.symm.trans found'
  intro entry member
  have held := holds entry member
  rw [Holds, kind] at held
  exact held.2.1

/-- The scope of the program, which lies in no other. -/
def IsRoot (tree : ScopeTree) (number : Nat) : Prop :=
  ∃ scope, tree.scopes[number]? = some scope ∧ scope.kind = .program ∧ scope.parent = none

theorem IsRoot.later (root : tree.IsRoot number) (later : tree.Later next) : next.IsRoot number := by
  obtain ⟨scope, found, kind, outside⟩ := root
  obtain ⟨names, found⟩ := later.scopes found
  exact ⟨_, found, kind, outside⟩

theorem IsRoot.global (root : tree.IsRoot number) (orderly : tree.Orderly) :
    ∀ entry ∈ (tree.chain number).flatten, entry.2.location.base = .global := by
  obtain ⟨scope, found, kind, outside⟩ := root
  rw [chain_eq orderly.rooted found, outside, List.flatten_singleton]
  exact orderly.global found kind

theorem IsRoot.working (root : tree.IsRoot number) (live : tree.Live number) : tree.Working number := by
  obtain ⟨scope, found, kind, _⟩ := root
  exact ⟨live, scope, found, by simp [kind]⟩

/-- The scope of the parameters of a function, which lies in that of the program. -/
def IsParameters (tree : ScopeTree) (number : Nat) : Prop :=
  ∃ scope root, tree.scopes[number]? = some scope ∧ scope.kind = .parameters ∧ scope.parent = some root ∧
    tree.IsRoot root

theorem IsParameters.outside (parameters : tree.IsParameters number) (live : tree.Live number) :
    Checker.Outside tree number := by
  obtain ⟨scope, root, found, kind, outside, isRoot⟩ := parameters
  refine ⟨live.orderly.rooted, live.settled.isOpen, fun entry member same => ?_⟩
  rw [chain_eq live.orderly.rooted found, outside, List.flatten_cons, List.mem_append] at member
  rcases member with member | member
  · exact live.orderly.above found kind entry member
  · rw [isRoot.global live.orderly entry member] at same
    cases same

end ScopeTree

namespace Checker

open Analysis

variable {α : Type} {number : Nat} {visits more : List Visit} {known between after : Analysis}

/-- Work in a scope keeps it in order, and at each of the visits the scope visited is in order. -/
def Tours (number : Nat) (visits : List Visit) (known after : Analysis) : Prop :=
  known.scopes.Working number →
    (∀ visit ∈ visits, visit.tree.Live visit.scope) ∧ after.scopes.Working number

theorem Tours.append (one : Tours number visits known between) (two : Tours number more between after) :
    Tours number (visits ++ more) known after := fun working => by
  obtain ⟨first, working⟩ := one working
  obtain ⟨second, working⟩ := two working
  exact ⟨List.forall_mem_append.mpr ⟨first, second⟩, working⟩

theorem Tours.congr {other other' : Analysis} (tours : Tours number visits known after)
    (same : known.scopes = other.scopes) (same' : other'.scopes = after.scopes) :
    Tours number visits other other' := fun working => same' ▸ tours (same.symm ▸ working)

theorem Tours.refl (known : Analysis) : Tours number [] known known :=
  fun working => ⟨nofun, working⟩

mutual

/-- Expressions leave the scopes alone, so all their names are resolved in the same ones. -/
theorem live_of_mem_exprVisits {scope : Nat} {tree : ScopeTree} (live : tree.Live scope) :
    ∀ (expr : Expr) (known : Analysis), known.scopes = tree →
      ∀ visit ∈ exprVisits scope expr known, visit.tree.Live visit.scope
  | .literal _ _, _, _ | .invalid _, _, _ => by
    rw [exprVisits]
    nofun
  | .named name, known, same => by
    rw [exprVisits, resolveVisits]
    simpa [same] using live
  | .binary _ left right _, known, same => by
    rw [exprVisits, List.forall_mem_append]
    exact ⟨live_of_mem_exprVisits live left known same, live_of_mem_exprVisits live right _
      ((checkExpr_annotates scope left known).scopes.trans same)⟩
  | .unary _ operand _, known, same => by
    rw [exprVisits]
    exact live_of_mem_exprVisits live operand known same
  | .call callee arguments _ _, known, same => by
    rw [exprVisits, resolveVisits, List.forall_mem_append]
    exact ⟨by simpa [same] using live, live_of_mem_argumentsVisits live arguments _
      ((resolve_annotates known scope callee).scopes.trans same)⟩

theorem live_of_mem_argumentsVisits {scope : Nat} {tree : ScopeTree} (live : tree.Live scope) :
    ∀ (arguments : List Expr) (known : Analysis), known.scopes = tree →
      ∀ visit ∈ argumentsVisits scope arguments known, visit.tree.Live visit.scope
  | [], _, _ => by
    rw [argumentsVisits]
    nofun
  | first :: rest, known, same => by
    rw [argumentsVisits, List.forall_mem_append]
    exact ⟨live_of_mem_exprVisits live first known same, live_of_mem_argumentsVisits live rest _
      ((checkExpr_annotates scope first known).scopes.trans same)⟩

end

theorem Tours.of_expr {ids : List Nat} (scope : Nat) (expr : Expr) (annotates : Annotates ids known after) :
    Tours scope (exprVisits scope expr known) known after := fun working =>
  ⟨live_of_mem_exprVisits working.toLive expr known rfl, annotates.scopes.symm ▸ working⟩

theorem declare_live {scope : Nat} (name : Name) (ty : Ty) (isMutable : Bool)
    (live : known.scopes.Live scope) : (declare scope name ty isMutable known).2.scopes.Live scope := by
  cases bound : known.scopes.bind? scope name.text ty isMutable with
  | none =>
    rw [declare_of_none bound]
    exact live
  | some made =>
    rw [declare_of_some bound]
    exact live.bind? bound

theorem checkDeclaration_tours (place : Place) (isMutable : Bool) (name : Name) (value : Expr)
    (node : Node) (known : Analysis) :
    Tours place.scope (declarationVisits place isMutable name value node known) known
      (checkDeclaration place isMutable name value node known).2 := fun working => by
  have performs := checkDeclaration_performs place isMutable name value node known
  have typed := checkValue_annotates place.scope ("declaration of '" ++ name.text ++ "'") value known
  rcases step : checkValue place.scope ("declaration of '" ++ name.text ++ "'") value known with ⟨ty, between⟩
  rw [step] at typed
  have live : (checkDeclaration place isMutable name value node known).2.scopes.Live place.scope := by
    rw [checkDeclaration, bind_apply, step]
    have noted : (setType node.id ty between).2.scopes.Live place.scope :=
      typed.scopes.symm ▸ working.toLive
    exact declare_live name ty isMutable noted
  refine ⟨List.forall_mem_append.mpr ⟨live_of_mem_exprVisits working.toLive value known rfl, ?_⟩,
    live, (performs.grows working.settled).roomy working.roomy⟩
  exact List.forall_mem_cons.mpr ⟨working.toLive, List.forall_mem_singleton.mpr live⟩

theorem checkAssignment_tours (place : Place) (target : Name) (value : Expr) (known : Analysis) :
    Tours place.scope (assignmentVisits place target value known) known
      (checkAssignment place target value known).2 := fun working => by
  have same := (resolve_annotates known place.scope target).scopes
  refine ⟨List.forall_mem_append.mpr ⟨List.forall_mem_singleton.mpr working.toLive, ?_⟩,
    (checkAssignment_annotates place target value known).scopes.symm ▸ working⟩
  exact live_of_mem_exprVisits working.toLive value _ same

theorem checkPrint_tours (place : Place) : ∀ (items : List PrintItem) (known : Analysis),
    Tours place.scope (printVisits place items known) known (checkPrint place items known).2
  | [], known => .refl known
  | .value expr :: rest, known =>
    (Tours.of_expr place.scope expr (checkValue_annotates place.scope "print" expr known)).append
      (checkPrint_tours place rest _)
  | .space _ :: rest, known => checkPrint_tours place rest known
  | .newline _ :: rest, known => checkPrint_tours place rest known

mutual

theorem checkStmt_tours (place : Place) : ∀ (stmt : Stmt) (known : Analysis),
    Tours place.scope (stmtVisits place stmt known) known (checkStmt place stmt known).2
  | .declare isMutable name value node, known => by
    rw [checkStmt, stmtVisits]
    exact checkDeclaration_tours place isMutable name value node known
  | .assign target value node, known => by
    rw [checkStmt, stmtVisits]
    exact checkAssignment_tours place target value known
  | .branch condition thenBlock none node, known => by
    rw [checkStmt, stmtVisits]
    exact (Tours.of_expr place.scope condition (checkCondition_annotates place condition known)).append
      (checkNested_tours place thenBlock _)
  | .branch condition thenBlock (some elseBlock) node, known => by
    rw [checkStmt, stmtVisits]
    exact (Tours.of_expr place.scope condition (checkCondition_annotates place condition known)).append
      ((checkNested_tours place thenBlock _).append (checkNested_tours place elseBlock _))
  | .ret none node, known => by
    rw [checkStmt, stmtVisits]
    exact (Tours.refl known).congr rfl (checkReturn_annotates place none node known).scopes
  | .ret (some value) node, known => by
    rw [checkStmt, stmtVisits]
    exact .of_expr place.scope value (checkReturn_annotates place (some value) node known)
  | .call call node, known => by
    rw [checkStmt, stmtVisits]
    exact .of_expr place.scope call.expr (checkExpr_annotates place.scope call.expr known)
  | .print items node, known => by
    rw [checkStmt, stmtVisits]
    exact checkPrint_tours place items known
  | .nested body, known => by
    rw [checkStmt, stmtVisits]
    exact checkNested_tours place body known
  | .invalid node, known => by
    rw [checkStmt, stmtVisits]
    exact .refl known

theorem checkNested_tours (place : Place) : ∀ (block : Block) (known : Analysis),
    Tours place.scope (nestedVisits place block known) known (checkNested place block known).2
  | .mk statements node, known => fun working => by
    rw [checkNested_eq, nestedVisits]
    have body := checkStatements_performs (innerPlace place known) statements (inside place node known)
    obtain ⟨visits, inner⟩ :=
      checkStatements_tours (innerPlace place known) statements (inside place node known) working.openNested
    exact ⟨visits, working.leave inner.toLive (body.grows (ScopeTree.openNested_settled working.settled))⟩

theorem checkStatements_tours (place : Place) : ∀ (statements : List Stmt) (known : Analysis),
    Tours place.scope (statementsVisits place statements known) known (checkStatements place statements known).2
  | [], known => by
    rw [checkStatements, statementsVisits]
    exact .refl known
  | first :: rest, known => by
    rw [checkStatements, statementsVisits]
    exact (checkStmt_tours place first known).append (checkStatements_tours place rest _)

end

section Declared

variable {scope : Nat} {act : α → Checker Unit} {name : α → Name} {ty : α → Ty} {ids : α → List Nat}

theorem Declares.live (declares : Declares scope act name ty ids) (item : α)
    (live : known.scopes.Live scope) : (act item known).2.scopes.Live scope := by
  obtain ⟨between, annotates, _, same⟩ := declares.step item known
  rw [same]
  exact declare_live (name item) (ty item) false (annotates.scopes.symm ▸ live)

theorem Declares.later (declares : Declares scope act name ty ids) (item : α) (known : Analysis) :
    known.scopes.Later (act item known).2.scopes := by
  obtain ⟨between, annotates, _, same⟩ := declares.step item known
  rw [same, ← annotates.scopes]
  cases bound : between.scopes.bind? scope (name item).text (ty item) false with
  | none =>
    rw [declare_of_none bound]
    exact .refl between.scopes
  | some made =>
    rw [declare_of_some bound]
    exact ScopeTree.later_bind? bound

/-- Names that are declared one after the other. -/
theorem Declares.all_live (declares : Declares scope act name ty ids) (items : List α)
    (live : known.scopes.Live scope) :
    (∀ visit ∈ declaredVisits scope act name items known, visit.tree.Live visit.scope) ∧
      (items.forM act known).2.scopes.Live scope ∧ known.scopes.Later (items.forM act known).2.scopes := by
  induction items generalizing known with
  | nil => exact ⟨nofun, live, .refl known.scopes⟩
  | cons item rest ih =>
    have step := declares.live item live
    obtain ⟨visits, last, later⟩ := ih step
    refine ⟨List.forall_mem_append.mpr ⟨?_, visits⟩, last, (declares.later item known).trans later⟩
    exact List.forall_mem_cons.mpr ⟨live, List.forall_mem_singleton.mpr step⟩

end Declared

section Function

variable {root : Nat}

theorem checkBody_live {parameters : Nat} (isParameters : known.scopes.IsParameters parameters)
    (live : known.scopes.Live parameters) (result : Ty) (body : Block) :
    (∀ visit ∈ bodyVisits parameters result body known, visit.tree.Live visit.scope) ∧
      (checkBody parameters result body known).2.scopes.Orderly := by
  have outside := isParameters.outside live
  have inner : (atBody known parameters body).scopes.Working known.scopes.scopes.size := by
    refine ⟨⟨live.orderly.addOwner outside.isOpen rfl, openProcedure_settled outside, ?_⟩,
      _, ScopeTree.getElem?_addScope_size, by simp⟩
    rw [atBody_chain outside]
    exact live.apart
  obtain ⟨visits, last⟩ := checkStatements_tours (bodyPlace known result) body.statements _ inner
  exact ⟨visits, last.orderly.leave _⟩

theorem parameters_live (isRoot : known.scopes.IsRoot root) (live : known.scopes.Live root)
    (function : Function) :
    (atParameters known root function).scopes.Live known.scopes.scopes.size := by
  have isOpen := live.settled.isOpen
  refine ⟨live.orderly.addOwner isOpen rfl, ?_, ?_⟩
  · refine ScopeTree.addOwner_settled live.orderly.rooted isOpen
      ⟨Int.le_refl _, by simp [Allocator.starting]⟩ fun entry member same => ?_
    rw [isRoot.global live.orderly entry member] at same
    cases same
  · exact (ScopeTree.addOwner_chain live.orderly.rooted isOpen).symm ▸ live.apart

theorem checkFunction_live (isRoot : known.scopes.IsRoot root) (live : known.scopes.Live root)
    (function : Function) :
    (∀ visit ∈ functionVisits root function known, visit.tree.Live visit.scope) ∧
      (checkFunction root function known).2.scopes.Live root ∧
      (checkFunction root function known).2.scopes.IsRoot root := by
  have first := parameters_live isRoot live function
  have declares := declareParameter_declares known.scopes.scopes.size
  obtain ⟨visits, inside, later⟩ := declares.all_live function.parameters first
  have opened := ScopeTree.later_addOwner known.scopes .parameters (some root) (.starting .frame .upward 0)
  have isParameters : (atFunction known root function).scopes.IsParameters known.scopes.scopes.size := by
    obtain ⟨names, found⟩ := later.scopes ScopeTree.getElem?_addScope_size
    exact ⟨_, root, found, rfl, rfl, (isRoot.later opened).later later⟩
  obtain ⟨bodyVisits, orderly⟩ := checkBody_live isParameters inside function.result.ty function.body
  have performs := atFunction_performs known root function
  have grows : ScopeTree.Grows known.scopes.scopes.size (atParameters known root function).scopes
      (afterBody known root function).scopes :=
    (performs.grows first.settled).trans first.settled
      ((checkBody_keeps (isParameters.outside inside) _ function.body).grows inside.settled)
  -- The function leaves all that was there before it as it was.
  have keeps : known.scopes.Keeps (checkFunction root function known).2.scopes := by
    rw [checkFunction_eq, (checkPaths_annotates function _ : Annotates [] _ _).scopes]
    exact ScopeTree.keeps_leave (by simp) grows
  refine ⟨List.forall_mem_append.mpr ⟨visits, bodyVisits⟩, ⟨?_, keeps.settled live.settled, ?_⟩, ?_⟩
  · rw [checkFunction_eq, (checkPaths_annotates function _ : Annotates [] _ _).scopes]
    exact orderly.leave _
  · rw [keeps.chain_eq live.orderly.rooted live.settled.isOpen]
    exact live.apart
  · obtain ⟨scope, found, kind, outside⟩ := isRoot
    exact ⟨scope, (keeps.scopes root live.settled.isOpen).trans found, kind, outside⟩

theorem checkFunctions_live (isRoot : known.scopes.IsRoot root) (live : known.scopes.Live root)
    (functions : List Function) :
    (∀ visit ∈ eachVisits (checkFunction root) (functionVisits root) functions known,
        visit.tree.Live visit.scope) ∧
      (functions.forM (checkFunction root) known).2.scopes.Live root ∧
      (functions.forM (checkFunction root) known).2.scopes.IsRoot root := by
  induction functions generalizing known with
  | nil => exact ⟨nofun, live, isRoot⟩
  | cons first rest ih =>
    obtain ⟨visits, live, isRoot⟩ := checkFunction_live isRoot live first
    obtain ⟨visitsRest, last⟩ := ih isRoot live
    exact ⟨List.forall_mem_append.mpr ⟨visits, visitsRest⟩, last⟩

end Function

theorem root_live : ScopeTree.root.Live 0 :=
  ⟨ScopeTree.root_orderly, ScopeTree.root_settled, .nil⟩

end Checker

open Checker

/-- A whole run of the checker. -/
theorem Program.analyze_live (program : Program) :
    (∀ visit ∈ program.visits, visit.tree.Live visit.scope) ∧ program.analyze.scopes.Orderly := by
  have start : (atStart program).scopes.Live 0 := root_live
  obtain ⟨declared, live, later⟩ := (declareFunction_declares 0).all_live program.functions start
  have isRoot : (atFunctions program).scopes.IsRoot 0 :=
    ScopeTree.IsRoot.later ⟨_, ScopeTree.root_scope, rfl, rfl⟩ later
  obtain ⟨functions, live, isRoot⟩ := checkFunctions_live isRoot live program.functions
  obtain ⟨main, last⟩ := checkNested_tours ⟨0, none⟩ program.main (atMain program) (isRoot.working live)
  exact ⟨List.forall_mem_append.mpr ⟨declared, List.forall_mem_append.mpr ⟨functions, main⟩⟩,
    last.orderly.leave 0⟩

/-- Variables that are live at the same time never share storage. No name is given a binding but where it is
visited; at each visit the bindings in scope lie apart, and in the end each lies in the area of its owner. -/
theorem Program.storage_disjoint (program : Program) :
    (∀ visit ∈ program.visits, (visit.tree.chain visit.scope).flatten.Pairwise
      fun one other => one.2.Apart other.2) ∧
    (∀ (id : Nat) (binding : Binding), program.analyze.bindings[id]? = some binding →
      ∃ visit ∈ program.visits, visit.name.node.id = id) ∧
    ∀ (number : Nat) (scope : Scope), program.analyze.scopes.scopes[number]? = some scope →
      ∃ owner own, program.analyze.scopes.OwnedBy number owner ∧
        program.analyze.scopes.scopes[owner]? = some own ∧
        ∀ entry ∈ scope.names, program.analyze.scopes.Holds owner own entry.2 := by
  obtain ⟨visits, orderly⟩ := program.analyze_live
  exact ⟨fun visit member => (visits visit member).apart, fun id binding noted => Program.visited_of_binding noted,
    fun number scope found => orderly.holds found⟩

end Stackwright
