import Mathlib
import Stackwright.Proofs.Checking.Program
import Stackwright.Proofs.Scope.History

/-! The course of checking, as far as scopes and declared names are concerned. Scopes are numbered in the
order they are opened, so a program alone tells in which scope each of its names is declared. What checking
does to the scopes is made of few kinds of step: a name is declared, a scope is opened and left again, or
only something about nodes is noted down. -/

set_option autoImplicit false

namespace Stackwright

mutual

/-- The blocks in a statement, those inside other blocks included. -/
def Stmt.blocks : Stmt → Nat
  | .branch _ thenBlock none _ => thenBlock.blocks
  | .branch _ thenBlock (some elseBlock) _ => thenBlock.blocks + elseBlock.blocks
  | .nested body => body.blocks
  | .declare _ _ _ _ | .assign _ _ _ | .ret _ _ | .call _ _ | .print _ _ | .invalid _ => 0

/-- The block itself and the blocks in it. -/
def Block.blocks : Block → Nat
  | .mk statements _ => Stmt.blocksAll statements + 1

def Stmt.blocksAll : List Stmt → Nat
  | [] => 0
  | first :: rest => first.blocks + Stmt.blocksAll rest

end

/-- The blocks inside the body of a function. -/
def Function.blocks (function : Function) : Nat := Stmt.blocksAll function.body.statements

/-- The blocks of a program that are not the body of a function. -/
def Program.blocks (program : Program) : Nat :=
  (program.functions.map Function.blocks).sum + program.main.blocks

/-- The scopes that functions take: each has one for its parameters, one for its body, and one for each block
inside the body. -/
def Function.scopes (functions : List Function) : Nat := (functions.map fun function => function.blocks + 2).sum

theorem Function.scopes_eq (functions : List Function) :
    Function.scopes functions = 2 * functions.length + (functions.map Function.blocks).sum := by
  induction functions with
  | nil => rfl
  | cons first rest ih =>
    rw [Function.scopes, List.map_cons, List.sum_cons, ← Function.scopes, ih, List.length_cons, List.map_cons,
      List.sum_cons]
    omega

/-- A place where a name is declared. -/
structure Declaration where
  /-- The number of the scope that the name is declared in. -/
  scope : Nat
  name : Name
  isMutable : Bool
  /-- The type that is written down with the name, if one is. -/
  written : Option Ty

/-- Both declare the same name in the same scope. -/
def Declaration.Clashes (one other : Declaration) : Prop :=
  one.scope = other.scope ∧ one.name.text = other.name.text

mutual

/-- What a statement of a scope declares, where `next` is the number of the next scope to be opened. -/
def Stmt.declared (scope next : Nat) : Stmt → List Declaration
  | .declare isMutable name _ _ => [⟨scope, name, isMutable, none⟩]
  | .branch _ thenBlock none _ => thenBlock.declared next
  | .branch _ thenBlock (some elseBlock) _ =>
    thenBlock.declared next ++ elseBlock.declared (next + thenBlock.blocks)
  | .nested body => body.declared next
  | .assign _ _ _ | .ret _ _ | .call _ _ | .print _ _ | .invalid _ => []

/-- What a block declares, where `number` is the number of its scope. -/
def Block.declared (number : Nat) : Block → List Declaration
  | .mk statements _ => Stmt.declaredAll number (number + 1) statements

def Stmt.declaredAll (scope next : Nat) : List Stmt → List Declaration
  | [] => []
  | first :: rest => first.declared scope next ++ Stmt.declaredAll scope (next + first.blocks) rest

end

/-- What a function declares in it, where `number` is the number of the scope of its parameters. -/
def Function.declared (number : Nat) (function : Function) : List Declaration :=
  (function.parameters.map fun parameter => ⟨number, parameter.name, false, some parameter.type.ty⟩) ++
    Stmt.declaredAll (number + 1) (number + 2) function.body.statements

def Function.declaredAll (next : Nat) : List Function → List Declaration
  | [] => []
  | first :: rest => first.declared next ++ Function.declaredAll (next + (first.blocks + 2)) rest

/-- All declarations of a program in the order in which they are checked: the functions in the scope of the
program, then what is in the functions, then what is in the main block. -/
def Program.declared (program : Program) : List Declaration :=
  (program.functions.map fun function => ⟨0, function.name, false, some function.signature.ty⟩) ++
    (Function.declaredAll 1 program.functions ++ program.main.declared (1 + Function.scopes program.functions))

namespace Analysis

/-- How many declarations were refused because their scope has the name already. -/
def redefinitions (analysis : Analysis) : Nat :=
  analysis.diagnostics.countP fun diagnostic => diagnostic.kind = .redefinition

variable {known after : Analysis}

theorem redefinitions_eq (same : after.diagnostics = known.diagnostics) :
    after.redefinitions = known.redefinitions := by
  rw [redefinitions, redefinitions, same]

end Analysis

namespace Checker

open Analysis

section Redefinitions

variable (known : Analysis)

theorem report_redefinitions {cause : Diagnostic.Cause} (span : Span) (other : cause.kind ≠ .redefinition) :
    (report cause span known).2.redefinitions = known.redefinitions := by
  simp [redefinitions, report, Diagnostic.kind, other]

theorem report_redefinition (name : String) (span : Span) :
    (report (.redefinition name) span known).2.redefinitions = known.redefinitions + 1 := by
  simp [redefinitions, report, Diagnostic.kind, Diagnostic.Cause.kind]

theorem resolve_redefinitions (scope : Nat) (name : Name) :
    (resolve scope name known).2.redefinitions = known.redefinitions := by
  simp only [resolve, bind_apply, get_apply]
  cases known.scopes.lookup scope name.text with
  | some binding => rfl
  | none => exact report_redefinitions known _ (by rintro ⟨⟩)

theorem checkLiteral_redefinitions (literal : Literal) (span : Span) :
    (checkLiteral literal span known).2.redefinitions = known.redefinitions := by
  cases literal with
  | int | bool => rfl
  | char | float | string => exact report_redefinitions known _ (by rintro ⟨⟩)

theorem binaryType_redefinitions (operator : BinaryOperator) (left right : Ty) (span : Span) :
    (binaryType operator left right span known).2.redefinitions = known.redefinitions := by
  unfold binaryType
  split
  · rfl
  · cases operator.resolve? left right with
    | some result => rfl
    | none => exact report_redefinitions known _ (by rintro ⟨⟩)

theorem unaryType_redefinitions (operator : UnaryOperator) (operand : Ty) (span : Span) :
    (unaryType operator operand span known).2.redefinitions = known.redefinitions := by
  unfold unaryType
  split
  · rfl
  · cases operator.resolve? operand with
    | some result => rfl
    | none => exact report_redefinitions known _ (by rintro ⟨⟩)

theorem callType_redefinitions (callee : Name) (function : Ty) (arguments : List Ty) (list : Span) :
    (callType callee function arguments list known).2.redefinitions = known.redefinitions := by
  unfold callType
  split
  · rfl
  · cases function.signature? with
    | none => exact report_redefinitions known _ (by rintro ⟨⟩)
    | some signature =>
      simp only []
      split
      · rfl
      · exact report_redefinitions known _ (by rintro ⟨⟩)

end Redefinitions

mutual

theorem checkExpr_redefinitions (scope : Nat) : ∀ (expr : Expr) (known : Analysis),
    (checkExpr scope expr known).2.redefinitions = known.redefinitions
  | .literal value node, known => by
    rw [checkExpr]
    exact checkLiteral_redefinitions known value node.span
  | .named name, known => by
    rw [checkExpr]
    exact resolve_redefinitions known scope name
  | .binary operator left right node, known => by
    rw [checkExpr]
    exact (binaryType_redefinitions _ operator _ _ node.span).trans
      ((checkExpr_redefinitions scope right _).trans (checkExpr_redefinitions scope left known))
  | .unary operator operand node, known => by
    rw [checkExpr]
    exact (unaryType_redefinitions _ operator _ node.span).trans (checkExpr_redefinitions scope operand known)
  | .call callee arguments list node, known => by
    rw [checkExpr]
    exact (callType_redefinitions _ callee _ _ list.span).trans
      ((checkArguments_redefinitions scope arguments _).trans (resolve_redefinitions known scope callee))
  | .invalid node, known => by
    rw [checkExpr]
    rfl

theorem checkArguments_redefinitions (scope : Nat) : ∀ (arguments : List Expr) (known : Analysis),
    (checkArguments scope arguments known).2.redefinitions = known.redefinitions
  | [], known => by
    rw [checkArguments]
    rfl
  | first :: rest, known => by
    rw [checkArguments]
    exact (checkArguments_redefinitions scope rest _).trans (checkExpr_redefinitions scope first known)

end

/-- A step that only notes down something about the given nodes, and finds no name declared again. -/
structure Remarks (ids : List Nat) (before after : Analysis) : Prop extends Annotates ids before after where
  redefinitions : after.redefinitions = before.redefinitions

section Remarks

theorem checkExpr_remarks (scope : Nat) (expr : Expr) (known : Analysis) :
    Remarks expr.ids known (checkExpr scope expr known).2 :=
  ⟨checkExpr_annotates scope expr known, checkExpr_redefinitions scope expr known⟩

theorem checkValue_redefinitions (scope : Nat) (context : String) (expr : Expr) (known : Analysis) :
    (checkValue scope context expr known).2.redefinitions = known.redefinitions := by
  rw [checkValue, bind_apply]
  refine .trans ?_ (checkExpr_redefinitions scope expr known)
  split
  · rfl
  · exact report_redefinitions _ _ (by rintro ⟨⟩)

theorem checkValue_remarks (scope : Nat) (context : String) (expr : Expr) (known : Analysis) :
    Remarks expr.ids known (checkValue scope context expr known).2 :=
  ⟨checkValue_annotates scope context expr known, checkValue_redefinitions scope context expr known⟩

theorem checkAssignment_remarks (place : Place) (target : Name) (value : Expr) (known : Analysis) :
    Remarks (target.node.id :: value.ids) known (checkAssignment place target value known).2 := by
  refine ⟨checkAssignment_annotates place target value known, ?_⟩
  refine .trans ?_ ((checkExpr_redefinitions place.scope value _).trans
    (resolve_redefinitions known place.scope target))
  simp only [checkAssignment, bind_apply]
  split
  · rfl
  split
  · exact report_redefinitions _ _ (by rintro ⟨⟩)
  split
  · exact report_redefinitions _ _ (by rintro ⟨⟩)
  · rfl

theorem checkCondition_remarks (place : Place) (condition : Expr) (known : Analysis) :
    Remarks condition.ids known (checkCondition place condition known).2 := by
  refine ⟨checkCondition_annotates place condition known, ?_⟩
  refine .trans ?_ (checkExpr_redefinitions place.scope condition known)
  simp only [checkCondition, bind_apply]
  split
  · exact report_redefinitions _ _ (by rintro ⟨⟩)
  · rfl

theorem checkResult_redefinitions (place : Place) (found : Ty) (span : Span) (known : Analysis) :
    (checkResult place found span known).2.redefinitions = known.redefinitions := by
  unfold checkResult
  cases place.result with
  | none => exact report_redefinitions _ _ (by rintro ⟨⟩)
  | some expected =>
    simp only []
    split
    · exact report_redefinitions _ _ (by rintro ⟨⟩)
    · rfl

theorem checkReturn_remarks (place : Place) (value : Option Expr) (node : Node) (known : Analysis) :
    Remarks (Stmt.ids (.ret value node)) known (checkReturn place value node.span known).2 := by
  refine ⟨checkReturn_annotates place value node known, ?_⟩
  cases value with
  | none => exact checkResult_redefinitions place .void node.span known
  | some value =>
    refine .trans ?_ (checkExpr_redefinitions place.scope value known)
    simp only [checkReturn, bind_apply]
    split
    · exact checkResult_redefinitions place _ node.span _
    · exact report_redefinitions _ _ (by rintro ⟨⟩)

theorem checkPrint_remarks (place : Place) (items : List PrintItem) (known : Analysis) :
    Remarks (items.flatMap PrintItem.ids) known (checkPrint place items known).2 := by
  refine ⟨checkPrint_annotates place items known, ?_⟩
  induction items generalizing known with
  | nil => rfl
  | cons item rest ih =>
    cases item with
    | value expr => exact (ih _).trans (checkValue_redefinitions place.scope "print" expr known)
    | space | newline => exact ih known

theorem checkPaths_remarks (function : Function) (known : Analysis) :
    Remarks [] known (checkPaths function known).2 := by
  refine ⟨checkPaths_annotates function known, ?_⟩
  unfold checkPaths
  split
  · exact report_redefinitions known _ (by rintro ⟨⟩)
  · rfl

theorem setType_remarks (id : Nat) (ty : Ty) (known : Analysis) : Remarks [id] known (setType id ty known).2 :=
  ⟨setType_annotates known ty (List.mem_singleton.mpr rfl), rfl⟩

theorem setScope_remarks (id scope : Nat) (known : Analysis) : Remarks [id] known (setScope id scope known).2 :=
  ⟨⟨setScope_notes known scope (List.mem_singleton.mpr rfl), rfl⟩, rfl⟩

end Remarks

/-- How a scope is opened below another one. -/
inductive Opening where
  | parameters
  | procedure
  | nested

def Opening.operation (outer : Nat) : Opening → ScopeTree.Operation
  | .parameters => .openParameters outer
  | .procedure => .openProcedure outer
  | .nested => .openNested outer

/-- What is known when a scope has been opened. -/
def opened (opening : Opening) (outer : Nat) (known : Analysis) : Analysis :=
  { known with scopes := (opening.operation outer).apply known.scopes }

/-- The course of a check in a scope: the nodes concerned, the number of scopes opened, and the declarations
met. Where `apart` holds, nothing is noted about a declared name after its declaration. -/
inductive Course (apart : Prop) :
    (scope : Nat) → List Nat → (count : Nat) → List Declaration → Analysis → Analysis → Prop where
  | note {scope : Nat} {ids : List Nat} {known after : Analysis} :
      Remarks ids known after → Course apart scope ids 0 [] known after
  | declare {scope : Nat} {name : Name} {ty : Ty} {isMutable : Bool} {written : Option Ty} {known : Analysis} :
      (∀ given ∈ written, ty = given) →
      Course apart scope [name.node.id] 0 [⟨scope, name, isMutable, written⟩] known
        (declare scope name ty isMutable known).2
  | enclose {scope : Nat} {ids : List Nat} {count : Nat} {declared : List Declaration} {known after : Analysis}
      (opening : Opening) :
      Course apart known.scopes.scopes.size ids count declared (opened opening scope known) after →
      Course apart scope ids (count + 1) declared known (leaveScope known.scopes.scopes.size after).2
  | append {scope : Nat} {ids later : List Nat} {count more : Nat} {declared others : List Declaration}
      {known between after : Analysis} :
      Course apart scope ids count declared known between →
      Course apart scope later more others between after →
      (apart → ∀ item ∈ declared, item.name.node.id ∉ later) →
      Course apart scope (ids ++ later) (count + more) (declared ++ others) known after
  | widen {scope : Nat} {ids wider : List Nat} {count : Nat} {declared : List Declaration}
      {known after : Analysis} :
      Course apart scope ids count declared known after → ids ⊆ wider →
      Course apart scope wider count declared known after

section Opened

variable (opening : Opening) (outer : Nat) (known : Analysis)

/-- A new scope is added to those that there are, and has no names yet. -/
theorem opened_scopes : ∃ added : Scope, added.names = [] ∧
    (opened opening outer known).scopes.scopes = known.scopes.scopes.push added := by
  cases opening <;> exact ⟨_, rfl, rfl⟩

theorem opened_size : (opened opening outer known).scopes.scopes.size = known.scopes.scopes.size + 1 := by
  obtain ⟨added, _, pushed⟩ := opened_scopes opening outer known
  rw [pushed, Array.size_push]

theorem opened_isOpen : known.scopes.scopes.size < (opened opening outer known).scopes.scopes.size := by
  rw [opened_size]
  exact Nat.lt_succ_self _

theorem opened_perform (isOpen : outer < known.scopes.scopes.size) :
    known.scopes.perform (opening.operation outer) = some (opened opening outer known).scopes := by
  refine ScopeTree.perform_eq_some_iff.mpr ⟨?_, rfl⟩
  cases opening <;> rintro _ ⟨⟩ <;> exact isOpen

end Opened

theorem declare_size (scope : Nat) (name : Name) (ty : Ty) (isMutable : Bool) (known : Analysis) :
    (declare scope name ty isMutable known).2.scopes.scopes.size = known.scopes.scopes.size := by
  cases bound : known.scopes.bind? scope name.text ty isMutable with
  | none =>
    rw [declare_of_none bound]
    rfl
  | some made =>
    rw [declare_of_some bound]
    exact (ScopeTree.adds_of_bind? bound).opened

theorem declare_perform {scope : Nat} (name : Name) (ty : Ty) (isMutable : Bool) {known : Analysis}
    (isOpen : scope < known.scopes.scopes.size) :
    known.scopes.perform (.bind scope name.text ty isMutable) =
      some (declare scope name ty isMutable known).2.scopes := by
  refine ScopeTree.perform_eq_some_iff.mpr ⟨?_, ?_⟩
  · rintro _ ⟨⟩
    exact isOpen
  cases bound : known.scopes.bind? scope name.text ty isMutable with
  | none =>
    rw [declare_of_none bound]
    simp only [ScopeTree.Operation.apply, bound]
    rfl
  | some made =>
    rw [declare_of_some bound]
    simp only [ScopeTree.Operation.apply, bound]
    rfl

namespace Course

variable {apart : Prop} {scope count more : Nat} {ids later : List Nat} {declared others : List Declaration}
  {known between after : Analysis}

/-- Scopes are opened one by one and never taken away. -/
theorem size (course : Course apart scope ids count declared known after) :
    after.scopes.scopes.size = known.scopes.scopes.size + count := by
  induction course with
  | note remarks => rw [remarks.scopes, Nat.add_zero]
  | declare => exact declare_size _ _ _ _ _
  | enclose opening _ ih =>
    refine .trans ih ?_
    rw [opened_size]
    omega
  | append _ _ _ one two => rw [two, one, Nat.add_assoc]
  | widen _ _ ih => exact ih

theorem isOpen (course : Course apart scope ids count declared known after)
    (isOpen : scope < known.scopes.scopes.size) : scope < after.scopes.scopes.size := by
  rw [course.size]
  exact Nat.lt_add_right count isOpen

theorem notes (course : Course apart scope ids count declared known after) : Notes ids known after := by
  induction course with
  | note remarks => exact remarks.toNotes
  | declare => exact (declare_performs _ _ _ _ _).toNotes
  | enclose opening _ ih => exact ((notes_scopes _ _).trans ih).trans (leaveScope_notes _ _)
  | append _ _ _ one two => exact one.append two
  | widen _ wider ih => exact ih.mono wider

theorem mem_ids (course : Course apart scope ids count declared known after) :
    ∀ item ∈ declared, item.name.node.id ∈ ids := by
  induction course with
  | note => nofun
  | declare => exact fun item member => List.mem_singleton.mpr (by rw [List.mem_singleton.mp member])
  | enclose _ _ ih => exact ih
  | append _ _ _ one two =>
    exact List.forall_mem_append.mpr ⟨fun item member => List.mem_append_left _ (one item member),
      fun item member => List.mem_append_right _ (two item member)⟩
  | widen _ wider ih => exact fun item member => wider (ih item member)

/-- All that is done to the scopes are operations on them. -/
theorem history (course : Course apart scope ids count declared known after)
    (isOpen : scope < known.scopes.scopes.size) :
    ∃ operations, known.scopes.performAll operations = some after.scopes := by
  induction course with
  | note remarks => exact ⟨[], by rw [remarks.scopes]; rfl⟩
  | declare => exact ⟨[_], by rw [ScopeTree.performAll, declare_perform _ _ _ isOpen]; rfl⟩
  | @enclose scope ids count declared known after opening inner ih =>
    obtain ⟨operations, done⟩ := ih (opened_isOpen opening scope known)
    refine ⟨opening.operation scope :: (operations ++ [.leave known.scopes.scopes.size]), ?_⟩
    have closed : after.scopes.perform (.leave known.scopes.scopes.size) =
        some (after.scopes.leave known.scopes.scopes.size) := by
      refine ScopeTree.perform_eq_some_iff.mpr ⟨?_, rfl⟩
      rintro _ ⟨⟩
      rw [inner.size, opened_size]
      omega
    rw [ScopeTree.performAll, opened_perform opening scope known isOpen, Option.bind_some,
      ScopeTree.performAll_append, done, Option.bind_some, ScopeTree.performAll, closed]
    rfl
  | append first _ _ one two =>
    obtain ⟨operations, done⟩ := one isOpen
    obtain ⟨operations', done'⟩ := two (first.isOpen isOpen)
    exact ⟨operations ++ operations', by rw [ScopeTree.performAll_append, done, Option.bind_some, done']⟩
  | widen _ _ ih => exact ih isOpen

theorem consistent (course : Course apart scope ids count declared known after)
    (isOpen : scope < known.scopes.scopes.size) (consistent : known.scopes.Consistent) :
    after.scopes.Consistent := by
  obtain ⟨operations, done⟩ := course.history isOpen
  exact (consistent.performAll done).1

theorem retains (course : Course apart scope ids count declared known after)
    (isOpen : scope < known.scopes.scopes.size) (consistent : known.scopes.Consistent) :
    known.scopes.Retains after.scopes := by
  obtain ⟨operations, done⟩ := course.history isOpen
  exact (consistent.performAll done).2

/-- The course of two checks that concern different nodes. -/
theorem follow (one : Course apart scope ids count declared known between)
    (two : Course apart scope later more others between after) (distinct : apart → (ids ++ later).Nodup) :
    Course apart scope (ids ++ later) (count + more) (declared ++ others) known after := by
  refine .append one two fun holds item member twice => ?_
  exact (List.nodup_append.mp (distinct holds)).2.2 _ (one.mem_ids item member) _ twice rfl

/-- What comes before without a declaration. -/
theorem start (remarks : Remarks ids known between)
    (rest : Course apart scope later more others between after) :
    Course apart scope (ids ++ later) more others known after := by
  have whole : Course apart scope (ids ++ later) (0 + more) ([] ++ others) known after :=
    .append (.note remarks) rest nofun
  rwa [Nat.zero_add] at whole

/-- What follows without a declaration, about no node. -/
theorem finish (course : Course apart scope ids count declared known between) (remarks : Remarks [] between after) :
    Course apart scope ids count declared known after := by
  have whole := course.append (.note remarks) fun _ _ _ => List.not_mem_nil
  rwa [List.append_nil, List.append_nil] at whole

end Course

section Statements

variable {apart : Prop}

theorem checkDeclaration_course (place : Place) (isMutable : Bool) (name : Name) (value : Expr) (node : Node)
    (known : Analysis) :
    Course apart place.scope (Stmt.ids (.declare isMutable name value node)) 0
      [⟨place.scope, name, isMutable, none⟩] known (checkDeclaration place isMutable name value node known).2 := by
  rw [checkDeclaration, Stmt.ids]
  refine .widen (.start (checkValue_remarks place.scope _ value known)
    (.start (setType_remarks node.id _ _) (.declare nofun))) ?_
  intro id member
  simp only [List.mem_append, List.mem_cons] at member ⊢
  tauto

mutual

theorem checkStmt_course (place : Place) : ∀ (stmt : Stmt) (known : Analysis), (apart → stmt.ids.Nodup) →
    Course apart place.scope stmt.ids stmt.blocks (stmt.declared place.scope known.scopes.scopes.size) known
      (checkStmt place stmt known).2
  | .declare isMutable name value node, known, _ => by
    rw [checkStmt, Stmt.blocks, Stmt.declared]
    exact checkDeclaration_course place isMutable name value node known
  | .assign target value node, known, _ => by
    rw [checkStmt, Stmt.blocks, Stmt.declared, Stmt.ids]
    exact .widen (.note (checkAssignment_remarks place target value known)) (List.subset_cons_self node.id _)
  | .branch condition thenBlock none node, known, distinct => by
    rw [checkStmt, Stmt.blocks, Stmt.declared, Stmt.ids, List.append_nil]
    simp only [Stmt.ids, List.append_nil] at distinct
    refine .widen ?_ (List.subset_cons_self node.id _)
    have condition' := checkCondition_remarks place condition known
    refine .start condition' ?_
    rw [← condition'.scopes]
    refine checkNested_course place thenBlock _ fun holds => ?_
    exact (List.nodup_append.mp (List.nodup_cons.mp (distinct holds)).2).2.1
  | .branch condition thenBlock (some elseBlock) node, known, distinct => by
    rw [checkStmt, Stmt.blocks, Stmt.declared, Stmt.ids]
    simp only [Stmt.ids] at distinct
    refine .widen ?_ (List.subset_cons_self node.id _)
    have condition' := checkCondition_remarks place condition known
    refine .start condition' ?_
    rw [← condition'.scopes]
    have blocks : apart → (thenBlock.ids ++ elseBlock.ids).Nodup :=
      fun holds => (List.nodup_append.mp (List.nodup_cons.mp (distinct holds)).2).2.1
    have first := checkNested_course place thenBlock (checkCondition place condition known).2
      fun holds => (List.nodup_append.mp (blocks holds)).1
    refine first.follow ?_ blocks
    rw [← first.size]
    exact checkNested_course place elseBlock _ fun holds => (List.nodup_append.mp (blocks holds)).2.1
  | .ret value node, known, _ => by
    rw [checkStmt, Stmt.blocks, Stmt.declared]
    exact .note (checkReturn_remarks place value node known)
  | .call call node, known, _ => by
    rw [checkStmt, Stmt.blocks, Stmt.declared, Stmt.ids]
    exact .widen (.note (checkExpr_remarks place.scope call.expr known)) (List.subset_cons_self node.id _)
  | .print items node, known, _ => by
    rw [checkStmt, Stmt.blocks, Stmt.declared, Stmt.ids]
    exact .widen (.note (checkPrint_remarks place items known)) (List.subset_cons_self node.id _)
  | .nested body, known, distinct => by
    rw [checkStmt, Stmt.blocks, Stmt.declared, Stmt.ids]
    rw [Stmt.ids] at distinct
    exact checkNested_course place body known distinct
  | .invalid node, known, _ => by
    rw [checkStmt, Stmt.blocks, Stmt.declared]
    exact .note ⟨.refl known, rfl⟩

theorem checkNested_course (place : Place) : ∀ (block : Block) (known : Analysis), (apart → block.ids.Nodup) →
    Course apart place.scope block.ids block.blocks (block.declared known.scopes.scopes.size) known
      (checkNested place block known).2
  | .mk statements node, known, distinct => by
    rw [checkNested_eq, Block.ids, Block.blocks, Block.declared, ← List.singleton_append]
    rw [Block.ids] at distinct
    have body := checkStatements_course (innerPlace place known) statements (inside place node known)
      fun holds => (List.nodup_cons.mp (distinct holds)).2
    rw [show (inside place node known).scopes.scopes.size = _ from opened_size .nested place.scope known] at body
    exact .enclose .nested (.start (setScope_remarks node.id _ _) body)

theorem checkStatements_course (place : Place) : ∀ (statements : List Stmt) (known : Analysis),
    (apart → (Stmt.idsAll statements).Nodup) →
    Course apart place.scope (Stmt.idsAll statements) (Stmt.blocksAll statements)
      (Stmt.declaredAll place.scope known.scopes.scopes.size statements) known
      (checkStatements place statements known).2
  | [], known, _ => by
    rw [checkStatements, Stmt.blocksAll, Stmt.declaredAll]
    exact .note ⟨.refl known, rfl⟩
  | first :: rest, known, distinct => by
    rw [checkStatements, Stmt.idsAll, Stmt.blocksAll, Stmt.declaredAll]
    rw [Stmt.idsAll] at distinct
    have one := checkStmt_course place first known fun holds => (List.nodup_append.mp (distinct holds)).1
    refine one.follow ?_ distinct
    rw [← one.size]
    exact checkStatements_course place rest _ fun holds => (List.nodup_append.mp (distinct holds)).2.1

end

end Statements

section Functions

variable {α : Type} {apart : Prop}

/-- Names that are declared one after the other. -/
theorem Declares.course {scope : Nat} {act : α → Checker Unit} {name : α → Name} {ty : α → Ty}
    {ids : α → List Nat} (declares : Declares scope act name ty ids) (items : List α) (known : Analysis)
    (distinct : apart → (items.flatMap (allIds name ids)).Nodup) :
    Course apart scope (items.flatMap (allIds name ids)) 0
      (items.map fun item => ⟨scope, name item, false, some (ty item)⟩) known (items.forM act known).2 := by
  induction items generalizing known with
  | nil => exact .note ⟨.refl known, rfl⟩
  | cons item rest ih =>
    rw [List.flatMap_cons] at distinct
    rw [forM_cons_apply, List.flatMap_cons, List.map_cons, ← List.singleton_append]
    obtain ⟨between, annotates, silent, same⟩ := declares.step item known
    have first : Course apart scope (allIds name ids item) 0 [⟨scope, name item, false, some (ty item)⟩] known
        (act item known).2 := by
      rw [same]
      exact .start ⟨annotates, redefinitions_eq silent⟩ (.declare (by simp))
    exact first.follow (ih _ fun holds => (List.nodup_append.mp (distinct holds)).2.1) distinct

theorem checkBody_course (parameters : Nat) (result : Ty) (body : Block) (known : Analysis)
    (distinct : apart → body.ids.Nodup) :
    Course apart parameters body.ids (Stmt.blocksAll body.statements + 1)
      (Stmt.declaredAll known.scopes.scopes.size (known.scopes.scopes.size + 1) body.statements) known
      (checkBody parameters result body known).2 := by
  rw [checkBody_eq, Block.ids_eq]
  rw [Block.ids_eq] at distinct
  have statements := checkStatements_course (bodyPlace known result) body.statements (atBody known parameters body)
    fun holds => (List.nodup_append.mp (distinct holds)).2.1
  rw [show (atBody known parameters body).scopes.scopes.size = _ from opened_size .procedure parameters known]
    at statements
  exact .enclose .procedure (.start (setScope_remarks body.node.id _ _) statements)

theorem checkFunction_course (root : Nat) (function : Function) (known : Analysis)
    (distinct : apart → (innerIds function).Nodup) :
    Course apart root (innerIds function) (function.blocks + 2) (function.declared known.scopes.scopes.size) known
      (checkFunction root function known).2 := by
  have inner : apart → (parameterIds function ++ function.body.ids).Nodup :=
    fun holds => (List.nodup_append.mp (distinct holds)).2.1
  have parameters := (declareParameter_declares known.scopes.scopes.size).course function.parameters
    (atParameters known root function) fun holds => (List.nodup_append.mp (inner holds)).1
  have body := checkBody_course known.scopes.scopes.size function.result.ty function.body
    (atFunction known root function) fun holds => (List.nodup_append.mp (inner holds)).2.1
  have opened : (atFunction known root function).scopes.scopes.size = known.scopes.scopes.size + 1 :=
    parameters.size.trans (opened_size .parameters root known)
  rw [opened] at body
  have both := parameters.follow body inner
  rw [Nat.zero_add] at both
  rw [checkFunction_eq]
  have inside : Course apart known.scopes.scopes.size ([function.node.id] ++ ([function.list.id] ++ _)) _ _
      (Checker.opened .parameters root known) (afterBody known root function) :=
    .start (setScope_remarks function.node.id _ _) (.start (setScope_remarks function.list.id _ _) both)
  exact .finish (.enclose .parameters inside) (checkPaths_remarks function _)

theorem checkFunctions_course (root : Nat) (functions : List Function) (known : Analysis)
    (distinct : apart → (functions.flatMap innerIds).Nodup) :
    Course apart root (functions.flatMap innerIds) (Function.scopes functions)
      (Function.declaredAll known.scopes.scopes.size functions) known
      (functions.forM (checkFunction root) known).2 := by
  induction functions generalizing known with
  | nil => exact .note ⟨.refl known, rfl⟩
  | cons first rest ih =>
    rw [List.flatMap_cons] at distinct
    have one := checkFunction_course root first known fun holds => (List.nodup_append.mp (distinct holds)).1
    rw [forM_cons_apply, List.flatMap_cons, Function.declaredAll, Function.scopes, List.map_cons, List.sum_cons,
      ← one.size]
    exact one.follow (ih _ fun holds => (List.nodup_append.mp (distinct holds)).2.1) distinct

end Functions

section Program

variable (program : Program)

/-- The scopes are consistent from the start. -/
theorem atStart_consistent : (atStart program).scopes.Consistent := by
  have done : ScopeTree.empty.perform .openProgram = some ScopeTree.root :=
    ScopeTree.perform_eq_some_iff.mpr ⟨nofun, rfl⟩
  exact (ScopeTree.consistent_empty.perform done).1

/-- The course of the checks that follow the declaration of all functions. -/
theorem atEnd_course : Course program.ids.Nodup 0 (insideIds program ++ program.main.ids)
    (Function.scopes program.functions + program.main.blocks)
    (Function.declaredAll (atFunctions program).scopes.scopes.size program.functions ++
      program.main.declared ((atFunctions program).scopes.scopes.size + Function.scopes program.functions))
    (atFunctions program) (atEnd program) := by
  have distinct : program.ids.Nodup → (insideIds program ++ program.main.ids).Nodup :=
    fun holds => (distinct_parts holds).2.1
  have functions := checkFunctions_course 0 program.functions (atFunctions program)
    fun holds => (List.nodup_append.mp (distinct holds)).1
  refine functions.follow ?_ distinct
  rw [← functions.size]
  exact checkNested_course ⟨0, none⟩ program.main (atMain program)
    fun holds => (List.nodup_append.mp (distinct holds)).2.1

/-- The course of the declaration of all functions. -/
theorem atFunctions_course : Course program.ids.Nodup 0 (program.functions.flatMap (allIds Function.name writtenIds))
    0 (program.functions.map fun function => ⟨0, function.name, false, some function.signature.ty⟩)
    (atStart program) (atFunctions program) :=
  (declareFunction_declares 0).course program.functions (atStart program) fun holds => (distinct_parts holds).1

theorem atFunctions_size : (atFunctions program).scopes.scopes.size = 1 := (atFunctions_course program).size

/-- The course of checking a whole program. -/
theorem program_course : Course program.ids.Nodup 0
    (program.functions.flatMap (allIds Function.name writtenIds) ++ (insideIds program ++ program.main.ids))
    (0 + (Function.scopes program.functions + program.main.blocks)) program.declared (atStart program)
    (atEnd program) := by
  have rest := atEnd_course program
  rw [atFunctions_size] at rest
  refine .append (atFunctions_course program) rest fun holds item member => ?_
  obtain ⟨function, declared, rfl⟩ := List.mem_map.mp member
  exact (distinct_parts holds).2.2.1 function declared

end Program

end Checker

end Stackwright
