import Stackwright.Analysis.Statement
import Stackwright.Proofs.Checking.Expression
import Stackwright.Proofs.Scope.Spending

/-! Checking statements and blocks against the rules. The scope that is worked in mirrors the names
that are visible under the rules, and the storage of each variable is found to be its own. -/

set_option autoImplicit false

namespace Stackwright

namespace Analysis

/-- A step of checking in the given scope. -/
structure Performs (number : Nat) (ids : List Nat) (before after : Analysis) : Prop extends
    Notes ids before after where
  grows : before.scopes.Settled number → ScopeTree.Grows number before.scopes after.scopes
  settled : before.scopes.Settled number → after.scopes.Settled number

variable {number : Nat} {ids more later : List Nat} {before between after : Analysis}

theorem Annotates.performs (step : Annotates ids before after) : Performs number ids before after :=
  ⟨step.toNotes, fun settled => step.scopes.symm ▸ .refl settled, fun settled => step.scopes ▸ settled⟩

theorem Performs.mono (step : Performs number ids before after) (wider : ids ⊆ more) :
    Performs number more before after :=
  ⟨step.toNotes.mono wider, step.grows, step.settled⟩

theorem Performs.append (one : Performs number ids before between)
    (two : Performs number later between after) : Performs number (ids ++ later) before after :=
  ⟨one.toNotes.append two.toNotes,
    fun settled => (one.grows settled).trans settled (two.grows (one.settled settled)),
    fun settled => two.settled (one.settled settled)⟩

theorem Annotates.spends {amount : Nat} (step : Annotates ids before after) :
    ScopeTree.Spends number amount before.scopes after.scopes :=
  step.scopes.symm ▸ .refl

/-- A step that opens a scope below the given one and leaves it again. -/
structure Encloses (number : Nat) (ids : List Nat) (before after : Analysis) : Prop extends
    Notes ids before after where
  returns : before.scopes.Settled number → ScopeTree.Returns number before.scopes after.scopes

theorem Encloses.performs (step : Encloses number ids before after) : Performs number ids before after :=
  ⟨step.toNotes, fun settled => (step.returns settled).grows, fun settled => (step.returns settled).settled⟩

end Analysis

namespace Checker

open Analysis

section Frame

theorem checkValue_annotates (scope : Nat) (context : String) (expr : Expr) (known : Analysis) :
    Annotates expr.ids known (checkValue scope context expr known).2 := by
  rw [checkValue, bind_apply]
  refine (checkExpr_annotates scope expr known).trans ?_
  split
  · exact .refl _
  · exact report_annotates _ _ _

section Declare

variable {scope : Nat} {name : Name} {ty : Ty} {isMutable : Bool} {known : Analysis}

theorem declare_of_none (bound : known.scopes.bind? scope name.text ty isMutable = none) :
    declare scope name ty isMutable known = setBinding name.node.id .null
      (report (.redefinition name.text) name.node.span (setType name.node.id ty known).2).2 := by
  have unbound : (setType name.node.id ty known).2.scopes.bind? scope name.text ty isMutable = none := bound
  simp only [declare, bind_apply, get_apply, unbound]

theorem declare_of_some {binding : Binding} {scopes : ScopeTree}
    (bound : known.scopes.bind? scope name.text ty isMutable = some (binding, scopes)) :
    declare scope name ty isMutable known =
      setBinding name.node.id binding { (setType name.node.id ty known).2 with scopes := scopes } := by
  have made : (setType name.node.id ty known).2.scopes.bind? scope name.text ty isMutable =
      some (binding, scopes) := bound
  simp only [declare, bind_apply, get_apply, made]
  rfl

theorem declare_performs (scope : Nat) (name : Name) (ty : Ty) (isMutable : Bool) (known : Analysis) :
    Performs scope [name.node.id] known (declare scope name ty isMutable known).2 := by
  have own : name.node.id ∈ [name.node.id] := List.mem_singleton.mpr rfl
  have typed := setType_annotates known ty own
  cases bound : known.scopes.bind? scope name.text ty isMutable with
  | none =>
    rw [declare_of_none bound]
    exact ((typed.trans (report_annotates _ _ _)).trans (setBinding_annotates _ _ own)).performs
  | some made =>
    obtain ⟨binding, scopes⟩ := made
    rw [declare_of_some bound]
    have notes := typed.toNotes.trans (setBinding_notes (setType name.node.id ty known).2 binding own)
    exact ⟨⟨⟨notes.same.types, notes.same.bindings, notes.same.nodeScopes⟩, notes.reports⟩,
      fun settled => (ScopeTree.binds_of_bind? settled bound).grows,
      fun settled => (ScopeTree.binds_of_bind? settled bound).settled⟩

end Declare

theorem checkDeclaration_performs (place : Place) (isMutable : Bool) (name : Name) (value : Expr)
    (node : Node) (known : Analysis) :
    Performs place.scope (Stmt.ids (.declare isMutable name value node)) known
      (checkDeclaration place isMutable name value node known).2 := by
  rw [checkDeclaration, Stmt.ids]
  refine ((checkValue_annotates place.scope _ value known).performs.append
    ((setType_annotates _ _ (List.mem_singleton.mpr rfl)).performs.append
      (declare_performs place.scope name _ isMutable _))).mono ?_
  intro id member
  simp only [List.mem_append, List.mem_cons] at member ⊢
  tauto

theorem checkAssignment_annotates (place : Place) (target : Name) (value : Expr) (known : Analysis) :
    Annotates (target.node.id :: value.ids) known (checkAssignment place target value known).2 := by
  rw [← List.singleton_append]
  refine (resolve_annotates known place.scope target).append ?_
  refine (checkExpr_annotates place.scope value _).trans ?_
  simp only [checkAssignment, bind_apply]
  split
  · exact .refl _
  split
  · exact report_annotates _ _ _
  split
  · exact report_annotates _ _ _
  · exact .refl _

theorem checkCondition_annotates (place : Place) (condition : Expr) (known : Analysis) :
    Annotates condition.ids known (checkCondition place condition known).2 := by
  refine (checkExpr_annotates place.scope condition known).trans ?_
  simp only [checkCondition, bind_apply]
  split
  · exact report_annotates _ _ _
  · exact .refl _

theorem checkResult_annotates (place : Place) (found : Ty) (span : Span) (known : Analysis) (ids : List Nat) :
    Annotates ids known (checkResult place found span known).2 := by
  unfold checkResult
  cases place.result with
  | none => exact report_annotates _ _ _
  | some expected =>
    simp only []
    split
    · exact report_annotates _ _ _
    · exact .refl _

theorem checkReturn_annotates (place : Place) (value : Option Expr) (node : Node) (known : Analysis) :
    Annotates (Stmt.ids (.ret value node)) known (checkReturn place value node.span known).2 := by
  cases value with
  | none => exact checkResult_annotates place .void node.span known _
  | some value =>
    rw [Stmt.ids]
    refine .mono ((checkExpr_annotates place.scope value known).trans ?_) (List.subset_cons_self node.id _)
    simp only [checkReturn, bind_apply]
    split
    · exact checkResult_annotates place _ node.span _ _
    · exact report_annotates _ _ _

theorem checkPrint_annotates (place : Place) : ∀ (items : List PrintItem) (known : Analysis),
    Annotates (items.flatMap PrintItem.ids) known (checkPrint place items known).2
  | [], known => .refl known
  | .value expr :: rest, known =>
    (checkValue_annotates place.scope "print" expr known).append (checkPrint_annotates place rest _)
  | .space _ :: rest, known => checkPrint_annotates place rest known
  | .newline _ :: rest, known => checkPrint_annotates place rest known

section Enter

variable {ids : List Nat} (known : Analysis) (scopes : ScopeTree)

/-- Scopes are not part of what is noted about nodes. -/
theorem notes_scopes : Notes ids known { known with scopes := scopes } :=
  ⟨⟨fun _ => rfl, fun _ => rfl, fun _ => rfl⟩, List.prefix_rfl⟩

/-- What is known when a scope has just been opened for a node. -/
abbrev entered (node : Node) : Analysis :=
  (setScope node.id known.scopes.scopes.size { known with scopes := scopes }).2

theorem entered_notes (node : Node) : Notes [node.id] known (entered known scopes node) :=
  (notes_scopes known scopes).trans (setScope_notes _ _ (List.mem_singleton.mpr rfl))

end Enter

/-- What is known at the beginning of a nested block. -/
abbrev inside (place : Place) (node : Node) (known : Analysis) : Analysis :=
  entered known (known.scopes.openNested place.scope).2 node

/-- The place of the statements of a nested block. -/
abbrev innerPlace (place : Place) (known : Analysis) : Place :=
  { place with scope := known.scopes.scopes.size }

theorem checkNested_eq (place : Place) (statements : List Stmt) (node : Node) (known : Analysis) :
    checkNested place (.mk statements node) known =
      leaveScope known.scopes.scopes.size
        (checkStatements (innerPlace place known) statements (inside place node known)).2 := by
  rw [checkNested]
  rfl

theorem leaveScope_notes {ids : List Nat} (number : Nat) (known : Analysis) :
    Notes ids known (leaveScope number known).2 :=
  notes_scopes known (known.scopes.leave number)

/-- What happens between opening a scope for a node and leaving it is silent when the whole is. -/
theorem silent_entered {final known last : Analysis} {scopes : ScopeTree} {node : Node} {ids : List Nat} {number : Nat}
    (body : Notes ids (entered known scopes node) last)
    (silent : Silent final (node.id :: ids) known (leaveScope number last).2) :
    Silent final ids (entered known scopes node) last := by
  rw [← List.singleton_append] at silent
  have rest := (silent.split (entered_notes known scopes node) (body.trans (leaveScope_notes number last))).2
  exact rest.init body (leaveScope_notes number last)

mutual

theorem checkStmt_performs (place : Place) : ∀ (stmt : Stmt) (known : Analysis),
    Performs place.scope stmt.ids known (checkStmt place stmt known).2
  | .declare isMutable name value node, known => by
    rw [checkStmt]
    exact checkDeclaration_performs place isMutable name value node known
  | .assign target value node, known => by
    rw [checkStmt, Stmt.ids]
    exact ((checkAssignment_annotates place target value known).mono
      (List.subset_cons_self node.id _)).performs
  | .branch condition thenBlock none node, known => by
    rw [checkStmt, Stmt.ids, List.append_nil]
    refine .mono ?_ (List.subset_cons_self node.id _)
    exact (checkCondition_annotates place condition known).performs.append
      (checkNested_encloses place thenBlock _).performs
  | .branch condition thenBlock (some elseBlock) node, known => by
    rw [checkStmt, Stmt.ids]
    refine .mono ?_ (List.subset_cons_self node.id _)
    exact (checkCondition_annotates place condition known).performs.append
      ((checkNested_encloses place thenBlock _).performs.append
        (checkNested_encloses place elseBlock _).performs)
  | .ret value node, known => by
    rw [checkStmt]
    exact (checkReturn_annotates place value node known).performs
  | .call call node, known => by
    rw [checkStmt, Stmt.ids]
    exact ((checkExpr_annotates place.scope call.expr known).mono (List.subset_cons_self node.id _)).performs
  | .print items node, known => by
    rw [checkStmt, Stmt.ids]
    exact ((checkPrint_annotates place items known).mono (List.subset_cons_self node.id _)).performs
  | .nested body, known => by
    rw [checkStmt, Stmt.ids]
    exact (checkNested_encloses place body known).performs
  | .invalid node, known => by
    rw [checkStmt]
    exact (Annotates.refl known).performs

theorem checkNested_encloses (place : Place) : ∀ (block : Block) (known : Analysis),
    Encloses place.scope block.ids known (checkNested place block known).2
  | .mk statements node, known => by
    rw [checkNested_eq, Block.ids, ← List.singleton_append]
    have body := checkStatements_performs (innerPlace place known) statements (inside place node known)
    refine ⟨((entered_notes known _ node).append body.toNotes).trans (leaveScope_notes _ _), fun settled => ?_⟩
    exact ScopeTree.returns_leave settled (body.grows (ScopeTree.openNested_settled settled))

theorem checkStatements_performs (place : Place) : ∀ (statements : List Stmt) (known : Analysis),
    Performs place.scope (Stmt.idsAll statements) known (checkStatements place statements known).2
  | [], known => by
    rw [checkStatements]
    exact (Annotates.refl known).performs
  | first :: rest, known => by
    rw [checkStatements, Stmt.idsAll]
    exact (checkStmt_performs place first known).append (checkStatements_performs place rest _)

end

section Spending

theorem declare_spends (scope : Nat) (name : Name) (ty : Ty) (isMutable : Bool) (known : Analysis)
    (settled : known.scopes.Settled scope) :
    ScopeTree.Spends scope 4 known.scopes (declare scope name ty isMutable known).2.scopes := by
  cases bound : known.scopes.bind? scope name.text ty isMutable with
  | none =>
    rw [declare_of_none bound]
    exact .refl
  | some made =>
    rw [declare_of_some bound]
    exact ScopeTree.spends_bind? settled bound

mutual

theorem checkStmt_spends (place : Place) : ∀ (stmt : Stmt) (known : Analysis),
    known.scopes.Settled place.scope →
      ScopeTree.Spends place.scope (4 * stmt.declarations) known.scopes (checkStmt place stmt known).2.scopes
  | .declare isMutable name value node, known, settled => by
    rw [checkStmt, Stmt.declarations]
    have typed := checkValue_annotates place.scope ("declaration of '" ++ name.text ++ "'") value known
    rw [← typed.scopes] at settled ⊢
    rcases step : checkValue place.scope ("declaration of '" ++ name.text ++ "'") value known with ⟨ty, between⟩
    rw [step] at settled
    have declared := declare_spends place.scope name ty isMutable (setType node.id ty between).2 settled
    rw [checkDeclaration, bind_apply, step]
    exact declared
  | .assign target value node, known, _ => by
    rw [checkStmt]
    exact (checkAssignment_annotates place target value known).spends
  | .branch condition thenBlock none node, known, settled => by
    rw [checkStmt, Stmt.declarations]
    rw [← (checkCondition_annotates place condition known).scopes] at settled ⊢
    exact checkNested_spends place thenBlock _ settled
  | .branch condition thenBlock (some elseBlock) node, known, settled => by
    rw [checkStmt, Stmt.declarations, Nat.mul_add]
    rw [← (checkCondition_annotates place condition known).scopes] at settled ⊢
    have here := checkNested_encloses place thenBlock (checkCondition place condition known).2
    exact .trans settled (here.returns settled).grows (checkNested_spends place thenBlock _ settled)
      (checkNested_spends place elseBlock _ (here.returns settled).settled)
  | .ret value node, known, _ => by
    rw [checkStmt]
    exact (checkReturn_annotates place value node known).spends
  | .call call node, known, _ => by
    rw [checkStmt]
    exact (checkExpr_annotates place.scope call.expr known).spends
  | .print items node, known, _ => by
    rw [checkStmt]
    exact (checkPrint_annotates place items known).spends
  | .nested body, known, settled => by
    rw [checkStmt, Stmt.declarations]
    exact checkNested_spends place body known settled
  | .invalid node, known, _ => by
    rw [checkStmt]
    exact .refl

theorem checkNested_spends (place : Place) : ∀ (block : Block) (known : Analysis),
    known.scopes.Settled place.scope →
      ScopeTree.Spends place.scope (4 * block.declarations) known.scopes (checkNested place block known).2.scopes
  | .mk statements node, known, settled => by
    rw [checkNested_eq, Block.declarations]
    have inner := ScopeTree.openNested_settled settled
    have body := checkStatements_performs (innerPlace place known) statements (inside place node known)
    exact ScopeTree.spends_leave (body.grows inner)
      (checkStatements_spends (innerPlace place known) statements (inside place node known) inner)

theorem checkStatements_spends (place : Place) : ∀ (statements : List Stmt) (known : Analysis),
    known.scopes.Settled place.scope →
      ScopeTree.Spends place.scope (4 * Stmt.declarationsAll statements) known.scopes
        (checkStatements place statements known).2.scopes
  | [], known, _ => by
    rw [checkStatements]
    exact .refl
  | first :: rest, known, settled => by
    rw [checkStatements, Stmt.declarationsAll, Nat.mul_add]
    have here := checkStmt_performs place first known
    exact .trans settled (here.grows settled) (checkStmt_spends place first known settled)
      (checkStatements_spends place rest _ (here.settled settled))

end

end Spending

end Frame

section Silent

variable {known after : Analysis} {scope : Nat} {context : String} {expr : Expr} {ty : Ty} {place : Place}

theorem checkValue_of_silent (step : checkValue scope context expr known = (ty, after))
    (silent : after.diagnostics = known.diagnostics) :
    checkExpr scope expr known = (ty, after) ∧ (ty.isValue || ty.isError) = true := by
  rcases inner : checkExpr scope expr known with ⟨found, between⟩
  rw [checkValue, bind_apply, inner] at step
  split at step
  next proper =>
    cases step
    exact ⟨rfl, proper⟩
  · cases step
    exact absurd silent (report_after_ne (checkExpr_step inner).toNotes _ _)

theorem isValue_of_ne_error (proper : (ty.isValue || ty.isError) = true) (sound : ty ≠ .error) :
    ty.isValue = true := by
  rwa [isError_eq_false sound, Bool.or_false] at proper

end Silent

section Sound

variable {final : Analysis} {area : Allocator}

theorem declare_of_silent {scope : Nat} {name : Name} {ty : Ty} {isMutable : Bool} {known : Analysis}
    (silent : (declare scope name ty isMutable known).2.diagnostics = known.diagnostics) :
    ∃ binding scopes, known.scopes.bind? scope name.text ty isMutable = some (binding, scopes) ∧
      (declare scope name ty isMutable known).2.scopes = scopes ∧
      (declare scope name ty isMutable known).2.bindings[name.node.id]? = some binding := by
  cases bound : known.scopes.bind? scope name.text ty isMutable with
  | none =>
    rw [declare_of_none bound] at silent
    exact absurd silent (report_ne (setType name.node.id ty known).2 _ _)
  | some made =>
    obtain ⟨binding, scopes⟩ := made
    rw [declare_of_some bound]
    exact ⟨binding, scopes, rfl, rfl, Std.TreeMap.getElem?_insert_self⟩

theorem bind?_ty {tree next : ScopeTree} {number : Nat} {name : String} {ty : Ty} {isMutable : Bool}
    {binding : Binding} (settled : tree.Settled number)
    (bound : tree.bind? number name ty isMutable = some (binding, next)) :
    binding.ty = ty ∧ binding.isMutable = isMutable := by
  obtain ⟨scope, found⟩ := settled.found
  obtain ⟨allocator, allocated⟩ := settled.allocated
  rw [ScopeTree.allocatorOf_eq found] at allocated
  rw [ScopeTree.bind?_eq found allocated] at bound
  split at bound
  · cases bound
  · cases bound
    exact ⟨rfl, rfl⟩

/-- The value of a declaration is checked before anything is noted about the statement and its name. -/
theorem ids_declare_perm (isMutable : Bool) (name : Name) (value : Expr) (node : Node) :
    (Stmt.ids (.declare isMutable name value node)).Perm (value.ids ++ ([node.id] ++ [name.node.id])) :=
  show ([node.id, name.node.id] ++ value.ids).Perm _ from List.perm_append_comm

theorem checkDeclaration_of_silent {place : Place} {isMutable : Bool} {name : Name} {value : Expr}
    {node : Node} {known after : Analysis}
    (step : checkDeclaration place isMutable name value node known = ((), after))
    (settled : known.scopes.Settled place.scope) (declarable : (known.scopes.chain place.scope).Declarable)
    (legible : value.Legible) (silent : Silent final (Stmt.ids (.declare isMutable name value node)) known after)
    (bounded : after.scopes.Bounded place.scope area) :
    Stmt.Placed final area place.result (known.scopes.chain place.scope) (.declare isMutable name value node)
      (after.scopes.chain place.scope) := by
  rcases stepValue : checkValue place.scope ("declaration of '" ++ name.text ++ "'") value known
    with ⟨ty, afterValue⟩
  simp only [checkDeclaration, bind_apply, stepValue] at step
  have one : Annotates value.ids known afterValue := by
    have annotates := checkValue_annotates place.scope ("declaration of '" ++ name.text ++ "'") value known
    rwa [stepValue] at annotates
  have two : Annotates [node.id] afterValue _ := setType_annotates afterValue ty (List.mem_singleton.mpr rfl)
  have three := declare_performs place.scope name ty isMutable (setType node.id ty afterValue).2
  rw [step] at three
  obtain ⟨silentValue, silentRest⟩ :=
    (silent.perm (ids_declare_perm _ _ _ _)).split one.toNotes (two.toNotes.append three.toNotes)
  have silentName := (silentRest.split two.toNotes three.toNotes).2
  obtain ⟨stepExpr, proper⟩ := checkValue_of_silent stepValue silentValue.reports
  have typed := resolved_of_silent declarable stepExpr rfl legible silentValue
  obtain ⟨binding, scopes, bound, rfl, noted⟩ := declare_of_silent (by rw [step]; exact silentName.reports)
  change afterValue.scopes.bind? _ _ _ _ = _ at bound
  rw [one.scopes] at bound
  rw [step] at bound noted
  have binds := ScopeTree.binds_of_bind? settled bound
  obtain ⟨rfl, kind⟩ := bind?_ty settled bound
  obtain ⟨allocator, allocated⟩ := binds.settled.allocated
  have fresh : ¬ (known.scopes.chain place.scope).Declares name.text := by
    rw [← ScopeTree.bind?_none_iff settled, bound]
    simp
  rw [binds.chain]
  exact .declare typed (isValue_of_ne_error proper (typed.ne_error declarable)) fresh kind
    (silentName.agrees.bindingOf (List.mem_singleton.mpr rfl) noted)
    ((binds.covers allocated).mono (bounded allocated)) binds.apart

variable {place : Place} {known after : Analysis}

theorem checkAssignment_of_silent {target : Name} {value : Expr}
    (step : checkAssignment place target value known = ((), after))
    (declarable : (known.scopes.chain place.scope).Declarable) (legible : value.Legible)
    (silent : Silent final (target.node.id :: value.ids) known after) :
    ∃ binding, (known.scopes.chain place.scope).find? target.text = some binding ∧
      binding.isMutable = true ∧ final.bindingOf target.node.id = binding ∧
      Resolved final (known.scopes.chain place.scope) value binding.ty ∧ after.scopes = known.scopes := by
  rcases lookup : resolve place.scope target known with ⟨binding, afterTarget⟩
  rcases stepValue : checkExpr place.scope value afterTarget with ⟨ty, afterValue⟩
  simp only [checkAssignment, bind_apply, lookup, stepValue] at step
  have one : Annotates [target.node.id] known afterTarget := by
    have annotates := resolve_annotates known place.scope target
    rwa [lookup] at annotates
  have two := checkExpr_step stepValue
  have both := (one.append two).toNotes
  split at step
  next poisoned =>
    -- A target without a proper type was reported where it was looked up.
    cases step
    obtain ⟨found, _, _⟩ := resolve_of_silent lookup ((one.toNotes.silent_iff two.toNotes).mp silent.reports).1
    rw [isError_eq_false (declarable.find found).ne_error] at poisoned
    cases poisoned
  split at step
  · cases step
    exact absurd silent.reports (report_after_ne both _ _)
  split at step
  · cases step
    exact absurd silent.reports (report_after_ne both _ _)
  next fixed differs =>
    cases step
    rw [← List.singleton_append] at silent
    obtain ⟨silentTarget, silentValue⟩ := silent.split one.toNotes two.toNotes
    obtain ⟨found, _, noted⟩ := resolve_of_silent lookup silentTarget.reports
    have typed := resolved_of_silent declarable stepValue one.scopes legible silentValue
    have same : ty = binding.ty := by
      simpa [isError_eq_false (typed.ne_error declarable)] using differs
    refine ⟨binding, found, by simpa using fixed, ?_, same ▸ typed, two.scopes.trans one.scopes⟩
    exact silentTarget.agrees.bindingOf (List.mem_singleton.mpr rfl) noted

theorem checkCondition_of_silent {condition : Expr}
    (step : checkCondition place condition known = ((), after))
    (declarable : (known.scopes.chain place.scope).Declarable) (legible : condition.Legible)
    (silent : Silent final condition.ids known after) :
    Resolved final (known.scopes.chain place.scope) condition .bool := by
  rcases stepExpr : checkExpr place.scope condition known with ⟨ty, between⟩
  simp only [checkCondition, bind_apply, stepExpr] at step
  split at step
  · cases step
    exact absurd silent.reports (report_after_ne (checkExpr_step stepExpr).toNotes _ _)
  next proper =>
    cases step
    have typed := resolved_of_silent declarable stepExpr rfl legible silent
    have isBool : ty = .bool := by
      simpa [isError_eq_false (typed.ne_error declarable)] using proper
    exact isBool ▸ typed

theorem checkResult_of_silent {found : Ty} {span : Span} (proper : found ≠ .error)
    (step : checkResult place found span known = ((), after))
    (silent : after.diagnostics = known.diagnostics) : place.result = some found ∧ after = known := by
  unfold checkResult at step
  cases expected : place.result with
  | none =>
    rw [expected] at step
    cases step
    exact absurd silent (report_ne known _ _)
  | some expected' =>
    simp only [expected, isError_eq_false proper] at step
    split at step
    · cases step
      exact absurd silent (report_ne known _ _)
    next same =>
      cases step
      have same : found = expected' := by simpa using same
      exact ⟨congrArg some same.symm, rfl⟩

theorem checkReturn_of_silent {value : Expr} {span : Span}
    (step : checkReturn place (some value) span known = ((), after))
    (declarable : (known.scopes.chain place.scope).Declarable) (legible : value.Legible)
    (silent : Silent final value.ids known after) :
    ∃ ty, Resolved final (known.scopes.chain place.scope) value ty ∧ ty.isValue = true ∧
      place.result = some ty ∧ after.scopes = known.scopes := by
  rcases stepExpr : checkExpr place.scope value known with ⟨ty, between⟩
  have one := checkExpr_step stepExpr
  simp only [checkReturn, bind_apply, stepExpr] at step
  split at step
  next proper =>
    have two := checkResult_annotates place ty span between []
    rw [step] at two
    have typed := resolved_of_silent declarable stepExpr rfl legible (silent.init one.toNotes two.toNotes)
    have sound := typed.ne_error declarable
    obtain ⟨expected, rfl⟩ :=
      checkResult_of_silent sound step ((one.toNotes.silent_iff two.toNotes).mp silent.reports).2
    exact ⟨ty, typed, isValue_of_ne_error proper sound, expected, one.scopes⟩
  · cases step
    exact absurd silent.reports (report_after_ne one.toNotes _ _)

theorem checkPrint_of_silent (declarable : (known.scopes.chain place.scope).Declarable) :
    ∀ {items : List PrintItem} {before after : Analysis}, checkPrint place items before = ((), after) →
      before.scopes = known.scopes → (∀ item ∈ items, item.Legible) →
      Silent final (items.flatMap PrintItem.ids) before after →
      ∀ item ∈ items, item.Resolved final (known.scopes.chain place.scope)
  | [], _, _, _, _, _, _ => by simp
  | .value expr :: rest, before, after, step, same, legible, silent => by
    rcases stepValue : checkValue place.scope "print" expr before with ⟨ty, between⟩
    simp only [checkPrint, bind_apply, stepValue] at step
    have one : Annotates expr.ids before between := by
      have annotates := checkValue_annotates place.scope "print" expr before
      rwa [stepValue] at annotates
    have two := checkPrint_annotates place rest between
    rw [step] at two
    rw [List.flatMap_cons] at silent
    obtain ⟨silentValue, silentRest⟩ := silent.split one.toNotes two.toNotes
    obtain ⟨stepExpr, proper⟩ := checkValue_of_silent stepValue silentValue.reports
    have typed := resolved_of_silent declarable stepExpr same (legible _ List.mem_cons_self) silentValue
    refine List.forall_mem_cons.mpr
      ⟨⟨ty, typed, isValue_of_ne_error proper (typed.ne_error declarable)⟩, ?_⟩
    exact checkPrint_of_silent declarable step (one.scopes.trans same)
      (fun item member => legible item (List.mem_cons_of_mem _ member)) silentRest
  | .space _ :: rest, before, after, step, same, legible, silent
  | .newline _ :: rest, before, after, step, same, legible, silent =>
    List.forall_mem_cons.mpr ⟨trivial, checkPrint_of_silent declarable step same
      (fun item member => legible item (List.mem_cons_of_mem _ member)) silent⟩

/-- The blocks of a conditional statement are checked behind its condition, in the same scopes. -/
theorem condition_of_silent {condition : Expr} {id : Nat} {more : List Nat}
    (notes : Notes more (checkCondition place condition known).2 after)
    (declarable : (known.scopes.chain place.scope).Declarable) (legible : condition.Legible)
    (silent : Silent final (id :: (condition.ids ++ more)) known after) :
    Resolved final (known.scopes.chain place.scope) condition .bool ∧
      Silent final more (checkCondition place condition known).2 after := by
  obtain ⟨silentCondition, silentRest⟩ :=
    silent.tail.split (checkCondition_annotates place condition known).toNotes notes
  exact ⟨checkCondition_of_silent rfl declarable legible silentCondition, silentRest⟩

mutual

/-- A statement that is checked without a diagnostic is well formed, and its tables are right. -/
theorem placed_of_silent :
    ∀ {place : Place} {stmt : Stmt} {known after : Analysis}, checkStmt place stmt known = ((), after) →
      known.scopes.Settled place.scope → (known.scopes.chain place.scope).Declarable → stmt.Legible →
      Silent final stmt.ids known after → after.scopes.Bounded place.scope area →
      Stmt.Placed final area place.result (known.scopes.chain place.scope) stmt
        (after.scopes.chain place.scope)
  | place, .declare isMutable name value node, known, after, step, settled, declarable, legible, silent,
      bounded => by
    rw [checkStmt] at step
    rw [Stmt.Legible] at legible
    exact checkDeclaration_of_silent step settled declarable legible silent bounded
  | place, .assign target value node, known, after, step, _, declarable, legible, silent, _ => by
    rw [checkStmt] at step
    rw [Stmt.Legible] at legible
    rw [Stmt.ids] at silent
    obtain ⟨binding, found, kind, noted, typed, same⟩ :=
      checkAssignment_of_silent step declarable legible silent.tail
    rw [same]
    exact .assign found kind noted typed
  | place, .branch condition thenBlock none node, known, after, step, settled, declarable, legible, silent,
      bounded => by
    rw [checkStmt] at step
    rw [Stmt.Legible] at legible
    rw [Stmt.ids, List.append_nil] at silent
    have stepThen : checkNested place thenBlock (checkCondition place condition known).2 = ((), after) := step
    have two := checkNested_encloses place thenBlock (checkCondition place condition known).2
    rw [stepThen] at two
    obtain ⟨typed, silentThen⟩ := condition_of_silent two.toNotes declarable legible.1 silent
    rw [← (checkCondition_annotates place condition known).scopes] at settled declarable typed ⊢
    rw [(two.returns settled).chain]
    exact .branch typed (blockPlaced_of_silent stepThen settled declarable legible.2.1 silentThen bounded)
  | place, .branch condition thenBlock (some elseBlock) node, known, after, step, settled, declarable,
      legible, silent, bounded => by
    rw [checkStmt] at step
    rw [Stmt.Legible] at legible
    rw [Stmt.ids] at silent
    rcases stepThen : checkNested place thenBlock (checkCondition place condition known).2 with ⟨⟨⟩, middle⟩
    simp only [bind_apply, stepThen] at step
    have two := checkNested_encloses place thenBlock (checkCondition place condition known).2
    have three := checkNested_encloses place elseBlock middle
    rw [stepThen] at two
    rw [step] at three
    obtain ⟨typed, silentRest⟩ :=
      condition_of_silent (two.toNotes.append three.toNotes) declarable legible.1 silent
    obtain ⟨silentThen, silentElse⟩ := silentRest.split two.toNotes three.toNotes
    rw [← (checkCondition_annotates place condition known).scopes] at settled declarable typed ⊢
    -- Both blocks end with the names they began with, so the second is checked in the scopes of the first.
    have once := two.returns settled
    have twice := three.returns once.settled
    have placedThen := blockPlaced_of_silent stepThen settled declarable legible.2.1 silentThen
      (bounded.before twice.grows once.settled)
    have placedElse := blockPlaced_of_silent step once.settled (once.chain ▸ declarable) legible.2.2
      silentElse bounded
    rw [twice.chain, once.chain]
    rw [once.chain] at placedElse
    exact .branchElse typed placedThen placedElse
  | place, .ret none node, known, after, step, _, _, _, silent, _ => by
    rw [checkStmt] at step
    obtain ⟨expected, rfl⟩ := checkResult_of_silent (by simp) step silent.reports
    exact .ret expected
  | place, .ret (some value) node, known, after, step, _, declarable, legible, silent, _ => by
    rw [checkStmt] at step
    rw [Stmt.Legible] at legible
    rw [Stmt.ids] at silent
    obtain ⟨ty, typed, isValue, expected, same⟩ := checkReturn_of_silent step declarable legible silent.tail
    rw [same]
    exact .retValue typed isValue expected
  | place, .call call node, known, after, step, _, declarable, legible, silent, _ => by
    rw [checkStmt] at step
    rw [Stmt.Legible] at legible
    rw [Stmt.ids] at silent
    rcases stepExpr : checkExpr place.scope call.expr known with ⟨ty, between⟩
    rw [bind_apply, stepExpr] at step
    cases step
    rw [(checkExpr_step stepExpr).scopes]
    exact .call (resolved_of_silent declarable stepExpr rfl legible silent.tail)
  | place, .print items node, known, after, step, _, declarable, legible, silent, _ => by
    rw [checkStmt] at step
    rw [Stmt.Legible] at legible
    rw [Stmt.ids] at silent
    have annotates := checkPrint_annotates place items known
    rw [step] at annotates
    rw [annotates.scopes]
    exact .print (checkPrint_of_silent declarable step rfl legible silent.tail)
  | place, .nested body, known, after, step, settled, declarable, legible, silent, bounded => by
    rw [checkStmt] at step
    rw [Stmt.Legible] at legible
    rw [Stmt.ids] at silent
    have encloses := checkNested_encloses place body known
    rw [step] at encloses
    rw [(encloses.returns settled).chain]
    exact .nested (blockPlaced_of_silent step settled declarable legible silent bounded)
  | _, .invalid _, _, _, _, _, _, legible, _, _ => absurd legible (by simp [Stmt.Legible])

theorem blockPlaced_of_silent :
    ∀ {place : Place} {block : Block} {known after : Analysis}, checkNested place block known = ((), after) →
      known.scopes.Settled place.scope → (known.scopes.chain place.scope).Declarable → block.Legible →
      Silent final block.ids known after → after.scopes.Bounded place.scope area →
      Block.Placed final area place.result (known.scopes.chain place.scope) block
  | place, .mk statements node, known, after, step, settled, declarable, legible, silent, bounded => by
    rw [checkNested_eq] at step
    rcases stepBody : checkStatements (innerPlace place known) statements (inside place node known)
      with ⟨⟨⟩, last⟩
    rw [stepBody] at step
    cases step
    have body := checkStatements_performs (innerPlace place known) statements (inside place node known)
    rw [stepBody] at body
    rw [Block.Legible] at legible
    rw [Block.ids] at silent
    have settledInside := ScopeTree.openNested_settled settled
    have names : (inside place node known).scopes.chain (innerPlace place known).scope =
        [] :: known.scopes.chain place.scope := ScopeTree.openNested_chain settled
    have declarableInside : ((inside place node known).scopes.chain (innerPlace place known).scope).Declarable := by
      intro entry member
      rw [names, List.flatten_cons, List.nil_append] at member
      exact declarable entry member
    have placed := placedAll_of_silent stepBody settledInside declarableInside legible
      (silent_entered body.toNotes silent) (ScopeTree.Bounded.inside settled (body.grows settledInside) bounded)
    rw [names] at placed
    exact .mk placed

theorem placedAll_of_silent :
    ∀ {place : Place} {stmts : List Stmt} {known after : Analysis},
      checkStatements place stmts known = ((), after) → known.scopes.Settled place.scope →
      (known.scopes.chain place.scope).Declarable → Stmt.LegibleAll stmts →
      Silent final (Stmt.idsAll stmts) known after → after.scopes.Bounded place.scope area →
      Stmt.PlacedAll final area place.result (known.scopes.chain place.scope) stmts
        (after.scopes.chain place.scope)
  | place, [], known, after, step, _, _, _, _, _ => by
    rw [checkStatements] at step
    cases step
    exact .nil
  | place, first :: rest, known, after, step, settled, declarable, legible, silent, bounded => by
    rw [checkStatements] at step
    rcases stepFirst : checkStmt place first known with ⟨⟨⟩, between⟩
    rw [bind_apply, stepFirst] at step
    have one := checkStmt_performs place first known
    have two := checkStatements_performs place rest between
    rw [stepFirst] at one
    rw [step] at two
    rw [Stmt.LegibleAll] at legible
    rw [Stmt.idsAll] at silent
    obtain ⟨silentFirst, silentRest⟩ := silent.split one.toNotes two.toNotes
    have settledRest := one.settled settled
    have placed := placed_of_silent stepFirst settled declarable legible.1 silentFirst
      (bounded.before (two.grows settledRest) settledRest)
    exact .cons placed
      (placedAll_of_silent step settledRest (placed.declarable declarable) legible.2 silentRest bounded)

end

end Sound

section Complete

variable {place : Place} {known : Analysis} {expr : Expr} {ty : Ty}

theorem checkValue_of_hasType (context : String) (declarable : (known.scopes.chain place.scope).Declarable)
    (typed : HasType ((known.scopes.chain place.scope).map Binding.entry) expr ty)
    (isValue : ty.isValue = true) :
    ∃ after, checkValue place.scope context expr known = (ty, after) ∧
      after.diagnostics = known.diagnostics ∧ after.scopes = known.scopes := by
  obtain ⟨after, step, silent⟩ := checkExpr_of_hasType declarable typed rfl
  refine ⟨after, ?_, silent, (checkExpr_step step).scopes⟩
  simp only [checkValue, bind_apply, step, isValue, Bool.true_or, if_true, pure_apply]

theorem checkDeclaration_of_hasType {isMutable : Bool} {name : Name} {node : Node}
    (settled : known.scopes.Settled place.scope) (declarable : (known.scopes.chain place.scope).Declarable)
    (typed : HasType ((known.scopes.chain place.scope).map Binding.entry) expr ty)
    (isValue : ty.isValue = true)
    (fresh : ¬ ((known.scopes.chain place.scope).map Binding.entry).Declares name.text) :
    ∃ after, checkDeclaration place isMutable name expr node known = ((), after) ∧
      after.diagnostics = known.diagnostics ∧
      (after.scopes.chain place.scope).map Binding.entry =
        ((known.scopes.chain place.scope).map Binding.entry).declare name.text ⟨ty, isMutable⟩ ∧
      (after.scopes.chain place.scope).Declarable := by
  obtain ⟨between, step, silent, same⟩ :=
    checkValue_of_hasType ("declaration of '" ++ name.text ++ "'") declarable typed isValue
  have free : known.scopes.bind? place.scope name.text ty isMutable ≠ none :=
    fun taken => fresh (Nest.declares_map.mpr ((ScopeTree.bind?_none_iff settled).mp taken))
  obtain ⟨⟨binding, scopes⟩, bound⟩ := Option.ne_none_iff_exists'.mp free
  have binds := ScopeTree.binds_of_bind? settled bound
  obtain ⟨rfl, rfl⟩ := bind?_ty settled bound
  have bound' : (setType node.id binding.ty between).2.scopes.bind? place.scope name.text binding.ty
      binding.isMutable = some (binding, scopes) := same ▸ bound
  have whole := declare_of_some bound'
  simp only [checkDeclaration, bind_apply, step, whole]
  refine ⟨_, rfl, silent, ?_, ?_⟩
  · exact (congrArg (Nest.map Binding.entry) binds.chain).trans (Nest.map_declare _ _ _)
  · intro entry member
    exact declarable.declare (.of_isValue isValue) entry (binds.chain ▸ member)

theorem checkAssignment_of_hasType {target : Name} (declarable : (known.scopes.chain place.scope).Declarable)
    (found : ((known.scopes.chain place.scope).map Binding.entry).find? target.text = some ⟨ty, true⟩)
    (typed : HasType ((known.scopes.chain place.scope).map Binding.entry) expr ty) :
    ∃ after, checkAssignment place target expr known = ((), after) ∧
      after.diagnostics = known.diagnostics ∧ after.scopes = known.scopes := by
  obtain ⟨binding, visible, kind⟩ := find?_of_entry found
  obtain ⟨rfl, changeable⟩ := Entry.mk.inj kind
  obtain ⟨afterTarget, lookup, silentTarget, same⟩ := resolve_of_find? visible
  obtain ⟨after, step, silent⟩ := checkExpr_of_hasType declarable typed same
  refine ⟨after, ?_, silent.trans silentTarget, (checkExpr_step step).scopes.trans same⟩
  simp [checkAssignment, bind_apply, lookup, step, isError_eq_false (declarable.find visible).ne_error,
    changeable]

theorem checkCondition_of_hasType {condition : Expr}
    (declarable : (known.scopes.chain place.scope).Declarable)
    (typed : HasType ((known.scopes.chain place.scope).map Binding.entry) condition .bool) :
    ∃ after, checkCondition place condition known = ((), after) ∧
      after.diagnostics = known.diagnostics ∧ after.scopes = known.scopes := by
  obtain ⟨after, step, silent⟩ := checkExpr_of_hasType declarable typed rfl
  refine ⟨after, ?_, silent, (checkExpr_step step).scopes⟩
  simp [checkCondition, bind_apply, step]

theorem checkResult_of_expected {found : Ty} {span : Span} (expected : place.result = some found) :
    checkResult place found span known = ((), known) := by
  simp [checkResult, expected]

theorem checkReturn_of_hasType {span : Span} (declarable : (known.scopes.chain place.scope).Declarable)
    (typed : HasType ((known.scopes.chain place.scope).map Binding.entry) expr ty)
    (isValue : ty.isValue = true) (expected : place.result = some ty) :
    ∃ after, checkReturn place (some expr) span known = ((), after) ∧
      after.diagnostics = known.diagnostics ∧ after.scopes = known.scopes := by
  obtain ⟨after, step, silent⟩ := checkExpr_of_hasType declarable typed rfl
  refine ⟨after, ?_, silent, (checkExpr_step step).scopes⟩
  simp only [checkReturn, bind_apply, step, isValue, Bool.true_or, if_true]
  exact checkResult_of_expected expected

theorem checkPrint_of_fits (declarable : (known.scopes.chain place.scope).Declarable) :
    ∀ {items : List PrintItem} {before : Analysis}, before.scopes = known.scopes →
      (∀ item ∈ items, item.Fits ((known.scopes.chain place.scope).map Binding.entry)) →
      ∃ after, checkPrint place items before = ((), after) ∧ after.diagnostics = before.diagnostics ∧
        after.scopes = known.scopes
  | [], before, same, _ => ⟨before, rfl, rfl, same⟩
  | .value expr :: rest, before, same, fits => by
    obtain ⟨ty, typed, isValue⟩ := fits _ List.mem_cons_self
    obtain ⟨between, step, silent, kept⟩ := checkValue_of_hasType "print" (same ▸ declarable)
      (same ▸ typed) isValue
    obtain ⟨after, stepRest, silentRest, keptRest⟩ := checkPrint_of_fits declarable (kept.trans same)
      (fun item member => fits item (List.mem_cons_of_mem _ member))
    refine ⟨after, ?_, silentRest.trans silent, keptRest⟩
    simp only [checkPrint, bind_apply, step, stepRest]
  | .space _ :: rest, before, same, fits | .newline _ :: rest, before, same, fits => by
    rw [checkPrint]
    · exact checkPrint_of_fits declarable same fun item member => fits item (List.mem_cons_of_mem _ member)
    · simp

mutual

/-- A statement that the rules allow is checked without a diagnostic. -/
theorem checkStmt_of_fits :
    ∀ {place : Place} {stmt : Stmt} {known : Analysis} {context : Context},
      Stmt.Fits place.result ((known.scopes.chain place.scope).map Binding.entry) stmt context →
      known.scopes.Settled place.scope → (known.scopes.chain place.scope).Declarable →
      ∃ after, checkStmt place stmt known = ((), after) ∧ after.diagnostics = known.diagnostics ∧
        (after.scopes.chain place.scope).map Binding.entry = context ∧
        (after.scopes.chain place.scope).Declarable
  | place, .declare isMutable name value node, known, _, .declare typed isValue fresh, settled,
      declarable => by
    rw [checkStmt]
    exact checkDeclaration_of_hasType settled declarable typed isValue fresh
  | place, .assign target value node, known, _, .assign found typed, _, declarable => by
    obtain ⟨after, step, silent, same⟩ := checkAssignment_of_hasType declarable found typed
    rw [checkStmt]
    exact ⟨after, step, silent, by rw [same], same ▸ declarable⟩
  | place, .branch condition thenBlock none node, known, _, .branch typed thenFits, settled,
      declarable => by
    obtain ⟨between, step, silent, same⟩ := checkCondition_of_hasType declarable typed
    rw [← same] at thenFits settled declarable
    obtain ⟨after, stepThen, silentThen, kept⟩ := checkNested_of_fits thenFits settled declarable
    rw [← same]
    refine ⟨after, ?_, silentThen.trans silent, by rw [kept], kept ▸ declarable⟩
    rw [checkStmt]
    simp only [bind_apply, step, stepThen]
    rfl
  | place, .branch condition thenBlock (some elseBlock) node, known, _, .branchElse typed thenFits elseFits,
      settled, declarable => by
    obtain ⟨between, step, silent, same⟩ := checkCondition_of_hasType declarable typed
    rw [← same] at thenFits elseFits settled declarable
    obtain ⟨middle, stepThen, silentThen, kept⟩ := checkNested_of_fits thenFits settled declarable
    have encloses := checkNested_encloses place thenBlock between
    rw [stepThen] at encloses
    rw [← kept] at elseFits declarable
    obtain ⟨after, stepElse, silentElse, keptElse⟩ :=
      checkNested_of_fits elseFits (encloses.returns settled).settled declarable
    rw [← same, ← kept, ← keptElse]
    refine ⟨after, ?_, silentElse.trans (silentThen.trans silent), rfl, keptElse ▸ declarable⟩
    rw [checkStmt]
    simp only [bind_apply, step, stepThen, stepElse]
  | place, .ret none node, known, _, .ret expected, _, declarable => by
    rw [checkStmt]
    exact ⟨known, checkResult_of_expected expected, rfl, rfl, declarable⟩
  | place, .ret (some value) node, known, _, .retValue typed isValue expected, _, declarable => by
    obtain ⟨after, step, silent, same⟩ := checkReturn_of_hasType declarable typed isValue expected
    rw [checkStmt]
    exact ⟨after, step, silent, by rw [same], same ▸ declarable⟩
  | place, .call call node, known, _, .call typed, _, declarable => by
    obtain ⟨after, step, silent⟩ := checkExpr_of_hasType declarable typed rfl
    have same := (checkExpr_step step).scopes
    rw [checkStmt]
    simp only [bind_apply, step]
    exact ⟨after, rfl, silent, by rw [same], same ▸ declarable⟩
  | place, .print items node, known, _, .print fits, _, declarable => by
    obtain ⟨after, step, silent, same⟩ := checkPrint_of_fits declarable rfl fits
    rw [checkStmt]
    exact ⟨after, step, silent, by rw [same], same ▸ declarable⟩
  | place, .nested body, known, _, .nested fits, settled, declarable => by
    obtain ⟨after, step, silent, kept⟩ := checkNested_of_fits fits settled declarable
    rw [checkStmt]
    exact ⟨after, step, silent, by rw [kept], kept ▸ declarable⟩

theorem checkNested_of_fits :
    ∀ {place : Place} {block : Block} {known : Analysis},
      Block.Fits place.result ((known.scopes.chain place.scope).map Binding.entry) block →
      known.scopes.Settled place.scope → (known.scopes.chain place.scope).Declarable →
      ∃ after, checkNested place block known = ((), after) ∧ after.diagnostics = known.diagnostics ∧
        after.scopes.chain place.scope = known.scopes.chain place.scope
  | place, .mk statements node, known, .mk fits, settled, declarable => by
    have settledInside := ScopeTree.openNested_settled settled
    have names : (inside place node known).scopes.chain (innerPlace place known).scope =
        [] :: known.scopes.chain place.scope := ScopeTree.openNested_chain settled
    have declarableInside :
        ((inside place node known).scopes.chain (innerPlace place known).scope).Declarable := by
      intro entry member
      rw [names, List.flatten_cons, List.nil_append] at member
      exact declarable entry member
    have entries : ((inside place node known).scopes.chain (innerPlace place known).scope).map Binding.entry =
        [] :: (known.scopes.chain place.scope).map Binding.entry := congrArg (Nest.map Binding.entry) names
    rw [← entries] at fits
    obtain ⟨last, step, silent⟩ := checkStatements_of_fitAll fits settledInside declarableInside
    have encloses := checkNested_encloses place (.mk statements node) known
    rw [checkNested_eq, step] at encloses
    rw [checkNested_eq, step]
    exact ⟨_, rfl, silent, (encloses.returns settled).chain⟩

theorem checkStatements_of_fitAll :
    ∀ {place : Place} {stmts : List Stmt} {known : Analysis} {context : Context},
      Stmt.FitAll place.result ((known.scopes.chain place.scope).map Binding.entry) stmts context →
      known.scopes.Settled place.scope → (known.scopes.chain place.scope).Declarable →
      ∃ after, checkStatements place stmts known = ((), after) ∧ after.diagnostics = known.diagnostics
  | place, [], known, _, .nil, _, _ => by
    rw [checkStatements]
    exact ⟨known, rfl, rfl⟩
  | place, first :: rest, known, _, .cons fits fitsRest, settled, declarable => by
    obtain ⟨between, step, silent, rfl, declarableRest⟩ := checkStmt_of_fits fits settled declarable
    have performs := checkStmt_performs place first known
    rw [step] at performs
    obtain ⟨after, stepRest, silentRest⟩ :=
      checkStatements_of_fitAll fitsRest (performs.settled settled) declarableRest
    refine ⟨after, ?_, silentRest.trans silent⟩
    rw [checkStatements, bind_apply, step, stepRest]

end

end Complete

end Checker

end Stackwright
