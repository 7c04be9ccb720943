import Stackwright.Analysis.Expression
import Stackwright.Proofs.Checking.Notes
import Stackwright.Proofs.Placement
import Stackwright.Proofs.Scope.Chain
import Stackwright.Proofs.Tree.Nodes

/-! Checking an expression against the rules. The check finds the type that the rules give it and
reports nothing, or the rules give it none and the check reports something. -/

set_option autoImplicit false

namespace Stackwright

namespace Analysis

/-- A step that notes down something about the given nodes and leaves the scopes alone. -/
structure Annotates (ids : List Nat) (before after : Analysis) : Prop extends Notes ids before after where
  scopes : after.scopes = before.scopes

variable {ids more later : List Nat} {before between after : Analysis}

theorem Annotates.refl (analysis : Analysis) : Annotates ids analysis analysis := ⟨.refl analysis, rfl⟩

theorem Annotates.mono (step : Annotates ids before after) (wider : ids ⊆ more) :
    Annotates more before after :=
  ⟨step.toNotes.mono wider, step.scopes⟩

theorem Annotates.trans (one : Annotates ids before between) (two : Annotates ids between after) :
    Annotates ids before after :=
  ⟨one.toNotes.trans two.toNotes, two.scopes.trans one.scopes⟩

theorem Annotates.append (one : Annotates ids before between) (two : Annotates later between after) :
    Annotates (ids ++ later) before after :=
  ⟨one.toNotes.append two.toNotes, two.scopes.trans one.scopes⟩

end Analysis

namespace Checker

open Analysis

section Frame

variable {ids : List Nat} {id : Nat} (known : Analysis)

theorem setType_annotates (ty : Ty) (member : id ∈ ids) : Annotates ids known (setType id ty known).2 :=
  ⟨setType_notes known ty member, rfl⟩

theorem setBinding_annotates (binding : Binding) (member : id ∈ ids) :
    Annotates ids known (setBinding id binding known).2 :=
  ⟨setBinding_notes known binding member, rfl⟩

theorem report_annotates (cause : Diagnostic.Cause) (span : Span) :
    Annotates ids known (report cause span known).2 :=
  ⟨report_notes known cause span, rfl⟩

theorem record_annotates (name : Name) (binding : Binding) :
    Annotates [name.node.id] known (record name binding known).2 :=
  (setType_annotates known binding.ty (List.mem_singleton.mpr rfl)).trans
    (setBinding_annotates _ binding (List.mem_singleton.mpr rfl))

theorem resolve_annotates (scope : Nat) (name : Name) :
    Annotates [name.node.id] known (resolve scope name known).2 := by
  simp only [resolve, bind_apply, get_apply]
  cases known.scopes.lookup scope name.text with
  | some binding => exact record_annotates known name binding
  | none => exact (report_annotates known _ _).trans (record_annotates _ name _)

theorem checkLiteral_annotates (literal : Literal) (span : Span) :
    Annotates ids known (checkLiteral literal span known).2 := by
  cases literal with
  | int | bool => exact .refl known
  | char | float | string => exact report_annotates known _ _

theorem binaryType_annotates (operator : BinaryOperator) (left right : Ty) (span : Span) :
    Annotates ids known (binaryType operator left right span known).2 := by
  unfold binaryType
  split
  · exact .refl known
  · cases operator.resolve? left right with
    | some result => exact .refl known
    | none => exact report_annotates known _ _

theorem unaryType_annotates (operator : UnaryOperator) (operand : Ty) (span : Span) :
    Annotates ids known (unaryType operator operand span known).2 := by
  unfold unaryType
  split
  · exact .refl known
  · cases operator.resolve? operand with
    | some result => exact .refl known
    | none => exact report_annotates known _ _

theorem callType_annotates (callee : Name) (function : Ty) (arguments : List Ty) (list : Span) :
    Annotates ids known (callType callee function arguments list known).2 := by
  unfold callType
  split
  · exact .refl known
  · cases function.signature? with
    | none => exact report_annotates known _ _
    | some signature =>
      simp only []
      split
      · exact .refl known
      · exact report_annotates known _ _

mutual

theorem checkExpr_annotates (scope : Nat) :
    ∀ (expr : Expr) (known : Analysis), Annotates expr.ids known (checkExpr scope expr known).2
  | .literal value node, known => by
    rw [checkExpr, Expr.ids]
    exact (checkLiteral_annotates known value node.span).trans
      (setType_annotates _ _ (List.mem_singleton.mpr rfl))
  | .named name, known => by
    rw [checkExpr, Expr.ids]
    exact resolve_annotates known scope name
  | .binary operator left right node, known => by
    rw [checkExpr, Expr.ids]
    refine (checkExpr_annotates scope left known).append ((checkExpr_annotates scope right _).append ?_)
    exact (binaryType_annotates _ operator _ _ node.span).trans
      (setType_annotates _ _ (List.mem_singleton.mpr rfl))
  | .unary operator operand node, known => by
    rw [checkExpr, Expr.ids]
    refine (checkExpr_annotates scope operand known).append ?_
    exact (unaryType_annotates _ operator _ node.span).trans
      (setType_annotates _ _ (List.mem_singleton.mpr rfl))
  | .call callee arguments list node, known => by
    rw [checkExpr, Expr.ids, ← List.singleton_append]
    refine (resolve_annotates known scope callee).append (.mono ?_ (List.subset_cons_self list.id _))
    refine (checkArguments_annotates scope arguments _).append ?_
    exact (callType_annotates _ callee _ _ list.span).trans
      (setType_annotates _ _ (List.mem_singleton.mpr rfl))
  | .invalid node, known => by
    rw [checkExpr, Expr.ids]
    exact setType_annotates known .error (List.mem_singleton.mpr rfl)

theorem checkArguments_annotates (scope : Nat) : ∀ (arguments : List Expr) (known : Analysis),
    Annotates (Expr.idsAll arguments) known (checkArguments scope arguments known).2
  | [], known => by
    rw [checkArguments]
    exact .refl known
  | first :: rest, known => by
    rw [checkArguments, Expr.idsAll]
    exact (checkExpr_annotates scope first known).append (checkArguments_annotates scope rest _)

end

end Frame

section Silent

variable {known : Analysis} {span : Span}

theorem report_after_ne {ids : List Nat} {before after : Analysis} (notes : Notes ids before after)
    (cause : Diagnostic.Cause) (span : Span) :
    (report cause span after).2.diagnostics ≠ before.diagnostics := by
  intro silent
  have longer := notes.reports.length_le
  have same := congrArg List.length silent
  simp only [report, modify_apply, List.length_append, List.length_singleton] at same
  omega

theorem report_ne (known : Analysis) (cause : Diagnostic.Cause) (span : Span) :
    (report cause span known).2.diagnostics ≠ known.diagnostics :=
  report_after_ne (Notes.refl known : Notes [] known known) cause span

theorem literal_of_silent {literal : Literal}
    (silent : (checkLiteral literal span known).2.diagnostics = known.diagnostics) :
    (∃ value, literal = .int value) ∨ ∃ value, literal = .bool value := by
  cases literal with
  | int value => exact .inl ⟨value, rfl⟩
  | bool value => exact .inr ⟨value, rfl⟩
  | char | float | string => exact absurd silent (report_ne known _ span)

theorem resolve?_singleton {signature : Signature} {operands : List Ty} {ty : Ty} :
    Signature.resolve? [signature] operands = some ty ↔
      operands = signature.parameters ∧ ty = signature.result := by
  by_cases accepted : operands = signature.parameters
  · simp [Signature.resolve?, Signature.accepts, accepted, eq_comm]
  · simp [Signature.resolve?, Signature.accepts, accepted, Ne.symm accepted]

theorem binary_resolve?_eq_some {operator : BinaryOperator} {left right ty : Ty} :
    operator.resolve? left right = some ty ↔
      left = .int ∧ right = .int ∧ ty = if operator = .greater then .bool else .int := by
  cases operator <;>
    simp [BinaryOperator.resolve?, BinaryOperator.signatures, resolve?_singleton, and_assoc]

theorem unary_resolve?_eq_some {operator : UnaryOperator} {operand ty : Ty} :
    operator.resolve? operand = some ty ↔ operand = .int ∧ ty = .int := by
  cases operator
  simp [UnaryOperator.resolve?, UnaryOperator.signatures, resolve?_singleton]

theorem isError_eq_false {ty : Ty} (proper : ty ≠ .error) : ty.isError = false := by
  cases ty <;> first | rfl | exact absurd rfl proper

theorem binaryType_of_silent {operator : BinaryOperator} {left right : Ty} (properLeft : left ≠ .error)
    (properRight : right ≠ .error)
    (silent : (binaryType operator left right span known).2.diagnostics = known.diagnostics) :
    operator.resolve? left right = some (binaryType operator left right span known).1 := by
  rw [binaryType, isError_eq_false properLeft, isError_eq_false properRight, Bool.or_self,
    if_neg Bool.false_ne_true] at silent ⊢
  cases found : operator.resolve? left right with
  | some result => rfl
  | none =>
    rw [found] at silent
    exact absurd silent (report_ne known _ span)

theorem unaryType_of_silent {operator : UnaryOperator} {operand : Ty} (proper : operand ≠ .error)
    (silent : (unaryType operator operand span known).2.diagnostics = known.diagnostics) :
    operator.resolve? operand = some (unaryType operator operand span known).1 := by
  rw [unaryType, isError_eq_false proper, if_neg Bool.false_ne_true] at silent ⊢
  cases found : operator.resolve? operand with
  | some result => rfl
  | none =>
    rw [found] at silent
    exact absurd silent (report_ne known _ span)

theorem any_isError_eq_false {types : List Ty} (proper : ∀ ty ∈ types, ty ≠ .error) :
    types.any Ty.isError = false := by
  rw [List.any_eq_false]
  intro ty member
  rw [isError_eq_false (proper ty member)]
  exact Bool.false_ne_true

theorem accepts_iff {signature : Signature} {arguments : List Ty} :
    signature.accepts arguments = true ↔ signature.parameters = arguments := beq_iff_eq

theorem callType_of_silent {callee : Name} {function : Ty} {arguments : List Ty}
    (proper : function ≠ .error) (properAll : ∀ ty ∈ arguments, ty ≠ .error)
    (silent : (callType callee function arguments span known).2.diagnostics = known.diagnostics) :
    function = .function arguments (callType callee function arguments span known).1 := by
  rw [callType, isError_eq_false proper, any_isError_eq_false properAll, Bool.or_self,
    if_neg Bool.false_ne_true] at silent ⊢
  cases function with
  | function parameters result =>
    simp only [Ty.signature?] at silent ⊢
    by_cases same : parameters = arguments
    · rw [if_pos (accepts_iff.mpr same), same, pure_apply]
    · rw [if_neg (mt accepts_iff.mp same)] at silent
      exact absurd silent (report_ne known _ span)
  | _ => exact absurd silent (report_ne known _ _)

/-- What is noted about a used name that was found. -/
theorem resolve_of_silent {scope : Nat} {name : Name} {after : Analysis} {binding : Binding}
    (step : resolve scope name known = (binding, after)) (silent : after.diagnostics = known.diagnostics) :
    (known.scopes.chain scope).find? name.text = some binding ∧
      after.types[name.node.id]? = some binding.ty ∧ after.bindings[name.node.id]? = some binding := by
  simp only [resolve, bind_apply, get_apply, ScopeTree.lookup_eq] at step
  cases found : (known.scopes.chain scope).find? name.text with
  | some visible =>
    rw [found] at step
    cases step
    exact ⟨rfl, Std.TreeMap.getElem?_insert_self, Std.TreeMap.getElem?_insert_self⟩
  | none =>
    rw [found] at step
    cases step
    exact absurd silent (report_ne known _ _)

end Silent

section Sound

variable {tree : ScopeTree} {scope : Nat} {final : Analysis}

theorem checkExpr_step {expr : Expr} {known after : Analysis} {ty : Ty}
    (step : checkExpr scope expr known = (ty, after)) : Annotates expr.ids known after := by
  have annotates := checkExpr_annotates scope expr known
  rwa [step] at annotates

theorem checkArguments_step {arguments : List Expr} {known after : Analysis} {types : List Ty}
    (step : checkArguments scope arguments known = (types, after)) :
    Annotates (Expr.idsAll arguments) known after := by
  have annotates := checkArguments_annotates scope arguments known
  rwa [step] at annotates

theorem noted (known : Analysis) (id : Nat) (ty : Ty) : (setType id ty known).2.types[id]? = some ty :=
  Std.TreeMap.getElem?_insert_self

mutual

/-- An expression that is checked without a diagnostic has the type that was found. -/
theorem resolved_of_silent (declarable : (tree.chain scope).Declarable) :
    ∀ {expr : Expr} {known after : Analysis} {ty : Ty}, checkExpr scope expr known = (ty, after) →
      known.scopes = tree → expr.Legible → Silent final expr.ids known after →
      Resolved final (tree.chain scope) expr ty
  | .literal value node, known, after, ty, step, _, _, silent => by
    rw [checkExpr] at step
    cases step
    have kept := silent.agrees.typeOf (List.mem_singleton.mpr rfl) (noted _ _ _)
    rcases literal_of_silent silent.reports with ⟨value, rfl⟩ | ⟨value, rfl⟩
    · exact .int kept
    · exact .bool kept
  | .named name, known, after, ty, step, same, _, silent => by
    rw [checkExpr, bind_apply, pure_apply] at step
    rcases lookup : resolve scope name known with ⟨binding, noted⟩
    rw [lookup] at step
    cases step
    obtain ⟨found, type, place⟩ := resolve_of_silent lookup silent.reports
    exact .named (same ▸ found) (silent.agrees.bindingOf (List.mem_singleton.mpr rfl) place)
      (silent.agrees.typeOf (List.mem_singleton.mpr rfl) type)
  | .binary operator left right node, known, after, ty, step, same, legible, silent => by
    rw [checkExpr] at step
    rcases stepLeft : checkExpr scope left known with ⟨leftTy, afterLeft⟩
    rcases stepRight : checkExpr scope right afterLeft with ⟨rightTy, afterRight⟩
    simp only [bind_apply, pure_apply, stepLeft, stepRight] at step
    cases step
    have one := checkExpr_step stepLeft
    have two := checkExpr_step stepRight
    have three : Annotates [node.id] afterRight _ :=
      (binaryType_annotates afterRight operator leftTy rightTy node.span).trans
        (setType_annotates _ (binaryType operator leftTy rightTy node.span afterRight).1
          (List.mem_singleton.mpr rfl))
    rw [Expr.Legible] at legible
    rw [Expr.ids] at silent
    obtain ⟨silentLeft, silentRest⟩ := silent.split one.toNotes (two.toNotes.append three.toNotes)
    obtain ⟨silentRight, silentOwn⟩ := silentRest.split two.toNotes three.toNotes
    have typedLeft := resolved_of_silent declarable stepLeft same legible.1 silentLeft
    have typedRight := resolved_of_silent declarable stepRight (one.scopes.trans same) legible.2 silentRight
    -- Neither operand has an error type, so only the operator itself could have been reported.
    have ownType := binaryType_of_silent (typedLeft.ne_error declarable) (typedRight.ne_error declarable)
      silentOwn.reports
    obtain ⟨rfl, rfl, result⟩ := binary_resolve?_eq_some.mp ownType
    have known := silentOwn.agrees.typeOf (List.mem_singleton.mpr rfl) (noted _ _ _)
    rw [result] at known ⊢
    split at known
    next comparison =>
      subst comparison
      exact .greater typedLeft typedRight known
    next arithmetic =>
      rw [if_neg arithmetic]
      exact .arithmetic arithmetic typedLeft typedRight known
  | .unary .negate operand node, known, after, ty, step, same, legible, silent => by
    rw [checkExpr] at step
    rcases stepOperand : checkExpr scope operand known with ⟨operandTy, afterOperand⟩
    simp only [bind_apply, pure_apply, stepOperand] at step
    cases step
    have one := checkExpr_step stepOperand
    have two : Annotates [node.id] afterOperand _ :=
      (unaryType_annotates afterOperand .negate operandTy node.span).trans
        (setType_annotates _ (unaryType .negate operandTy node.span afterOperand).1
          (List.mem_singleton.mpr rfl))
    rw [Expr.Legible] at legible
    rw [Expr.ids] at silent
    obtain ⟨silentOperand, silentOwn⟩ := silent.split one.toNotes two.toNotes
    have typed := resolved_of_silent declarable stepOperand same legible silentOperand
    obtain ⟨rfl, result⟩ := unary_resolve?_eq_some.mp
      (unaryType_of_silent (typed.ne_error declarable) silentOwn.reports)
    have known := silentOwn.agrees.typeOf (List.mem_singleton.mpr rfl) (noted _ _ _)
    rw [result] at known ⊢
    exact .negate typed known
  | .call callee arguments list node, known, after, ty, step, same, legible, silent => by
    rw [checkExpr] at step
    rcases lookup : resolve scope callee known with ⟨binding, afterCallee⟩
    rcases stepAll : checkArguments scope arguments afterCallee with ⟨types, afterAll⟩
    simp only [bind_apply, pure_apply, lookup, stepAll] at step
    cases step
    have one : Annotates [callee.node.id] known afterCallee := by
      have annotates := resolve_annotates known scope callee
      rwa [lookup] at annotates
    have two := checkArguments_step stepAll
    have three : Annotates [node.id] afterAll _ :=
      (callType_annotates afterAll callee binding.ty types list.span).trans
        (setType_annotates _ (callType callee binding.ty types list.span afterAll).1
          (List.mem_singleton.mpr rfl))
    rw [Expr.Legible] at legible
    rw [Expr.ids, ← List.singleton_append] at silent
    -- Nothing is noted about the node of the argument list, which has a number all the same.
    have rest : Notes (list.id :: (Expr.idsAll arguments ++ [node.id])) afterCallee _ :=
      (two.toNotes.append three.toNotes).mono (List.subset_cons_self list.id _)
    obtain ⟨silentCallee, silentRest⟩ := silent.split one.toNotes rest
    obtain ⟨silentAll, silentOwn⟩ := silentRest.tail.split two.toNotes three.toNotes
    obtain ⟨found, _, place⟩ := resolve_of_silent lookup silentCallee.reports
    rw [same] at found
    have typed := resolvedAll_of_silent declarable stepAll (one.scopes.trans same) legible silentAll
    have callable := callType_of_silent (declarable.find found).ne_error (typed.ne_error declarable)
      silentOwn.reports
    exact .call found callable (silentCallee.agrees.bindingOf (List.mem_singleton.mpr rfl) place) typed
      (silentOwn.agrees.typeOf (List.mem_singleton.mpr rfl) (noted _ _ _))
  | .invalid _, _, _, _, _, _, legible, _ => absurd legible (by simp [Expr.Legible])

theorem resolvedAll_of_silent (declarable : (tree.chain scope).Declarable) :
    ∀ {arguments : List Expr} {known after : Analysis} {types : List Ty},
      checkArguments scope arguments known = (types, after) → known.scopes = tree →
      Expr.LegibleAll arguments → Silent final (Expr.idsAll arguments) known after →
      ResolvedAll final (tree.chain scope) arguments types
  | [], _, _, _, step, _, _, _ => by
    rw [checkArguments] at step
    cases step
    exact .nil
  | first :: rest, known, after, types, step, same, legible, silent => by
    rw [checkArguments] at step
    rcases stepFirst : checkExpr scope first known with ⟨firstTy, afterFirst⟩
    rcases stepRest : checkArguments scope rest afterFirst with ⟨restTypes, afterRest⟩
    simp only [bind_apply, pure_apply, stepFirst, stepRest] at step
    cases step
    have one := checkExpr_step stepFirst
    rw [Expr.LegibleAll] at legible
    rw [Expr.idsAll] at silent
    obtain ⟨silentFirst, silentRest⟩ := silent.split one.toNotes (checkArguments_step stepRest).toNotes
    exact .cons (resolved_of_silent declarable stepFirst same legible.1 silentFirst)
      (resolvedAll_of_silent declarable stepRest (one.scopes.trans same) legible.2 silentRest)

end

end Sound

section Complete

variable {tree : ScopeTree} {scope : Nat}

theorem resolve_of_find? {known : Analysis} {name : Name} {binding : Binding}
    (found : (known.scopes.chain scope).find? name.text = some binding) :
    ∃ after, resolve scope name known = (binding, after) ∧ after.diagnostics = known.diagnostics ∧
      after.scopes = known.scopes := by
  simp only [resolve, bind_apply, get_apply, ScopeTree.lookup_eq, found]
  exact ⟨_, rfl, rfl, rfl⟩

theorem find?_of_entry {names : Nest Binding} {name : String} {entry : Entry}
    (found : (names.map Binding.entry).find? name = some entry) :
    ∃ binding, names.find? name = some binding ∧ binding.entry = entry := by
  rw [Nest.find?_map] at found
  exact Option.map_eq_some_iff.mp found

theorem binaryType_of_resolve? {known : Analysis} {operator : BinaryOperator} {ty : Ty} {span : Span}
    (found : operator.resolve? .int .int = some ty) :
    binaryType operator .int .int span known = (ty, known) := by
  simp only [binaryType, Ty.isError, Bool.or_self, Bool.false_eq_true, if_false, found]
  rfl

theorem callType_of_signature {known : Analysis} {callee : Name} {types : List Ty} {result : Ty} {span : Span}
    (values : ∀ ty ∈ types, ty.isValue = true) :
    callType callee (.function types result) types span known = (result, known) := by
  have proper : ∀ ty ∈ types, ty ≠ .error := by
    rintro _ member rfl
    exact Bool.false_ne_true (values _ member)
  rw [callType, any_isError_eq_false proper]
  simp only [Ty.isError, Bool.or_self, Bool.false_eq_true, Ty.signature?]
  rw [if_pos (accepts_iff.mpr rfl)]
  rfl

mutual

/-- An expression that the rules give a type is checked without a diagnostic. -/
theorem checkExpr_of_hasType (declarable : (tree.chain scope).Declarable) :
    ∀ {expr : Expr} {ty : Ty} {known : Analysis}, HasType ((tree.chain scope).map Binding.entry) expr ty →
      known.scopes = tree →
      ∃ after, checkExpr scope expr known = (ty, after) ∧ after.diagnostics = known.diagnostics
  | .literal (.int value) node, _, known, .int, _ => by
    rw [checkExpr]
    exact ⟨_, rfl, rfl⟩
  | .literal (.bool value) node, _, known, .bool, _ => by
    rw [checkExpr]
    exact ⟨_, rfl, rfl⟩
  | .named name, _, known, .named found, same => by
    obtain ⟨binding, visible, rfl⟩ := find?_of_entry found
    obtain ⟨after, step, silent, _⟩ := resolve_of_find? (same ▸ visible)
    rw [checkExpr, bind_apply, step]
    exact ⟨_, rfl, silent⟩
  | .binary operator left right node, _, known, .arithmetic kind typedLeft typedRight, same => by
    obtain ⟨afterLeft, stepLeft, silentLeft⟩ := checkExpr_of_hasType declarable typedLeft same
    obtain ⟨afterRight, stepRight, silentRight⟩ :=
      checkExpr_of_hasType declarable typedRight ((checkExpr_step stepLeft).scopes.trans same)
    have own : operator.resolve? .int .int = some .int :=
      binary_resolve?_eq_some.mpr ⟨rfl, rfl, (if_neg kind).symm⟩
    rw [checkExpr]
    simp only [bind_apply, stepLeft, stepRight, binaryType_of_resolve? own]
    exact ⟨_, rfl, silentRight.trans silentLeft⟩
  | .binary .greater left right node, _, known, .greater typedLeft typedRight, same => by
    obtain ⟨afterLeft, stepLeft, silentLeft⟩ := checkExpr_of_hasType declarable typedLeft same
    obtain ⟨afterRight, stepRight, silentRight⟩ :=
      checkExpr_of_hasType declarable typedRight ((checkExpr_step stepLeft).scopes.trans same)
    have own : BinaryOperator.greater.resolve? .int .int = some .bool :=
      binary_resolve?_eq_some.mpr ⟨rfl, rfl, rfl⟩
    rw [checkExpr]
    simp only [bind_apply, stepLeft, stepRight, binaryType_of_resolve? own]
    exact ⟨_, rfl, silentRight.trans silentLeft⟩
  | .unary .negate operand node, _, known, .negate typed, same => by
    obtain ⟨after, step, silent⟩ := checkExpr_of_hasType declarable typed same
    rw [checkExpr]
    simp only [bind_apply, step]
    exact ⟨_, rfl, silent⟩
  | .call callee arguments list node, _, known, .call found callable typed, same => by
    obtain ⟨binding, visible, rfl⟩ := find?_of_entry found
    have values := declarable.find visible
    change binding.ty = _ at callable
    rw [callable] at values
    obtain ⟨afterCallee, lookup, silentCallee, kept⟩ := resolve_of_find? (same ▸ visible)
    obtain ⟨after, step, silent⟩ := checkArguments_of_haveTypes declarable typed (kept.trans same)
    rw [checkExpr]
    simp only [bind_apply, lookup, step, callable, callType_of_signature values.1]
    exact ⟨_, rfl, silent.trans silentCallee⟩

theorem checkArguments_of_haveTypes (declarable : (tree.chain scope).Declarable) :
    ∀ {arguments : List Expr} {types : List Ty} {known : Analysis},
      HaveTypes ((tree.chain scope).map Binding.entry) arguments types → known.scopes = tree →
      ∃ after, checkArguments scope arguments known = (types, after) ∧
        after.diagnostics = known.diagnostics
  | [], _, known, .nil, _ => by
    rw [checkArguments]
    exact ⟨_, rfl, rfl⟩
  | first :: rest, _, known, .cons typed typedRest, same => by
    obtain ⟨afterFirst, stepFirst, silentFirst⟩ := checkExpr_of_hasType declarable typed same
    obtain ⟨afterRest, stepRest, silentRest⟩ :=
      checkArguments_of_haveTypes declarable typedRest ((checkExpr_step stepFirst).scopes.trans same)
    rw [checkArguments]
    simp only [bind_apply, stepFirst, stepRest]
    exact ⟨_, rfl, silentRest.trans silentFirst⟩

end

end Complete

end Checker

end Stackwright
