import Stackwright.Proofs.Checking.Expression
import Stackwright.Proofs.Scope.Types

/-! How the faults of an expression are reported. A part of type `error` was reported where it went wrong,
or stands for text that could not be read, or uses a name whose declaration went wrong; whatever is around
it is of type `error` then and not reported again. So no fault is lost, and none is reported twice. -/

set_option autoImplicit false

namespace Stackwright

mutual

/-- The names that an expression uses. -/
def Expr.names : Expr → List Name
  | .literal _ _ | .invalid _ => []
  | .named name => [name]
  | .binary _ left right _ => left.names ++ right.names
  | .unary _ operand _ => operand.names
  | .call callee arguments _ _ => callee :: Expr.namesAll arguments

def Expr.namesAll : List Expr → List Name
  | [] => []
  | first :: rest => first.names ++ Expr.namesAll rest

end

/-- A diagnostic and the part of an expression that it comes from: the numbers of the children on the way
down to that part. The first child of a call is its callee. -/
structure Report where
  part : List Nat
  diagnostic : Diagnostic

namespace Report

/-- The report of a child, as one of the whole. -/
def below (child : Nat) (report : Report) : Report := ⟨child :: report.part, report.diagnostic⟩

/-- Neither of the parts contains the other. -/
def Apart (one other : Report) : Prop := ¬ one.part <+: other.part ∧ ¬ other.part <+: one.part

theorem Apart.below {one other : Report} (apart : one.Apart other) (child : Nat) :
    (one.below child).Apart (other.below child) :=
  ⟨fun inside => apart.1 (List.cons_prefix_cons.mp inside).2,
    fun inside => apart.2 (List.cons_prefix_cons.mp inside).2⟩

theorem apart_of_ne {one other : Report} {child child' : Nat} {part part' : List Nat} (first : one.part = child :: part)
    (second : other.part = child' :: part') (differ : child ≠ child') : one.Apart other := by
  constructor
  · intro inside
    rw [first, second] at inside
    exact differ (List.cons_prefix_cons.mp inside).1
  · intro inside
    rw [first, second] at inside
    exact differ (List.cons_prefix_cons.mp inside).1.symm

end Report

/-- The type is not that of a function with a result of type `error`. -/
def Ty.Sound (ty : Ty) : Prop := ∀ parameters, ty ≠ .function parameters .error

namespace Checker

open Analysis

/-- What is known when the operands of an expression have been checked; the callee of a call is one. -/
def afterOperands (scope : Nat) : Expr → Analysis → Analysis
  | .binary _ left right _, known => (checkExpr scope right (checkExpr scope left known).2).2
  | .unary _ operand _, known => (checkExpr scope operand known).2
  | .call callee arguments _ _, known => (checkArguments scope arguments (resolve scope callee known).2).2
  | .literal _ _, known | .named _, known | .invalid _, known => known

/-- The diagnostics that came in between, as reports of the whole. -/
def ownReports (before after : Analysis) : List Report :=
  (after.diagnostics.drop before.diagnostics.length).map (Report.mk [])

mutual

/-- What the check of an expression reports. -/
def exprReports (scope : Nat) : Expr → Analysis → List Report
  | .literal value node, known => ownReports known (checkExpr scope (.literal value node) known).2
  | .named name, known => ownReports known (checkExpr scope (.named name) known).2
  | .binary operator left right node, known =>
    (exprReports scope left known).map (.below 0) ++
      (exprReports scope right (checkExpr scope left known).2).map (.below 1) ++
      ownReports (afterOperands scope (.binary operator left right node) known)
        (checkExpr scope (.binary operator left right node) known).2
  | .unary operator operand node, known =>
    (exprReports scope operand known).map (.below 0) ++
      ownReports (afterOperands scope (.unary operator operand node) known)
        (checkExpr scope (.unary operator operand node) known).2
  | .call callee arguments list node, known =>
    (ownReports known (resolve scope callee known).2).map (.below 0) ++
      argumentsReports scope 1 arguments (resolve scope callee known).2 ++
      ownReports (afterOperands scope (.call callee arguments list node) known)
        (checkExpr scope (.call callee arguments list node) known).2
  | .invalid node, known => ownReports known (checkExpr scope (.invalid node) known).2

/-- The arguments of a call are its children from the given number on. -/
def argumentsReports (scope : Nat) : (child : Nat) → List Expr → Analysis → List Report
  | _, [], _ => []
  | child, argument :: rest, known =>
    (exprReports scope argument known).map (.below child) ++
      argumentsReports scope (child + 1) rest (checkExpr scope argument known).2

end

section Own

variable {before after : Analysis}

theorem ownReports_of_silent (silent : after.diagnostics = before.diagnostics) : ownReports before after = [] := by
  rw [ownReports, silent, List.drop_length, List.map_nil]

theorem ownReports_of_reported {diagnostic : Diagnostic}
    (reported : after.diagnostics = before.diagnostics ++ [diagnostic]) :
    ownReports before after = [⟨[], diagnostic⟩] := by
  rw [ownReports, reported, List.drop_left]
  rfl

end Own

/-- What an operator or a call makes of its parts: it is of type `error` if one of them is, and reports
something of its own only if none is. -/
inductive Verdict (parts : List Ty) (before : Analysis) (ty : Ty) (after : Analysis) : Prop where
  | passed (silent : after.diagnostics = before.diagnostics) (same : ty = .error ↔ .error ∈ parts)
  | refused (diagnostic : Diagnostic) (reported : after.diagnostics = before.diagnostics ++ [diagnostic])
      (error : ty = .error) (proper : .error ∉ parts)

section Verdict

/-- The type is noted down then. -/
theorem Verdict.noted {parts : List Ty} {before after : Analysis} {ty : Ty} (verdict : Verdict parts before ty after)
    (id : Nat) : Verdict parts before ty (setType id ty after).2 := by
  cases verdict with
  | passed silent same => exact .passed silent same
  | refused diagnostic reported error proper => exact .refused diagnostic reported error proper

theorem any_isError_iff {types : List Ty} : types.any Ty.isError = true ↔ .error ∈ types := by
  rw [List.any_eq_true]
  constructor
  · rintro ⟨ty, member, isError⟩
    cases ty <;> first | exact member | cases isError
  · exact fun member => ⟨_, member, rfl⟩

variable (known : Analysis) (span : Span)

theorem binaryType_verdict (operator : BinaryOperator) (left right : Ty) :
    Verdict [left, right] known (binaryType operator left right span known).1
      (binaryType operator left right span known).2 := by
  have both : (left.isError || right.isError) = [left, right].any Ty.isError := by simp
  rw [binaryType, both]
  by_cases poisoned : .error ∈ [left, right]
  · rw [if_pos (any_isError_iff.mpr poisoned)]
    exact .passed rfl ⟨fun _ => poisoned, fun _ => rfl⟩
  · rw [if_neg (mt any_isError_iff.mp poisoned)]
    cases found : operator.resolve? left right with
    | none => exact .refused _ rfl rfl poisoned
    | some result =>
      obtain ⟨_, _, rfl⟩ := binary_resolve?_eq_some.mp found
      have proper : (if operator = .greater then Ty.bool else Ty.int) ≠ .error := by split <;> simp
      exact .passed rfl ⟨fun error => absurd error proper, fun member => absurd member poisoned⟩

theorem unaryType_verdict (operator : UnaryOperator) (operand : Ty) :
    Verdict [operand] known (unaryType operator operand span known).1 (unaryType operator operand span known).2 := by
  have one : operand.isError = [operand].any Ty.isError := by simp
  rw [unaryType, one]
  by_cases poisoned : .error ∈ [operand]
  · rw [if_pos (any_isError_iff.mpr poisoned)]
    exact .passed rfl ⟨fun _ => poisoned, fun _ => rfl⟩
  · rw [if_neg (mt any_isError_iff.mp poisoned)]
    cases found : operator.resolve? operand with
    | none => exact .refused _ rfl rfl poisoned
    | some result =>
      obtain ⟨_, rfl⟩ := unary_resolve?_eq_some.mp found
      exact .passed rfl ⟨fun error => (Ty.noConfusion error : False).elim, fun member => absurd member poisoned⟩

theorem callType_verdict (callee : Name) {function : Ty} (sound : function.Sound) (arguments : List Ty) :
    Verdict (function :: arguments) known (callType callee function arguments span known).1
      (callType callee function arguments span known).2 := by
  have all : (function.isError || arguments.any Ty.isError) = (function :: arguments).any Ty.isError := by simp
  rw [callType, all]
  by_cases poisoned : .error ∈ function :: arguments
  · rw [if_pos (any_isError_iff.mpr poisoned)]
    exact .passed rfl ⟨fun _ => poisoned, fun _ => rfl⟩
  · rw [if_neg (mt any_isError_iff.mp poisoned)]
    cases function with
    | function parameters result =>
      simp only [Ty.signature?]
      split
      · refine .passed rfl ⟨fun error => ?_, fun member => absurd member poisoned⟩
        -- The result was written down with the function, so it cannot be of type `error`.
        exact absurd (congrArg (Ty.function parameters) error) (sound parameters)
      · exact .refused _ rfl rfl poisoned
    | _ => exact .refused _ rfl rfl poisoned

end Verdict

/-- A part of an expression is of type `error` for a reason that lies elsewhere: it could not be read, or
a name that it uses is of type `error`. -/
def Tainted (tree : ScopeTree) (scope : Nat) (legible : Prop) (names : List Name) : Prop :=
  ¬ legible ∨ ∃ name ∈ names, ∃ binding, tree.lookup scope name.text = some binding ∧ binding.ty = .error

theorem Tainted.mono {tree : ScopeTree} {scope : Nat} {legible whole : Prop} {names more : List Name}
    (tainted : Tainted tree scope legible names) (inside : whole → legible) (wider : names ⊆ more) :
    Tainted tree scope whole more := by
  rcases tainted with illegible | ⟨name, member, found⟩
  · exact .inl (mt inside illegible)
  · exact .inr ⟨name, wider member, found⟩

/-- The reports explain the types that were found: there is a report for every type `error` that has no
reason elsewhere, every report leads to one, and no report is about a part of what another is about. -/
structure Explains (tainted : Prop) (reports : List Report) (types : List Ty) (before after : Analysis) : Prop where
  diagnostics : after.diagnostics = before.diagnostics ++ reports.map Report.diagnostic
  poisons : reports ≠ [] → .error ∈ types
  reason : .error ∈ types → reports ≠ [] ∨ tainted
  apart : reports.Pairwise Report.Apart

namespace Explains

variable {tainted whole : Prop} {reports more : List Report} {types others : List Ty} {before between after : Analysis}

theorem nil (tainted : Prop) (known : Analysis) : Explains tainted [] [] known known :=
  ⟨(List.append_nil _).symm, fun some => absurd rfl some, nofun, .nil⟩

theorem mono (explains : Explains tainted reports types before after) (wider : tainted → whole) :
    Explains whole reports types before after :=
  ⟨explains.diagnostics, explains.poisons, fun error => (explains.reason error).imp_right wider, explains.apart⟩

theorem below (explains : Explains tainted reports types before after) (child : Nat) :
    Explains tainted (reports.map (.below child)) types before after := by
  refine ⟨?_, ?_, ?_, List.pairwise_map.mpr (explains.apart.imp fun apart => apart.below child)⟩
  · rw [List.map_map]
    exact explains.diagnostics
  · exact fun some => explains.poisons (mt List.map_eq_nil_iff.mpr some)
  · exact fun error => (explains.reason error).imp_left (mt List.map_eq_nil_iff.mp)

theorem append (one : Explains tainted reports types before between) (two : Explains tainted more others between after)
    (apart : ∀ report ∈ reports, ∀ other ∈ more, report.Apart other) :
    Explains tainted (reports ++ more) (types ++ others) before after := by
  refine ⟨?_, ?_, ?_, List.pairwise_append.mpr ⟨one.apart, two.apart, apart⟩⟩
  · rw [two.diagnostics, one.diagnostics, List.map_append, List.append_assoc]
  · intro some
    by_cases first : reports = []
    · exact List.mem_append_right _ (two.poisons fun second => some (by rw [first, second, List.append_nil]))
    · exact List.mem_append_left _ (one.poisons first)
  · intro error
    rcases List.mem_append.mp error with first | second
    · exact (one.reason first).imp_left (mt fun none => (List.append_eq_nil_iff.mp none).1)
    · exact (two.reason second).imp_left (mt fun none => (List.append_eq_nil_iff.mp none).2)

/-- From the parts of an expression to the whole. -/
theorem node {ty : Ty} (parts : Explains tainted reports types before between)
    (verdict : Verdict types between ty after) :
    Explains tainted (reports ++ ownReports between after) [ty] before after := by
  cases verdict with
  | passed silent same =>
    rw [ownReports_of_silent silent, List.append_nil]
    refine ⟨silent.trans parts.diagnostics, fun some => ?_, fun error => ?_, parts.apart⟩
    · exact List.mem_singleton.mpr (same.mpr (parts.poisons some)).symm
    · exact parts.reason (same.mp (List.mem_singleton.mp error).symm)
  | refused diagnostic reported error proper =>
    -- No part is of type `error`, so no part was reported, and the own report is the only one.
    have none : reports = [] := Classical.byContradiction fun some => proper (parts.poisons some)
    subst none
    have unchanged := parts.diagnostics
    rw [List.map_nil, List.append_nil] at unchanged
    rw [ownReports_of_reported reported]
    refine ⟨?_, fun _ => List.mem_singleton.mpr error.symm, fun _ => .inl (List.cons_ne_nil _ _),
      List.pairwise_singleton _ _⟩
    rw [reported, unchanged]
    rfl

end Explains

section Expr

variable {tree : ScopeTree} {scope : Nat}

/-- A name that is used is reported if it was not declared. -/
theorem resolve_explains (name : Name) (known : Analysis) :
    Explains (Tainted known.scopes scope True [name]) (ownReports known (resolve scope name known).2)
      [(resolve scope name known).1.ty] known (resolve scope name known).2 := by
  simp only [resolve, bind_apply, get_apply]
  cases found : known.scopes.lookup scope name.text with
  | some binding =>
    have silent : (record name binding known).2.diagnostics = known.diagnostics := rfl
    rw [ownReports_of_silent silent]
    refine ⟨silent.trans (List.append_nil _).symm, fun some => absurd rfl some, fun error => ?_, .nil⟩
    exact .inr (.inr ⟨name, List.mem_singleton.mpr rfl, binding, found, (List.mem_singleton.mp error).symm⟩)
  | none =>
    have reported : (record name .null (report (.useBeforeDefine name.text) name.node.span known).2).2.diagnostics =
      known.diagnostics ++ [⟨.useBeforeDefine name.text, name.node.span⟩] := rfl
    change Explains _ (ownReports known (record name .null (report _ _ known).2).2) [Ty.error] _ _
    rw [ownReports_of_reported reported]
    exact ⟨rfl, fun _ => List.mem_singleton.mpr rfl, fun _ => .inl (List.cons_ne_nil _ _), List.pairwise_singleton _ _⟩

theorem sound_of_resolve (sound : tree.Typed Ty.Sound) (name : Name) {known : Analysis} (same : known.scopes = tree) :
    (resolve scope name known).1.ty.Sound := by
  simp only [resolve, bind_apply, get_apply, same]
  cases found : tree.lookup scope name.text with
  | some binding => exact sound.lookup found
  | none => exact fun _ => Ty.noConfusion

theorem part_of_mem_argumentsReports {report : Report} {arguments : List Expr} {child : Nat} {known : Analysis}
    (member : report ∈ argumentsReports scope child arguments known) :
    ∃ index part, child ≤ index ∧ report.part = index :: part := by
  induction arguments generalizing child known with
  | nil =>
    rw [argumentsReports] at member
    cases member
  | cons first rest ih =>
    rw [argumentsReports] at member
    rcases List.mem_append.mp member with here | later
    · obtain ⟨inner, _, rfl⟩ := List.mem_map.mp here
      exact ⟨child, inner.part, Nat.le_refl _, rfl⟩
    · obtain ⟨index, part, least, same⟩ := ih later
      exact ⟨index, part, Nat.le_of_succ_le least, same⟩

/-- Reports of two children. -/
theorem apart_of_children {first : List Report} {child : Nat} {others : List Report}
    (later : ∀ other ∈ others, ∃ index part, child < index ∧ other.part = index :: part) :
    ∀ report ∈ first.map (Report.below child), ∀ other ∈ others, report.Apart other := by
  intro report member other among
  obtain ⟨inner, _, rfl⟩ := List.mem_map.mp member
  obtain ⟨index, part, differ, same⟩ := later other among
  exact Report.apart_of_ne rfl same (Nat.ne_of_lt differ)

mutual

/-- The reports of an expression explain its type. -/
theorem checkExpr_explains (sound : tree.Typed Ty.Sound) : ∀ (expr : Expr) (known : Analysis), known.scopes = tree →
    Explains (Tainted tree scope expr.Legible expr.names) (exprReports scope expr known)
      [(checkExpr scope expr known).1] known (checkExpr scope expr known).2
  | .literal value node, known, _ => by
    rw [exprReports]
    have verdict : Verdict [] known (checkExpr scope (.literal value node) known).1
        (checkExpr scope (.literal value node) known).2 := by
      rw [checkExpr]
      cases value with
      | int | bool => exact .passed rfl ⟨fun error => (Ty.noConfusion error : False).elim, nofun⟩
      | char | float | string => exact .refused _ rfl rfl nofun
    exact (Explains.nil _ known).node verdict
  | .named name, known, same => by
    rw [exprReports, checkExpr, Expr.names, Expr.Legible]
    exact same ▸ resolve_explains name known
  | .binary operator left right node, known, same => by
    have first := (checkExpr_explains sound left known same).below 0
    have second := (checkExpr_explains sound right (checkExpr scope left known).2
      ((checkExpr_annotates scope left known).scopes.trans same)).below 1
    rw [exprReports, Expr.names, Expr.Legible]
    let whole := Tainted tree scope (left.Legible ∧ right.Legible) (left.names ++ right.names)
    -- A report of an operand is explained by the operand, so by the whole expression.
    have first : Explains whole _ _ _ _ :=
      first.mono fun tainted => tainted.mono And.left (List.subset_append_left _ _)
    have second : Explains whole _ _ _ _ :=
      second.mono fun tainted => tainted.mono And.right (List.subset_append_right _ _)
    have operands := first.append second (apart_of_children fun other member => by
      obtain ⟨inner, _, rfl⟩ := List.mem_map.mp member
      exact ⟨1, inner.part, Nat.one_pos, rfl⟩)
    refine operands.node ?_
    rw [checkExpr]
    exact (binaryType_verdict _ node.span operator _ _).noted node.id
  | .unary operator operand node, known, same => by
    have inner := (checkExpr_explains sound operand known same).below 0
    rw [exprReports, Expr.names, Expr.Legible]
    refine inner.node ?_
    rw [checkExpr]
    exact (unaryType_verdict _ node.span operator _).noted node.id
  | .call callee arguments list node, known, same => by
    have first := (same ▸ resolve_explains callee known : Explains (Tainted tree scope True [callee]) _ _ _ _).below 0
    have second := checkArguments_explains sound arguments 1 (resolve scope callee known).2
      ((resolve_annotates known scope callee).scopes.trans same)
    rw [exprReports, Expr.names, Expr.Legible]
    let whole := Tainted tree scope (Expr.LegibleAll arguments) (callee :: Expr.namesAll arguments)
    have first : Explains whole _ _ _ _ :=
      first.mono fun tainted => tainted.mono (fun _ => trivial) (List.cons_subset_cons _ (List.nil_subset _))
    have second : Explains whole _ _ _ _ :=
      second.mono fun tainted => tainted.mono id (List.subset_cons_self _ _)
    have operands := first.append second (apart_of_children fun other member => part_of_mem_argumentsReports member)
    refine operands.node ?_
    rw [checkExpr]
    exact (callType_verdict _ list.span callee (sound_of_resolve sound callee same) _).noted node.id
  | .invalid node, known, _ => by
    have silent : (checkExpr scope (.invalid node) known).2.diagnostics = known.diagnostics := by
      rw [checkExpr]
      rfl
    rw [exprReports, ownReports_of_silent silent]
    refine ⟨silent.trans (List.append_nil _).symm, fun some => absurd rfl some, fun _ => .inr (.inl ?_), .nil⟩
    rw [Expr.Legible]
    exact not_false

theorem checkArguments_explains (sound : tree.Typed Ty.Sound) : ∀ (arguments : List Expr) (child : Nat)
    (known : Analysis), known.scopes = tree →
    Explains (Tainted tree scope (Expr.LegibleAll arguments) (Expr.namesAll arguments))
      (argumentsReports scope child arguments known) (checkArguments scope arguments known).1 known
      (checkArguments scope arguments known).2
  | [], child, known, _ => by
    rw [argumentsReports, checkArguments]
    exact .nil _ known
  | first :: rest, child, known, same => by
    have one := (checkExpr_explains sound first known same).below child
    have others := checkArguments_explains sound rest (child + 1) (checkExpr scope first known).2
      ((checkExpr_annotates scope first known).scopes.trans same)
    rw [argumentsReports, checkArguments, Expr.namesAll, Expr.LegibleAll]
    let whole := Tainted tree scope (first.Legible ∧ Expr.LegibleAll rest) (first.names ++ Expr.namesAll rest)
    have one : Explains whole _ _ _ _ :=
      one.mono fun tainted => tainted.mono And.left (List.subset_append_left _ _)
    have others : Explains whole _ _ _ _ :=
      others.mono fun tainted => tainted.mono And.right (List.subset_append_right _ _)
    exact one.append others (apart_of_children fun other member => part_of_mem_argumentsReports member)

end

end Expr

end Checker

end Stackwright
