import Stackwright.Proofs.Checking.Poisoning
import Stackwright.Proofs.Tree.Recovery

/-! An analysis that reports nothing. If all expressions were read in full, no node and no name is of type
`error` then: whatever is of that type goes with a diagnostic. -/

set_option autoImplicit false

namespace Stackwright

/-- The type of a name whose declaration did not go wrong. -/
def Ty.Proper (ty : Ty) : Prop := ty ≠ .error ∧ ty.Sound

namespace Analysis

/-- Nothing is of type `error`. -/
structure Clean (known : Analysis) : Prop where
  types : ∀ id : Nat, known.types[id]? ≠ some .error
  names : known.scopes.Typed Ty.Proper

theorem clean_empty : Analysis.empty.Clean := by
  constructor
  · intro id
    simp [Analysis.empty]
  · exact ScopeTree.typed_empty

theorem Clean.setType {known : Analysis} {id : Nat} {ty : Ty} (clean : known.Clean) (proper : ty ≠ .error) :
    (Checker.setType id ty known).2.Clean := by
  refine ⟨fun other => ?_, clean.names⟩
  simp only [Checker.setType, Checker.modify_apply, Std.TreeMap.getElem?_insert]
  split
  · exact fun same => proper (Option.some.inj same)
  · exact clean.types other

end Analysis

namespace Checker

open Analysis

/-- A step that keeps everything free of the type `error`, unless it reports something. -/
structure Cleans (before after : Analysis) : Prop where
  reports : before.diagnostics <+: after.diagnostics
  clean : after.diagnostics = before.diagnostics → before.Clean → after.Clean

section Cleans

variable {before between after : Analysis}

/-- The second step may rely on the first one being silent. -/
theorem Cleans.andThen (one : Cleans before between) (reports : between.diagnostics <+: after.diagnostics)
    (two : between.diagnostics = before.diagnostics → before.Clean → Cleans between after) : Cleans before after := by
  refine ⟨one.reports.trans reports, fun silent clean => ?_⟩
  -- Diagnostics are only ever added, so none came in with the first step either.
  have shorter := reports.length_le
  rw [silent] at shorter
  have first := (one.reports.eq_of_length_le shorter).symm
  exact (two first clean).clean (silent.trans first.symm) (one.clean first clean)

theorem Cleans.trans (one : Cleans before between) (two : Cleans between after) : Cleans before after :=
  one.andThen two.reports fun _ _ => two

theorem Cleans.of_annotates (annotates : Annotates [] before after) : Cleans before after := by
  refine ⟨annotates.reports, fun _ clean => ⟨fun id => ?_, annotates.scopes.symm ▸ clean.names⟩⟩
  rw [annotates.same.types List.not_mem_nil]
  exact clean.types id

theorem Cleans.refl (known : Analysis) : Cleans known known := .of_annotates (.refl known)

/-- A type is noted down that is only `error` if something was reported. -/
theorem Cleans.noted {ty : Ty} (one : Cleans before after) (id : Nat)
    (proper : after.diagnostics = before.diagnostics → before.Clean → ty ≠ .error) :
    Cleans before (setType id ty after).2 :=
  ⟨one.reports, fun silent clean => (one.clean silent clean).setType (proper silent clean)⟩

theorem Cleans.of_reported {cause : Diagnostic.Cause} {span : Span}
    (reported : after.diagnostics = (report cause span before).2.diagnostics) : Cleans before after :=
  ⟨reported ▸ List.prefix_append _ _, fun silent => absurd (reported.symm.trans silent) (report_ne before cause span)⟩

end Cleans

section Expr

theorem resolve_cleans (scope : Nat) (name : Name) (known : Analysis) :
    Cleans known (resolve scope name known).2 := by
  simp only [resolve, bind_apply, get_apply]
  cases found : known.scopes.lookup scope name.text with
  | some binding =>
    refine ⟨List.prefix_rfl, fun _ clean => ?_⟩
    have typed : (setType name.node.id binding.ty known).2.Clean := clean.setType (clean.names.lookup found).1
    exact ⟨typed.types, typed.names⟩
  | none => exact .of_reported rfl

/-- An expression that is of type `error` for no reason elsewhere is reported. -/
theorem checkExpr_ne_error (scope : Nat) (known : Analysis) {expr : Expr} (legible : expr.Legible)
    (silent : (checkExpr scope expr known).2.diagnostics = known.diagnostics) (clean : known.Clean) :
    (checkExpr scope expr known).1 ≠ .error := by
  intro error
  have sound : known.scopes.Typed Ty.Sound := clean.names.mono fun _ proper => proper.2
  have explains : Explains _ (exprReports scope expr known) _ _ _ := checkExpr_explains sound expr known rfl
  -- Of the reasons for the type `error` the first was reported, and the others are excluded.
  rcases explains.reason (List.mem_singleton.mpr error.symm) with some | illegible | ⟨name, _, binding, found, poisoned⟩
  · have total := explains.diagnostics
    rw [silent] at total
    exact some (List.map_eq_nil_iff.mp (List.append_right_eq_self.mp total.symm))
  · exact illegible legible
  · exact (clean.names.lookup found).1 poisoned

mutual

theorem checkExpr_cleans (scope : Nat) : ∀ (expr : Expr) (known : Analysis), expr.Legible →
    Cleans known (checkExpr scope expr known).2
  | .literal value node, known, legible => by
    have proper := checkExpr_ne_error scope known legible
    rw [checkExpr] at proper ⊢
    exact (Cleans.of_annotates (checkLiteral_annotates known value node.span)).noted node.id proper
  | .named name, known, _ => by
    rw [checkExpr]
    exact resolve_cleans scope name known
  | .binary operator left right node, known, legible => by
    have proper := checkExpr_ne_error scope known legible
    rw [Expr.Legible] at legible
    rw [checkExpr] at proper ⊢
    have operands := (checkExpr_cleans scope left known legible.1).trans (checkExpr_cleans scope right _ legible.2)
    exact (operands.trans (.of_annotates (binaryType_annotates _ operator _ _ node.span))).noted node.id proper
  | .unary operator operand node, known, legible => by
    have proper := checkExpr_ne_error scope known legible
    rw [Expr.Legible] at legible
    rw [checkExpr] at proper ⊢
    have inner := checkExpr_cleans scope operand known legible
    exact (inner.trans (.of_annotates (unaryType_annotates _ operator _ node.span))).noted node.id proper
  | .call callee arguments list node, known, legible => by
    have proper := checkExpr_ne_error scope known legible
    rw [Expr.Legible] at legible
    rw [checkExpr] at proper ⊢
    have operands := (resolve_cleans scope callee known).trans (checkArguments_cleans scope arguments _ legible)
    exact (operands.trans (.of_annotates (callType_annotates _ callee _ _ list.span))).noted node.id proper
  | .invalid _, _, legible => by
    rw [Expr.Legible] at legible
    exact legible.elim

theorem checkArguments_cleans (scope : Nat) : ∀ (arguments : List Expr) (known : Analysis),
    Expr.LegibleAll arguments → Cleans known (checkArguments scope arguments known).2
  | [], known, _ => by
    rw [checkArguments]
    exact .refl known
  | first :: rest, known, legible => by
    rw [Expr.LegibleAll] at legible
    rw [checkArguments]
    exact (checkExpr_cleans scope first known legible.1).trans (checkArguments_cleans scope rest _ legible.2)

end

end Expr

section Stmt

theorem checkValue_cleans (scope : Nat) (context : String) (expr : Expr) (known : Analysis) (legible : expr.Legible) :
    Cleans known (checkValue scope context expr known).2 := by
  rw [checkValue, bind_apply]
  refine (checkExpr_cleans scope expr known legible).trans (.of_annotates ?_)
  split
  · exact .refl _
  · exact report_annotates _ _ _

/-- A declared variable has a type of values, unless something was reported. -/
theorem proper_of_checkValue (scope : Nat) (context : String) (known : Analysis) {expr : Expr} (legible : expr.Legible)
    (silent : (checkValue scope context expr known).2.diagnostics = known.diagnostics) (clean : known.Clean) :
    (checkValue scope context expr known).1.Proper := by
  obtain ⟨same, _⟩ := checkValue_of_silent rfl silent
  have ty : (checkExpr scope expr known).1 = (checkValue scope context expr known).1 := congrArg Prod.fst same
  have silentExpr := (congrArg (fun result => result.2.diagnostics) same).trans silent
  have proper := checkExpr_ne_error scope known legible silentExpr clean
  exact ⟨ty ▸ proper, sound_of_checkValue scope context expr known⟩

theorem declare_cleans {scope : Nat} {name : Name} {ty : Ty} {isMutable : Bool} (proper : ty.Proper) (known : Analysis) :
    Cleans known (declare scope name ty isMutable known).2 := by
  cases bound : known.scopes.bind? scope name.text ty isMutable with
  | none =>
    rw [declare_of_none bound]
    exact .of_reported rfl
  | some made =>
    rw [declare_of_some bound]
    refine ⟨List.prefix_rfl, fun _ clean => ?_⟩
    exact ⟨(clean.setType proper.1).types, clean.names.bind? proper bound⟩

theorem checkDeclaration_cleans (place : Place) (isMutable : Bool) (name : Name) (value : Expr) (node : Node)
    (known : Analysis) (legible : value.Legible) :
    Cleans known (checkDeclaration place isMutable name value node known).2 := by
  let context := "declaration of '" ++ name.text ++ "'"
  have proper := proper_of_checkValue place.scope context known legible
  have typed : Cleans known (setType node.id _ (checkValue place.scope context value known).2).2 :=
    (checkValue_cleans place.scope context value known legible).noted node.id fun silent clean =>
      (proper silent clean).1
  rw [checkDeclaration]
  refine typed.andThen (declare_performs place.scope name _ isMutable _).reports fun silent clean => ?_
  exact declare_cleans (proper silent clean) _

theorem checkAssignment_cleans (place : Place) (target : Name) (value : Expr) (known : Analysis)
    (legible : value.Legible) : Cleans known (checkAssignment place target value known).2 := by
  refine ((resolve_cleans place.scope target known).trans (checkExpr_cleans place.scope value _ legible)).trans
    (.of_annotates ?_)
  simp only [checkAssignment, bind_apply]
  split
  · exact .refl _
  split
  · exact report_annotates _ _ _
  split
  · exact report_annotates _ _ _
  · exact .refl _

theorem checkCondition_cleans (place : Place) (condition : Expr) (known : Analysis) (legible : condition.Legible) :
    Cleans known (checkCondition place condition known).2 := by
  refine (checkExpr_cleans place.scope condition known legible).trans (.of_annotates ?_)
  simp only [checkCondition, bind_apply]
  split
  · exact report_annotates _ _ _
  · exact .refl _

theorem checkReturn_cleans (place : Place) (value : Expr) (span : Span) (known : Analysis) (legible : value.Legible) :
    Cleans known (checkReturn place (some value) span known).2 := by
  refine (checkExpr_cleans place.scope value known legible).trans (.of_annotates ?_)
  simp only [checkReturn, bind_apply]
  split
  · exact checkResult_annotates place _ span _ []
  · exact report_annotates _ _ _

theorem checkPrint_cleans (place : Place) (items : List PrintItem) (known : Analysis)
    (whole : Expr.Whole (items.flatMap PrintItem.exprs)) : Cleans known (checkPrint place items known).2 := by
  induction items generalizing known with
  | nil => exact .refl known
  | cons item rest ih =>
    rw [List.flatMap_cons] at whole
    obtain ⟨first, others⟩ := List.forall_mem_append.mp whole
    cases item with
    | value expr =>
      exact (checkValue_cleans place.scope "print" expr known (Expr.legible_of_whole first)).trans (ih _ others)
    | space | newline => exact ih known others

mutual

theorem checkStmt_cleans (place : Place) : ∀ (stmt : Stmt) (known : Analysis), Expr.Whole stmt.exprs →
    Cleans known (checkStmt place stmt known).2
  | .declare isMutable name value node, known, whole => by
    rw [Stmt.exprs] at whole
    rw [checkStmt]
    exact checkDeclaration_cleans place isMutable name value node known (Expr.legible_of_whole whole)
  | .assign target value _, known, whole => by
    rw [Stmt.exprs] at whole
    rw [checkStmt]
    exact checkAssignment_cleans place target value known (Expr.legible_of_whole whole)
  | .branch condition thenBlock none _, known, whole => by
    rw [Stmt.exprs] at whole
    obtain ⟨ofCondition, ofThen⟩ := List.forall_mem_append.mp whole
    rw [checkStmt]
    exact (checkCondition_cleans place condition known (Expr.legible_of_whole ofCondition)).trans
      (checkNested_cleans place thenBlock _ ofThen)
  | .branch condition thenBlock (some elseBlock) _, known, whole => by
    rw [Stmt.exprs] at whole
    obtain ⟨ofCondition, ofBlocks⟩ := List.forall_mem_append.mp whole
    obtain ⟨ofThen, ofElse⟩ := List.forall_mem_append.mp ofBlocks
    rw [checkStmt]
    exact (checkCondition_cleans place condition known (Expr.legible_of_whole ofCondition)).trans
      ((checkNested_cleans place thenBlock _ ofThen).trans (checkNested_cleans place elseBlock _ ofElse))
  | .ret none node, known, _ => by
    rw [checkStmt]
    exact .of_annotates (checkResult_annotates place .void node.span known [])
  | .ret (some value) node, known, whole => by
    rw [Stmt.exprs] at whole
    rw [checkStmt]
    exact checkReturn_cleans place value node.span known (Expr.legible_of_whole whole)
  | .call call _, known, whole => by
    rw [Stmt.exprs] at whole
    rw [checkStmt]
    exact checkExpr_cleans place.scope call.expr known (Expr.legible_of_whole whole)
  | .print items _, known, whole => by
    rw [Stmt.exprs] at whole
    rw [checkStmt]
    exact checkPrint_cleans place items known whole
  | .nested body, known, whole => by
    rw [Stmt.exprs] at whole
    rw [checkStmt]
    exact checkNested_cleans place body known whole
  | .invalid _, known, _ => by
    rw [checkStmt]
    exact .refl known

theorem checkNested_cleans (place : Place) : ∀ (block : Block) (known : Analysis), Expr.Whole block.exprs →
    Cleans known (checkNested place block known).2
  | .mk statements node, known, whole => by
    rw [Block.exprs] at whole
    rw [checkNested_eq]
    have body := checkStatements_cleans (innerPlace place known) statements (inside place node known) whole
    refine ⟨body.reports, fun silent clean => ?_⟩
    have last := body.clean silent ⟨clean.types, clean.names.openNested⟩
    exact ⟨last.types, last.names.leave⟩

theorem checkStatements_cleans (place : Place) : ∀ (statements : List Stmt) (known : Analysis),
    Expr.Whole (Stmt.exprsAll statements) → Cleans known (checkStatements place statements known).2
  | [], known, _ => by
    rw [checkStatements]
    exact .refl known
  | first :: rest, known, whole => by
    rw [Stmt.exprsAll] at whole
    obtain ⟨ofFirst, ofRest⟩ := List.forall_mem_append.mp whole
    rw [checkStatements]
    exact (checkStmt_cleans place first known ofFirst).trans (checkStatements_cleans place rest _ ofRest)

end

end Stmt

section Program

theorem leaveScope_cleans (number : Nat) (known : Analysis) : Cleans known (leaveScope number known).2 :=
  ⟨List.prefix_rfl, fun _ clean => ⟨clean.types, clean.names.leave⟩⟩

theorem Primitive.ty_ne_error (primitive : Primitive) : primitive.ty ≠ .error := by
  cases primitive <;> exact Ty.noConfusion

theorem proper_parameter (parameter : Parameter) : parameter.type.ty.Proper :=
  ⟨Primitive.ty_ne_error _, sound_parameter parameter⟩

/-- A type that is written down in the program is noted down. -/
theorem setMark_cleans (id : Nat) (mark : TypeMark) (known : Analysis) : Cleans known (setType id mark.ty known).2 :=
  (Cleans.refl known).noted id fun _ _ => Primitive.ty_ne_error _

theorem forM_cleans {α : Type} {act : α → Checker Unit} (items : List α)
    (each : ∀ item ∈ items, ∀ known, Cleans known (act item known).2) (known : Analysis) :
    Cleans known (items.forM act known).2 := by
  induction items generalizing known with
  | nil => exact .refl known
  | cons item rest ih =>
    obtain ⟨first, others⟩ := List.forall_mem_cons.mp each
    exact (first known).trans (ih others _)

theorem declareFunction_cleans (scope : Nat) (function : Function) (known : Analysis) :
    Cleans known (declareFunction scope function known).2 := by
  have result := setMark_cleans function.result.node.id function.result known
  have parameters := forM_cleans function.parameters
    (fun parameter _ => setMark_cleans parameter.type.node.id parameter.type)
    (setType function.result.node.id function.result.ty known).2
  have signature : function.signature.ty.Proper := ⟨Ty.noConfusion, sound_signature function⟩
  have types := (result.trans parameters).noted function.node.id fun _ _ => signature.1
  exact types.trans (declare_cleans signature _)

theorem declareParameter_cleans (scope : Nat) (parameter : Parameter) (known : Analysis) :
    Cleans known (declareParameter scope parameter known).2 := by
  exact (setMark_cleans parameter.node.id parameter.type known).trans (declare_cleans (proper_parameter parameter) _)

theorem checkFunction_cleans (root : Nat) (function : Function) (known : Analysis)
    (whole : Expr.Whole function.body.exprs) : Cleans known (checkFunction root function known).2 := by
  have parameters := forM_cleans function.parameters
    (fun parameter _ => declareParameter_cleans known.scopes.scopes.size parameter) (atParameters known root function)
  have statements : Expr.Whole (Stmt.exprsAll function.body.statements) := by
    revert whole
    cases function.body
    rw [Block.exprs]
    exact id
  have body := checkStatements_cleans (bodyPlace (atFunction known root function) function.result.ty)
    function.body.statements (atBody (atFunction known root function) known.scopes.scopes.size function.body) statements
  rw [checkFunction_eq]
  -- Opening a scope neither notes down a type nor reports anything.
  have opened : Cleans known (atParameters known root function) :=
    ⟨List.prefix_rfl, fun _ clean => ⟨clean.types, clean.names.addOwner⟩⟩
  have entered : Cleans (atFunction known root function)
      (atBody (atFunction known root function) known.scopes.scopes.size function.body) :=
    ⟨List.prefix_rfl, fun _ clean => ⟨clean.types, clean.names.addOwner⟩⟩
  have inside := ((opened.trans parameters).trans entered).trans body
  exact ((inside.trans (leaveScope_cleans _ _)).trans (leaveScope_cleans _ _)).trans
    (.of_annotates (checkPaths_annotates function _))

end Program

end Checker

open Checker in
/-- Whatever is of type `error` goes with a diagnostic, if all expressions were read in full. -/
theorem Program.analyze_clean {program : Program} (whole : Expr.Whole program.exprs)
    (silent : program.analyze.diagnostics = []) : program.analyze.Clean := by
  rw [Program.exprs] at whole
  obtain ⟨ofFunctions, ofMain⟩ := List.forall_mem_append.mp whole
  have names := forM_cleans program.functions (fun function _ => declareFunction_cleans 0 function) (atStart program)
  have bodies := forM_cleans program.functions
    (fun function member known => checkFunction_cleans 0 function known fun expr inside =>
      ofFunctions expr (List.mem_flatMap.mpr ⟨function, member, inside⟩)) (atFunctions program)
  have main := (checkNested_cleans ⟨0, none⟩ program.main (atMain program) ofMain).trans (leaveScope_cleans 0 _)
  have start : (atStart program).Clean :=
    ⟨Analysis.clean_empty.types, Analysis.clean_empty.names.addOwner⟩
  exact ((names.trans bodies).trans main).clean silent start

end Stackwright
