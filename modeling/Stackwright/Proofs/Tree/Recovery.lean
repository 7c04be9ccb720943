import Stackwright.Proofs.Lowering.Occurrence
import Stackwright.Proofs.Tree.Reading

/-! What is read from a source text with faults. Reading gives up whole statements, functions and main
blocks, but never an expression alone: all expressions in the tree were read in full. -/

set_option autoImplicit false

namespace Stackwright

/-- All of the expressions were read in full. -/
abbrev Expr.Whole (exprs : List Expr) : Prop := ∀ expr ∈ exprs, expr.Legible

mutual

theorem Expr.Legible.whole_parts : ∀ {expr : Expr}, expr.Legible → Expr.Whole expr.parts
  | .literal _ _, legible | .named _, legible => by
    rw [Expr.parts]
    exact List.forall_mem_singleton.mpr legible
  | .binary _ _ _ _, legible => by
    rw [Expr.parts]
    have both := legible
    rw [Expr.Legible] at both
    exact List.forall_mem_cons.mpr ⟨legible, List.forall_mem_append.mpr ⟨both.1.whole_parts, both.2.whole_parts⟩⟩
  | .unary _ _ _, legible => by
    rw [Expr.parts]
    have inner := legible
    rw [Expr.Legible] at inner
    exact List.forall_mem_cons.mpr ⟨legible, inner.whole_parts⟩
  | .call _ _ _ _, legible => by
    rw [Expr.parts]
    have inner := legible
    rw [Expr.Legible] at inner
    exact List.forall_mem_cons.mpr ⟨legible, Expr.whole_partsAll inner⟩

theorem Expr.whole_partsAll : ∀ {exprs : List Expr}, Expr.LegibleAll exprs → Expr.Whole (Expr.partsAll exprs)
  | [], _ => by
    rw [Expr.partsAll]
    exact List.forall_mem_nil _
  | _ :: _, legible => by
    rw [Expr.LegibleAll] at legible
    rw [Expr.partsAll]
    exact List.forall_mem_append.mpr ⟨legible.1.whole_parts, Expr.whole_partsAll legible.2⟩

end

theorem Expr.legible_of_whole {expr : Expr} (whole : Expr.Whole expr.parts) : expr.Legible := by
  apply whole
  cases expr <;> rw [Expr.parts] <;> exact List.mem_cons_self

namespace Parser

variable {α β : Type}

/-- Whatever the rule gives is good, no matter what faults were met on the way. -/
structure Gives (rule : Parser α) (good : α → Prop) : Prop where
  of_ok : ∀ {cursor : Cursor} {value : α} {next : Cursor}, rule cursor = .ok value next → good value

section Gives

variable {rule : Parser α} {follow : α → Parser β} {middle : α → Prop} {good : β → Prop}

theorem Gives.bind (one : Gives rule middle) (two : ∀ value, middle value → Gives (follow value) good) :
    Gives (rule >>= follow) good := by
  constructor
  intro cursor value next given
  change EStateM.bind rule follow cursor = .ok value next at given
  unfold EStateM.bind at given
  cases result : rule cursor with
  | ok first between =>
    simp only [result] at given
    exact (two first (one.of_ok result)).of_ok given
  | error fault between =>
    simp only [result] at given
    cases given

/-- What matters is given later. -/
theorem Gives.later (two : ∀ value, Gives (follow value) good) : Gives (rule >>= follow) good :=
  Gives.bind ⟨fun _ => trivial⟩ fun value (_ : True) => two value

theorem gives_pure {value : β} (holds : good value) : Gives (pure value) good := by
  constructor
  intro cursor other next given
  cases given
  exact holds

theorem gives_throw {fault : SyntaxFault} : Gives (throw fault) good := by
  constructor
  intro cursor value next given
  cases given

/-- A rule that starts on a budget taken from the cursor. -/
theorem Gives.within {rule : Parser β} {within : Nat → Parser β} {budget : Cursor → Nat}
    (gives : ∀ amount, Gives (within amount) good) (same : ∀ cursor, rule cursor = within (budget cursor) cursor) :
    Gives rule good :=
  ⟨fun {cursor _ _} given => (gives (budget cursor)).of_ok ((same cursor).symm.trans given)⟩

/-- A rule whose failures are made good. -/
theorem Gives.recover {rule : Parser β} {handler : SyntaxFault → Recovering β} (gives : Gives rule good)
    (handled : ∀ fault cursor, good (handler fault cursor).1) (cursor : Cursor) :
    good (recover rule handler cursor).1 := by
  unfold Parser.recover
  cases result : rule cursor with
  | ok value next => exact gives.of_ok result
  | error fault next => exact handled fault next

end Gives

theorem gives_literal (token : Token) : Gives (literal token) Expr.Legible := by
  unfold literal
  apply Gives.later
  intro _
  split
  · exact .later fun _ => gives_pure trivial
  · exact gives_throw

mutual

theorem gives_expressionWithin : ∀ budget minimum, Gives (expressionWithin budget minimum) Expr.Legible
  | 0, _ => by
    rw [expressionWithin]
    exact .later fun _ => gives_throw
  | budget + 1, minimum => by
    rw [expressionWithin]
    exact (gives_operandWithin budget).bind fun left legible => gives_operatorsWithin budget minimum left legible

theorem gives_operatorsWithin : ∀ budget minimum (left : Expr), left.Legible →
    Gives (operatorsWithin budget minimum left) Expr.Legible
  | 0, _, _, legible => by
    rw [operatorsWithin]
    exact gives_pure legible
  | budget + 1, minimum, left, legible => by
    rw [operatorsWithin]
    apply Gives.later
    intro token
    split
    · exact gives_pure legible
    · split
      · exact gives_pure legible
      · apply Gives.later
        intro _
        apply (gives_expressionWithin budget _).bind
        intro right rightLegible
        apply Gives.later
        intro id
        exact gives_operatorsWithin budget minimum _ ⟨legible, rightLegible⟩

theorem gives_operandWithin : ∀ budget, Gives (operandWithin budget) Expr.Legible
  | 0 => by
    rw [operandWithin]
    exact .later fun _ => gives_throw
  | budget + 1 => by
    rw [operandWithin]
    apply Gives.later
    intro token
    split
    all_goals try exact gives_literal token
    -- A name, which is called if an argument list follows.
    · apply Gives.later
      intro name
      apply Gives.later
      intro found
      split
      · exact (gives_callWithin budget name).bind fun call legible => gives_pure legible
      · exact gives_pure trivial
    -- A negation.
    · apply Gives.later
      intro _
      apply (gives_expressionWithin budget _).bind
      intro operand legible
      exact .later fun _ => gives_pure legible
    -- An expression in parentheses.
    · apply Gives.later
      intro _
      apply (gives_expressionWithin budget 0).bind
      intro inner legible
      exact .later fun _ => gives_pure legible
    · exact gives_throw
    · exact gives_throw

theorem gives_callWithin : ∀ budget callee, Gives (callWithin budget callee) fun call => call.expr.Legible
  | 0, _ => by
    rw [callWithin]
    exact .later fun _ => gives_throw
  | budget + 1, callee => by
    rw [callWithin]
    apply Gives.later
    intro opening
    apply Gives.later
    intro list
    apply Gives.later
    intro closes
    dsimp only
    split
    · have none : Gives (pure []) Expr.LegibleAll := gives_pure trivial
      exact none.bind fun arguments legible => .later fun _ => .later fun _ => gives_pure legible
    · apply (gives_argumentsWithin budget).bind
      intro arguments legible
      exact .later fun _ => .later fun _ => gives_pure legible

theorem gives_argumentsWithin : ∀ budget, Gives (argumentsWithin budget) Expr.LegibleAll
  | 0 => by
    rw [argumentsWithin]
    exact .later fun _ => gives_throw
  | budget + 1 => by
    rw [argumentsWithin]
    apply (gives_expressionWithin budget 0).bind
    intro first legible
    apply Gives.later
    intro more
    split
    · exact (gives_argumentsWithin budget).bind fun rest restLegible => gives_pure ⟨legible, restLegible⟩
    · exact gives_pure ⟨legible, trivial⟩

end

theorem gives_expression (minimum : Nat) : Gives (expression minimum) Expr.Legible :=
  .within (fun budget => gives_expressionWithin budget minimum) fun _ => rfl

theorem gives_call (callee : Name) : Gives (call callee) fun call => call.expr.Legible :=
  .within (fun budget => gives_callWithin budget callee) fun _ => rfl

/-- All expressions of the statement were read in full. -/
abbrev WholeStmt (stmt : Stmt) : Prop := Expr.Whole stmt.exprs

theorem gives_declaration : Gives declaration WholeStmt := by
  unfold declaration
  apply Gives.later
  intro keyword
  apply Gives.later
  intro id
  apply Gives.later
  intro name
  apply Gives.later
  intro _
  apply (gives_expression 0).bind
  intro value legible
  exact .later fun _ => gives_pure (by rw [WholeStmt, Stmt.exprs]; exact legible.whole_parts)

theorem gives_assignment : Gives assignment WholeStmt := by
  unfold assignment
  apply Gives.later
  intro id
  apply Gives.later
  intro target
  apply Gives.later
  intro _
  apply (gives_expression 0).bind
  intro value legible
  exact .later fun _ => gives_pure (by rw [WholeStmt, Stmt.exprs]; exact legible.whole_parts)

theorem gives_callStatement : Gives callStatement WholeStmt := by
  unfold callStatement
  apply Gives.later
  intro start
  apply Gives.later
  intro id
  apply Gives.later
  intro callee
  apply (gives_call callee).bind
  intro call legible
  exact .later fun _ => gives_pure (by rw [WholeStmt, Stmt.exprs]; exact legible.whole_parts)

theorem gives_returnStatement : Gives returnStatement WholeStmt := by
  unfold returnStatement
  apply Gives.later
  intro start
  apply Gives.later
  intro id
  apply Gives.later
  intro bare
  dsimp only
  split
  · have none : Gives (pure none) fun value => ∀ node, WholeStmt (.ret value node) := by
      apply gives_pure
      intro node
      rw [WholeStmt, Stmt.exprs]
      exact List.forall_mem_nil _
    exact none.bind fun value whole => .later fun _ => gives_pure (whole _)
  · have valued : Gives (some <$> expression 0) fun value => ∀ node, WholeStmt (.ret value node) := by
      apply (gives_expression 0).bind
      intro expr legible
      apply gives_pure
      intro node
      rw [WholeStmt, Stmt.exprs]
      exact legible.whole_parts
    exact valued.bind fun value whole => .later fun _ => gives_pure (whole _)

theorem exprs_separatorItems (tokens : List Token) :
    (tokens.filterMap separatorItem?).flatMap PrintItem.exprs = [] := by
  rw [List.flatMap_eq_nil_iff]
  intro item member
  obtain ⟨token, _, found⟩ := List.mem_filterMap.mp member
  unfold separatorItem? at found
  split at found
  · cases found
    rfl
  · cases found
    rfl
  · cases found

theorem gives_printValuesWithin : ∀ budget, Gives (printValuesWithin budget)
    fun items => Expr.Whole (items.flatMap PrintItem.exprs)
  | 0 => by
    rw [printValuesWithin]
    exact gives_pure (List.forall_mem_nil _)
  | budget + 1 => by
    rw [printValuesWithin]
    apply Gives.later
    intro token
    split
    · apply (gives_expression 0).bind
      intro value legible
      apply Gives.later
      intro ends
      split
      · apply gives_pure
        rw [List.flatMap_singleton]
        exact legible.whole_parts
      · apply Gives.later
        intro marks
        split
        · exact .later fun _ => gives_throw
        · apply (gives_printValuesWithin budget).bind
          intro rest whole
          apply gives_pure
          rw [List.cons_append, List.flatMap_cons, List.flatMap_append, exprs_separatorItems, List.nil_append]
          exact List.forall_mem_append.mpr ⟨legible.whole_parts, whole⟩
    · exact gives_pure (List.forall_mem_nil _)

theorem gives_printStatement : Gives printStatement WholeStmt := by
  unfold printStatement
  apply Gives.later
  intro start
  apply Gives.later
  intro id
  apply Gives.later
  intro marks
  have values : Gives printValues fun items => Expr.Whole (items.flatMap PrintItem.exprs) :=
    .within gives_printValuesWithin fun _ => rfl
  apply values.bind
  intro items whole
  refine .later fun _ => gives_pure ?_
  rw [WholeStmt, Stmt.exprs, List.flatMap_append, exprs_separatorItems, List.nil_append]
  exact whole

mutual

theorem gives_statementWithin : ∀ budget, Gives (statementWithin budget) WholeStmt
  | 0 => by
    rw [statementWithin]
    exact .later fun _ => gives_throw
  | budget + 1 => by
    rw [statementWithin]
    apply Gives.later
    intro token
    split
    · exact gives_declaration
    · exact gives_declaration
    · exact gives_assignment
    · exact gives_printStatement
    · exact gives_callStatement
    -- A branch: with and without `else` it is the same tree but for the second block.
    · apply Gives.later
      intro start
      apply Gives.later
      intro id
      apply Gives.later
      intro _
      apply (gives_expression 0).bind
      intro condition legible
      apply Gives.later
      intro _
      apply (gives_blockWithin budget).bind
      intro thenBlock thenWhole
      apply Gives.later
      intro more
      dsimp only
      split
      · have block : Gives (some <$> blockWithin budget)
            fun elseBlock => ∀ node, WholeStmt (.branch condition thenBlock elseBlock node) := by
          apply (gives_blockWithin budget).bind
          intro elseBlock elseWhole
          apply gives_pure
          intro node
          rw [WholeStmt, Stmt.exprs]
          exact List.forall_mem_append.mpr ⟨legible.whole_parts, List.forall_mem_append.mpr ⟨thenWhole, elseWhole⟩⟩
        exact block.bind fun elseBlock whole => gives_pure (whole _)
      · have none : Gives (pure none)
            fun elseBlock => ∀ node, WholeStmt (.branch condition thenBlock elseBlock node) := by
          apply gives_pure
          intro node
          rw [WholeStmt, Stmt.exprs]
          exact List.forall_mem_append.mpr ⟨legible.whole_parts, thenWhole⟩
        exact none.bind fun elseBlock whole => gives_pure (whole _)
    · exact gives_returnStatement
    · apply (gives_blockWithin budget).bind
      intro body whole
      exact gives_pure (by rw [WholeStmt, Stmt.exprs]; exact whole)
    · exact gives_throw
    · exact gives_throw

theorem gives_blockWithin : ∀ budget, Gives (blockWithin budget) fun block => Expr.Whole block.exprs
  | 0 => by
    rw [blockWithin]
    exact .later fun _ => gives_throw
  | budget + 1 => by
    rw [blockWithin]
    apply Gives.later
    intro start
    apply Gives.later
    intro id
    have within : Gives (ofRecovering (statementsWithin budget))
        fun statements => Expr.Whole (Stmt.exprsAll statements) := by
      constructor
      intro cursor statements next given
      cases given
      exact whole_statementsWithin budget cursor
    apply within.bind
    intro statements whole
    exact .later fun _ => gives_pure (by rw [Block.exprs]; exact whole)

theorem whole_statementsWithin : ∀ (budget : Nat) (cursor : Cursor),
    Expr.Whole (Stmt.exprsAll (statementsWithin budget cursor).1)
  | 0, cursor => by
    rw [statementsWithin]
    exact List.forall_mem_nil _
  | budget + 1, cursor => by
    rw [statementsWithin_succ]
    split
    · exact List.forall_mem_nil _
    · rw [Stmt.exprsAll]
      refine List.forall_mem_append.mpr ⟨(gives_statementWithin budget).recover ?_ cursor, whole_statementsWithin budget _⟩
      -- A statement that could not be read leaves no expression behind.
      intro fault next
      rw [WholeStmt, recoverStatement, Stmt.exprs]
      exact List.forall_mem_nil _

end

theorem gives_block : Gives block fun block => Expr.Whole block.exprs :=
  .within gives_blockWithin fun cursor => by rw [block]

theorem gives_function : Gives function fun function => Expr.Whole function.body.exprs := by
  unfold function
  apply Gives.later
  intro start
  apply Gives.later
  intro id
  apply Gives.later
  intro result
  apply Gives.later
  intro name
  apply Gives.later
  intro list
  exact gives_block.bind fun body whole => gives_pure whole

theorem whole_functionsWithin : ∀ (budget : Nat) (cursor : Cursor),
    ∀ function ∈ (functionsWithin budget cursor).1, Expr.Whole function.body.exprs
  | 0, cursor => by
    rw [functionsWithin]
    exact List.forall_mem_nil _
  | budget + 1, cursor => by
    rw [functionsWithin_succ]
    split
    · have one : Gives (do return [← function] : Parser (List Function))
          fun list => ∀ function ∈ list, Expr.Whole function.body.exprs :=
        gives_function.bind fun function whole => gives_pure (List.forall_mem_singleton.mpr whole)
      refine List.forall_mem_append.mpr ⟨one.recover ?_ cursor, whole_functionsWithin budget _⟩
      exact fun _ _ => List.forall_mem_nil _
    · exact List.forall_mem_nil _

theorem whole_program (cursor : Cursor) : Expr.Whole (program cursor).1.exprs := by
  have main : Gives mainBlock fun block => Expr.Whole block.exprs := .later fun _ => gives_block
  rw [program_eq, Program.exprs]
  refine List.forall_mem_append.mpr ⟨fun expr member => ?_, ?_⟩
  · obtain ⟨function, declared, inside⟩ := List.mem_flatMap.mp member
    exact whole_functionsWithin _ _ function declared expr inside
  · apply main.recover
    intro fault next
    rw [recoverMain, Block.exprs, Stmt.exprsAll]
    exact List.forall_mem_nil _

end Parser

/-- All expressions in the tree of any source text were read in full. -/
theorem Program.whole_of_read (source : String) : Expr.Whole (Program.read source).1.exprs :=
  Parser.whole_program _

end Stackwright
