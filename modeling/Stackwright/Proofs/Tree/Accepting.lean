import Stackwright.Proofs.Tree.Passing
import Stackwright.Proofs.Tree.Reading

/-! What the parser accepts is derivable. Each rule that succeeds without recording a fault has
taken tokens that the grammar derives, and its result is their tree. For expressions the
argument needs that a rule stops only before an operator that binds too loosely, which in turn
needs that budgets do not run out. -/

set_option autoImplicit false

namespace Stackwright

theorem BinaryOperator.leftPower_eq (operator : BinaryOperator) :
    operator.leftPower = 2 * operator.row + 1 := by
  cases operator <;> rfl

theorem BinaryOperator.row_le (operator : BinaryOperator) : operator.row ≤ 2 := by
  cases operator <;> decide

namespace Grammar

/-- The row whose operators are the loosest that bind as tightly as asked. -/
def rowOf (minimum : Nat) : Nat := min (minimum / 2) 3

theorem rowOf_le_row_iff (minimum : Nat) (operator : BinaryOperator) :
    rowOf minimum ≤ operator.row ↔ minimum ≤ operator.leftPower := by
  have := operator.row_le
  rw [operator.leftPower_eq, rowOf]
  omega

@[simp] theorem rowOf_rightPower (operator : BinaryOperator) :
    rowOf operator.rightPower = operator.row + 1 := by
  have := operator.row_le
  rw [BinaryOperator.rightPower, operator.leftPower_eq, rowOf]
  omega

/-- A token of the kind is no operator of the given row or a tighter one. -/
def Looser (row : Nat) (kind : Kind) : Prop :=
  ∀ operator, BinaryOperator.ofKind? kind = some operator → operator.row < row

theorem Expression.loosen {low high : Nat} {tokens : List Token} {expr : Expr}
    (derived : Expression high tokens expr) (le : low ≤ high) : Expression low tokens expr := by
  induction le with
  | refl => exact derived
  | step _ ih => exact ih (.tighter derived)

theorem Expression.length_pos {row : Nat} {tokens : List Token} {expr : Expr} :
    Expression row tokens expr → 0 < tokens.length
  | .tighter inner => inner.length_pos
  | .chain .. => by simp only [List.length_append, List.length_cons]; omega
  | .negation .. | .literal .. | .named .. | .call .. | .group .. => by simp

end Grammar

namespace Parser

open Cursor Grammar

/-- From one cursor to the other the tokens of a tree were taken. -/
def Accepted {α : Type} (part : List Token → α → Prop) (cursor next : Cursor) (tree : α) : Prop :=
  ∃ tokens, cursor.Passes next tokens ∧ part tokens tree

theorem accepts_literal {cursor : Cursor} (isLiteral : cursor.peek.kind.isLiteral = true) :
    Outcome True (literal cursor.peek) cursor fun expr next =>
      Accepted (Expression 3) cursor next expr.bare := by
  unfold literal
  have more : cursor.peek.kind ≠ .endOfFile := by
    intro ended
    simp [ended, Kind.isLiteral] at isLiteral
  refine outcome_advance more fun afterToken taken => ?_
  split
  next value decoded =>
    refine outcome_freshId fun id last numbered => ?_
    exact outcome_pure ⟨_, taken.append numbered, .literal isLiteral decoded⟩
  · exact outcome_throw trivial

mutual

theorem accepts_expressionWithin : ∀ (budget minimum : Nat) (cursor : Cursor),
    2 * cursor.rest.length + 2 ≤ budget →
    Outcome True (expressionWithin budget minimum) cursor fun expr next =>
      Accepted (Expression (rowOf minimum)) cursor next expr.bare ∧ Looser (rowOf minimum) next.peek.kind
  | 0, _, _, enough => by omega
  | budget + 1, minimum, cursor, enough => by
    rw [expressionWithin]
    refine (accepts_operandWithin budget cursor (by omega)).bind ?_
    rintro left next ⟨tokens, passes, derived⟩
    have shorter := passes.length
    have bound : rowOf minimum ≤ 3 := Nat.min_le_right ..
    refine accepts_operatorsWithin budget minimum left 3 cursor next tokens (by omega) passes derived
      bound fun operator _ => ?_
    have := operator.row_le
    omega

/-- The tokens of the operand on the left were taken since `start`. It lies in `row`, and no
operator that follows it binds more tightly than that row. -/
theorem accepts_operatorsWithin : ∀ (budget minimum : Nat) (left : Expr) (row : Nat)
    (start cursor : Cursor) (tokens : List Token), 2 * cursor.rest.length + 1 ≤ budget →
    start.Passes cursor tokens → Expression row tokens left.bare → rowOf minimum ≤ row →
    Looser (row + 1) cursor.peek.kind →
    Outcome True (operatorsWithin budget minimum left) cursor fun expr next =>
      Accepted (Expression (rowOf minimum)) start next expr.bare ∧ Looser (rowOf minimum) next.peek.kind
  | 0, _, _, _, _, _, _, enough, _, _, _, _ => by omega
  | budget + 1, minimum, left, row, start, cursor, tokens, enough, passes, derived, tight, looser => by
    rw [operatorsWithin]
    refine outcome_peek ?_
    split
    next none =>
      refine outcome_pure ⟨⟨tokens, passes, derived.loosen tight⟩, fun operator found => ?_⟩
      simp [none] at found
    next operator found =>
      have within := rowOf_le_row_iff minimum operator
      split
      next loose =>
        refine outcome_pure ⟨⟨tokens, passes, derived.loosen tight⟩, fun other same => ?_⟩
        obtain rfl : operator = other := Option.some.inj (found.symm.trans same)
        omega
      next binds =>
        have more : cursor.peek.kind ≠ .endOfFile := by
          intro ended
          simp [ended, BinaryOperator.ofKind?] at found
        refine outcome_advance more fun afterMark taken => ?_
        have markLength := taken.length
        simp only [List.length_singleton] at markLength
        refine (accepts_expressionWithin budget operator.rightPower afterMark (by omega)).bind ?_
        rintro right afterRight ⟨⟨rightTokens, rightPasses, rightDerived⟩, rightLooser⟩
        rw [rowOf_rightPower] at rightDerived rightLooser
        refine outcome_freshId fun id last numbered => ?_
        have rightLength := (rightPasses.append numbered).length
        refine accepts_operatorsWithin budget minimum _ operator.row start last _ (by omega)
          (passes.append (taken.append (rightPasses.append numbered))) ?_ (by omega) ?_
        · have leftDerived : Expression operator.row tokens left.bare :=
            derived.loosen (Nat.le_of_lt_succ (looser operator found))
          rw [List.append_nil]
          exact .chain leftDerived found rightDerived
        · rw [numbered.peek_kind]
          exact rightLooser

theorem accepts_operandWithin : ∀ (budget : Nat) (cursor : Cursor),
    2 * cursor.rest.length + 1 ≤ budget →
    Outcome True (operandWithin budget) cursor fun expr next =>
      Accepted (Expression 3) cursor next expr.bare
  | 0, _, enough => by omega
  | budget + 1, cursor, enough => by
    rw [operandWithin]
    refine outcome_peek ?_
    split
    next isInt => exact accepts_literal (by simp [isInt, Kind.isLiteral])
    next isFloat => exact accepts_literal (by simp [isFloat, Kind.isLiteral])
    next isChar => exact accepts_literal (by simp [isChar, Kind.isLiteral])
    next isString => exact accepts_literal (by simp [isString, Kind.isLiteral])
    next isTrue => exact accepts_literal (by simp [isTrue, Kind.isLiteral])
    next isFalse => exact accepts_literal (by simp [isFalse, Kind.isLiteral])
    next isName =>
      refine (outcome_identifier (.inl trivial)).bind ?_
      rintro name afterName ⟨token, isIdentifier, named, same⟩
      have nameLength := named.length
      simp only [List.length_singleton] at nameLength
      refine outcome_check ?_
      split
      · refine (accepts_callWithin budget name afterName (by omega)).bind ?_
        rintro call last ⟨sameCallee, tokens, listed, derived⟩
        refine outcome_pure ⟨_, named.append listed, ?_⟩
        simpa [Call.expr, Expr.bare, sameCallee, same] using Expression.call isIdentifier derived
      · refine outcome_pure ⟨_, named, ?_⟩
        simpa [Expr.bare, same] using Expression.named isIdentifier
    next isMinus =>
      refine outcome_advance (by simp [isMinus]) fun afterMark taken => ?_
      have markLength := taken.length
      simp only [List.length_singleton] at markLength
      refine (accepts_expressionWithin budget _ afterMark (by omega)).bind ?_
      rintro operand afterOperand ⟨⟨tokens, passes, derived⟩, -⟩
      refine outcome_freshId fun id last numbered => ?_
      refine outcome_pure ⟨_, taken.append (passes.append numbered), ?_⟩
      rw [List.append_nil]
      exact .negation isMinus derived
    next isParen =>
      refine outcome_advance (by simp [isParen]) fun afterMark taken => ?_
      have markLength := taken.length
      simp only [List.length_singleton] at markLength
      refine (accepts_expressionWithin budget 0 afterMark (by omega)).bind ?_
      rintro inner afterInner ⟨⟨tokens, passes, derived⟩, -⟩
      refine (outcome_expect (by simp) (.inl trivial)).bind ?_
      rintro closing last ⟨isClosing, closed⟩
      exact outcome_pure ⟨_, taken.append (passes.append closed), .group isParen derived isClosing⟩
    · exact outcome_throw trivial
    · exact outcome_throw trivial

theorem accepts_callWithin : ∀ (budget : Nat) (callee : Name) (cursor : Cursor),
    2 * cursor.rest.length + 2 ≤ budget →
    Outcome True (callWithin budget callee) cursor fun call next =>
      call.callee = callee ∧
        Accepted (Listed (Expression 0)) cursor next (Expr.bareAll call.arguments)
  | 0, _, _, enough => by omega
  | budget + 1, callee, cursor, enough => by
    rw [callWithin]
    refine (outcome_expect (by simp) (.inl trivial)).bind ?_
    rintro opening afterOpening ⟨isOpening, opened⟩
    have openingLength := opened.length
    simp only [List.length_singleton] at openingLength
    refine outcome_freshId fun list afterList numbered => ?_
    have listLength := numbered.length
    refine outcome_check ?_
    dsimp only
    split
    · refine (outcome_expect (by simp) (.inl trivial)).bind ?_
      rintro closing afterClosing ⟨isClosing, closed⟩
      refine outcome_freshId fun id last ended => ?_
      exact outcome_pure ⟨rfl, _, opened.append (numbered.append (closed.append ended)),
        .none isOpening isClosing⟩
    · refine (accepts_argumentsWithin budget afterList (by simp at listLength; omega)).bind ?_
      rintro arguments afterArguments ⟨tokens, passes, derived⟩
      refine (outcome_expect (by simp) (.inl trivial)).bind ?_
      rintro closing afterClosing ⟨isClosing, closed⟩
      refine outcome_freshId fun id last ended => ?_
      exact outcome_pure ⟨rfl, _, opened.append (numbered.append (passes.append (closed.append ended))),
        .some isOpening derived isClosing⟩

theorem accepts_argumentsWithin : ∀ (budget : Nat) (cursor : Cursor),
    2 * cursor.rest.length + 3 ≤ budget →
    Outcome True (argumentsWithin budget) cursor fun arguments next =>
      Accepted (Divided (Expression 0)) cursor next (Expr.bareAll arguments)
  | 0, _, enough => by omega
  | budget + 1, cursor, enough => by
    rw [argumentsWithin]
    refine (accepts_expressionWithin budget 0 cursor (by omega)).bind ?_
    rintro first afterFirst ⟨⟨tokens, passes, derived⟩, -⟩
    have firstLength := passes.length
    have firstPositive := derived.length_pos
    refine outcome_eat (by simp) ?_ fun _ => outcome_pure ⟨_, passes, .last derived⟩
    intro comma afterComma isComma taken
    have commaLength := taken.length
    simp only [List.length_singleton] at commaLength
    refine (accepts_argumentsWithin budget afterComma (by omega)).bind ?_
    rintro rest last ⟨restTokens, restPasses, restDerived⟩
    exact outcome_pure ⟨_, passes.append (taken.append restPasses), .more derived isComma restDerived⟩

end

theorem accepts_expression (cursor : Cursor) :
    Outcome True (expression 0) cursor fun expr next =>
      Accepted (Expression 0) cursor next expr.bare := by
  have accepts := (accepts_expressionWithin (expressionBudget cursor) 0 cursor
    (by simp [expressionBudget])).mono fun _ _ accepted => accepted.1
  unfold Outcome expression
  exact accepts

theorem accepts_call (callee : Name) (cursor : Cursor) :
    Outcome True (call callee) cursor fun call next =>
      call.callee = callee ∧
        Accepted (Listed (Expression 0)) cursor next (Expr.bareAll call.arguments) := by
  have accepts := accepts_callWithin (expressionBudget cursor) callee cursor (by simp [expressionBudget])
  unfold Outcome call
  exact accepts

theorem accepts_declaration {cursor : Cursor} (isMutable : Bool)
    (begins : cursor.peek.kind = .keyword (if isMutable then .mutWord else .immWord)) :
    Outcome True declaration cursor fun stmt next => Accepted Statement cursor next stmt.bare := by
  unfold declaration
  refine outcome_advance (by simp [begins]) fun afterWord taken => ?_
  refine outcome_freshId fun id afterId numbered => ?_
  refine (outcome_identifier (.inl trivial)).bind ?_
  rintro name afterName ⟨token, isName, named, same⟩
  refine (outcome_expect (by simp) (.inl trivial)).bind ?_
  rintro assign afterAssign ⟨isAssign, assigned⟩
  refine (accepts_expression afterAssign).bind ?_
  rintro value afterValue ⟨tokens, valued, derived⟩
  refine (outcome_expect (by simp) (.inl trivial)).bind ?_
  rintro semicolon last ⟨isSemicolon, ended⟩
  have whole := taken.append (numbered.append (named.append (assigned.append (valued.append ended))))
  refine outcome_pure ⟨_, whole, ?_⟩
  have sameWord : (cursor.peek.kind == .keyword .mutWord) = isMutable := by
    cases isMutable <;> simp [begins]
  simp only [Stmt.bare, same, sameWord]
  exact .declare begins isName isAssign derived isSemicolon

theorem accepts_assignment (cursor : Cursor) :
    Outcome True assignment cursor fun stmt next => Accepted Statement cursor next stmt.bare := by
  unfold assignment
  refine outcome_freshId fun id afterId numbered => ?_
  refine (outcome_identifier (.inl trivial)).bind ?_
  rintro target afterName ⟨token, isName, named, same⟩
  refine (outcome_expect (by simp) (.inl trivial)).bind ?_
  rintro assign afterAssign ⟨isAssign, assigned⟩
  refine (accepts_expression afterAssign).bind ?_
  rintro value afterValue ⟨tokens, valued, derived⟩
  refine (outcome_expect (by simp) (.inl trivial)).bind ?_
  rintro semicolon last ⟨isSemicolon, ended⟩
  have whole := numbered.append (named.append (assigned.append (valued.append ended)))
  refine outcome_pure ⟨_, whole, ?_⟩
  simp only [Stmt.bare, same]
  exact .assign isName isAssign derived isSemicolon

theorem accepts_callStatement (cursor : Cursor) :
    Outcome True callStatement cursor fun stmt next => Accepted Statement cursor next stmt.bare := by
  unfold callStatement
  refine (outcome_expect (by simp) (.inl trivial)).bind ?_
  rintro word afterWord ⟨isWord, taken⟩
  refine outcome_freshId fun id afterId numbered => ?_
  refine (outcome_identifier (.inl trivial)).bind ?_
  rintro callee afterName ⟨token, isName, named, same⟩
  refine (accepts_call callee afterName).bind ?_
  rintro call afterCall ⟨rfl, tokens, listed, derived⟩
  refine (outcome_expect (by simp) (.inl trivial)).bind ?_
  rintro semicolon last ⟨isSemicolon, ended⟩
  have whole := taken.append (numbered.append (named.append (listed.append ended)))
  refine outcome_pure ⟨_, whole, ?_⟩
  simp only [Stmt.bare, Call.bare, same]
  exact .call isWord isName derived isSemicolon

theorem accepts_returnStatement (cursor : Cursor) :
    Outcome True returnStatement cursor fun stmt next => Accepted Statement cursor next stmt.bare := by
  unfold returnStatement
  refine (outcome_expect (by simp) (.inl trivial)).bind ?_
  rintro word afterWord ⟨isWord, taken⟩
  refine outcome_freshId fun id afterId numbered => ?_
  refine outcome_check ?_
  dsimp only
  split
  · refine (outcome_expect (by simp) (.inl trivial)).bind ?_
    rintro semicolon last ⟨isSemicolon, ended⟩
    exact outcome_pure ⟨_, taken.append (numbered.append ended), .ret isWord isSemicolon⟩
  · have one : Outcome True (some <$> expression 0) afterId fun value next =>
        ∃ expr, value = some expr ∧ Accepted (Expression 0) afterId next expr.bare :=
      (accepts_expression afterId).bind fun expr next accepted => outcome_pure ⟨expr, rfl, accepted⟩
    refine one.bind ?_
    rintro _ afterValue ⟨value, rfl, tokens, valued, derived⟩
    refine (outcome_expect (by simp) (.inl trivial)).bind ?_
    rintro semicolon last ⟨isSemicolon, ended⟩
    exact outcome_pure ⟨_, taken.append (numbered.append (valued.append ended)),
      .retValue isWord derived isSemicolon⟩

theorem isSeparator_iff (token : Token) : isSeparator token = true ↔ IsDivider token := by
  simp [isSeparator, IsDivider, or_assoc]

theorem bare_separatorItems (marks : List Token) :
    (marks.filterMap separatorItem?).map PrintItem.bare = marks.filterMap dividerItem? := by
  rw [List.map_filterMap]
  congr 1
  funext token
  unfold separatorItem? dividerItem?
  split <;> simp_all [PrintItem.bare]

theorem outcome_separators {failed : Prop} (cursor : Cursor) :
    Outcome failed separators cursor fun marks next =>
      cursor.Passes next marks ∧ (∀ token ∈ marks, IsDivider token) ∧
        marks = cursor.rest.takeWhile isSeparator := by
  refine ⟨⟨List.takeWhile_append_dropWhile.symm, rfl⟩, ?_, rfl⟩
  intro token member
  exact (isSeparator_iff token).mp (List.all_eq_true.mp List.all_takeWhile token member)

theorem accepts_printValuesWithin (budget : Nat) (cursor : Cursor) :
    Outcome True (printValuesWithin budget) cursor fun items next =>
      Accepted Printed cursor next (items.map PrintItem.bare) := by
  induction budget generalizing cursor with
  | zero =>
    rw [printValuesWithin]
    exact outcome_pure ⟨[], .refl cursor, .none⟩
  | succ budget ih =>
    rw [printValuesWithin]
    refine outcome_peek ?_
    split
    · refine (accepts_expression cursor).bind ?_
      rintro value afterValue ⟨tokens, valued, derived⟩
      refine outcome_check ?_
      split
      · exact outcome_pure ⟨tokens, valued, .last derived⟩
      · refine (outcome_separators afterValue).bind ?_
        rintro marks afterMarks ⟨marked, dividers, -⟩
        split
        · exact outcome_peek (outcome_throw trivial)
        next some =>
          refine (ih afterMarks).bind ?_
          rintro rest last ⟨restTokens, restPasses, restDerived⟩
          refine outcome_pure ⟨_, valued.append (marked.append restPasses), ?_⟩
          simp only [List.cons_append, List.map_cons, List.map_append, bare_separatorItems]
          exact .more derived (by simpa using some) dividers restDerived
    · exact outcome_pure ⟨[], .refl cursor, .none⟩

theorem accepts_printStatement (cursor : Cursor) :
    Outcome True printStatement cursor fun stmt next => Accepted Statement cursor next stmt.bare := by
  unfold printStatement
  refine (outcome_expect (by simp) (.inl trivial)).bind ?_
  rintro word afterWord ⟨isWord, taken⟩
  refine outcome_freshId fun id afterId numbered => ?_
  refine (outcome_separators afterId).bind ?_
  rintro marks afterMarks ⟨marked, dividers, -⟩
  refine Outcome.bind (accepts_printValuesWithin _ afterMarks : Outcome True printValues afterMarks _) ?_
  rintro items afterItems ⟨tokens, printed, derived⟩
  refine (outcome_expect (by simp) (.inl trivial)).bind ?_
  rintro semicolon last ⟨isSemicolon, ended⟩
  have whole := taken.append (numbered.append ((marked.append printed).append ended))
  refine outcome_pure ⟨_, whole, ?_⟩
  simp only [Stmt.bare, List.map_append, bare_separatorItems]
  exact .print isWord dividers derived isSemicolon

theorem outcome_openBlock {failed : Prop} {cursor : Cursor}
    (next : failed ∨ cursor.peek.kind = .mark .leftBrace) :
    Outcome failed openBlock cursor fun token last =>
      token.kind = .mark .leftBrace ∧ cursor.Passes last [token] := by
  have opened := outcome_expect (by simp) next
  unfold Outcome openBlock at *
  cases result : expect (.mark .leftBrace) cursor <;> simpa [result] using opened

/-- When every handler records a fault, a rule that was made good without a fault succeeded. -/
theorem recover_of_clean {α : Type} {rule : Parser α} {handler : SyntaxFault → Recovering α}
    {cursor : Cursor} {good : α → Cursor → Prop}
    (outcome : Outcome True rule cursor fun value next => next.faults = [] → good value next)
    (handled : ∀ fault next, (handler fault next).2.faults ≠ [])
    (clean : (recover rule handler cursor).2.faults = []) :
    good (recover rule handler cursor).1 (recover rule handler cursor).2 := by
  unfold recover at *
  cases result : rule cursor with
  | ok value next =>
    simp only [result] at clean ⊢
    exact outcome.ok result clean
  | error fault next =>
    simp only [result] at clean
    exact absurd clean (handled fault next)

mutual

theorem accepts_statementWithin : ∀ (budget : Nat) (cursor : Cursor),
    Outcome True (statementWithin budget) cursor fun stmt next =>
      next.faults = [] → Accepted Statement cursor next stmt.bare
  | 0, cursor => by
    rw [statementWithin]
    exact outcome_peek (outcome_throw trivial)
  | budget + 1, cursor => by
    rw [statementWithin]
    refine outcome_peek ?_
    split
    next isImm => exact (accepts_declaration false isImm).mono fun _ _ accepted _ => accepted
    next isMut => exact (accepts_declaration true isMut).mono fun _ _ accepted _ => accepted
    · exact (accepts_assignment cursor).mono fun _ _ accepted _ => accepted
    · exact (accepts_printStatement cursor).mono fun _ _ accepted _ => accepted
    · exact (accepts_callStatement cursor).mono fun _ _ accepted _ => accepted
    · refine (outcome_expect (by simp) (.inl trivial)).bind ?_
      rintro word afterWord ⟨isWord, taken⟩
      refine outcome_freshId fun id afterId numbered => ?_
      refine (outcome_expect (by simp) (.inl trivial)).bind ?_
      rintro opening afterOpening ⟨isOpening, opened⟩
      refine (accepts_expression afterOpening).bind ?_
      rintro condition afterCondition ⟨tokens, conditioned, derived⟩
      refine (outcome_expect (by simp) (.inl trivial)).bind ?_
      rintro closing afterClosing ⟨isClosing, closed⟩
      refine (accepts_blockWithin budget afterClosing).bind fun thenBlock afterThen thenAccepted => ?_
      have sofar := taken.append (numbered.append (opened.append (conditioned.append closed)))
      refine outcome_eat (by simp) ?_ ?_
      · intro otherwise afterElse isElse elsed
        have one : Outcome True (some <$> blockWithin budget) afterElse fun value next =>
            ∃ block, value = some block ∧ (next.faults = [] → Accepted Grammar.Block afterElse next block.bare) :=
          (accepts_blockWithin budget afterElse).bind fun block next accepted =>
            outcome_pure ⟨block, rfl, accepted⟩
        refine one.bind ?_
        rintro _ last ⟨elseBlock, rfl, elseAccepted⟩
        refine outcome_pure fun clean => ?_
        obtain ⟨other, elsePasses, elseDerived⟩ := elseAccepted clean
        obtain ⟨inner, thenPasses, thenDerived⟩ := thenAccepted
          (elsed.faults ▸ elsePasses.faults ▸ clean)
        refine ⟨_, sofar.append (thenPasses.append (elsed.append elsePasses)), ?_⟩
        simpa [Stmt.bare] using
          Statement.chooseElse isWord isOpening derived isClosing thenDerived isElse elseDerived
      · intro _
        refine outcome_pure fun clean => ?_
        obtain ⟨inner, thenPasses, thenDerived⟩ := thenAccepted clean
        refine ⟨_, sofar.append thenPasses, ?_⟩
        simpa [Stmt.bare] using Statement.choose isWord isOpening derived isClosing thenDerived
    · exact (accepts_returnStatement cursor).mono fun _ _ accepted _ => accepted
    · refine (accepts_blockWithin budget cursor).bind fun body next accepted => ?_
      refine outcome_pure fun clean => ?_
      obtain ⟨tokens, passes, derived⟩ := accepted clean
      exact ⟨tokens, passes, .nested derived⟩
    · exact outcome_throw trivial
    · exact outcome_throw trivial

theorem accepts_blockWithin : ∀ (budget : Nat) (cursor : Cursor),
    Outcome True (blockWithin budget) cursor fun block next =>
      next.faults = [] → Accepted Grammar.Block cursor next block.bare
  | 0, cursor => by
    rw [blockWithin]
    exact outcome_peek (outcome_throw trivial)
  | budget + 1, cursor => by
    rw [blockWithin]
    refine (outcome_openBlock (.inl trivial)).bind ?_
    rintro opening afterOpening ⟨isOpening, opened⟩
    refine outcome_freshId fun id afterId numbered => ?_
    have within : Outcome True (ofRecovering (statementsWithin budget)) afterId fun statements next =>
        next.faults = [] → Accepted (Sequence Statement) afterId next (Stmt.bareAll statements) :=
      accepted_statementsWithin budget afterId
    refine within.bind fun statements afterBody accepted => ?_
    refine (outcome_expect (by simp) (.inl trivial)).bind ?_
    rintro closing last ⟨isClosing, closed⟩
    refine outcome_pure fun clean => ?_
    obtain ⟨tokens, passes, derived⟩ := accepted (closed.faults ▸ clean)
    exact ⟨_, opened.append (numbered.append (passes.append closed)), .braces isOpening derived isClosing⟩

theorem accepted_statementsWithin : ∀ (budget : Nat) (cursor : Cursor),
    (statementsWithin budget cursor).2.faults = [] →
    Accepted (Sequence Statement) cursor (statementsWithin budget cursor).2
      (Stmt.bareAll (statementsWithin budget cursor).1)
  | 0, cursor, _ => by
    rw [statementsWithin]
    exact ⟨[], .refl cursor, .nil⟩
  | budget + 1, cursor, clean => by
    rw [statementsWithin_succ] at clean ⊢
    split at clean
    next ends =>
      rw [if_pos ends]
      exact ⟨[], .refl cursor, .nil⟩
    next goes =>
      rw [if_neg goes]
      obtain ⟨rest, restPasses, restDerived⟩ := accepted_statementsWithin budget _ clean
      obtain ⟨tokens, passes, derived⟩ := recover_of_clean (accepts_statementWithin budget cursor)
        (fun fault next => next.record_faults_ne_nil fault) (restPasses.faults ▸ clean)
      exact ⟨_, passes.append restPasses, .cons derived restDerived⟩

end

theorem accepts_block (cursor : Cursor) :
    Outcome True block cursor fun block next =>
      next.faults = [] → Accepted Grammar.Block cursor next block.bare := by
  unfold Outcome block
  exact accepts_blockWithin (statementBudget cursor) cursor

theorem accepts_typeMark (cursor : Cursor) :
    Outcome True typeMark cursor fun mark next =>
      ∃ token, token.kind = .keyword (typeWord mark.primitive) ∧ cursor.Passes next [token] := by
  unfold typeMark
  refine outcome_peek ?_
  have mark (primitive : Primitive) (isWord : cursor.peek.kind = .keyword (typeWord primitive)) :
      Outcome True (do
        let _ ← advance
        let id ← freshId
        return ⟨primitive, ⟨id, cursor.peek.span⟩⟩ : Parser TypeMark) cursor fun mark next =>
        ∃ token, token.kind = .keyword (typeWord mark.primitive) ∧ cursor.Passes next [token] := by
    refine outcome_advance (by simp [isWord]) fun afterWord taken => ?_
    refine outcome_freshId fun id last numbered => ?_
    exact outcome_pure ⟨_, isWord, taken.append numbered⟩
  dsimp only
  split
  next isInt => exact mark .int isInt
  next isBool => exact mark .bool isBool
  next isVoid => exact mark .void isVoid
  · exact outcome_throw trivial
  · exact outcome_throw trivial

theorem accepts_parameter (cursor : Cursor) :
    Outcome True parameter cursor fun parameter next =>
      Accepted Grammar.Parameter cursor next parameter.bare := by
  unfold parameter
  refine outcome_freshId fun id afterId numbered => ?_
  refine (accepts_typeMark afterId).bind ?_
  rintro type afterType ⟨word, isWord, typed⟩
  dsimp only
  split
  · exact Outcome.bind (outcome_throw trivial : Outcome True _ afterType fun _ _ => False) nofun
  next valued =>
    refine (outcome_identifier (.inl trivial)).bind ?_
    rintro name last ⟨token, isName, named, same⟩
    refine outcome_pure ⟨_, numbered.append (typed.append named), ?_⟩
    simp only [Parameter.bare, same]
    exact .mk isWord valued isName

theorem accepts_parametersWithin : ∀ (budget : Nat) (cursor : Cursor),
    Outcome True (parametersWithin budget) cursor fun list next =>
      Accepted (Divided Grammar.Parameter) cursor next (list.map Parameter.bare)
  | 0, cursor => by
    rw [parametersWithin]
    exact outcome_peek (outcome_throw trivial)
  | budget + 1, cursor => by
    rw [parametersWithin]
    refine (accepts_parameter cursor).bind ?_
    rintro first afterFirst ⟨tokens, passes, derived⟩
    refine outcome_eat (by simp) ?_ fun _ => outcome_pure ⟨_, passes, .last derived⟩
    intro comma afterComma isComma taken
    refine (accepts_parametersWithin budget afterComma).bind ?_
    rintro rest last ⟨restTokens, restPasses, restDerived⟩
    exact outcome_pure ⟨_, passes.append (taken.append restPasses), .more derived isComma restDerived⟩

theorem accepts_parameterList (cursor : Cursor) :
    Outcome True parameterList cursor fun list next =>
      Accepted (Listed Grammar.Parameter) cursor next (list.1.map Parameter.bare) := by
  unfold parameterList
  refine (outcome_expect (by simp) (.inl trivial)).bind ?_
  rintro opening afterOpening ⟨isOpening, opened⟩
  refine outcome_freshId fun id afterId numbered => ?_
  refine outcome_check ?_
  dsimp only
  split
  · refine (outcome_expect (by simp) (.inl trivial)).bind ?_
    rintro closing last ⟨isClosing, closed⟩
    exact outcome_pure ⟨_, opened.append (numbered.append closed), .none isOpening isClosing⟩
  · refine Outcome.bind (accepts_parametersWithin _ afterId : Outcome True parameters afterId _) ?_
    rintro list afterList ⟨tokens, passes, derived⟩
    refine (outcome_expect (by simp) (.inl trivial)).bind ?_
    rintro closing last ⟨isClosing, closed⟩
    exact outcome_pure ⟨_, opened.append (numbered.append (passes.append closed)),
      .some isOpening derived isClosing⟩

theorem accepts_function (cursor : Cursor) :
    Outcome True function cursor fun function next =>
      next.faults = [] → Accepted Grammar.Function cursor next function.bare := by
  unfold function
  refine (outcome_expect (by simp) (.inl trivial)).bind ?_
  rintro word afterWord ⟨isWord, taken⟩
  refine outcome_freshId fun id afterId numbered => ?_
  refine (accepts_typeMark afterId).bind ?_
  rintro result afterResult ⟨typeToken, isType, typed⟩
  refine (outcome_identifier (.inl trivial)).bind ?_
  rintro name afterName ⟨token, isName, named, same⟩
  refine (accepts_parameterList afterName).bind ?_
  rintro ⟨parameters, list⟩ afterList ⟨listTokens, listed, listDerived⟩
  refine (accepts_block afterList).bind fun body last bodyAccepted => ?_
  refine outcome_pure fun clean => ?_
  obtain ⟨inner, bodyPasses, bodyDerived⟩ := bodyAccepted clean
  have whole := taken.append (numbered.append (typed.append (named.append (listed.append bodyPasses))))
  refine ⟨word :: typeToken :: token :: listTokens ++ inner, whole, ?_⟩
  simp only [Function.bare, same]
  exact .mk isWord isType isName listDerived bodyDerived

theorem accepted_functionsWithin : ∀ (budget : Nat) (cursor : Cursor),
    (functionsWithin budget cursor).2.faults = [] →
    Accepted (Sequence Grammar.Function) cursor (functionsWithin budget cursor).2
      ((functionsWithin budget cursor).1.map Function.bare)
  | 0, cursor, _ => by
    rw [functionsWithin]
    exact ⟨[], .refl cursor, .nil⟩
  | budget + 1, cursor, clean => by
    rw [functionsWithin_succ] at clean ⊢
    split at clean
    next goes =>
      rw [if_pos goes]
      obtain ⟨rest, restPasses, restDerived⟩ := accepted_functionsWithin budget _ clean
      have one : Outcome True (do return [← function] : Parser (List Function)) cursor fun list next =>
          next.faults = [] → ∃ function, list = [function] ∧
            Accepted Grammar.Function cursor next function.bare :=
        (accepts_function cursor).bind fun function next accepted =>
          outcome_pure fun clean => ⟨function, rfl, accepted clean⟩
      obtain ⟨function, single, tokens, passes, derived⟩ := recover_of_clean one
        (fun fault next => next.record_faults_ne_nil fault) (restPasses.faults ▸ clean)
      refine ⟨_, passes.append restPasses, ?_⟩
      simp only [single, List.cons_append, List.nil_append, List.map_cons]
      exact .cons derived restDerived
    next ends =>
      rw [if_neg ends]
      exact ⟨[], .refl cursor, .nil⟩

theorem accepts_mainBlock (cursor : Cursor) :
    Outcome True mainBlock cursor fun block next => next.faults = [] →
      ∃ word tokens, word.kind = .keyword .mainWord ∧ cursor.Passes next (word :: tokens) ∧
        Grammar.Block tokens block.bare := by
  unfold mainBlock
  refine (outcome_expect (by simp) (.inl trivial)).bind ?_
  rintro word afterWord ⟨isWord, taken⟩
  refine (accepts_block afterWord).mono fun block next accepted clean => ?_
  obtain ⟨tokens, passes, derived⟩ := accepted clean
  exact ⟨word, tokens, isWord, taken.append passes, derived⟩

/-- A program that is read without a fault is derivable, up to the tokens that are left, of which
the next one says that the file ends. -/
theorem accepted_program {cursor : Cursor} (clean : (program cursor).2.faults = []) :
    Accepted Grammar.Program cursor (program cursor).2 (program cursor).1.bare ∧
      (program cursor).2.peek.kind = .endOfFile := by
  rw [program_eq] at clean ⊢
  dsimp only at clean ⊢
  generalize started : ({ cursor with nextId := cursor.nextId + 1 } : Cursor) = start at clean ⊢
  have numbered : cursor.Passes start [] := started ▸ ⟨rfl, rfl⟩
  generalize finished : recover mainBlock recoverMain (functions start).2 = main at clean ⊢
  unfold expectEnd at clean ⊢
  dsimp only at clean ⊢
  split at clean
  next atEnd =>
    rw [if_pos atEnd]
    subst finished
    obtain ⟨word, inner, isWord, mainPasses, mainDerived⟩ := recover_of_clean
      (accepts_mainBlock (functions start).2) (fun fault next => next.record_faults_ne_nil fault) clean
    obtain ⟨tokens, passes, derived⟩ := accepted_functionsWithin _ start (mainPasses.faults ▸ clean)
    exact ⟨⟨_, numbered.append (passes.append mainPasses), .mk derived isWord mainDerived⟩, atEnd⟩
  · exact absurd clean (record_faults_ne_nil _ _)

end Parser

end Stackwright
