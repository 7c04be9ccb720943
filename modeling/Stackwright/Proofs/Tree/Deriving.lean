import Stackwright.Proofs.Tree.Accepting

/-! What is derivable is accepted. On tokens that the grammar derives each rule of the parser
succeeds, takes just these tokens, records no fault and builds their tree. The rules choose by
the next token, so each derivation says how it begins, and an expression also needs that what
follows does not continue it. -/

set_option autoImplicit false

namespace Stackwright

/-- The kind of the first token, or that of the end of the file. -/
def headKind : List Token → Kind
  | [] => .endOfFile
  | token :: _ => token.kind

theorem Cursor.peek_kind (cursor : Cursor) : cursor.peek.kind = headKind cursor.rest := by
  unfold Cursor.peek headKind
  cases cursor.rest <;> rfl

namespace Grammar

open Stackwright.Parser (startsExpression)

/-- A token of the kind continues no expression of the given row: it opens no argument list and
is no operator of the row or a tighter one. -/
structure Stops (row : Nat) (kind : Kind) : Prop where
  closed : kind ≠ .mark .leftParen
  looser : Looser row kind

theorem Stops.mono {low high : Nat} {kind : Kind} (stops : Stops low kind) (le : low ≤ high) :
    Stops high kind :=
  ⟨stops.closed, fun operator found => Nat.lt_of_lt_of_le (stops.looser operator found) le⟩

theorem stops_of_mark {row : Nat} {kind : Kind} {mark : Mark} (isMark : kind = .mark mark)
    (closed : mark ≠ .leftParen) (none : BinaryOperator.ofKind? (.mark mark) = none) :
    Stops row kind :=
  ⟨by simpa [isMark] using closed, fun operator found => by simp [isMark, none] at found⟩

theorem stops_of_operator {kind : Kind} {operator : BinaryOperator}
    (found : BinaryOperator.ofKind? kind = some operator) : Stops (operator.row + 1) kind := by
  refine ⟨fun paren => ?_, fun other same => ?_⟩
  · simp [paren, BinaryOperator.ofKind?] at found
  · obtain rfl : operator = other := Option.some.inj (found.symm.trans same)
    exact Nat.lt_succ_self _

theorem IsDivider.stops {token : Token} {row : Nat} : IsDivider token → Stops row token.kind
  | .inl comma => stops_of_mark comma (by simp) rfl
  | .inr (.inl space) => stops_of_mark space (by simp) rfl
  | .inr (.inr newline) => stops_of_mark newline (by simp) rfl

theorem Expression.begins {row : Nat} {tokens : List Token} {expr : Expr} :
    Expression row tokens expr → ∀ rest, startsExpression (headKind (tokens ++ rest)) = true
  | .tighter inner, rest => inner.begins rest
  | .chain left _ _, rest => by
    rw [List.append_assoc]
    exact left.begins _
  | .negation isMinus _, _ => by simp [headKind, startsExpression, isMinus]
  | .literal isLiteral _, _ => by simp [headKind, startsExpression, isLiteral]
  | .named isName, _ => by simp [headKind, startsExpression, isName]
  | .call isName _, _ => by simp [headKind, startsExpression, isName]
  | .group isParen _ _, _ => by simp [headKind, startsExpression, isParen]

theorem Divided.begins {tokens : List Token} {arguments : List Expr} :
    Divided (Expression 0) tokens arguments →
      ∀ rest, startsExpression (headKind (tokens ++ rest)) = true
  | .last derived, rest => derived.begins rest
  | .more derived _ _, rest => by
    rw [List.append_assoc]
    exact derived.begins _

theorem Listed.begins {α : Type} {part : List Token → α → Prop} {tokens : List Token} {values : List α} :
    Listed part tokens values → ∀ rest, headKind (tokens ++ rest) = .mark .leftParen
  | .none isOpening _, _ => isOpening
  | .some isOpening _ _, _ => isOpening

/-- A kind that begins an expression differs from one that does not. -/
theorem ne_of_starts {kind other : Kind} (starts : startsExpression kind = true)
    (not : startsExpression other = false) : kind ≠ other := by
  rintro rfl
  simp [not] at starts

end Grammar

namespace Parser

open Cursor Grammar

section
variable {α β γ : Type} {cursor : Cursor} {tokens rest : List Token}

/-- The rule succeeds, takes the given tokens and builds the tree. -/
def Builds (rule : Parser α) (bare : α → β) (cursor : Cursor) (tokens : List Token) (tree : β) : Prop :=
  Outcome False rule cursor fun value next => bare value = tree ∧ cursor.Passes next tokens

/-- Build a part from the tokens at the front, then go on with the rest. -/
theorem Builds.bind {rule : Parser α} {bare : α → β} {tree : β} {follow : α → Parser γ}
    {good : γ → Cursor → Prop} (builds : Builds rule bare cursor tokens tree)
    (ahead : cursor.rest = tokens ++ rest)
    (two : ∀ value next, bare value = tree → cursor.Passes next tokens → next.rest = rest →
      Outcome False (follow value) next good) :
    Outcome False (rule >>= follow) cursor good :=
  Outcome.bind builds fun value next built => two value next built.1 built.2 (built.2.rest_eq ahead)

theorem finds_peek {token : Token} (ahead : cursor.rest = token :: rest) {follow : Token → Parser β}
    {good : β → Cursor → Prop} (two : Outcome False (follow token) cursor good) :
    Outcome False (peek >>= follow) cursor good :=
  outcome_peek (peek_of_rest ahead ▸ two)

theorem finds_advance {token : Token} (ahead : cursor.rest = token :: rest) {follow : Token → Parser β}
    {good : β → Cursor → Prop}
    (two : ∀ next, cursor.Passes next [token] → next.rest = rest → Outcome False (follow token) next good) :
    Outcome False (advance >>= follow) cursor good := by
  have taken : cursor.advance = { cursor with rest := rest, previous := some token.span } := by
    simp [Cursor.advance, ahead]
  have passes : cursor.Passes cursor.advance [token] := by
    rw [taken]
    exact ⟨ahead, rfl⟩
  have follows := two cursor.advance passes (by rw [taken])
  rw [← peek_of_rest ahead] at follows
  exact follows

theorem finds_expect {kind : Kind} {token : Token} (ahead : cursor.rest = token :: rest)
    (isKind : token.kind = kind) (real : kind ≠ .endOfFile) {follow : Token → Parser β}
    {good : β → Cursor → Prop}
    (two : ∀ found next, cursor.Passes next [token] → next.rest = rest →
      Outcome False (follow found) next good) :
    Outcome False (expect kind >>= follow) cursor good := by
  refine (outcome_expect real (.inr (peek_of_rest ahead ▸ isKind))).bind fun found next taken => ?_
  have front := taken.2.rest.symm.trans ahead
  simp only [List.cons_append, List.nil_append, List.cons.injEq] at front
  exact two found next (front.1 ▸ taken.2) front.2

theorem finds_identifier {token : Token} (ahead : cursor.rest = token :: rest)
    (isName : token.kind = .identifier) {follow : Name → Parser β} {good : β → Cursor → Prop}
    (two : ∀ name next, name.bare = Grammar.name token → cursor.Passes next [token] → next.rest = rest →
      Outcome False (follow name) next good) :
    Outcome False (identifier >>= follow) cursor good := by
  refine (outcome_identifier (.inr (peek_of_rest ahead ▸ isName))).bind ?_
  rintro name next ⟨found, -, taken, same⟩
  have front := taken.rest.symm.trans ahead
  simp only [List.cons_append, List.nil_append, List.cons.injEq] at front
  exact two name next (front.1 ▸ same) (front.1 ▸ taken) front.2

theorem finds_eat {kind : Kind} {token : Token} (ahead : cursor.rest = token :: rest)
    (isKind : token.kind = kind) (real : kind ≠ .endOfFile) {follow : Bool → Parser β}
    {good : β → Cursor → Prop}
    (two : ∀ next, cursor.Passes next [token] → next.rest = rest → Outcome False (follow true) next good) :
    Outcome False (eat kind >>= follow) cursor good := by
  refine outcome_eat real (fun found next _ taken => ?_) fun missing => ?_
  · have front := taken.rest.symm.trans ahead
    simp only [List.cons_append, List.nil_append, List.cons.injEq] at front
    exact two next (front.1 ▸ taken) front.2
  · exact absurd isKind (peek_of_rest ahead ▸ missing)

theorem misses_eat {kind : Kind} (missing : headKind cursor.rest ≠ kind) (real : kind ≠ .endOfFile)
    {follow : Bool → Parser β} {good : β → Cursor → Prop}
    (two : Outcome False (follow false) cursor good) :
    Outcome False (eat kind >>= follow) cursor good := by
  refine outcome_eat real (fun found next isKind taken => ?_) fun _ => two
  rw [taken.rest] at missing
  exact absurd isKind missing

theorem finds_freshId {follow : Nat → Parser β} {good : β → Cursor → Prop}
    (ahead : cursor.rest = rest)
    (two : ∀ id next, cursor.Passes next [] → next.rest = rest → Outcome False (follow id) next good) :
    Outcome False (freshId >>= follow) cursor good :=
  outcome_freshId fun id next numbered => two id next numbered (numbered.rest_eq ahead)

end

end Parser

namespace Grammar

open Cursor Stackwright.Parser

/-- Before a token that binds too loosely the operand stays as it is. -/
theorem operatorsWithin_of_looser {minimum : Nat} {cursor : Cursor} (budget : Nat) (left : Expr)
    (looser : Looser (rowOf minimum) cursor.peek.kind) :
    operatorsWithin budget minimum left cursor = .ok left cursor := by
  have stays : Outcome False (operatorsWithin budget minimum left) cursor fun value next =>
      value = left ∧ next = cursor := by
    cases budget with
    | zero =>
      rw [operatorsWithin]
      exact outcome_pure ⟨rfl, rfl⟩
    | succ budget =>
      rw [operatorsWithin]
      refine outcome_peek ?_
      split
      · exact outcome_pure ⟨rfl, rfl⟩
      next operator found =>
        have below := looser operator found
        have within := rowOf_le_row_iff minimum operator
        rw [if_pos (by omega)]
        exact outcome_pure ⟨rfl, rfl⟩
  obtain ⟨_, _, result, rfl, rfl⟩ := stays.exists_ok
  exact result

/-- An operator that binds tightly enough takes the operand on its right. -/
theorem operatorsWithin_of_chain {budget minimum : Nat} {cursor next : Cursor} {left right : Expr}
    {operator : BinaryOperator} (found : BinaryOperator.ofKind? cursor.peek.kind = some operator)
    (binds : minimum ≤ operator.leftPower)
    (operand : expressionWithin budget operator.rightPower cursor.advance = .ok right next) :
    operatorsWithin (budget + 1) minimum left cursor =
      operatorsWithin budget minimum
        (.binary operator left right ⟨next.nextId, left.span.merge right.span⟩)
        { next with nextId := next.nextId + 1 } := by
  have looked : Parser.peek cursor = .ok cursor.peek cursor := rfl
  have taken : Parser.advance cursor = .ok cursor.peek cursor.advance := rfl
  have tight : ¬ operator.leftPower < minimum := by omega
  rw [operatorsWithin]
  simp only [bind, EStateM.bind, looked, found, if_neg tight, taken, operand]
  rfl

/-- Reading an expression comes down to going on behind the given tokens, with their tree as the
operand on the left. -/
def Continues (budget minimum : Nat) (cursor : Cursor) (tokens : List Token) (tree : Expr) : Prop :=
  ∃ amount value next, value.bare = tree ∧ cursor.Passes next tokens ∧
    2 * next.rest.length + 1 ≤ amount ∧
    expressionWithin budget minimum cursor = operatorsWithin amount minimum value next

/-- An expression that begins with an operand: reading its first token leaves budget for the rest. -/
theorem continues_of_operand {budget minimum : Nat} {cursor : Cursor} {first : Token} {tokens rest : List Token}
    {tree : Expr} (ahead : cursor.rest = first :: rest) (enough : 2 * cursor.rest.length + 2 ≤ budget + 1)
    (operand : ∀ less, 2 * rest.length + 2 ≤ less → Builds (operandWithin (less + 1)) Expr.bare cursor tokens tree) :
    Continues (budget + 1) minimum cursor tokens tree := by
  have length : cursor.rest.length = rest.length + 1 := congrArg List.length ahead
  obtain ⟨less, rfl⟩ : ∃ less, budget = less + 1 := ⟨budget - 1, by omega⟩
  obtain ⟨value, next, result, same, passes⟩ := (operand less (by omega)).exists_ok
  have shorter := passes.length
  refine ⟨less + 1, value, next, same, passes, by omega, ?_⟩
  rw [expressionWithin]
  change EStateM.bind _ _ _ = _
  unfold EStateM.bind
  rw [result]

/-- An expression is complete before a token that binds too loosely. -/
theorem Continues.builds {budget minimum : Nat} {cursor : Cursor} {tokens rest : List Token} {tree : Expr}
    (continues : Continues budget minimum cursor tokens tree) (ahead : cursor.rest = tokens ++ rest)
    (looser : Looser (rowOf minimum) (headKind rest)) :
    Builds (expressionWithin budget minimum) Expr.bare cursor tokens tree := by
  obtain ⟨amount, value, next, same, passes, -, result⟩ := continues
  have nextLooser : Looser (rowOf minimum) next.peek.kind := by
    rw [next.peek_kind, passes.rest_eq ahead]
    exact looser
  have stopped := operatorsWithin_of_looser amount value nextLooser
  unfold Builds Outcome
  rw [result, stopped]
  exact ⟨same, passes⟩

/-- An operator behind the expression read so far takes what is read behind it as its right operand. -/
theorem Continues.chain {budget minimum : Nat} {cursor : Cursor} {mark : Token} {before after rest : List Token}
    {operator : BinaryOperator} {left right : Expr} (continues : Continues budget minimum cursor before left)
    (ahead : cursor.rest = before ++ (mark :: after ++ rest))
    (isMark : BinaryOperator.ofKind? mark.kind = some operator) (binds : minimum ≤ operator.leftPower)
    (operand : ∀ amount next, next.rest = after ++ rest → 2 * next.rest.length + 2 ≤ amount →
      Builds (expressionWithin amount operator.rightPower) Expr.bare next after right) :
    Continues budget minimum cursor (before ++ mark :: after) (.binary operator left right .blank) := by
  obtain ⟨amount, leftValue, afterLeft, leftSame, leftPasses, leftEnough, leftResult⟩ := continues
  have markAhead := leftPasses.rest_eq ahead
  have isNext : BinaryOperator.ofKind? afterLeft.peek.kind = some operator := by
    rw [peek_of_rest markAhead]
    exact isMark
  have taken : afterLeft.Passes afterLeft.advance [mark] := by
    have more : afterLeft.peek.kind ≠ .endOfFile := by
      intro ended
      simp [ended, BinaryOperator.ofKind?] at isNext
    simpa only [peek_of_rest markAhead] using passes_advance more
  have markLength := taken.length
  simp only [List.length_singleton] at markLength
  obtain ⟨amount, rfl⟩ : ∃ less, amount = less + 1 := ⟨amount - 1, by omega⟩
  obtain ⟨rightValue, afterRight, rightResult, rightSame, rightPasses⟩ :=
    (operand amount afterLeft.advance (taken.rest_eq markAhead) (by omega)).exists_ok
  have rightLength := rightPasses.length
  refine ⟨amount, _, _, ?_, ?_, ?_, leftResult.trans (operatorsWithin_of_chain isNext binds rightResult)⟩
  · simp [Expr.bare, leftSame, rightSame]
  · have numbered : afterRight.Passes { afterRight with nextId := afterRight.nextId + 1 } [] := ⟨rfl, rfl⟩
    simpa using leftPasses.append (taken.append (rightPasses.append numbered))
  · simp only
    omega

/-! Each kind of operand is built from its tokens. Where it holds other parts, those are built
wherever their tokens come next. -/

section
variable {budget : Nat} {cursor : Cursor} {token : Token} {tokens rest : List Token} {tree : Expr}

theorem builds_literal {value : Literal} (ahead : cursor.rest = token :: rest)
    (isLiteral : token.kind.isLiteral = true) (decoded : Literal.ofToken token = .ok value) :
    Builds (operandWithin (budget + 1)) Expr.bare cursor [token] (.literal value .blank) := by
  have builds : Builds (literal token) Expr.bare cursor [token] (.literal value .blank) := by
    unfold literal
    refine finds_advance ahead fun afterToken taken _ => ?_
    rw [decoded]
    refine outcome_freshId fun id last numbered => ?_
    exact outcome_pure ⟨rfl, taken.append numbered⟩
  rw [operandWithin]
  refine finds_peek ahead ?_
  generalize token.kind = kind at isLiteral ⊢
  unfold Kind.isLiteral at isLiteral
  split at isLiteral
  all_goals try exact builds
  simp at isLiteral

theorem builds_negation (ahead : cursor.rest = token :: (tokens ++ rest)) (isMinus : token.kind = .mark .minus)
    (operand : ∀ next : Cursor, next.rest = tokens ++ rest →
      Builds (expressionWithin budget UnaryOperator.negate.power) Expr.bare next tokens tree) :
    Builds (operandWithin (budget + 1)) Expr.bare cursor (token :: tokens) (.unary .negate tree .blank) := by
  rw [operandWithin]
  refine finds_peek ahead ?_
  simp only [isMinus]
  refine finds_advance ahead fun afterMark taken operandAhead => ?_
  refine (operand afterMark operandAhead).bind operandAhead fun value afterOperand same passes _ => ?_
  refine outcome_freshId fun id last numbered => ?_
  refine outcome_pure ⟨by simp [Expr.bare, same], ?_⟩
  simpa using taken.append (passes.append numbered)

theorem builds_named (ahead : cursor.rest = token :: rest) (isName : token.kind = .identifier)
    (closed : headKind rest ≠ .mark .leftParen) :
    Builds (operandWithin (budget + 1)) Expr.bare cursor [token] (.named (name token)) := by
  rw [operandWithin]
  refine finds_peek ahead ?_
  simp only [isName]
  refine finds_identifier ahead isName fun name afterName same taken restAhead => ?_
  refine outcome_check ?_
  have notCall : (afterName.peek.kind == .mark .leftParen) = false := by
    rw [afterName.peek_kind, restAhead]
    simpa using closed
  simp only [notCall]
  exact outcome_pure ⟨by simp [Expr.bare, same], taken⟩

theorem builds_invocation {arguments : List Expr} (ahead : cursor.rest = token :: (tokens ++ rest))
    (isName : token.kind = .identifier) (opens : headKind (tokens ++ rest) = .mark .leftParen)
    (list : ∀ (callee : Name) (next : Cursor), next.rest = tokens ++ rest →
      Outcome False (callWithin budget callee) next fun call last =>
        call.callee = callee ∧ Expr.bareAll call.arguments = arguments ∧ next.Passes last tokens) :
    Builds (operandWithin (budget + 1)) Expr.bare cursor (token :: tokens)
      (.call (name token) arguments .blank .blank) := by
  rw [operandWithin]
  refine finds_peek ahead ?_
  simp only [isName]
  refine finds_identifier ahead isName fun name afterName same taken listAhead => ?_
  refine outcome_check ?_
  have isCall : (afterName.peek.kind == .mark .leftParen) = true := by
    rw [afterName.peek_kind, listAhead]
    simpa using opens
  simp only [isCall, if_true]
  refine (list name afterName listAhead).bind ?_
  rintro call last ⟨sameCallee, sameArguments, passes⟩
  refine outcome_pure ⟨?_, taken.append passes⟩
  simp [Call.expr, Expr.bare, sameCallee, same, sameArguments]

theorem builds_group {closing : Token} (ahead : cursor.rest = token :: (tokens ++ closing :: rest))
    (isOpening : token.kind = .mark .leftParen) (isClosing : closing.kind = .mark .rightParen)
    (inner : ∀ next : Cursor, next.rest = tokens ++ closing :: rest →
      Builds (expressionWithin budget 0) Expr.bare next tokens tree) :
    Builds (operandWithin (budget + 1)) Expr.bare cursor (token :: tokens ++ [closing]) tree := by
  rw [operandWithin]
  refine finds_peek ahead ?_
  simp only [isOpening]
  refine finds_advance ahead fun afterOpening opened innerAhead => ?_
  refine (inner afterOpening innerAhead).bind innerAhead fun value afterInner same passes closingAhead => ?_
  refine finds_expect closingAhead isClosing (by simp) fun _ last closed _ => ?_
  exact outcome_pure ⟨same, opened.append (passes.append closed)⟩

end

mutual

theorem Expression.continues {row : Nat} {tokens : List Token} {tree : Expr} :
    Expression row tokens tree → ∀ (budget minimum : Nat) (cursor : Cursor) (rest : List Token),
      cursor.rest = tokens ++ rest → rowOf minimum ≤ row → Stops (row + 1) (headKind rest) →
      2 * cursor.rest.length + 2 ≤ budget → Continues budget minimum cursor tokens tree
  | _, 0, _, _, _, _, _, _, enough => by omega
  | .tighter inner, budget + 1, minimum, cursor, rest, ahead, tight, stops, enough =>
    Expression.continues inner (budget + 1) minimum cursor rest ahead (Nat.le_succ_of_le tight)
      (stops.mono (Nat.le_succ _)) enough
  | @Expression.chain operator _ _ _ _ _ left isMark right, budget + 1, minimum, cursor, rest, ahead, tight,
      stops, enough => by
    rw [List.append_assoc] at ahead
    have begun := Expression.continues left (budget + 1) minimum cursor _ ahead tight
      (stops_of_operator isMark) enough
    have binds : minimum ≤ operator.leftPower := (rowOf_le_row_iff minimum operator).mp tight
    refine begun.chain ahead isMark binds fun amount next rightAhead rightEnough => ?_
    -- What stops this row stops the right operand: it is read from the row above.
    have continues := Expression.continues right amount operator.rightPower next rest rightAhead (by simp)
      (stops.mono (Nat.le_succ _)) rightEnough
    exact continues.builds rightAhead (by simpa using stops.looser)
  | .negation isMinus operand, budget + 1, minimum, cursor, rest, ahead, _, stops, enough => by
    refine continues_of_operand ahead enough fun less innerEnough => ?_
    refine builds_negation ahead isMinus fun next operandAhead => ?_
    have continues := Expression.continues operand less UnaryOperator.negate.power next rest operandAhead
      (by decide) stops (operandAhead ▸ innerEnough)
    -- Negation binds tighter than every binary operator.
    refine continues.builds operandAhead fun operator _ => ?_
    have := operator.row_le
    change operator.row < 3
    omega
  | .literal isLiteral decoded, budget + 1, minimum, cursor, rest, ahead, _, _, enough =>
    continues_of_operand ahead enough fun _ _ => builds_literal ahead isLiteral decoded
  | .named isName, budget + 1, minimum, cursor, rest, ahead, _, stops, enough =>
    continues_of_operand ahead enough fun _ _ => builds_named ahead isName stops.closed
  | .call isName listed, budget + 1, minimum, cursor, rest, ahead, _, _, enough => by
    refine continues_of_operand ahead enough fun less innerEnough => ?_
    refine builds_invocation ahead isName (listed.begins rest) fun callee next listAhead => ?_
    exact Listed.builds listed less callee next rest listAhead (listAhead ▸ innerEnough)
  | .group isOpening inner isClosing, budget + 1, minimum, cursor, rest, ahead, _, _, enough => by
    rw [List.cons_append, List.cons_append, List.append_assoc] at ahead
    refine continues_of_operand ahead enough fun less innerEnough => ?_
    refine builds_group ahead isOpening isClosing fun next innerAhead => ?_
    have stopped : Stops 0 (headKind ([_] ++ rest)) := stops_of_mark isClosing (by simp) rfl
    have continues := Expression.continues inner less 0 next _ innerAhead (by decide)
      (stopped.mono (Nat.zero_le _)) (innerAhead ▸ innerEnough)
    exact continues.builds innerAhead stopped.looser

theorem Listed.builds {tokens : List Token} {arguments : List Expr} :
    Listed (Expression 0) tokens arguments →
      ∀ (budget : Nat) (callee : Name) (cursor : Cursor) (rest : List Token),
      cursor.rest = tokens ++ rest → 2 * cursor.rest.length + 2 ≤ budget →
      Outcome False (callWithin budget callee) cursor fun call next =>
        call.callee = callee ∧ Expr.bareAll call.arguments = arguments ∧ cursor.Passes next tokens
  | _, 0, _, _, _, _, enough => by omega
  | .none isOpening isClosing, budget + 1, callee, cursor, rest, ahead, enough => by
    rw [callWithin]
    refine finds_expect ahead isOpening (by simp) fun opening afterOpening opened closingAhead => ?_
    refine finds_freshId closingAhead fun list afterList numbered closingAhead => ?_
    refine outcome_check ?_
    have closes : (afterList.peek.kind == .mark .rightParen) = true := by
      simp [peek_of_rest closingAhead, isClosing]
    simp only [closes, if_true]
    refine finds_expect closingAhead isClosing (by simp) fun closing afterClosing closed _ => ?_
    refine outcome_freshId fun id last ended => ?_
    exact outcome_pure ⟨rfl, rfl, opened.append (numbered.append (closed.append ended))⟩
  | .some isOpening divided isClosing, budget + 1, callee, cursor, rest, ahead, enough => by
    rw [List.cons_append, List.cons_append, List.append_assoc] at ahead
    rw [callWithin]
    refine finds_expect ahead isOpening (by simp) fun opening afterOpening opened argumentsAhead => ?_
    have openingLength := opened.length
    simp only [List.length_singleton] at openingLength
    refine finds_freshId argumentsAhead fun list afterList numbered argumentsAhead => ?_
    have listLength := numbered.length
    simp only [List.length_nil] at listLength
    refine outcome_check ?_
    have goes : (afterList.peek.kind == .mark .rightParen) = false := by
      rw [afterList.peek_kind, argumentsAhead]
      simpa using ne_of_starts (divided.begins _) rfl
    simp only [goes]
    refine Builds.bind (Divided.builds divided budget afterList _ argumentsAhead isClosing (by omega))
      argumentsAhead ?_
    intro arguments afterArguments same passes closingAhead
    refine finds_expect closingAhead isClosing (by simp) fun closing afterClosing closed _ => ?_
    refine outcome_freshId fun id last ended => ?_
    refine outcome_pure ⟨rfl, same, ?_⟩
    exact opened.append (numbered.append (passes.append (closed.append ended)))

theorem Divided.builds {tokens : List Token} {arguments : List Expr} :
    Divided (Expression 0) tokens arguments →
      ∀ (budget : Nat) (cursor : Cursor) (rest : List Token),
      cursor.rest = tokens ++ rest → headKind rest = .mark .rightParen →
      2 * cursor.rest.length + 3 ≤ budget →
      Builds (argumentsWithin budget) Expr.bareAll cursor tokens arguments
  | _, 0, _, _, _, _, enough => by omega
  | .last derived, budget + 1, cursor, rest, ahead, closes, enough => by
    rw [argumentsWithin]
    have stopped : Stops 0 (headKind rest) := stops_of_mark closes (by simp) rfl
    have continues := Expression.continues derived budget 0 cursor rest ahead (by decide)
      (stopped.mono (Nat.zero_le _)) (by omega)
    refine (continues.builds ahead stopped.looser).bind ahead ?_
    intro first afterFirst same passes restAhead
    refine misses_eat (by simp [restAhead, closes]) (by simp) ?_
    exact outcome_pure ⟨by simp [Expr.bareAll, same], passes⟩
  | @Divided.more _ _ _ others comma _ _ derived isComma divided, budget + 1, cursor, rest, ahead,
      closes, enough => by
    rw [argumentsWithin]
    rw [List.append_assoc] at ahead
    have stopped : Stops 0 (headKind (comma :: others ++ rest)) := stops_of_mark isComma (by simp) rfl
    have continues := Expression.continues derived budget 0 cursor _ ahead (by decide)
      (stopped.mono (Nat.zero_le _)) (by omega)
    refine (continues.builds ahead stopped.looser).bind ahead ?_
    intro first afterFirst same passes commaAhead
    have firstLength := passes.length
    have firstPositive := derived.length_pos
    refine finds_eat commaAhead isComma (by simp) fun afterComma taken restAhead => ?_
    have commaLength := taken.length
    simp only [List.length_singleton] at commaLength
    refine Builds.bind (Divided.builds divided budget afterComma rest restAhead closes (by omega))
      restAhead ?_
    intro arguments last sameRest restPasses _
    refine outcome_pure ⟨by simp [Expr.bareAll, same, sameRest], ?_⟩
    exact passes.append (taken.append restPasses)

end

theorem Expression.builds {tokens rest : List Token} {tree : Expr} {cursor : Cursor}
    (derived : Expression 0 tokens tree) (ahead : cursor.rest = tokens ++ rest)
    (stops : Stops 0 (headKind rest)) : Builds (expression 0) Expr.bare cursor tokens tree := by
  have continues := derived.continues (expressionBudget cursor) 0 cursor rest ahead (by decide)
    (stops.mono (Nat.zero_le _)) (by simp [expressionBudget])
  have builds := continues.builds ahead stops.looser
  unfold Builds Outcome expression
  exact builds

theorem Listed.builds_call {tokens rest : List Token} {arguments : List Expr} {cursor : Cursor}
    (listed : Listed (Expression 0) tokens arguments) (callee : Name)
    (ahead : cursor.rest = tokens ++ rest) :
    Builds (call callee) Call.bare cursor tokens ⟨callee.bare, arguments, .blank, .blank⟩ := by
  have builds : Builds (callWithin (expressionBudget cursor) callee) Call.bare cursor tokens
      ⟨callee.bare, arguments, .blank, .blank⟩ := by
    refine Outcome.mono (listed.builds (expressionBudget cursor) callee cursor rest ahead
      (by simp [expressionBudget])) ?_
    rintro call next ⟨sameCallee, sameArguments, passes⟩
    exact ⟨by simp [Call.bare, sameCallee, sameArguments], passes⟩
  unfold Builds Outcome call
  exact builds

end Grammar

end Stackwright
