import Stackwright.Proofs.Tree.Body
import Stackwright.Proofs.Tree.Progress

/-! Parsing ends. A goal leads to another one only with fewer tokens ahead or, with as many, to one of a
lower rank. So what one level of the recursion does depends on the goals below alone: a budget that is
enough for a goal never shows, the parser's rules answer the recursion without budgets, and no more than
three calls are nested for each token. -/

set_option autoImplicit false

namespace Stackwright.Parser

open Cursor

namespace Goal

/-- A budget that is enough for the goal with so many tokens left. -/
@[simp] def need (length : Nat) : Goal → Nat
  | .operators _ _ | .operand => 2 * length + 1
  | .expression _ | .call _ => 2 * length + 2
  | .arguments => 2 * length + 3
  | .block => 3 * length + 1
  | .statement => 3 * length + 2
  | .statements => 3 * length + 3
  | .printValues | .parameters | .functions | .program => length + 1

/-- Between two tokens a rule is only called from a rule of higher rank. -/
@[simp] def rank : Goal → Nat
  | .operators _ _ | .operand | .call _ | .block | .parameters | .functions => 0
  | .expression _ | .statement | .program => 1
  | .arguments | .printValues | .statements => 2

/-- How many tokens the goal takes at least when it is met. -/
def least : Goal → Nat
  | .operators _ _ | .printValues | .statements | .functions | .program => 0
  | .expression _ | .operand | .call _ | .arguments | .statement | .block | .parameters => 1

end Goal

/-- A rule that ends further ahead, whether it succeeds or fails. -/
abbrev Advances {α : Type} (least : Nat) (rule : Parser α) (cursor : Cursor) : Prop :=
  Meets rule cursor (fun _ next => cursor.Beyond next least) (fun _ next => cursor.Beyond next 0)

/-- Rules that give no token back. -/
def Sound (one : Rules) : Prop := ∀ goal cursor, Advances goal.least (one goal) cursor

section Congruence

variable {α β : Type} {rule other : Parser α} {follow onward : α → Parser β} {start cursor next : Cursor}
  {least sofar floor : Nat} {good : β → Cursor → Prop}

theorem beyond_of_suffix (suffix : next.rest <:+ cursor.rest) : cursor.Beyond next 0 := ⟨suffix, suffix.length_le⟩

theorem Steps.advances (steps : Steps least rule cursor) : Advances least rule cursor where
  ok given := (steps.ok given).toBeyond
  error given := beyond_of_suffix (steps.error given).rest
  blind := steps.blind

theorem Advances.bind (advances : Advances least rule cursor) (beyond : start.Beyond cursor sofar)
    (le : floor ≤ sofar) (two : ∀ value next, start.Beyond next (sofar + least) →
      Meets (follow value) next good (fun _ next => start.Beyond next floor)) :
    Meets (rule >>= follow) cursor good (fun _ next => start.Beyond next floor) := by
  have one : Meets rule cursor (fun _ next => start.Beyond next (sofar + least))
      (fun _ next => start.Beyond next floor) :=
    ⟨fun given => beyond.trans (advances.ok given), fun given => (beyond.trans (advances.error given)).weaken le,
      advances.blind⟩
  exact one.bind two

/-- Two rules do the same at the cursor. -/
def Alike (other rule : Parser α) (cursor : Cursor) : Prop := other cursor = rule cursor

/-- Begin alike, then go on alike. -/
theorem Alike.andThen (same : Alike other rule cursor)
    (rest : ∀ value next, rule cursor = .ok value next → Alike (onward value) (follow value) next) :
    Alike (other >>= onward) (rule >>= follow) cursor := by
  unfold Alike at same ⊢
  cases given : rule cursor with
  | ok value next =>
    rw [bind_of_ok given, bind_of_ok (same.trans given)]
    exact rest value next given
  | error fault next => rw [bind_of_error given, bind_of_error (same.trans given)]

theorem Alike.bind (same : Alike other rule cursor) : Alike (other >>= follow) (rule >>= follow) cursor :=
  same.andThen fun _ _ _ => rfl

/-- What follows need only be alike where the rule can come to. -/
theorem Advances.congr (advances : Advances least rule cursor) (beyond : start.Beyond cursor sofar)
    (same : Alike other rule cursor)
    (rest : ∀ value next, start.Beyond next (sofar + least) → Alike (onward value) (follow value) next) :
    Alike (other >>= onward) (rule >>= follow) cursor :=
  same.andThen fun value next given => rest value next (beyond.trans (advances.ok given))

theorem Steps.congr (steps : Steps least rule cursor) (beyond : start.Beyond cursor sofar)
    (rest : ∀ value next, start.Beyond next (sofar + least) → Alike (onward value) (follow value) next) :
    Alike (rule >>= onward) (rule >>= follow) cursor :=
  steps.advances.congr beyond rfl rest

/-- Look at the next token, then go on alike. -/
theorem peek_congr {follow onward : Token → Parser β} (rest : Alike (onward cursor.peek) (follow cursor.peek) cursor) :
    Alike (peek >>= onward) (peek >>= follow) cursor := rest

theorem check_congr {kind : Kind} {follow onward : Bool → Parser β}
    (rest : Alike (onward (cursor.peek.kind == kind)) (follow (cursor.peek.kind == kind)) cursor) :
    Alike (check kind >>= onward) (check kind >>= follow) cursor := rest

theorem get_congr {follow onward : Cursor → Parser β} (rest : Alike (onward cursor) (follow cursor) cursor) :
    Alike (get >>= onward) (get >>= follow) cursor := rest

/-- A rule whose failures are made good, then go on alike from where it has come to. -/
theorem Alike.recovered {handler : SyntaxFault → Recovering α} (same : Alike other rule cursor)
    (rest : Alike (onward (recover rule handler cursor).1) (follow (recover rule handler cursor).1)
      (recover rule handler cursor).2) :
    Alike (ofRecovering (recover other handler) >>= onward) (ofRecovering (recover rule handler) >>= follow)
      cursor := by
  have begins : recover other handler cursor = recover rule handler cursor := by
    rw [Parser.recover, Parser.recover, same]
  unfold Alike at rest ⊢
  have left : ofRecovering (recover other handler) cursor =
      .ok (recover rule handler cursor).1 (recover rule handler cursor).2 := by
    rw [ofRecovering, begins]
    rfl
  rw [bind_of_ok left, rest]
  rfl

end Congruence

/-- A rule that never fails is sound as soon as it gives no token back. -/
theorem advances_ofRecovering {α : Type} {rule : Recovering α} (blind : Blind rule) {cursor : Cursor}
    (suffix : (rule cursor).2.rest <:+ cursor.rest) : Advances 0 (ofRecovering rule) cursor :=
  meets_ofRecovering blind (beyond_of_suffix suffix)

theorem advances_within (budget : Nat) (goal : Goal) (cursor : Cursor) :
    Advances goal.least (within budget goal) cursor := by
  cases goal with
  | expression minimum => exact (steps_expressionWithin budget minimum cursor).advances
  | operators minimum left => exact (steps_operatorsWithin budget minimum left cursor).advances
  | operand => exact (steps_operandWithin budget cursor).advances
  | call callee => exact (steps_callWithin budget callee cursor).advances
  | arguments => exact (steps_argumentsWithin budget cursor).advances
  | printValues => exact (steps_printValuesWithin budget cursor).advances
  | statement =>
    have ends := ends_statementWithin budget cursor
    exact ⟨fun given => (ends.ok given).toBeyond, fun given => beyond_of_suffix (ends.error given).rest, ends.blind⟩
  | block => exact (unfolds_blockWithin budget cursor).steps.advances
  | statements =>
    exact advances_ofRecovering (blind_statementsWithin budget) (reads_statementsWithin budget cursor).rest
  | parameters => exact (steps_parametersWithin budget cursor).advances
  | functions =>
    exact advances_ofRecovering (blind_functionsWithin budget) (reads_functionsWithin budget cursor).rest
  | program => exact advances_ofRecovering blind_program (reads_program cursor).rest

theorem sound_rules : Sound rules := by
  intro goal cursor
  have advances := advances_within (goal.budget cursor) goal cursor
  refine ⟨advances.ok, advances.error, fun older => ?_⟩
  have same : goal.budget (cursor.behind older) = goal.budget cursor := by cases goal <;> rfl
  rw [rules, same]
  exact advances.blind older

theorem sound_spending (layer budget : Nat) : Sound (spending layer budget) := by
  intro goal cursor
  unfold spending
  split
  · exact advances_within budget goal cursor
  · exact sound_rules goal cursor

section Loops

variable {cursor : Cursor}

theorem skipStatement_length_lt {token : Token} (goes : token.kind ≠ .mark .rightBrace) (previous : Option Span)
    (rest : List Token) : (skipStatement previous (token :: rest)).2.length < (token :: rest).length := by
  rw [skipStatement]
  split
  next closes => exact absurd closes goes
  · exact Nat.lt_succ_self _
  · exact Nat.lt_succ_of_le (skipStatement_suffix _ rest).length_le

/-- A statement that was read or skipped has taken a token, if one was there that may begin a statement:
a rule that fails at once leaves a token to skip. -/
theorem beyond_statement {rule : Parser Stmt} (advances : Advances 1 rule cursor)
    (goes : ¬ (cursor.peek.kind == .mark .rightBrace || cursor.peek.kind == .endOfFile) = true) (place : Span) :
    cursor.Beyond (recover rule (recoverStatement place) cursor).2 1 := by
  unfold recover
  cases result : rule cursor with
  | ok stmt next => exact advances.ok result
  | error fault next =>
    have behind := advances.error result
    have skipped : (next.record fault).resumeStatement.rest = (skipStatement next.previous next.rest).2 := rfl
    have shorter := skipStatement_suffix next.previous next.rest
    refine ⟨skipped ▸ shorter.trans behind.rest, ?_⟩
    change (next.record fault).resumeStatement.rest.length + 1 ≤ cursor.rest.length
    rw [skipped]
    -- either a token was taken before the rule failed, or the first one is still there to be skipped
    rcases Nat.lt_or_ge next.rest.length cursor.rest.length with moved | stayed
    · exact Nat.lt_of_le_of_lt shorter.length_le moved
    · have same : next.rest = cursor.rest := behind.rest.eq_of_length_le stayed
      rw [same]
      simp only [Bool.or_eq_true, beq_iff_eq, not_or, Cursor.peek] at goes
      cases ahead : cursor.rest with
      | nil => simp [ahead, Token.endOfFile] at goes
      | cons token rest =>
        simp only [ahead] at goes
        exact skipStatement_length_lt goes.1 next.previous rest

theorem expect_of_kind {kind : Kind} (same : cursor.peek.kind = kind) :
    expect kind cursor = .ok cursor.peek cursor.advance := by
  unfold expect
  change (ite _ _ _ : Parser Token) cursor = _
  rw [if_pos same]
  rfl

theorem advances_parameterListBy {one : Rules} (sound : Sound one) (cursor : Cursor) :
    Advances 0 (parameterListBy one) cursor := by
  unfold parameterListBy
  refine (steps_expect (by simp) (by simp) cursor).advances.bind (.refl cursor) (Nat.zero_le _) fun _ _ beyond => ?_
  refine (steps_freshId _).advances.bind beyond (Nat.zero_le _) fun id next beyond => ?_
  refine meets_check ?_
  have finish (list : List Parameter) (sofar : Nat) (next : Cursor) (beyond : cursor.Beyond next sofar)
      (opening : Token) : Meets (do
        let closing ← expect (.mark .rightParen)
        return (list, ⟨id, opening.span.merge closing.span⟩) : Parser (List Parameter × Node)) next
        (fun _ next => cursor.Beyond next 0) (fun _ next => cursor.Beyond next 0) := by
    refine (steps_expect (by simp) (by simp) next).advances.bind beyond (Nat.zero_le _) fun _ last beyond => ?_
    exact meets_pure (beyond.weaken (Nat.zero_le _))
  dsimp only
  split
  · exact finish [] _ next beyond _
  · exact (sound .parameters next).bind beyond (Nat.zero_le _) fun list last beyond => finish list _ last beyond _

/-- Where `func` is found, the rule for a function has taken it when it fails. -/
theorem beyond_functionBy {one : Rules} (sound : Sound one) (isFunc : cursor.peek.kind = .keyword .funcWord) :
    Meets (functionBy one) cursor (fun _ next => cursor.Beyond next 1) (fun _ next => cursor.Beyond next 1) := by
  have taken : cursor.Beyond cursor.advance 1 := (moves_advance (by simp [isFunc]) (by simp [isFunc])).toBeyond
  have first : Meets (expect (.keyword .funcWord)) cursor (fun _ next => cursor.Beyond next 1)
      (fun _ next => cursor.Beyond next 1) := by
    refine ⟨fun given => ?_, fun given => ?_, (steps_expect (by simp) (by simp) cursor).blind⟩
    · rw [expect_of_kind isFunc] at given
      cases given
      exact taken
    · rw [expect_of_kind isFunc] at given
      cases given
  unfold functionBy
  refine first.bind fun word afterWord beyond => ?_
  refine (steps_freshId afterWord).advances.bind beyond (Nat.le_refl _) fun id afterId beyond => ?_
  refine (steps_typeMark afterId).advances.bind beyond (by decide) fun result afterResult beyond => ?_
  refine (steps_identifier afterResult).advances.bind beyond (by decide) fun name afterName beyond => ?_
  refine (advances_parameterListBy sound afterName).bind beyond (by decide) fun list afterList beyond => ?_
  refine (sound .block afterList).bind beyond (by decide) fun body next beyond => ?_
  exact meets_pure (beyond.weaken (by decide))

theorem beyond_function {one : Rules} (sound : Sound one) (isFunc : cursor.peek.kind = .keyword .funcWord) :
    cursor.Beyond (recover (do return [← functionBy one]) recoverFunction cursor).2 1 := by
  have single : Meets (do return [← functionBy one] : Parser (List Function)) cursor
      (fun _ next => cursor.Beyond next 1) (fun _ next => cursor.Beyond next 1) :=
    (beyond_functionBy sound isFunc).bind fun function next beyond => meets_pure beyond
  unfold recover
  cases result : (do return [← functionBy one] : Parser (List Function)) cursor with
  | ok list next => exact single.ok result
  | error fault next =>
    exact (single.error result).trans (beyond_of_suffix (Cursor.leads_resumeItem (next.record fault)).rest)

end Loops

/-- Where one goal may lead to another: no token is given back, without a token taken the rank falls,
and what is spent from one budget becomes less. -/
structure Below (callee : Goal) (next : Cursor) (caller : Goal) (cursor : Cursor) : Prop where
  rest : next.rest <:+ cursor.rest
  rank : next.rest = cursor.rest → callee.rank < caller.rank
  need : callee.layer = caller.layer → callee.need next.rest.length < caller.need cursor.rest.length

/-- A goal that is met behind a token. -/
theorem below_after {callee caller : Goal} {next cursor : Cursor} (beyond : cursor.Beyond next 1)
    (need : ∀ fewer length, fewer < length → callee.layer = caller.layer → callee.need fewer < caller.need length) :
    Below callee next caller cursor := by
  refine ⟨beyond.rest, fun same => ?_, need _ _ beyond.least⟩
  have := beyond.least
  rw [same] at this
  omega

/-- A goal that is met with the same tokens ahead. -/
theorem below_here {callee caller : Goal} {next cursor : Cursor} (beyond : cursor.Beyond next 0)
    (rank : callee.rank < caller.rank)
    (need : ∀ fewer length, fewer ≤ length → callee.layer = caller.layer → callee.need fewer < caller.need length) :
    Below callee next caller cursor :=
  ⟨beyond.rest, fun _ => rank, need _ _ beyond.least⟩

/-- The rules do the same for all goals that the goal may lead to. -/
def Agree (other one : Rules) (goal : Goal) (cursor : Cursor) : Prop :=
  ∀ callee next, Below callee next goal cursor → Alike (other callee) (one callee) next

section Agreement

variable {one other : Rules} {cursor : Cursor}

/-- Operators take their operands and the operators that follow behind a token. -/
theorem operators_congr {minimum : Nat} {left : Expr} (agree : Agree other one (.operators minimum left) cursor)
    (sound : Sound one) :
    Alike (body other (.operators minimum left)) (body one (.operators minimum left)) cursor := by
  unfold body
  refine peek_congr ?_
  split
  · rfl
  next operator found =>
    split
    · rfl
    · refine (steps_operator found).congr (.refl cursor) fun _ afterMark beyond => ?_
      have same := agree (.expression operator.rightPower) afterMark (below_after beyond (by simp; omega))
      refine (sound _ afterMark).congr beyond same fun right afterRight beyond => ?_
      refine (steps_freshId afterRight).congr beyond fun id next beyond => ?_
      exact agree _ next (below_after (beyond.weaken (by omega)) (by simp))

theorem operand_congr (agree : Agree other one .operand cursor) :
    Alike (body other .operand) (body one .operand) cursor := by
  have expressionAgrees (minimum : Nat) (next : Cursor) (beyond : cursor.Beyond next 1) :
      Alike (other (.expression minimum)) (one (.expression minimum)) next :=
    agree _ _ (below_after beyond (by simp; omega))
  change Alike (operandBy other) (operandBy one) cursor
  unfold operandBy
  refine peek_congr ?_
  split
  all_goals try rfl
  · refine (steps_identifier cursor).congr (.refl cursor) fun name next beyond => ?_
    refine check_congr ?_
    split
    · exact (agree (.call name) next (below_after beyond (by simp; omega))).bind
    · rfl
  next isMinus =>
    refine (steps_advance (by simp [isMinus]) (by simp [isMinus])).congr (.refl cursor) fun _ next beyond => ?_
    exact (expressionAgrees _ next beyond).bind
  next isParen =>
    refine (steps_advance (by simp [isParen]) (by simp [isParen])).congr (.refl cursor) fun _ next beyond => ?_
    exact (expressionAgrees 0 next beyond).bind

theorem call_congr {callee : Name} (agree : Agree other one (.call callee) cursor) :
    Alike (body other (.call callee)) (body one (.call callee)) cursor := by
  change Alike (callBy other callee) (callBy one callee) cursor
  unfold callBy
  refine (steps_expect (by simp) (by simp) cursor).congr (.refl cursor) fun opening afterOpening beyond => ?_
  refine (steps_freshId afterOpening).congr beyond fun list next beyond => ?_
  refine check_congr ?_
  dsimp only
  split
  · rfl
  · exact (agree .arguments next (below_after beyond (by simp; omega))).bind

theorem arguments_congr (agree : Agree other one .arguments cursor) (sound : Sound one) :
    Alike (body other .arguments) (body one .arguments) cursor := by
  have first := agree (.expression 0) cursor (below_here (.refl cursor) (by simp) (by simp))
  refine (sound _ cursor).congr (.refl cursor) first fun value afterFirst beyond => ?_
  refine (steps_eat (by simp) (by simp) afterFirst).congr beyond fun more next beyond => ?_
  split
  · exact (agree .arguments next (below_after beyond (by simp))).bind
  · rfl

theorem printValues_congr (agree : Agree other one .printValues cursor) (sound : Sound one) :
    Alike (body other .printValues) (body one .printValues) cursor := by
  refine peek_congr ?_
  split
  · have first := agree (.expression 0) cursor (below_here (.refl cursor) (by simp) (by simp))
    refine (sound _ cursor).congr (.refl cursor) first fun value afterValue beyond => ?_
    refine check_congr ?_
    split
    · rfl
    · refine (steps_separators afterValue).congr beyond fun marks next beyond => ?_
      split
      · rfl
      · exact (agree .printValues next (below_after beyond (by simp))).bind
  · rfl

/-- All that a statement leads to comes behind its first token, but for a block that is a statement. -/
theorem statement_congr (agree : Agree other one .statement cursor) (sound : Sound one) :
    Alike (body other .statement) (body one .statement) cursor := by
  -- A statement asks for another rule only behind a token of its own, or for a block where it stands.
  have valueAgrees (next : Cursor) (beyond : cursor.Beyond next 1) :
      Alike (other (.expression 0)) (one (.expression 0)) next :=
    agree _ _ (below_after beyond (by simp))
  have blockAgrees (next : Cursor) (beyond : cursor.Beyond next 1) : Alike (other .block) (one .block) next :=
    agree _ _ (below_after beyond (by simp; omega))
  have declares (more : cursor.peek.kind ≠ .endOfFile) (plain : cursor.peek.kind ≠ .mark .semicolon) :
      Alike (declarationBy other) (declarationBy one) cursor := by
    refine (steps_advance more plain).congr (.refl cursor) fun word afterWord beyond => ?_
    refine (steps_freshId afterWord).congr beyond fun id afterId beyond => ?_
    refine (steps_identifier afterId).congr beyond fun name afterName beyond => ?_
    refine (steps_expect (by simp) (by simp) afterName).congr beyond fun _ next beyond => ?_
    exact (valueAgrees next (beyond.weaken (by decide))).bind
  change Alike (statementBy other) (statementBy one) cursor
  unfold statementBy
  refine peek_congr ?_
  split
  next isImm => exact declares (by simp [isImm]) (by simp [isImm])
  next isMut => exact declares (by simp [isMut]) (by simp [isMut])
  -- an assignment
  · refine (steps_freshId cursor).congr (.refl cursor) fun id afterId beyond => ?_
    refine (steps_identifier afterId).congr beyond fun target afterName beyond => ?_
    refine (steps_expect (by simp) (by simp) afterName).congr beyond fun _ next beyond => ?_
    exact (valueAgrees next (beyond.weaken (by decide))).bind
  -- a print statement
  · refine (steps_expect (by simp) (by simp) cursor).congr (.refl cursor) fun word afterWord beyond => ?_
    refine (steps_freshId afterWord).congr beyond fun id afterId beyond => ?_
    refine (steps_separators afterId).congr beyond fun marks next beyond => ?_
    exact (agree .printValues next (below_after beyond (by simp))).bind
  -- a call
  · refine (steps_expect (by simp) (by simp) cursor).congr (.refl cursor) fun word afterWord beyond => ?_
    refine (steps_freshId afterWord).congr beyond fun id afterId beyond => ?_
    refine (steps_identifier afterId).congr beyond fun callee next beyond => ?_
    exact (agree (.call callee) next (below_after (beyond.weaken (by decide)) (by simp))).bind
  -- a branch
  · refine (steps_expect (by simp) (by simp) cursor).congr (.refl cursor) fun word afterWord beyond => ?_
    refine (steps_freshId afterWord).congr beyond fun id afterId beyond => ?_
    refine (steps_expect (by simp) (by simp) afterId).congr beyond fun _ afterOpening beyond => ?_
    have condition := valueAgrees afterOpening (beyond.weaken (by decide))
    refine (sound _ afterOpening).congr beyond condition fun _ afterCondition beyond => ?_
    refine (steps_expect (by simp) (by simp) afterCondition).congr beyond fun _ afterClosing beyond => ?_
    have thenBlock := blockAgrees afterClosing (beyond.weaken (by omega))
    refine (sound _ afterClosing).congr beyond thenBlock fun _ afterThen beyond => ?_
    refine (steps_eat (by simp) (by simp) afterThen).congr beyond fun more next beyond => ?_
    dsimp only
    split
    · have elseBlock : Alike (some <$> other .block) (some <$> one .block) next :=
        (blockAgrees next (beyond.weaken (by omega))).bind
      exact elseBlock.bind
    · rfl
  -- a return
  · refine (steps_expect (by simp) (by simp) cursor).congr (.refl cursor) fun word afterWord beyond => ?_
    refine (steps_freshId afterWord).congr beyond fun id next beyond => ?_
    refine check_congr ?_
    dsimp only
    split
    · rfl
    · have value : Alike (some <$> other (.expression 0)) (some <$> one (.expression 0)) next :=
        (valueAgrees next beyond).bind
      exact value.bind
  -- a block
  · exact (agree .block cursor (below_here (.refl cursor) (by simp) (by simp))).bind
  · rfl
  · rfl

theorem block_congr (agree : Agree other one .block cursor) : Alike (body other .block) (body one .block) cursor := by
  refine (unfolds_openBlock cursor).steps.congr (.refl cursor) fun opening afterOpening beyond => ?_
  refine (steps_freshId afterOpening).congr beyond fun id next beyond => ?_
  exact (agree .statements next (below_after beyond (by simp; omega))).bind

theorem statements_congr (agree : Agree other one .statements cursor) (sound : Sound one) :
    Alike (body other .statements) (body one .statements) cursor := by
  refine peek_congr ?_
  split
  · rfl
  next goes =>
    have first := agree .statement cursor (below_here (.refl cursor) (by simp) (by simp))
    have beyond := beyond_statement (sound .statement cursor) goes cursor.peek.span
    exact first.recovered (agree .statements _ (below_after beyond (by simp))).bind

theorem parameters_congr (agree : Agree other one .parameters cursor) :
    Alike (body other .parameters) (body one .parameters) cursor := by
  refine (steps_parameter cursor).congr (.refl cursor) fun first afterFirst beyond => ?_
  refine (steps_eat (by simp) (by simp) afterFirst).congr beyond fun more next beyond => ?_
  split
  · exact (agree .parameters next (below_after beyond (by simp))).bind
  · rfl

theorem functions_congr (agree : Agree other one .functions cursor) (sound : Sound one) :
    Alike (body other .functions) (body one .functions) cursor := by
  have list (next : Cursor) (sofar : Nat) (beyond : cursor.Beyond next sofar) :
      Alike (parameterListBy other) (parameterListBy one) next := by
    refine (steps_expect (by simp) (by simp) next).congr beyond fun opening afterOpening beyond => ?_
    refine (steps_freshId afterOpening).congr beyond fun id last beyond => ?_
    refine check_congr ?_
    dsimp only
    split
    · rfl
    · exact (agree .parameters last (below_after (beyond.weaken (by omega)) (by simp))).bind
  have function : Alike (functionBy other) (functionBy one) cursor := by
    refine (steps_expect (by simp) (by simp) cursor).congr (.refl cursor) fun word afterWord beyond => ?_
    refine (steps_freshId afterWord).congr beyond fun id afterId beyond => ?_
    refine (steps_typeMark afterId).congr beyond fun result afterResult beyond => ?_
    refine (steps_identifier afterResult).congr beyond fun name afterName beyond => ?_
    refine (advances_parameterListBy sound afterName).congr beyond (list _ _ beyond) fun _ next beyond => ?_
    exact (agree .block next (below_after (beyond.weaken (by decide)) (by simp))).bind
  refine peek_congr ?_
  split
  next goes =>
    exact function.bind.recovered (agree .functions _ (below_after (beyond_function sound goes) (by simp))).bind
  · rfl

theorem program_congr (agree : Agree other one .program cursor) (sound : Sound one) :
    Alike (body other .program) (body one .program) cursor := by
  refine get_congr ?_
  refine (steps_freshId cursor).congr (.refl cursor) fun id afterId beyond => ?_
  have first := agree .functions afterId (below_here beyond (by simp) (by simp))
  refine (sound _ afterId).congr beyond first fun functions afterFunctions beyond => ?_
  have main : Alike (mainBlockBy other) (mainBlockBy one) afterFunctions := by
    refine (steps_expect (by simp) (by simp) afterFunctions).congr beyond fun _ next beyond => ?_
    exact agree .block next (below_after (beyond.weaken (by decide)) (by simp))
  exact main.recovered rfl

/-- One level of the recursion asks only for goals below. -/
theorem body_congr (sound : Sound one) {goal : Goal} (agree : Agree other one goal cursor) :
    Alike (body other goal) (body one goal) cursor := by
  cases goal with
  | expression minimum =>
    have first := agree .operand cursor (below_here (.refl cursor) (by simp) (by simp))
    refine (sound .operand cursor).congr (.refl cursor) first fun left next beyond => ?_
    exact agree _ next (below_after beyond (by simp; omega))
  | operators minimum left => exact operators_congr agree sound
  | operand => exact operand_congr agree
  | call callee => exact call_congr agree
  | arguments => exact arguments_congr agree sound
  | printValues => exact printValues_congr agree sound
  | statement => exact statement_congr agree sound
  | block => exact block_congr agree
  | statements => exact statements_congr agree sound
  | parameters => exact parameters_congr agree
  | functions => exact functions_congr agree sound
  | program => exact program_congr agree sound

end Agreement

section Budgets

theorem Goal.need_le_budget (goal : Goal) (cursor : Cursor) : goal.need cursor.rest.length ≤ goal.budget cursor := by
  cases goal <;> simp [Goal.budget, expressionBudget, statementBudget]

theorem Goal.need_pos (goal : Goal) (length : Nat) : 0 < goal.need length := by
  cases goal <;> simp

/-- A budget that is enough for a goal is enough for all that the goal leads to, so more does not matter. -/
theorem within_eq {budget more : Nat} {goal : Goal} {cursor : Cursor}
    (enough : goal.need cursor.rest.length ≤ budget) (alsoEnough : goal.need cursor.rest.length ≤ more) :
    within budget goal cursor = within more goal cursor := by
  induction budget generalizing more goal cursor with
  | zero => exact absurd enough (Nat.not_le_of_gt (goal.need_pos _))
  | succ budget ih =>
    obtain ⟨more, rfl⟩ : ∃ less, more = less + 1 :=
      ⟨more - 1, by have := goal.need_pos cursor.rest.length; omega⟩
    rw [within_succ, within_succ]
    -- in the same layer one unit is gone and the goals below need less; other layers start afresh
    refine body_congr (sound_spending goal.layer more) fun callee next below => ?_
    unfold spending
    split
    next same =>
      have less := below.need same
      exact ih (by omega) (by omega)
    · rfl

theorem rules_eq_within {budget : Nat} {goal : Goal} {cursor : Cursor}
    (enough : goal.need cursor.rest.length ≤ budget) : rules goal cursor = within budget goal cursor :=
  within_eq (goal.need_le_budget cursor) enough

/-- The parser's rules are what one level of the recursion makes of them. -/
theorem body_rules (goal : Goal) (cursor : Cursor) : body rules goal cursor = rules goal cursor := by
  obtain ⟨budget, spent⟩ : ∃ less, goal.need cursor.rest.length = less + 1 :=
    ⟨_, (Nat.sub_add_cancel (goal.need_pos _)).symm⟩
  rw [rules_eq_within (Nat.le_of_eq spent), within_succ]
  refine body_congr (sound_spending goal.layer budget) fun callee next below => ?_
  unfold Alike spending
  split
  next same =>
    have less := below.need same
    exact rules_eq_within (by omega)
  · rfl

end Budgets

section Depth

/-- How many calls can be nested in the answer to a goal. -/
def height (goal : Goal) (cursor : Cursor) : Nat := 3 * cursor.rest.length + goal.rank + 1

theorem Goal.rank_le (goal : Goal) : goal.rank ≤ 2 := by
  cases goal <;> simp

theorem Below.height_lt {callee caller : Goal} {next cursor : Cursor} (below : Below callee next caller cursor) :
    height callee next < height caller cursor := by
  have bound := callee.rank_le
  unfold height
  rcases Nat.lt_or_ge next.rest.length cursor.rest.length with moved | stayed
  · omega
  · have same := below.rest.eq_of_length_le stayed
    have lower := below.rank same
    rw [same]
    omega

/-- Below the height of a goal the recursion is never asked, so anything may stand there. -/
theorem unrolled_eq (bottom : Rules) {depth : Nat} {goal : Goal} {cursor : Cursor}
    (deep : height goal cursor ≤ depth) : (body^[depth]) bottom goal cursor = rules goal cursor := by
  induction depth generalizing goal cursor with
  | zero => exact absurd deep (Nat.not_succ_le_zero _)
  | succ depth ih =>
    rw [Function.iterate_succ_apply', ← body_rules]
    refine body_congr sound_rules fun callee next below => ?_
    have lower := below.height_lt
    exact ih (by omega)

/-- The answer to the callee's goal decides the answer to the caller's. -/
def Calls (caller callee : Goal × Cursor) : Prop :=
  ∃ other : Rules, (∀ point, point ≠ callee → other point.1 point.2 = rules point.1 point.2) ∧
    body other caller.1 caller.2 ≠ body rules caller.1 caller.2

theorem below_of_calls {caller callee : Goal × Cursor} (calls : Calls caller callee) :
    Below callee.1 callee.2 caller.1 caller.2 := by
  -- if the callee were not below, the changed answer would be asked for nowhere
  obtain ⟨other, elsewhere, differs⟩ := calls
  by_contra notBelow
  refine differs (body_congr sound_rules fun goal next below => elsewhere (goal, next) ?_)
  rintro rfl
  exact notBelow below

open Classical in
/-- An expression calls for its first operand before any token is taken. -/
theorem calls_operand (minimum : Nat) (cursor : Cursor) : Calls (.expression minimum, cursor) (.operand, cursor) := by
  -- another answer for the operand, which cannot be that of the whole expression
  obtain ⟨last, differs⟩ : ∃ last, .error (.unexpectedEnd default) last ≠ body rules (.expression minimum) cursor := by
    cases body rules (.expression minimum) cursor with
    | ok value next => exact ⟨cursor, nofun⟩
    | error fault next =>
      refine ⟨{ next with nextId := next.nextId + 1 }, fun same => ?_⟩
      injection same with _ sameNext
      exact Nat.succ_ne_self _ (congrArg Cursor.nextId sameNext)
  let other : Rules := fun goal here =>
    if goal = .operand ∧ here = cursor then .error (.unexpectedEnd default) last else rules goal here
  refine ⟨other, fun point elsewhere => if_neg fun same => elsewhere (Prod.ext same.1 same.2), ?_⟩
  have answered : body other (.expression minimum) cursor = .error (.unexpectedEnd default) last :=
    bind_of_error (if_pos ⟨rfl, rfl⟩)
  exact answered ▸ differs

theorem wellFounded_calls : WellFounded fun callee caller => Calls caller callee :=
  Subrelation.wf (fun calls => (below_of_calls calls).height_lt)
    (measure fun point : Goal × Cursor => height point.1 point.2).wf

end Depth

/-- Parsing ends. Each round of the statement loop and of the function loop takes a token, whether the
item was read or skipped. No rule goes behind the tokens that are left. A call is made with fewer tokens
ahead or, with the same tokens, for a goal of lower rank, of which there are three, as an expression calls
for its first operand; so the calls are well founded. The parser is the recursion without budgets, and for any text what would be done in calls nested
deeper than three for each token does not matter, for none is made. -/
theorem parsing_finishes :
    (∀ cursor : Cursor, cursor.peek.kind ≠ .mark .rightBrace → cursor.peek.kind ≠ .endOfFile →
      cursor.Beyond (recover statement (recoverStatement cursor.peek.span) cursor).2 1) ∧
    (∀ cursor : Cursor, cursor.peek.kind = .keyword .funcWord →
      cursor.Beyond (recover (do return [← function]) recoverFunction cursor).2 1) ∧
    (∀ goal cursor, (∀ value next, rules goal cursor = .ok value next → next.rest <:+ cursor.rest) ∧
      ∀ fault next, rules goal cursor = .error fault next → next.rest <:+ cursor.rest) ∧
    (∀ caller callee, Calls caller callee → callee.2.rest <:+ caller.2.rest ∧
      (callee.2.rest = caller.2.rest → callee.1.rank < caller.1.rank) ∧ caller.1.rank ≤ 2) ∧
    (∀ minimum cursor, Calls (.expression minimum, cursor) (.operand, cursor)) ∧
    (WellFounded fun callee caller => Calls caller callee) ∧
    (∀ goal cursor, body rules goal cursor = rules goal cursor) ∧
    ∀ (source : String) (bottom : Rules) (depth : Nat), 3 * (Scan.ofText source).tokens.length + 2 ≤ depth →
      ∃ next, (body^[depth]) bottom .program (Cursor.ofText source) = .ok (Program.read source).1 next ∧
        next.faults = (Program.read source).2 ∧ next.rest <:+ (Scan.ofText source).tokens := by
  have sameFunction : functionBy rules = function := rfl
  refine ⟨fun cursor notClosing notEnd => ?_, fun cursor isFunc => ?_, ?_, ?_, calls_operand, wellFounded_calls,
    body_rules, ?_⟩
  · exact beyond_statement (sound_rules .statement cursor) (by simp [notClosing, notEnd]) cursor.peek.span
  · exact sameFunction ▸ beyond_function sound_rules isFunc
  · exact fun goal cursor => ⟨fun _ _ given => ((sound_rules goal cursor).ok given).rest,
      fun _ _ given => ((sound_rules goal cursor).error given).rest⟩
  · intro caller callee calls
    have below := below_of_calls calls
    exact ⟨below.rest, below.rank, caller.1.rank_le⟩
  · intro source bottom depth deep
    have read : Program.read source =
        ((program (Cursor.ofText source)).1, (program (Cursor.ofText source)).2.faults) := rfl
    have high : height .program (Cursor.ofText source) ≤ depth := deep
    have unrolled := unrolled_eq bottom high
    rw [read]
    exact ⟨(program (Cursor.ofText source)).2, unrolled, rfl, (reads_program (Cursor.ofText source)).rest⟩

end Stackwright.Parser
