import Stackwright.Proofs.Tree.Accepting

/-! How far a parsing rule gets. A rule that succeeds has taken a least number of tokens. A rule that
fails has taken no `;` and recorded nothing, and gives a fault at a token it has seen, unless it came to
an opening brace first. And no rule looks at the faults recorded before it: they stay in front of those
that it adds. -/

set_option autoImplicit false

namespace Stackwright

namespace Cursor

/-- The cursor with further faults recorded before its own. -/
def behind (older : List SyntaxFault) (cursor : Cursor) : Cursor :=
  { cursor with faults := older ++ cursor.faults }

section behind
variable (older : List SyntaxFault) (cursor : Cursor)

@[simp] theorem behind_peek : (cursor.behind older).peek = cursor.peek := rfl

@[simp] theorem behind_advance : (cursor.behind older).advance = cursor.advance.behind older := by
  unfold advance behind
  dsimp only
  split <;> rfl

theorem behind_record (fault : SyntaxFault) :
    (cursor.behind older).record fault = (cursor.record fault).behind older := by
  simp only [record, behind, List.append_assoc]

/-- The same place, with nothing recorded. -/
def clear : Cursor := { cursor with faults := [] }

theorem behind_clear : cursor.clear.behind cursor.faults = cursor := by
  simp only [clear, behind, List.append_nil]

end behind

/-- On the way between the cursors no `;` was taken and no fault was recorded. -/
def Crosses (cursor next : Cursor) : Prop :=
  ∃ taken, cursor.Passes next taken ∧ ∀ token ∈ taken, token.kind ≠ .mark .semicolon

/-- An opening brace stands before the next `;`. -/
def Opens (cursor : Cursor) : Prop :=
  ∃ front brace rest, cursor.rest = front ++ brace :: rest ∧
    (∀ token ∈ front, token.kind ≠ .mark .semicolon) ∧ brace.kind = .mark .leftBrace

/-- The second cursor is at least so many tokens ahead of the first. -/
structure Beyond (cursor next : Cursor) (least : Nat) : Prop where
  rest : next.rest <:+ cursor.rest
  least : next.rest.length + least ≤ cursor.rest.length

/-- So many tokens were taken, no `;` among them, and no fault was recorded, unless a brace was opened. -/
structure Moves (cursor next : Cursor) (least : Nat) : Prop extends Beyond cursor next least where
  level : cursor.Crosses next ∨ cursor.Opens

/-- The tokens up to the next `;` and the `;` itself were taken and no fault was recorded. -/
def Closes (cursor next : Cursor) : Prop :=
  ∃ taken semicolon, cursor.Passes next (taken ++ [semicolon]) ∧
    (∀ token ∈ taken, token.kind ≠ .mark .semicolon) ∧ semicolon.kind = .mark .semicolon

/-- A statement was read between the cursors. It ends with the first `;`, unless a brace was opened
before that. -/
structure Ends (cursor next : Cursor) : Prop extends Beyond cursor next 1 where
  level : cursor.Closes next ∨ cursor.Opens

/-- A rule gives up here: without a `;` on the way, with nothing recorded, at a token taken or at the
one that follows; or else a brace was opened on the way. -/
structure Fails (cursor : Cursor) (fault : SyntaxFault) (next : Cursor) : Prop where
  rest : next.rest <:+ cursor.rest
  level : (∃ taken, cursor.Passes next taken ∧ (∀ token ∈ taken, token.kind ≠ .mark .semicolon) ∧
    (fault.span = next.peek.span ∨ ∃ token ∈ taken, fault.span = token.span)) ∨ cursor.Opens

variable {first second third : Cursor} {least more : Nat} {fault : SyntaxFault}

theorem Passes.suffix {tokens : List Token} (passes : first.Passes second tokens) : second.rest <:+ first.rest :=
  ⟨tokens, passes.rest.symm⟩

theorem Beyond.refl (cursor : Cursor) : cursor.Beyond cursor 0 := ⟨List.suffix_refl _, Nat.le_refl _⟩

theorem Beyond.trans (one : first.Beyond second least) (two : second.Beyond third more) :
    first.Beyond third (least + more) := by
  refine ⟨two.rest.trans one.rest, ?_⟩
  have := one.least
  have := two.least
  omega

theorem Beyond.weaken (beyond : first.Beyond second more) (le : least ≤ more) : first.Beyond second least :=
  ⟨beyond.rest, Nat.le_trans (Nat.add_le_add_left le _) beyond.least⟩

theorem Crosses.trans (one : first.Crosses second) (two : second.Crosses third) : first.Crosses third := by
  obtain ⟨taken, passes, plain⟩ := one
  obtain ⟨later, onward, plainLater⟩ := two
  exact ⟨_, passes.append onward, List.forall_mem_append.mpr ⟨plain, plainLater⟩⟩

theorem Crosses.opens (one : first.Crosses second) (opens : second.Opens) : first.Opens := by
  obtain ⟨taken, passes, plain⟩ := one
  obtain ⟨front, brace, rest, ahead, plainFront, isBrace⟩ := opens
  refine ⟨taken ++ front, brace, rest, ?_, List.forall_mem_append.mpr ⟨plain, plainFront⟩, isBrace⟩
  rw [passes.rest, ahead, List.append_assoc]

theorem Crosses.moves (crosses : first.Crosses second) (bound : second.rest.length + least ≤ first.rest.length) :
    first.Moves second least := by
  refine ⟨⟨?_, bound⟩, .inl crosses⟩
  obtain ⟨taken, passes, -⟩ := crosses
  exact passes.suffix

theorem Moves.refl (cursor : Cursor) : cursor.Moves cursor 0 :=
  Crosses.moves ⟨[], .refl cursor, List.forall_mem_nil _⟩ (Nat.le_refl _)

theorem Moves.trans (one : first.Moves second least) (two : second.Moves third more) :
    first.Moves third (least + more) where
  toBeyond := one.toBeyond.trans two.toBeyond
  level := by
    rcases one.level with crosses | opens
    · exact two.level.imp crosses.trans crosses.opens
    · exact .inr opens

theorem Moves.weaken (moves : first.Moves second more) (le : least ≤ more) : first.Moves second least :=
  ⟨moves.toBeyond.weaken le, moves.level⟩

theorem Moves.opens (moves : first.Moves second least) (opens : second.Opens) : first.Opens :=
  moves.level.elim (fun crosses => crosses.opens opens) id

theorem Moves.ends (moves : first.Moves second (least + 1)) (opens : first.Opens) : first.Ends second :=
  ⟨moves.toBeyond.weaken (Nat.le_add_left ..), .inr opens⟩

/-- A `;` that is taken next ends the statement. -/
theorem Moves.ends_advance (moves : first.Moves second least) (ends : second.peek.kind = .mark .semicolon) :
    first.Ends second.advance := by
  have passes : second.Passes second.advance [second.peek] := passes_advance (by simp [ends])
  have length := passes.length
  have bound := moves.least
  rw [List.length_singleton] at length
  refine ⟨⟨passes.suffix.trans moves.rest, by omega⟩, ?_⟩
  refine moves.level.imp_left ?_
  rintro ⟨taken, passed, plain⟩
  exact ⟨taken, second.peek, passed.append passes, plain, ends⟩

theorem Moves.fails (moves : first.Moves second least) (fails : second.Fails fault third) :
    first.Fails fault third := by
  refine ⟨fails.rest.trans moves.rest, ?_⟩
  rcases moves.level with crosses | opens
  · rcases fails.level with ⟨later, onward, plainLater, located⟩ | opens
    · obtain ⟨taken, passes, plain⟩ := crosses
      refine .inl ⟨_, passes.append onward, List.forall_mem_append.mpr ⟨plain, plainLater⟩, ?_⟩
      refine located.imp_right ?_
      rintro ⟨token, member, same⟩
      exact ⟨token, List.mem_append_right _ member, same⟩
    · exact .inr (crosses.opens opens)
  · exact .inr opens

/-- The fault is at one of the tokens taken. -/
theorem fails_behind {taken : List Token} {token : Token} (passes : first.Passes second taken)
    (plain : ∀ token ∈ taken, token.kind ≠ .mark .semicolon) (member : token ∈ taken)
    (same : fault.span = token.span) : first.Fails fault second :=
  ⟨passes.suffix, .inl ⟨taken, passes, plain, .inr ⟨token, member, same⟩⟩⟩

/-- The fault is at the token found. -/
theorem fails_here (same : fault.span = first.peek.span) : first.Fails fault first :=
  ⟨List.suffix_refl _, .inl ⟨[], .refl first, List.forall_mem_nil _, .inl same⟩⟩

theorem moves_advance (more : first.peek.kind ≠ .endOfFile) (plain : first.peek.kind ≠ .mark .semicolon) :
    first.Moves first.advance 1 := by
  have passes := passes_advance more
  refine Crosses.moves ⟨_, passes, List.forall_mem_singleton.mpr plain⟩ ?_
  have length := passes.length
  rw [List.length_singleton] at length
  omega

end Cursor

namespace Parser

open Cursor

variable {α β : Type}

/-- The same result with further faults recorded before. -/
def resultBehind (older : List SyntaxFault) :
    EStateM.Result SyntaxFault Cursor α → EStateM.Result SyntaxFault Cursor α
  | .ok value next => .ok value (next.behind older)
  | .error fault next => .error fault (next.behind older)

/-- What a rule does at a cursor when it succeeds and when it fails, whatever was recorded before. -/
structure Meets (rule : Parser α) (cursor : Cursor) (good : α → Cursor → Prop)
    (bad : SyntaxFault → Cursor → Prop) : Prop where
  ok : ∀ {value : α} {next : Cursor}, rule cursor = .ok value next → good value next
  error : ∀ {fault : SyntaxFault} {next : Cursor}, rule cursor = .error fault next → bad fault next
  blind : ∀ older, rule (cursor.behind older) = resultBehind older (rule cursor)

/-- A rule that takes at least so many tokens. -/
abbrev Steps (least : Nat) (rule : Parser α) (cursor : Cursor) : Prop :=
  Meets rule cursor (fun _ next => cursor.Moves next least) cursor.Fails

variable {rule : Parser α} {follow : α → Parser β} {start cursor : Cursor} {good : β → Cursor → Prop}
  {bad : SyntaxFault → Cursor → Prop} {least sofar : Nat}

theorem bind_of_ok {value : α} {next : Cursor} (given : rule cursor = .ok value next) :
    (rule >>= follow) cursor = follow value next := by
  change EStateM.bind rule follow cursor = _
  rw [EStateM.bind, given]

theorem bind_of_error {fault : SyntaxFault} {next : Cursor} (given : rule cursor = .error fault next) :
    (rule >>= follow) cursor = .error fault next := by
  change EStateM.bind rule follow cursor = _
  rw [EStateM.bind, given]

theorem Meets.bind {middle : α → Cursor → Prop} (one : Meets rule cursor middle bad)
    (two : ∀ value next, middle value next → Meets (follow value) next good bad) :
    Meets (rule >>= follow) cursor good bad := by
  cases result : rule cursor with
  | ok value next =>
    have onward := two value next (one.ok result)
    have same : (rule >>= follow) cursor = follow value next := bind_of_ok result
    refine ⟨fun given => onward.ok (same.symm.trans given), fun given => onward.error (same.symm.trans given),
      fun older => ?_⟩
    have again : rule (cursor.behind older) = .ok value (next.behind older) := by
      rw [one.blind, result]
      rfl
    rw [bind_of_ok again, same]
    exact onward.blind older
  | error fault next =>
    have same : (rule >>= follow) cursor = .error fault next := bind_of_error result
    refine ⟨fun given => ?_, fun given => ?_, fun older => ?_⟩
    · cases same.symm.trans given
    · cases same.symm.trans given
      exact one.error result
    · have again : rule (cursor.behind older) = .error fault (next.behind older) := by
        rw [one.blind, result]
        rfl
      rw [bind_of_error again, same]
      rfl

theorem Meets.mono {better : β → Cursor → Prop} {rule : Parser β} (meets : Meets rule cursor good bad)
    (implies : ∀ value next, good value next → better value next) : Meets rule cursor better bad :=
  ⟨fun given => implies _ _ (meets.ok given), meets.error, meets.blind⟩

/-- A rule that goes on from where the rules before it have come to. -/
theorem Steps.onward (steps : Steps least rule cursor) (moved : start.Moves cursor sofar) :
    Meets rule cursor (fun _ next => start.Moves next (sofar + least)) start.Fails :=
  ⟨fun given => moved.trans (steps.ok given), fun given => moved.fails (steps.error given), steps.blind⟩

theorem Steps.bind (steps : Steps least rule cursor) (moved : start.Moves cursor sofar)
    (two : ∀ value next, start.Moves next (sofar + least) → Meets (follow value) next good start.Fails) :
    Meets (rule >>= follow) cursor good start.Fails :=
  (steps.onward moved).bind two

theorem meets_pure {value : β} (holds : good value cursor) : Meets (pure value) cursor good bad where
  ok given := by cases given; exact holds
  error given := by cases given
  blind _ := rfl

theorem meets_throw {fault : SyntaxFault} (holds : bad fault cursor) : Meets (throw fault) cursor good bad where
  ok given := by cases given
  error given := by cases given; exact holds
  blind _ := rfl

/-- Look at the next token, then go on. -/
theorem meets_peek {follow : Token → Parser β} (two : Meets (follow cursor.peek) cursor good bad) :
    Meets (peek >>= follow) cursor good bad :=
  ⟨two.ok, two.error, two.blind⟩

theorem meets_check {kind : Kind} {follow : Bool → Parser β}
    (two : Meets (follow (cursor.peek.kind == kind)) cursor good bad) :
    Meets (check kind >>= follow) cursor good bad :=
  ⟨two.ok, two.error, two.blind⟩

theorem meets_freshId (cursor : Cursor) : Meets freshId cursor (fun _ next => cursor.Passes next []) bad where
  ok given := by cases given; exact ⟨rfl, rfl⟩
  error given := by cases given
  blind _ := rfl

theorem steps_freshId (cursor : Cursor) : Steps 0 freshId cursor := by
  refine (meets_freshId cursor).mono fun _ next passes => ?_
  exact Crosses.moves ⟨[], passes, List.forall_mem_nil _⟩ (by simp [passes.rest])

theorem meets_advance (cursor : Cursor) : Meets advance cursor (fun _ next => next = cursor.advance) bad where
  ok given := by cases given; rfl
  error given := by cases given
  blind older := by
    rw [advance, behind_advance]
    rfl

theorem steps_advance (more : cursor.peek.kind ≠ .endOfFile) (plain : cursor.peek.kind ≠ .mark .semicolon) :
    Steps 1 advance cursor :=
  (meets_advance cursor).mono fun _ _ same => same ▸ moves_advance more plain

theorem steps_eat {kind : Kind} (real : kind ≠ .endOfFile) (plain : kind ≠ .mark .semicolon) (cursor : Cursor) :
    Steps 0 (eat kind) cursor := by
  unfold eat
  refine meets_check ?_
  split
  next same =>
    have isKind : cursor.peek.kind = kind := by simpa using same
    refine (steps_advance (isKind ▸ real) (isKind ▸ plain)).bind (.refl cursor) fun _ next moved => ?_
    exact meets_pure (moved.weaken (Nat.zero_le _))
  · exact meets_pure (.refl cursor)

theorem steps_expect {kind : Kind} (real : kind ≠ .endOfFile) (plain : kind ≠ .mark .semicolon) (cursor : Cursor) :
    Steps 1 (expect kind) cursor := by
  unfold expect
  refine meets_peek ?_
  split
  next isKind => exact steps_advance (isKind ▸ real) (isKind ▸ plain)
  · split
    · exact meets_throw (fails_here rfl)
    · exact meets_throw (fails_here rfl)

theorem steps_identifier (cursor : Cursor) : Steps 1 identifier cursor := by
  unfold identifier
  refine meets_peek ?_
  split
  next isName =>
    refine (steps_advance (by simp [isName]) (by simp [isName])).bind (.refl cursor) fun _ afterName moved => ?_
    refine (steps_freshId afterName).bind moved fun id next moved => ?_
    exact meets_pure moved
  · exact meets_throw (fails_here rfl)
  · exact meets_throw (fails_here rfl)

/-- A literal that has no value is a fault at its own place. -/
theorem span_of_ofToken_error {token : Token} {fault : SyntaxFault}
    (failed : Literal.ofToken token = .error fault) : fault.span = token.span := by
  unfold Literal.ofToken at failed
  dsimp only at failed
  split at failed
  all_goals try split at failed
  all_goals cases failed
  all_goals rfl

theorem steps_literal (isLiteral : cursor.peek.kind.isLiteral = true) : Steps 1 (literal cursor.peek) cursor := by
  have more : cursor.peek.kind ≠ .endOfFile := by
    intro ended
    simp [ended, Kind.isLiteral] at isLiteral
  have plain : ∀ token ∈ [cursor.peek], token.kind ≠ .mark .semicolon := by
    intro token member ends
    rw [List.mem_singleton.mp member] at ends
    simp [ends, Kind.isLiteral] at isLiteral
  have passes := passes_advance more
  have moved := moves_advance more (plain _ List.mem_cons_self)
  unfold literal
  refine (meets_advance cursor).bind ?_
  rintro _ _ rfl
  split
  · exact (steps_freshId _).bind moved fun id next moved => meets_pure moved
  next failed =>
    exact meets_throw (fails_behind passes plain List.mem_cons_self (span_of_ofToken_error failed))

theorem steps_operator {operator : BinaryOperator} (found : BinaryOperator.ofKind? cursor.peek.kind = some operator) :
    Steps 1 advance cursor := by
  refine steps_advance (fun ended => ?_) fun ends => ?_
  · simp [ended, BinaryOperator.ofKind?] at found
  · simp [ends, BinaryOperator.ofKind?] at found

mutual

theorem steps_expressionWithin : ∀ (budget minimum : Nat) (cursor : Cursor),
    Steps 1 (expressionWithin budget minimum) cursor
  | 0, _, cursor => by
    rw [expressionWithin]
    exact meets_peek (meets_throw (fails_here rfl))
  | budget + 1, minimum, cursor => by
    rw [expressionWithin]
    refine (steps_operandWithin budget cursor).bind (.refl cursor) fun left next moved => ?_
    exact (steps_operatorsWithin budget minimum left next).onward moved

theorem steps_operatorsWithin : ∀ (budget minimum : Nat) (left : Expr) (cursor : Cursor),
    Steps 0 (operatorsWithin budget minimum left) cursor
  | 0, _, _, cursor => by
    rw [operatorsWithin]
    exact meets_pure (.refl cursor)
  | budget + 1, minimum, left, cursor => by
    rw [operatorsWithin]
    refine meets_peek ?_
    split
    · exact meets_pure (.refl cursor)
    next operator found =>
      split
      · exact meets_pure (.refl cursor)
      · refine (steps_operator found).bind (.refl cursor) fun _ afterMark moved => ?_
        refine (steps_expressionWithin budget _ afterMark).bind moved fun right afterRight moved => ?_
        refine (steps_freshId afterRight).bind moved fun id next moved => ?_
        exact ((steps_operatorsWithin budget minimum _ next).onward moved).mono
          fun _ _ moved => moved.weaken (Nat.zero_le _)

theorem steps_operandWithin : ∀ (budget : Nat) (cursor : Cursor), Steps 1 (operandWithin budget) cursor
  | 0, cursor => by
    rw [operandWithin]
    exact meets_peek (meets_throw (fails_here rfl))
  | budget + 1, cursor => by
    rw [operandWithin]
    refine meets_peek ?_
    split
    next isInt => exact steps_literal (by simp [isInt, Kind.isLiteral])
    next isFloat => exact steps_literal (by simp [isFloat, Kind.isLiteral])
    next isChar => exact steps_literal (by simp [isChar, Kind.isLiteral])
    next isString => exact steps_literal (by simp [isString, Kind.isLiteral])
    next isTrue => exact steps_literal (by simp [isTrue, Kind.isLiteral])
    next isFalse => exact steps_literal (by simp [isFalse, Kind.isLiteral])
    next =>
      refine (steps_identifier cursor).bind (.refl cursor) fun name afterName moved => ?_
      refine meets_check ?_
      split
      · refine (steps_callWithin budget name afterName).bind moved fun call next moved => ?_
        exact meets_pure (moved.weaken (by decide))
      · exact meets_pure moved
    next isMinus =>
      refine (steps_advance (by simp [isMinus]) (by simp [isMinus])).bind (.refl cursor) fun _ afterMark moved => ?_
      refine (steps_expressionWithin budget _ afterMark).bind moved fun operand afterOperand moved => ?_
      refine (steps_freshId afterOperand).bind moved fun id next moved => ?_
      exact meets_pure (moved.weaken (by decide))
    next isParen =>
      refine (steps_advance (by simp [isParen]) (by simp [isParen])).bind (.refl cursor) fun _ afterMark moved => ?_
      refine (steps_expressionWithin budget 0 afterMark).bind moved fun inner afterInner moved => ?_
      refine (steps_expect (by simp) (by simp) afterInner).bind moved fun _ next moved => ?_
      exact meets_pure (moved.weaken (by decide))
    · exact meets_throw (fails_here rfl)
    · exact meets_throw (fails_here rfl)

theorem steps_callWithin : ∀ (budget : Nat) (callee : Name) (cursor : Cursor),
    Steps 1 (callWithin budget callee) cursor
  | 0, _, cursor => by
    rw [callWithin]
    exact meets_peek (meets_throw (fails_here rfl))
  | budget + 1, callee, cursor => by
    rw [callWithin]
    refine (steps_expect (by simp) (by simp) cursor).bind (.refl cursor) fun opening afterOpening moved => ?_
    refine (steps_freshId afterOpening).bind moved fun list afterList moved => ?_
    refine meets_check ?_
    -- both forms of the list end the same way
    have finish (arguments : List Expr) (sofar : Nat) (next : Cursor) (moved : cursor.Moves next (sofar + 1)) :
        Meets (do
          let closing ← expect (.mark .rightParen)
          let id ← freshId
          return ⟨callee, arguments, ⟨list, opening.span.merge closing.span⟩,
            ⟨id, callee.node.span.merge closing.span⟩⟩ : Parser Call) next
          (fun _ next => cursor.Moves next 1) cursor.Fails := by
      refine (steps_expect (by simp) (by simp) next).bind moved fun closing afterClosing moved => ?_
      refine (steps_freshId afterClosing).bind moved fun id last moved => ?_
      exact meets_pure (moved.weaken (by omega))
    dsimp only
    split
    · exact finish [] 0 afterList moved
    · refine (steps_argumentsWithin budget afterList).bind moved fun arguments next moved => ?_
      exact finish arguments 1 next moved

theorem steps_argumentsWithin : ∀ (budget : Nat) (cursor : Cursor), Steps 1 (argumentsWithin budget) cursor
  | 0, cursor => by
    rw [argumentsWithin]
    exact meets_peek (meets_throw (fails_here rfl))
  | budget + 1, cursor => by
    rw [argumentsWithin]
    refine (steps_expressionWithin budget 0 cursor).bind (.refl cursor) fun first afterFirst moved => ?_
    refine (steps_eat (by simp) (by simp) afterFirst).bind moved fun more afterComma moved => ?_
    split
    · refine (steps_argumentsWithin budget afterComma).bind moved fun rest next moved => ?_
      exact meets_pure (moved.weaken (by decide))
    · exact meets_pure moved

end

theorem steps_expression (minimum : Nat) (cursor : Cursor) : Steps 1 (expression minimum) cursor := by
  have steps := steps_expressionWithin (expressionBudget cursor) minimum cursor
  exact ⟨steps.ok, steps.error, steps.blind⟩

theorem steps_call (callee : Name) (cursor : Cursor) : Steps 1 (call callee) cursor := by
  have steps := steps_callWithin (expressionBudget cursor) callee cursor
  exact ⟨steps.ok, steps.error, steps.blind⟩

/-- A rule that ends with `;`. -/
theorem meets_closing (moved : start.Moves cursor sofar) (result : Token → β) :
    Meets (expect (.mark .semicolon) >>= fun token => pure (result token)) cursor
      (fun _ next => start.Ends next) start.Fails := by
  have taken : Meets (expect (.mark .semicolon)) cursor (fun _ next => start.Ends next) start.Fails := by
    unfold expect
    refine meets_peek ?_
    split
    next ends => exact (meets_advance cursor).mono fun _ _ same => same ▸ moved.ends_advance ends
    · split
      · exact meets_throw (moved.fails (fails_here rfl))
      · exact meets_throw (moved.fails (fails_here rfl))
  exact taken.bind fun token next ends => meets_pure ends

theorem ends_declaration (more : cursor.peek.kind ≠ .endOfFile) (plain : cursor.peek.kind ≠ .mark .semicolon) :
    Meets declaration cursor (fun _ next => cursor.Ends next) cursor.Fails := by
  unfold declaration
  refine (steps_advance more plain).bind (.refl cursor) fun word afterWord moved => ?_
  refine (steps_freshId afterWord).bind moved fun id afterId moved => ?_
  refine (steps_identifier afterId).bind moved fun name afterName moved => ?_
  refine (steps_expect (by simp) (by simp) afterName).bind moved fun _ afterAssign moved => ?_
  refine (steps_expression 0 afterAssign).bind moved fun value afterValue moved => ?_
  exact meets_closing moved _

theorem ends_assignment (cursor : Cursor) :
    Meets assignment cursor (fun _ next => cursor.Ends next) cursor.Fails := by
  unfold assignment
  refine (steps_freshId cursor).bind (.refl cursor) fun id afterId moved => ?_
  refine (steps_identifier afterId).bind moved fun target afterName moved => ?_
  refine (steps_expect (by simp) (by simp) afterName).bind moved fun _ afterAssign moved => ?_
  refine (steps_expression 0 afterAssign).bind moved fun value afterValue moved => ?_
  exact meets_closing moved _

theorem ends_callStatement (cursor : Cursor) :
    Meets callStatement cursor (fun _ next => cursor.Ends next) cursor.Fails := by
  unfold callStatement
  refine (steps_expect (by simp) (by simp) cursor).bind (.refl cursor) fun word afterWord moved => ?_
  refine (steps_freshId afterWord).bind moved fun id afterId moved => ?_
  refine (steps_identifier afterId).bind moved fun callee afterName moved => ?_
  refine (steps_call callee afterName).bind moved fun call afterCall moved => ?_
  exact meets_closing moved _

theorem ends_returnStatement (cursor : Cursor) :
    Meets returnStatement cursor (fun _ next => cursor.Ends next) cursor.Fails := by
  unfold returnStatement
  refine (steps_expect (by simp) (by simp) cursor).bind (.refl cursor) fun word afterWord moved => ?_
  refine (steps_freshId afterWord).bind moved fun id afterId moved => ?_
  refine meets_check ?_
  dsimp only
  split
  · exact meets_closing moved _
  · have valued : Steps 1 (some <$> expression 0) afterId :=
      (steps_expression 0 afterId).bind (.refl afterId) fun value next moved => meets_pure moved
    exact valued.bind moved fun value afterValue moved => meets_closing moved _

theorem steps_separators (cursor : Cursor) : Steps 0 separators cursor where
  ok given := by
    cases given
    refine Crosses.moves ⟨cursor.rest.takeWhile isSeparator, ⟨List.takeWhile_append_dropWhile.symm, rfl⟩, ?_⟩ ?_
    · intro token member ends
      have divides := List.all_eq_true.mp List.all_takeWhile token member
      simp [isSeparator, ends] at divides
    · exact (List.dropWhile_suffix _).length_le
  error given := by cases given
  blind _ := rfl

theorem steps_printValuesWithin : ∀ (budget : Nat) (cursor : Cursor), Steps 0 (printValuesWithin budget) cursor
  | 0, cursor => by
    rw [printValuesWithin]
    exact meets_pure (.refl cursor)
  | budget + 1, cursor => by
    rw [printValuesWithin]
    refine meets_peek ?_
    split
    · refine (steps_expression 0 cursor).bind (.refl cursor) fun value afterValue moved => ?_
      refine meets_check ?_
      split
      · exact meets_pure (moved.weaken (Nat.zero_le _))
      · refine (steps_separators afterValue).bind moved fun marks afterMarks moved => ?_
        split
        · exact meets_peek (meets_throw (moved.fails (fails_here rfl)))
        · refine (steps_printValuesWithin budget afterMarks).bind moved fun rest next moved => ?_
          exact meets_pure (moved.weaken (Nat.zero_le _))
    · exact meets_pure (.refl cursor)

theorem ends_printStatement (cursor : Cursor) :
    Meets printStatement cursor (fun _ next => cursor.Ends next) cursor.Fails := by
  unfold printStatement
  refine (steps_expect (by simp) (by simp) cursor).bind (.refl cursor) fun word afterWord moved => ?_
  refine (steps_freshId afterWord).bind moved fun id afterId moved => ?_
  refine (steps_separators afterId).bind moved fun marks afterMarks moved => ?_
  have values : Steps 0 printValues afterMarks := by
    have steps := steps_printValuesWithin (afterMarks.rest.length + 1) afterMarks
    exact ⟨steps.ok, steps.error, steps.blind⟩
  refine values.bind moved fun items afterItems moved => ?_
  exact meets_closing moved _

/-- A rule that takes a token and opens a brace. -/
abbrev Unfolds (rule : Parser α) (cursor : Cursor) : Prop :=
  Meets rule cursor (fun _ next => cursor.Moves next 1 ∧ cursor.Opens) cursor.Fails

theorem Unfolds.steps (unfolds : Unfolds rule cursor) : Steps 1 rule cursor :=
  unfolds.mono fun _ _ moved => moved.1

theorem Unfolds.onward (unfolds : Unfolds rule cursor) (moved : start.Moves cursor sofar) :
    Meets rule cursor (fun _ next => start.Moves next (sofar + 1) ∧ start.Opens) start.Fails where
  ok given := ⟨moved.trans (unfolds.ok given).1, moved.opens (unfolds.ok given).2⟩
  error given := moved.fails (unfolds.error given)
  blind := unfolds.blind

theorem unfolds_openBlock (cursor : Cursor) : Unfolds openBlock cursor := by
  have opened : Steps 1 (expect (.mark .leftBrace)) cursor := steps_expect (by simp) (by simp) cursor
  unfold openBlock
  refine ⟨fun {token last} given => ?_, fun given => ?_, fun older => ?_⟩
  · have found : Outcome True (expect (.mark .leftBrace)) cursor fun token last =>
      token.kind = .mark .leftBrace ∧ cursor.Passes last [token] := outcome_expect (by simp) (.inl trivial)
    cases result : expect (.mark .leftBrace) cursor with
    | ok brace next =>
      simp only [result] at given
      cases given
      obtain ⟨isBrace, passes⟩ := found.ok result
      exact ⟨opened.ok result, [], token, last.rest, passes.rest, List.forall_mem_nil _, isBrace⟩
    | error fault next =>
      simp only [result] at given
      cases given
  · cases result : expect (.mark .leftBrace) cursor with
    | ok token next =>
      simp only [result] at given
      cases given
    | error fault next =>
      have fails := opened.error result
      simp only [result] at given
      cases given
      exact ⟨fails.rest, fails.level⟩
  · rw [opened.blind]
    cases expect (.mark .leftBrace) cursor <;> rfl

/-- A rule that never fails does not look at the faults recorded before it. -/
def Blind (rule : Recovering α) : Prop :=
  ∀ cursor older, rule (cursor.behind older) = ((rule cursor).1, (rule cursor).2.behind older)

theorem meets_ofRecovering {rule : Recovering β} (blind : Blind rule)
    (holds : good (rule cursor).1 (rule cursor).2) : Meets (ofRecovering rule) cursor good bad where
  ok given := by cases given; exact holds
  error given := by cases given
  blind older := by
    unfold ofRecovering
    rw [blind cursor older]
    rfl

theorem Meets.blind_recover {good : α → Cursor → Prop} {handler : SyntaxFault → Recovering α}
    (meets : Meets rule cursor good bad) (handled : ∀ fault, Blind (handler fault)) (older : List SyntaxFault) :
    recover rule handler (cursor.behind older) =
      ((recover rule handler cursor).1, (recover rule handler cursor).2.behind older) := by
  unfold recover
  rw [meets.blind older]
  cases rule cursor with
  | ok value next => rfl
  | error fault next => exact handled fault next older

theorem blind_recoverStatement (place : Span) (fault : SyntaxFault) : Blind (recoverStatement place fault) := by
  intro cursor older
  unfold recoverStatement
  rw [behind_record]
  rfl

mutual

theorem ends_statementWithin : ∀ (budget : Nat) (cursor : Cursor),
    Meets (statementWithin budget) cursor (fun _ next => cursor.Ends next) cursor.Fails
  | 0, cursor => by
    rw [statementWithin]
    exact meets_peek (meets_throw (fails_here rfl))
  | budget + 1, cursor => by
    rw [statementWithin]
    refine meets_peek ?_
    split
    next isImm => exact ends_declaration (by simp [isImm]) (by simp [isImm])
    next isMut => exact ends_declaration (by simp [isMut]) (by simp [isMut])
    · exact ends_assignment cursor
    · exact ends_printStatement cursor
    · exact ends_callStatement cursor
    · refine (steps_expect (by simp) (by simp) cursor).bind (.refl cursor) fun word afterWord moved => ?_
      refine (steps_freshId afterWord).bind moved fun id afterId moved => ?_
      refine (steps_expect (by simp) (by simp) afterId).bind moved fun _ afterOpening moved => ?_
      refine (steps_expression 0 afterOpening).bind moved fun condition afterCondition moved => ?_
      refine (steps_expect (by simp) (by simp) afterCondition).bind moved fun _ afterClosing moved => ?_
      refine ((unfolds_blockWithin budget afterClosing).onward moved).bind ?_
      rintro thenBlock afterThen ⟨moved, opens⟩
      refine (steps_eat (by simp) (by simp) afterThen).bind moved fun more afterElse moved => ?_
      dsimp only
      split
      · have other : Steps 1 (some <$> blockWithin budget) afterElse :=
          (unfolds_blockWithin budget afterElse).steps.bind (.refl afterElse) fun block next moved => meets_pure moved
        exact other.bind moved fun elseBlock next moved => meets_pure (moved.ends opens)
      · exact meets_pure (moved.ends opens)
    · exact ends_returnStatement cursor
    · exact (unfolds_blockWithin budget cursor).bind fun body next moved => meets_pure (moved.1.ends moved.2)
    · exact meets_throw (fails_here rfl)
    · exact meets_throw (fails_here rfl)

theorem unfolds_blockWithin : ∀ (budget : Nat) (cursor : Cursor), Unfolds (blockWithin budget) cursor
  | 0, cursor => by
    rw [blockWithin]
    exact meets_peek (meets_throw (fails_here rfl))
  | budget + 1, cursor => by
    rw [blockWithin]
    refine (unfolds_openBlock cursor).bind ?_
    rintro opening afterOpening ⟨moved, opens⟩
    refine (steps_freshId afterOpening).bind moved fun id afterId moved => ?_
    have body : Meets (ofRecovering (statementsWithin budget)) afterId
        (fun _ next => next.rest <:+ afterId.rest) cursor.Fails :=
      meets_ofRecovering (blind_statementsWithin budget) (reads_statementsWithin budget afterId).rest
    refine body.bind fun statements afterBody rest => ?_
    -- the statements may have taken any number of `;`, but only behind the brace
    have moved : cursor.Moves afterBody 1 := by
      refine ⟨⟨rest.trans moved.rest, ?_⟩, .inr opens⟩
      have := rest.length_le
      have := moved.least
      omega
    refine (steps_expect (by simp) (by simp) afterBody).bind moved fun _ next moved => ?_
    exact meets_pure ⟨moved.weaken (by decide), opens⟩

theorem blind_statementsWithin : ∀ budget : Nat, Blind (statementsWithin budget)
  | 0 => by
    intro cursor older
    rw [statementsWithin]
    rfl
  | budget + 1 => by
    intro cursor older
    rw [statementsWithin_succ, statementsWithin_succ, behind_peek]
    split
    · rfl
    · have first := (ends_statementWithin budget cursor).blind_recover
        (blind_recoverStatement cursor.peek.span) older
      dsimp only
      rw [first, blind_statementsWithin budget _ older]

end

theorem steps_block (cursor : Cursor) : Steps 1 block cursor := by
  have steps := (unfolds_blockWithin (statementBudget cursor) cursor).steps
  unfold block
  exact ⟨steps.ok, steps.error, steps.blind⟩

/-- A type mark is one token, at whose place it stands. -/
theorem meets_typeMark (cursor : Cursor) :
    Meets typeMark cursor (fun mark next => ∃ token, cursor.Passes next [token] ∧
      token.kind ≠ .mark .semicolon ∧ mark.node.span = token.span) cursor.Fails := by
  unfold typeMark
  refine meets_peek ?_
  have mark (primitive : Primitive) (more : cursor.peek.kind ≠ .endOfFile)
      (plain : cursor.peek.kind ≠ .mark .semicolon) :
      Meets (do
        let _ ← advance
        let id ← freshId
        return ⟨primitive, ⟨id, cursor.peek.span⟩⟩ : Parser TypeMark) cursor
        (fun mark next => ∃ token, cursor.Passes next [token] ∧
          token.kind ≠ .mark .semicolon ∧ mark.node.span = token.span) cursor.Fails := by
    refine (meets_advance cursor).bind ?_
    rintro _ _ rfl
    refine (meets_freshId cursor.advance).bind fun id next numbered => ?_
    exact meets_pure ⟨cursor.peek, (passes_advance more).append numbered, plain, rfl⟩
  dsimp only
  split
  next isInt => exact mark .int (by simp [isInt]) (by simp [isInt])
  next isBool => exact mark .bool (by simp [isBool]) (by simp [isBool])
  next isVoid => exact mark .void (by simp [isVoid]) (by simp [isVoid])
  · exact meets_throw (fails_here rfl)
  · exact meets_throw (fails_here rfl)

theorem steps_typeMark (cursor : Cursor) : Steps 1 typeMark cursor := by
  refine (meets_typeMark cursor).mono ?_
  rintro mark next ⟨token, passes, plain, -⟩
  have length := passes.length
  rw [List.length_singleton] at length
  exact Crosses.moves ⟨_, passes, List.forall_mem_singleton.mpr plain⟩ (by omega)

theorem steps_parameter (cursor : Cursor) : Steps 1 parameter cursor := by
  unfold parameter
  refine (steps_freshId cursor).bind (.refl cursor) fun id afterId moved => ?_
  -- a fault at a `void` lies at the mark, which has been taken when the fault is thrown
  have marked := meets_typeMark afterId
  have typed : Meets typeMark afterId (fun mark next => afterId.Moves next 1 ∧
      ∀ fault : SyntaxFault, fault.span = mark.node.span → cursor.Fails fault next) cursor.Fails := by
    refine ⟨fun given => ⟨(steps_typeMark afterId).ok given, fun fault same => ?_⟩,
      fun given => moved.fails (marked.error given), marked.blind⟩
    obtain ⟨token, passes, plain, place⟩ := marked.ok given
    exact moved.fails (fails_behind passes (List.forall_mem_singleton.mpr plain) List.mem_cons_self (same.trans place))
  refine typed.bind ?_
  rintro type afterType ⟨onward, fails⟩
  dsimp only
  split
  · have never : Meets (throw ⟨.expectedType, type.node.span, "parameters must be int or bool"⟩) afterType
        (fun (_ : Unit) _ => False) cursor.Fails := meets_throw (fails _ rfl)
    exact never.bind nofun
  · refine (steps_identifier afterType).bind (moved.trans onward) fun name next moved => ?_
    exact meets_pure (moved.weaken (by decide))

theorem steps_parametersWithin : ∀ (budget : Nat) (cursor : Cursor), Steps 1 (parametersWithin budget) cursor
  | 0, cursor => by
    rw [parametersWithin]
    exact meets_peek (meets_throw (fails_here rfl))
  | budget + 1, cursor => by
    rw [parametersWithin]
    refine (steps_parameter cursor).bind (.refl cursor) fun first afterFirst moved => ?_
    refine (steps_eat (by simp) (by simp) afterFirst).bind moved fun more afterComma moved => ?_
    split
    · refine (steps_parametersWithin budget afterComma).bind moved fun rest next moved => ?_
      exact meets_pure (moved.weaken (by decide))
    · exact meets_pure moved

theorem steps_parameterList (cursor : Cursor) : Steps 1 parameterList cursor := by
  unfold parameterList
  refine (steps_expect (by simp) (by simp) cursor).bind (.refl cursor) fun opening afterOpening moved => ?_
  refine (steps_freshId afterOpening).bind moved fun id afterId moved => ?_
  refine meets_check ?_
  dsimp only
  split
  · refine (steps_expect (by simp) (by simp) afterId).bind moved fun _ next moved => ?_
    exact meets_pure (moved.weaken (by decide))
  · have list : Steps 1 parameters afterId := by
      have steps := steps_parametersWithin (afterId.rest.length + 1) afterId
      exact ⟨steps.ok, steps.error, steps.blind⟩
    refine list.bind moved fun list afterList moved => ?_
    refine (steps_expect (by simp) (by simp) afterList).bind moved fun _ next moved => ?_
    exact meets_pure (moved.weaken (by decide))

theorem steps_function (cursor : Cursor) : Steps 1 function cursor := by
  unfold function
  refine (steps_expect (by simp) (by simp) cursor).bind (.refl cursor) fun word afterWord moved => ?_
  refine (steps_freshId afterWord).bind moved fun id afterId moved => ?_
  refine (steps_typeMark afterId).bind moved fun result afterResult moved => ?_
  refine (steps_identifier afterResult).bind moved fun name afterName moved => ?_
  refine (steps_parameterList afterName).bind moved fun list afterList moved => ?_
  refine (steps_block afterList).bind moved fun body next moved => ?_
  exact meets_pure (moved.weaken (by decide))

theorem steps_singleFunction (cursor : Cursor) :
    Steps 1 (do return [← function] : Parser (List Function)) cursor :=
  (steps_function cursor).bind (.refl cursor) fun _ _ moved => meets_pure moved

theorem blind_functionsWithin : ∀ budget : Nat, Blind (functionsWithin budget)
  | 0 => by
    intro cursor older
    rw [functionsWithin]
    rfl
  | budget + 1 => by
    intro cursor older
    have handled (fault : SyntaxFault) : Blind (recoverFunction fault) := by
      intro cursor older
      unfold recoverFunction
      rw [behind_record]
      rfl
    rw [functionsWithin_succ, functionsWithin_succ, behind_peek]
    split
    · dsimp only
      rw [(steps_singleFunction cursor).blind_recover handled older, blind_functionsWithin budget _ older]
    · rfl

theorem steps_mainBlock (cursor : Cursor) : Steps 1 mainBlock cursor := by
  unfold mainBlock
  refine (steps_expect (by simp) (by simp) cursor).bind (.refl cursor) fun _ afterWord moved => ?_
  exact ((steps_block afterWord).onward moved).mono fun _ _ moved => moved.weaken (by decide)

/-- What is read does not depend on the faults recorded before. -/
theorem blind_program : Blind program := by
  intro cursor older
  have handled (fault : SyntaxFault) : Blind (recoverMain fault) := by
    intro cursor older
    unfold recoverMain
    rw [behind_record]
    rfl
  have ending (cursor : Cursor) : expectEnd (cursor.behind older) = (expectEnd cursor).behind older := by
    unfold expectEnd
    dsimp only
    rw [behind_peek]
    split
    · rfl
    · exact behind_record older cursor _
  have first : functions { cursor.behind older with nextId := cursor.nextId + 1 } =
      ((functions { cursor with nextId := cursor.nextId + 1 }).1,
        (functions { cursor with nextId := cursor.nextId + 1 }).2.behind older) :=
    blind_functionsWithin _ { cursor with nextId := cursor.nextId + 1 } older
  rw [program_eq, program_eq]
  dsimp only
  have sameId : (cursor.behind older).nextId = cursor.nextId := rfl
  rw [sameId, first]
  dsimp only
  rw [(steps_mainBlock _).blind_recover handled older]
  dsimp only
  rw [ending]
  rfl

end Parser

/-- The same program is read when the faults of the text are not recorded. -/
theorem Program.read_eq (source : String) :
    Program.read source = ((Parser.program (Cursor.ofText source).clear).1,
      (Scan.ofText source).faults.map SyntaxFault.ofLexical ++
        (Parser.program (Cursor.ofText source).clear).2.faults) := by
  have blind := Parser.blind_program (Cursor.ofText source).clear (Cursor.ofText source).faults
  rw [Cursor.behind_clear] at blind
  unfold Program.read
  rw [blind]
  rfl

end Stackwright
