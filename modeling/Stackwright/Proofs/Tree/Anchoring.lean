import Stackwright.Proofs.Tree.Anchors
import Stackwright.Proofs.Tree.Progress

/-! Where a parsing rule puts its faults and its nodes. A fault is always at a token that the rule has come
upon or at the end of the file, whether the rule fails with it or records it and goes on; and a tree that is
read without a fault is anchored in the tokens it was read from. The tokens begin one behind another, which
is what keeps the start of a region when the region of a later part is merged into it. -/

set_option autoImplicit false

namespace Stackwright

namespace Cursor

def Ordered (cursor : Cursor) : Prop := Token.Ordered cursor.rest

/-- The region is that of a token ahead, or is where the file ends. -/
def Sees (cursor : Cursor) (span : Span) : Prop :=
  span = cursor.finish ∨ ∃ token ∈ cursor.rest, span = token.span

/-- One cursor is ahead of another. The token taken last lay ahead, and so did those that faults were
recorded at in between. -/
structure Reaches (cursor next : Cursor) : Prop where
  rest : next.rest <:+ cursor.rest
  finish : next.finish = cursor.finish
  previous : next.previous = cursor.previous ∧ next.rest = cursor.rest ∨
    ∃ token ∈ cursor.rest, next.previous = some token.span
  faults : ∃ recorded, next.faults = cursor.faults ++ recorded ∧ ∀ fault ∈ recorded, cursor.Sees fault.span

variable {first second third : Cursor} {tokens : List Token} {span : Span}

theorem Passes.ordered (passes : first.Passes second tokens) (ordered : first.Ordered) : Token.Ordered tokens :=
  (List.pairwise_append.mp (passes.rest ▸ ordered : Token.Ordered (tokens ++ second.rest))).1

theorem Passes.rest_ordered (passes : first.Passes second tokens) (ordered : first.Ordered) : second.Ordered :=
  (List.pairwise_append.mp (passes.rest ▸ ordered : Token.Ordered (tokens ++ second.rest))).2.1

/-- Tokens that were taken begin where the first of them does, also when the region of a later part is merged in. -/
theorem Passes.starts_merge {word other : Token} (passes : first.Passes second (word :: tokens)) (ordered : first.Ordered)
    (starts : span.StartsAt other) (later : other ∈ tokens) : (word.span.merge span).StartsAt word :=
  (Span.startsAt_self word).merge_later starts later (passes.ordered ordered)

theorem Reaches.ordered (reaches : first.Reaches second) (ordered : first.Ordered) : second.Ordered :=
  List.Pairwise.sublist reaches.rest.sublist ordered

theorem Reaches.sees (reaches : first.Reaches second) (sees : second.Sees span) : first.Sees span := by
  rcases sees with ended | ⟨token, member, same⟩
  · exact .inl (ended.trans reaches.finish)
  · exact .inr ⟨token, reaches.rest.subset member, same⟩

/-- Nothing but the supply of numbers has changed. -/
theorem Reaches.still (rest : second.rest = first.rest) (finish : second.finish = first.finish)
    (previous : second.previous = first.previous) (faults : second.faults = first.faults) : first.Reaches second :=
  ⟨rest ▸ List.suffix_refl _, finish, .inl ⟨previous, rest⟩, [], by rw [faults, List.append_nil],
    List.forall_mem_nil _⟩

theorem Reaches.refl (cursor : Cursor) : cursor.Reaches cursor := .still rfl rfl rfl rfl

theorem Reaches.trans (one : first.Reaches second) (two : second.Reaches third) : first.Reaches third where
  rest := two.rest.trans one.rest
  finish := two.finish.trans one.finish
  previous := by
    rcases two.previous with ⟨same, unmoved⟩ | ⟨token, member, taken⟩
    · rcases one.previous with ⟨same', unmoved'⟩ | ⟨token, member, taken⟩
      · exact .inl ⟨same.trans same', unmoved.trans unmoved'⟩
      · exact .inr ⟨token, member, same.trans taken⟩
    · exact .inr ⟨token, one.rest.subset member, taken⟩
  faults := by
    obtain ⟨recorded, added, seen⟩ := one.faults
    obtain ⟨later, added', seen'⟩ := two.faults
    refine ⟨recorded ++ later, by rw [added', added, List.append_assoc], List.forall_mem_append.mpr ⟨seen, ?_⟩⟩
    exact fun fault member => one.sees (seen' fault member)

theorem sees_peek (cursor : Cursor) : cursor.Sees cursor.peek.span := by
  unfold peek
  cases ahead : cursor.rest with
  | nil => exact .inl rfl
  | cons token rest => exact .inr ⟨token, by rw [ahead]; exact List.mem_cons_self, rfl⟩

theorem reaches_advance (cursor : Cursor) : cursor.Reaches cursor.advance := by
  unfold advance
  cases ahead : cursor.rest with
  | nil => exact .refl cursor
  | cons token rest =>
    refine ⟨?_, rfl, .inr ⟨token, ?_, rfl⟩, [], (List.append_nil _).symm, List.forall_mem_nil _⟩
    · rw [ahead]
      exact List.suffix_cons ..
    · rw [ahead]
      exact List.mem_cons_self

/-- A fault is recorded at a token that was ahead. -/
theorem Reaches.record (reaches : first.Reaches second) {fault : SyntaxFault} (sees : first.Sees fault.span) :
    first.Reaches (second.record fault) where
  rest := reaches.rest
  finish := reaches.finish
  previous := reaches.previous
  faults := by
    obtain ⟨recorded, added, seen⟩ := reaches.faults
    exact ⟨recorded ++ [fault], by rw [Cursor.record, added, List.append_assoc],
      List.forall_mem_append.mpr ⟨seen, List.forall_mem_singleton.mpr sees⟩⟩

theorem skipStatement_previous (previous : Option Span) (tokens : List Token) :
    skipStatement previous tokens = (previous, tokens) ∨
      ∃ token ∈ tokens, (skipStatement previous tokens).1 = some token.span := by
  induction tokens generalizing previous with
  | nil => exact .inl rfl
  | cons token rest ih =>
    unfold skipStatement
    split
    · exact .inl rfl
    · exact .inr ⟨token, List.mem_cons_self, rfl⟩
    · rcases ih (some token.span) with stays | ⟨later, member, taken⟩
      · exact .inr ⟨token, List.mem_cons_self, congrArg Prod.fst stays⟩
      · exact .inr ⟨later, List.mem_cons_of_mem _ member, taken⟩

theorem skipItem_previous (previous : Option Span) (tokens : List Token) :
    skipItem previous tokens = (previous, tokens) ∨
      ∃ token ∈ tokens, (skipItem previous tokens).1 = some token.span := by
  induction tokens generalizing previous with
  | nil => exact .inl rfl
  | cons token rest ih =>
    unfold skipItem
    split
    · exact .inl rfl
    · exact .inl rfl
    · rcases ih (some token.span) with stays | ⟨later, member, taken⟩
      · exact .inr ⟨token, List.mem_cons_self, congrArg Prod.fst stays⟩
      · exact .inr ⟨later, List.mem_cons_of_mem _ member, taken⟩

/-- Going on at tokens that were not skipped. -/
theorem reaches_skip {cursor : Cursor} {skipped : Option Span × List Token} (rest : skipped.2 <:+ cursor.rest)
    (previous : skipped = (cursor.previous, cursor.rest) ∨ ∃ token ∈ cursor.rest, skipped.1 = some token.span) :
    cursor.Reaches { cursor with previous := skipped.1, rest := skipped.2 } := by
  refine ⟨rest, rfl, ?_, [], (List.append_nil _).symm, List.forall_mem_nil _⟩
  refine previous.imp_left fun stays => ?_
  rw [stays]
  exact ⟨rfl, rfl⟩

theorem reaches_resumeStatement (cursor : Cursor) : cursor.Reaches cursor.resumeStatement :=
  reaches_skip (skipStatement_suffix ..) (skipStatement_previous ..)

theorem reaches_resumeItem (cursor : Cursor) : cursor.Reaches cursor.resumeItem :=
  reaches_skip (skipItem_suffix ..) (skipItem_previous ..)

end Cursor

namespace Parser

open Cursor Anchored
open Grammar (Listed Divided Sequence IsDivider)

/-- From `start` on, where the tokens begin one behind another, a rule that succeeds gives a `good` result, and
one that fails does so at a token that was ahead of `start`. Either way that holds of what was recorded too. -/
def Located {α : Type} (start : Cursor) (rule : Parser α) (cursor : Cursor) (good : α → Cursor → Prop) : Prop :=
  start.Ordered → start.Reaches cursor →
    match rule cursor with
    | .ok value next => start.Reaches next ∧ good value next
    | .error fault next => start.Reaches next ∧ start.Sees fault.span

section
variable {α β : Type} {start cursor : Cursor}

/-- What is known of the cursor before the rule may be used. -/
theorem Located.of_reaches {rule : Parser α} {good : α → Cursor → Prop}
    (located : start.Ordered → start.Reaches cursor → Located start rule cursor good) :
    Located start rule cursor good :=
  fun ordered reaches => located ordered reaches ordered reaches

theorem Located.mono {rule : Parser α} {good better : α → Cursor → Prop} (located : Located start rule cursor good)
    (implies : ∀ value next, good value next → better value next) : Located start rule cursor better := by
  intro ordered reaches
  have outcome := located ordered reaches
  cases result : rule cursor with
  | ok value next =>
    rw [result] at outcome
    exact ⟨outcome.1, implies _ _ outcome.2⟩
  | error fault next =>
    rw [result] at outcome
    exact outcome

theorem Located.congr {rule : Parser α} {good : α → Cursor → Prop} (other : Parser α) (same : rule cursor = other cursor)
    (located : Located start other cursor good) : Located start rule cursor good := by
  intro ordered reaches
  rw [same]
  exact located ordered reaches

theorem Located.bind {rule : Parser α} {follow : α → Parser β} {middle : α → Cursor → Prop}
    {good : β → Cursor → Prop} (one : Located start rule cursor middle)
    (two : ∀ value next, middle value next → Located start (follow value) next good) :
    Located start (rule >>= follow) cursor good := by
  intro ordered reaches
  have outcome := one ordered reaches
  cases result : rule cursor with
  | error fault next =>
    rw [result] at outcome
    rw [bind_of_error result]
    exact outcome
  | ok value next =>
    rw [result] at outcome
    rw [bind_of_ok result]
    exact two value next outcome.2 ordered outcome.1

theorem located_pure {good : α → Cursor → Prop} {value : α} (holds : good value cursor) :
    Located start (pure value) cursor good :=
  fun _ reaches => ⟨reaches, holds⟩

theorem located_throw {good : α → Cursor → Prop} {fault : SyntaxFault} (sees : start.Sees fault.span) :
    Located start (throw fault) cursor good :=
  fun _ reaches => ⟨reaches, sees⟩

/-- The fault is at the next token. -/
theorem located_throw_here {good : α → Cursor → Prop} {fault : SyntaxFault} (here : fault.span = cursor.peek.span) :
    Located start (throw fault) cursor good :=
  fun _ reaches => ⟨reaches, reaches.sees (here ▸ cursor.sees_peek)⟩

theorem located_peek {follow : Token → Parser β} {good : β → Cursor → Prop}
    (two : Located start (follow cursor.peek) cursor good) : Located start (peek >>= follow) cursor good := two

theorem located_check {kind : Kind} {follow : Bool → Parser β} {good : β → Cursor → Prop}
    (two : Located start (follow (cursor.peek.kind == kind)) cursor good) :
    Located start (check kind >>= follow) cursor good := two

/-- Take the next token, then go on. -/
theorem located_advance {follow : Token → Parser β} {good : β → Cursor → Prop}
    (more : cursor.peek.kind ≠ .endOfFile)
    (two : ∀ next, cursor.Passes next [cursor.peek] → Located start (follow cursor.peek) next good) :
    Located start (advance >>= follow) cursor good := fun ordered reaches =>
  two cursor.advance (passes_advance more) ordered (reaches.trans cursor.reaches_advance)

/-- Take a new number, then go on. -/
theorem located_freshId {follow : Nat → Parser β} {good : β → Cursor → Prop}
    (two : ∀ id next, cursor.Passes next [] → Located start (follow id) next good) :
    Located start (freshId >>= follow) cursor good := fun ordered reaches =>
  two cursor.nextId { cursor with nextId := cursor.nextId + 1 } ⟨rfl, rfl⟩ ordered
    (reaches.trans (.still rfl rfl rfl rfl))

/-- Take the next token if it is of the kind, then go on either way. -/
theorem located_eat {kind : Kind} {follow : Bool → Parser β} {good : β → Cursor → Prop} (real : kind ≠ .endOfFile)
    (found : ∀ token next, token.kind = kind → cursor.Passes next [token] → Located start (follow true) next good)
    (missing : Located start (follow false) cursor good) : Located start (eat kind >>= follow) cursor good := by
  have eats : Located start (eat kind) cursor fun taken next =>
      taken = true ∧ cursor.peek.kind = kind ∧ cursor.Passes next [cursor.peek] ∨ taken = false ∧ next = cursor := by
    unfold eat
    refine located_check ?_
    split
    next same =>
      have isKind : cursor.peek.kind = kind := by simpa using same
      exact located_advance (isKind ▸ real) fun next passes => located_pure (.inl ⟨rfl, isKind, passes⟩)
    next => exact located_pure (.inr ⟨rfl, rfl⟩)
  refine eats.bind ?_
  rintro _ next (⟨rfl, isKind, passes⟩ | ⟨rfl, rfl⟩)
  · exact found cursor.peek next isKind passes
  · exact missing

theorem located_expect {kind : Kind} (real : kind ≠ .endOfFile) :
    Located start (expect kind) cursor fun token next => token.kind = kind ∧ cursor.Passes next [token] := by
  unfold expect
  refine located_peek ?_
  split
  next isKind =>
    exact fun _ reaches => ⟨reaches.trans cursor.reaches_advance, isKind, passes_advance (isKind ▸ real)⟩
  · split
    · exact located_throw_here rfl
    · exact located_throw_here rfl

theorem located_identifier :
    Located start identifier cursor fun name next => ∃ token, cursor.Passes next [token] ∧ Named token name := by
  unfold identifier
  refine located_peek ?_
  split
  next isName =>
    refine located_advance (by simp [isName]) fun afterName taken => ?_
    refine located_freshId fun id last numbered => ?_
    exact located_pure ⟨cursor.peek, taken.append numbered, isName, rfl, Span.startsAt_self _⟩
  · exact located_throw_here rfl
  · exact located_throw_here rfl

/-- A rule that never fails. -/
theorem Located.result {rule : Recovering α} {good : α → Cursor → Prop}
    (located : Located start (ofRecovering rule) cursor good) (ordered : start.Ordered) (reaches : start.Reaches cursor) :
    start.Reaches (rule cursor).2 ∧ good (rule cursor).1 (rule cursor).2 :=
  located ordered reaches

/-- A rule that is made good by recording the fault and going on gets further in any case, and it succeeded
if nothing was recorded. -/
theorem located_recover {rule : Parser α} {handler : SyntaxFault → Recovering α} {good : α → Cursor → Prop}
    (located : Located start rule cursor fun value next => next.faults = [] → good value next)
    (handled : ∀ fault (next : Cursor), (next.record fault).Reaches (handler fault next).2) :
    Located start (ofRecovering (recover rule handler)) cursor fun value next => next.faults = [] → good value next := by
  intro ordered reaches
  have outcome := located ordered reaches
  unfold ofRecovering recover
  cases result : rule cursor with
  | ok value next =>
    rw [result] at outcome
    exact outcome
  | error fault next =>
    rw [result] at outcome
    refine ⟨(outcome.1.record outcome.2).trans (handled fault next), fun clean => ?_⟩
    obtain ⟨recorded, added, -⟩ := (handled fault next).faults
    rw [clean] at added
    simp [record] at added

end

section
variable {start : Cursor}

theorem located_literal {cursor : Cursor} (isLiteral : cursor.peek.kind.isLiteral = true) :
    Located start (literal cursor.peek) cursor fun expr next => Accepted Expression cursor next expr := by
  have more : cursor.peek.kind ≠ .endOfFile := by
    intro ended
    simp [ended, Kind.isLiteral] at isLiteral
  refine .of_reaches fun _ reaches => ?_
  unfold literal
  refine located_advance more fun afterToken taken => ?_
  split
  next value decoded =>
    refine located_freshId fun id last numbered => ?_
    exact located_pure ⟨_, taken.append numbered, .literal isLiteral decoded (Span.startsAt_self _)⟩
  next failed => exact located_throw (reaches.sees (span_of_ofToken_error failed ▸ cursor.sees_peek))

mutual

theorem located_expressionWithin : ∀ (budget minimum : Nat) (cursor : Cursor),
    Located start (expressionWithin budget minimum) cursor fun expr next => Accepted Expression cursor next expr
  | 0, _, cursor => by
    rw [expressionWithin]
    exact located_peek (located_throw_here rfl)
  | budget + 1, minimum, cursor => by
    rw [expressionWithin]
    refine .of_reaches fun ordered reaches => ?_
    refine (located_operandWithin budget cursor).bind ?_
    rintro left next ⟨tokens, passes, anchored⟩
    exact located_operatorsWithin budget minimum left cursor next tokens passes anchored (reaches.ordered ordered)

/-- The tokens of the operand on the left were taken since `origin`. -/
theorem located_operatorsWithin : ∀ (budget minimum : Nat) (left : Expr) (origin cursor : Cursor) (tokens : List Token),
    origin.Passes cursor tokens → Expression tokens left → origin.Ordered →
    Located start (operatorsWithin budget minimum left) cursor fun expr next => Accepted Expression origin next expr
  | 0, _, left, origin, cursor, tokens, passes, anchored, _ => by
    rw [operatorsWithin]
    exact located_pure ⟨tokens, passes, anchored⟩
  | budget + 1, minimum, left, origin, cursor, tokens, passes, anchored, ordered => by
    rw [operatorsWithin]
    refine located_peek ?_
    split
    · exact located_pure ⟨tokens, passes, anchored⟩
    next operator found =>
      split
      · exact located_pure ⟨tokens, passes, anchored⟩
      · have more : cursor.peek.kind ≠ .endOfFile := by
          intro ended
          simp [ended, BinaryOperator.ofKind?] at found
        refine located_advance more fun afterMark taken => ?_
        refine (located_expressionWithin budget operator.rightPower afterMark).bind ?_
        rintro right afterRight ⟨rightTokens, rightPasses, rightAnchored⟩
        refine located_freshId fun id last numbered => ?_
        have whole := passes.append (taken.append (rightPasses.append numbered))
        rw [List.append_nil] at whole
        refine located_operatorsWithin budget minimum _ origin last _ whole (.chain anchored found rightAnchored ?_) ordered
        obtain ⟨token, first, starts⟩ := rightAnchored.startsInside
        exact anchored.startsInside.merge
          ⟨token, List.mem_cons_of_mem _ (List.mem_of_find?_eq_some first), starts⟩ (whole.ordered ordered)

theorem located_operandWithin : ∀ (budget : Nat) (cursor : Cursor),
    Located start (operandWithin budget) cursor fun expr next => Accepted Expression cursor next expr
  | 0, cursor => by
    rw [operandWithin]
    exact located_peek (located_throw_here rfl)
  | budget + 1, cursor => by
    rw [operandWithin]
    refine .of_reaches fun ordered reaches => ?_
    have ordered := reaches.ordered ordered
    refine located_peek ?_
    split
    next isInt => exact located_literal (by simp [isInt, Kind.isLiteral])
    next isFloat => exact located_literal (by simp [isFloat, Kind.isLiteral])
    next isChar => exact located_literal (by simp [isChar, Kind.isLiteral])
    next isString => exact located_literal (by simp [isString, Kind.isLiteral])
    next isTrue => exact located_literal (by simp [isTrue, Kind.isLiteral])
    next isFalse => exact located_literal (by simp [isFalse, Kind.isLiteral])
    next =>
      refine located_identifier.bind ?_
      rintro name afterName ⟨token, named, isName⟩
      refine located_check ?_
      split
      · refine (located_callWithin budget name cursor afterName token named isName ordered).bind ?_
        rintro call last ⟨tokens, listed, invocation⟩
        exact located_pure ⟨_, named.append listed, invocation.expression⟩
      · exact located_pure ⟨_, named, .named isName⟩
    next isMinus =>
      refine located_advance (by simp [isMinus]) fun afterMark taken => ?_
      refine (located_expressionWithin budget _ afterMark).bind ?_
      rintro operand afterOperand ⟨tokens, passes, anchored⟩
      refine located_freshId fun id last numbered => ?_
      have whole := taken.append (passes.append numbered)
      rw [List.append_nil] at whole
      refine located_pure ⟨_, whole, .negation isMinus anchored ?_⟩
      obtain ⟨token, first, starts⟩ := anchored.startsInside
      exact whole.starts_merge ordered starts (List.mem_of_find?_eq_some first)
    next isParen =>
      refine located_advance (by simp [isParen]) fun afterMark taken => ?_
      refine (located_expressionWithin budget 0 afterMark).bind ?_
      rintro inner afterInner ⟨tokens, passes, anchored⟩
      refine (located_expect (by simp)).bind ?_
      rintro closing last ⟨isClosing, closed⟩
      exact located_pure ⟨_, taken.append (passes.append closed), .group isParen anchored isClosing⟩
    · exact located_throw_here rfl
    · exact located_throw_here rfl

/-- The callee was taken since `origin`. -/
theorem located_callWithin : ∀ (budget : Nat) (callee : Name) (origin cursor : Cursor) (token : Token),
    origin.Passes cursor [token] → Named token callee → origin.Ordered →
    Located start (callWithin budget callee) cursor fun call next => Accepted (Invocation token) cursor next call
  | 0, _, _, cursor, _, _, _, _ => by
    rw [callWithin]
    exact located_peek (located_throw_here rfl)
  | budget + 1, callee, origin, cursor, token, named, isName, ordered => by
    rw [callWithin]
    refine (located_expect (by simp)).bind ?_
    rintro opening afterOpening ⟨isOpening, opened⟩
    refine located_freshId fun list afterList numbered => ?_
    -- after the arguments both branches go on alike
    have finish (arguments : List Expr) (tokens : List Token) (next : Cursor) (passes : afterList.Passes next tokens)
        (listed : ∀ closing : Token, closing.kind = .mark .rightParen →
          Listed Expression (opening :: tokens ++ [closing]) arguments) :
        Located start (do
          let closing := (← expect (.mark .rightParen)).span
          return ⟨callee, arguments, ⟨list, opening.span.merge closing⟩,
            ⟨← freshId, callee.node.span.merge closing⟩⟩ : Parser Call) next fun call last =>
          Accepted (Invocation token) cursor last call := by
      refine (located_expect (by simp)).bind ?_
      rintro closing afterClosing ⟨isClosing, closed⟩
      refine located_freshId fun id last ended => ?_
      have whole := opened.append (numbered.append (passes.append (closed.append ended)))
      have inOrder := (named.append whole).ordered ordered
      refine located_pure ⟨_, whole, isName, listed closing isClosing, (Span.startsFirst_cons _ rfl).mpr ?_, ?_⟩
      · exact (Span.startsAt_self _).merge_later (Span.startsAt_self closing) (by simp) (List.pairwise_cons.mp inOrder).2
      · exact isName.node.merge_later (Span.startsAt_self closing) (by simp) inOrder
    refine located_check ?_
    dsimp only
    split
    · exact finish [] [] afterList (.refl _) fun closing isClosing => .none isOpening isClosing
    · refine (located_argumentsWithin budget afterList).bind ?_
      rintro arguments next ⟨tokens, passes, anchored⟩
      exact finish arguments tokens next passes fun closing isClosing => .some isOpening anchored isClosing

theorem located_argumentsWithin : ∀ (budget : Nat) (cursor : Cursor),
    Located start (argumentsWithin budget) cursor fun arguments next =>
      Accepted (Divided Expression) cursor next arguments
  | 0, cursor => by
    rw [argumentsWithin]
    exact located_peek (located_throw_here rfl)
  | budget + 1, cursor => by
    rw [argumentsWithin]
    refine (located_expressionWithin budget 0 cursor).bind ?_
    rintro first afterFirst ⟨tokens, passes, anchored⟩
    refine located_eat (by simp) ?_ (located_pure ⟨_, passes, .last anchored⟩)
    intro comma afterComma isComma taken
    refine (located_argumentsWithin budget afterComma).bind ?_
    rintro rest last ⟨restTokens, restPasses, restAnchored⟩
    exact located_pure ⟨_, passes.append (taken.append restPasses), .more anchored isComma restAnchored⟩

end

theorem located_expression (minimum : Nat) (cursor : Cursor) :
    Located start (expression minimum) cursor fun expr next => Accepted Expression cursor next expr :=
  .congr (expressionWithin (expressionBudget cursor) minimum) (by rw [expression])
    (located_expressionWithin _ minimum cursor)

theorem located_call {callee : Name} {origin cursor : Cursor} {token : Token} (named : origin.Passes cursor [token])
    (isName : Named token callee) (ordered : origin.Ordered) :
    Located start (call callee) cursor fun call next => Accepted (Invocation token) cursor next call :=
  .congr (callWithin (expressionBudget cursor) callee) (by rw [call])
    (located_callWithin _ callee origin cursor token named isName ordered)

theorem located_declaration {cursor : Cursor} (isMutable : Bool)
    (begins : cursor.peek.kind = .keyword (if isMutable then .mutWord else .immWord)) :
    Located start declaration cursor fun stmt next => Accepted Statement cursor next stmt := by
  refine .of_reaches fun ordered reaches => ?_
  unfold declaration
  refine located_advance (by simp [begins]) fun afterWord taken => ?_
  refine located_freshId fun id afterId numbered => ?_
  refine located_identifier.bind ?_
  rintro name afterName ⟨token, named, isName⟩
  refine (located_expect (by simp)).bind ?_
  rintro assign afterAssign ⟨isAssign, assigned⟩
  refine (located_expression 0 afterAssign).bind ?_
  rintro value afterValue ⟨tokens, valued, anchored⟩
  refine (located_expect (by simp)).bind ?_
  rintro semicolon last ⟨isSemicolon, ended⟩
  have whole := taken.append (numbered.append (named.append (assigned.append (valued.append ended))))
  have sameWord : (cursor.peek.kind == .keyword .mutWord) = isMutable := by
    cases isMutable <;> simp [begins]
  rw [sameWord]
  refine located_pure ⟨_, whole, .declare begins isName isAssign anchored isSemicolon ?_⟩
  exact whole.starts_merge (reaches.ordered ordered) (Span.startsAt_self semicolon) (by simp)

theorem located_assignment (cursor : Cursor) :
    Located start assignment cursor fun stmt next => Accepted Statement cursor next stmt := by
  refine .of_reaches fun ordered reaches => ?_
  unfold assignment
  refine located_freshId fun id afterId numbered => ?_
  refine located_identifier.bind ?_
  rintro target afterName ⟨token, named, isName⟩
  refine (located_expect (by simp)).bind ?_
  rintro assign afterAssign ⟨isAssign, assigned⟩
  refine (located_expression 0 afterAssign).bind ?_
  rintro value afterValue ⟨tokens, valued, anchored⟩
  refine (located_expect (by simp)).bind ?_
  rintro semicolon last ⟨isSemicolon, ended⟩
  have whole := numbered.append (named.append (assigned.append (valued.append ended)))
  refine located_pure ⟨_, whole, .assign isName isAssign anchored isSemicolon ?_⟩
  exact isName.node.merge_later (Span.startsAt_self semicolon) (by simp) (whole.ordered (reaches.ordered ordered))

theorem located_callStatement (cursor : Cursor) :
    Located start callStatement cursor fun stmt next => Accepted Statement cursor next stmt := by
  refine .of_reaches fun ordered reaches => ?_
  have ordered := reaches.ordered ordered
  unfold callStatement
  refine (located_expect (by simp)).bind ?_
  rintro word afterWord ⟨isWord, taken⟩
  refine located_freshId fun id afterId numbered => ?_
  have begun := taken.append numbered
  refine located_identifier.bind ?_
  rintro callee afterName ⟨token, named, isName⟩
  refine (located_call named isName (begun.rest_ordered ordered)).bind ?_
  rintro call afterCall ⟨tokens, listed, invocation⟩
  refine (located_expect (by simp)).bind ?_
  rintro semicolon last ⟨isSemicolon, ended⟩
  have whole := begun.append (named.append (listed.append ended))
  refine located_pure ⟨_, whole, .call isWord invocation isSemicolon ?_⟩
  exact whole.starts_merge ordered (Span.startsAt_self semicolon) (by simp)

theorem located_returnStatement (cursor : Cursor) :
    Located start returnStatement cursor fun stmt next => Accepted Statement cursor next stmt := by
  refine .of_reaches fun ordered reaches => ?_
  have ordered := reaches.ordered ordered
  unfold returnStatement
  refine (located_expect (by simp)).bind ?_
  rintro word afterWord ⟨isWord, taken⟩
  refine located_freshId fun id afterId numbered => ?_
  refine located_check ?_
  dsimp only
  split
  · refine (located_expect (by simp)).bind ?_
    rintro semicolon last ⟨isSemicolon, ended⟩
    have whole := taken.append (numbered.append ended)
    refine located_pure ⟨_, whole, .ret isWord isSemicolon ?_⟩
    exact whole.starts_merge ordered (Span.startsAt_self semicolon) (by simp)
  · have one : Located start (some <$> expression 0) afterId fun value next =>
        ∃ expr, value = some expr ∧ Accepted Expression afterId next expr :=
      (located_expression 0 afterId).bind fun expr next accepted => located_pure ⟨expr, rfl, accepted⟩
    refine one.bind ?_
    rintro _ afterValue ⟨value, rfl, tokens, valued, anchored⟩
    refine (located_expect (by simp)).bind ?_
    rintro semicolon last ⟨isSemicolon, ended⟩
    have whole := taken.append (numbered.append (valued.append ended))
    refine located_pure ⟨_, whole, .retValue isWord anchored isSemicolon ?_⟩
    exact whole.starts_merge ordered (Span.startsAt_self semicolon) (by simp)

theorem located_separators (cursor : Cursor) :
    Located start separators cursor fun marks next => cursor.Passes next marks ∧ ∀ token ∈ marks, IsDivider token := by
  intro _ reaches
  have split : cursor.rest = cursor.rest.takeWhile isSeparator ++ cursor.rest.dropWhile isSeparator :=
    List.takeWhile_append_dropWhile.symm
  refine ⟨reaches.trans ⟨List.dropWhile_suffix _, rfl, ?_, [], (List.append_nil _).symm, List.forall_mem_nil _⟩,
    ⟨split, rfl⟩, fun token member => ?_⟩
  · cases taken : (cursor.rest.takeWhile isSeparator).getLast? with
    | none =>
      rw [List.getLast?_eq_none_iff] at taken
      rw [taken] at split
      exact .inl ⟨rfl, split.symm⟩
    | some token =>
      exact .inr ⟨token, (List.takeWhile_sublist _).subset (List.mem_of_getLast? taken), rfl⟩
  · exact (isSeparator_iff token).mp (List.all_eq_true.mp List.all_takeWhile token member)

theorem located_printValuesWithin (budget : Nat) (cursor : Cursor) :
    Located start (printValuesWithin budget) cursor fun items next => Accepted Printed cursor next items := by
  induction budget generalizing cursor with
  | zero =>
    rw [printValuesWithin]
    exact located_pure ⟨[], .refl cursor, .none⟩
  | succ budget ih =>
    rw [printValuesWithin]
    refine located_peek ?_
    split
    · refine (located_expression 0 cursor).bind ?_
      rintro value afterValue ⟨tokens, valued, anchored⟩
      refine located_check ?_
      split
      · exact located_pure ⟨tokens, valued, .last anchored⟩
      · refine (located_separators afterValue).bind ?_
        rintro marks afterMarks ⟨marked, dividers⟩
        split
        · exact located_peek (located_throw_here rfl)
        next some =>
          refine (ih afterMarks).bind ?_
          rintro rest last ⟨restTokens, restPasses, restAnchored⟩
          refine located_pure ⟨_, valued.append (marked.append restPasses), ?_⟩
          exact .more anchored (by simpa using some) dividers restAnchored
    · exact located_pure ⟨[], .refl cursor, .none⟩

theorem located_printStatement (cursor : Cursor) :
    Located start printStatement cursor fun stmt next => Accepted Statement cursor next stmt := by
  refine .of_reaches fun ordered reaches => ?_
  unfold printStatement
  refine (located_expect (by simp)).bind ?_
  rintro word afterWord ⟨isWord, taken⟩
  refine located_freshId fun id afterId numbered => ?_
  refine (located_separators afterId).bind ?_
  rintro marks afterMarks ⟨marked, dividers⟩
  refine Located.bind (located_printValuesWithin _ afterMarks : Located start printValues afterMarks _) ?_
  rintro items afterItems ⟨tokens, printed, anchored⟩
  refine (located_expect (by simp)).bind ?_
  rintro semicolon last ⟨isSemicolon, ended⟩
  have whole := taken.append (numbered.append ((marked.append printed).append ended))
  refine located_pure ⟨_, whole, .print isWord dividers anchored isSemicolon ?_⟩
  exact whole.starts_merge (reaches.ordered ordered) (Span.startsAt_self semicolon) (by simp)

theorem located_openBlock (cursor : Cursor) :
    Located start openBlock cursor fun token next => token.kind = .mark .leftBrace ∧ cursor.Passes next [token] := by
  have opened : Located start (expect (.mark .leftBrace)) cursor _ := located_expect (by simp)
  intro ordered reaches
  have outcome := opened ordered reaches
  unfold openBlock
  cases result : expect (.mark .leftBrace) cursor <;> simpa only [result] using outcome

theorem reaches_recoverStatement (place : Span) (fault : SyntaxFault) (cursor : Cursor) :
    (cursor.record fault).Reaches (recoverStatement place fault cursor).2 :=
  (reaches_resumeStatement _).trans (.still rfl rfl rfl rfl)

mutual

theorem located_statementWithin : ∀ (budget : Nat) (cursor : Cursor),
    Located start (statementWithin budget) cursor fun stmt next =>
      next.faults = [] → Accepted Statement cursor next stmt
  | 0, cursor => by
    rw [statementWithin]
    exact located_peek (located_throw_here rfl)
  | budget + 1, cursor => by
    rw [statementWithin]
    refine .of_reaches fun ordered reaches => ?_
    have ordered := reaches.ordered ordered
    refine located_peek ?_
    split
    next isImm => exact (located_declaration false isImm).mono fun _ _ accepted _ => accepted
    next isMut => exact (located_declaration true isMut).mono fun _ _ accepted _ => accepted
    · exact (located_assignment cursor).mono fun _ _ accepted _ => accepted
    · exact (located_printStatement cursor).mono fun _ _ accepted _ => accepted
    · exact (located_callStatement cursor).mono fun _ _ accepted _ => accepted
    · refine (located_expect (by simp)).bind ?_
      rintro word afterWord ⟨isWord, taken⟩
      refine located_freshId fun id afterId numbered => ?_
      refine (located_expect (by simp)).bind ?_
      rintro opening afterOpening ⟨isOpening, opened⟩
      refine (located_expression 0 afterOpening).bind ?_
      rintro condition afterCondition ⟨tokens, conditioned, anchored⟩
      refine (located_expect (by simp)).bind ?_
      rintro closing afterClosing ⟨isClosing, closed⟩
      refine (located_blockWithin budget afterClosing).bind fun thenBlock afterThen thenAccepted => ?_
      have sofar := taken.append (numbered.append (opened.append (conditioned.append closed)))
      refine located_eat (by simp) ?_ ?_
      · intro otherwise afterElse isElse elsed
        have one : Located start (some <$> blockWithin budget) afterElse fun value next =>
            ∃ block, value = some block ∧ (next.faults = [] → Accepted Anchored.Block afterElse next block) :=
          (located_blockWithin budget afterElse).bind fun block next accepted =>
            located_pure ⟨block, rfl, accepted⟩
        refine one.bind ?_
        rintro _ last ⟨elseBlock, rfl, elseAccepted⟩
        refine located_pure fun clean => ?_
        obtain ⟨other, elsePasses, elseAnchored⟩ := elseAccepted clean
        obtain ⟨inner, thenPasses, thenAnchored⟩ := thenAccepted (elsed.faults ▸ elsePasses.faults ▸ clean)
        have whole := sofar.append (thenPasses.append (elsed.append elsePasses))
        refine ⟨_, whole, ?_⟩
        obtain ⟨brace, member, starts⟩ := elseAnchored.startsAmong
        have begins := whole.starts_merge ordered starts (by simp [member])
        simpa using Statement.chooseElse isWord isOpening anchored isClosing thenAnchored isElse elseAnchored begins
      · refine located_pure fun clean => ?_
        obtain ⟨inner, thenPasses, thenAnchored⟩ := thenAccepted clean
        have whole := sofar.append thenPasses
        refine ⟨_, whole, ?_⟩
        obtain ⟨brace, member, starts⟩ := thenAnchored.startsAmong
        have begins := whole.starts_merge ordered starts (by simp [member])
        simpa using Statement.choose isWord isOpening anchored isClosing thenAnchored begins
    · exact (located_returnStatement cursor).mono fun _ _ accepted _ => accepted
    · refine (located_blockWithin budget cursor).bind fun body next accepted => ?_
      refine located_pure fun clean => ?_
      obtain ⟨tokens, passes, anchored⟩ := accepted clean
      exact ⟨tokens, passes, .nested anchored⟩
    · exact located_throw_here rfl
    · exact located_throw_here rfl

theorem located_blockWithin : ∀ (budget : Nat) (cursor : Cursor),
    Located start (blockWithin budget) cursor fun block next =>
      next.faults = [] → Accepted Anchored.Block cursor next block
  | 0, cursor => by
    rw [blockWithin]
    exact located_peek (located_throw_here rfl)
  | budget + 1, cursor => by
    rw [blockWithin]
    refine .of_reaches fun ordered reaches => ?_
    refine (located_openBlock cursor).bind ?_
    rintro opening afterOpening ⟨isOpening, opened⟩
    refine located_freshId fun id afterId numbered => ?_
    refine (located_statementsWithin budget afterId).bind fun statements afterBody accepted => ?_
    refine (located_expect (by simp)).bind ?_
    rintro closing last ⟨isClosing, closed⟩
    refine located_pure fun clean => ?_
    obtain ⟨tokens, passes, anchored⟩ := accepted (closed.faults ▸ clean)
    have whole := opened.append (numbered.append (passes.append closed))
    refine ⟨_, whole, .braces isOpening anchored isClosing ?_⟩
    exact whole.starts_merge (reaches.ordered ordered) (Span.startsAt_self closing) (by simp)

theorem located_statementsWithin : ∀ (budget : Nat) (cursor : Cursor),
    Located start (ofRecovering (statementsWithin budget)) cursor fun statements next =>
      next.faults = [] → Accepted (Sequence Statement) cursor next statements
  | 0, cursor => by
    rw [statementsWithin]
    exact located_pure fun _ => ⟨[], .refl cursor, .nil⟩
  | budget + 1, cursor => by
    by_cases ends : (cursor.peek.kind == .mark .rightBrace || cursor.peek.kind == .endOfFile) = true
    · refine .congr (pure []) ?_ (located_pure fun _ => ⟨[], .refl cursor, .nil⟩)
      rw [ofRecovering, statementsWithin_succ, if_pos ends]
      rfl
    · refine .congr (do
        let statement ← ofRecovering (recover (statementWithin budget) (recoverStatement cursor.peek.span))
        return statement :: (← ofRecovering (statementsWithin budget))) ?_ ?_
      · rw [ofRecovering, statementsWithin_succ, if_neg ends]
        rfl
      refine (located_recover (located_statementWithin budget cursor) (reaches_recoverStatement _)).bind ?_
      refine fun statement next accepted => (located_statementsWithin budget next).bind ?_
      refine fun statements last others => located_pure fun clean => ?_
      obtain ⟨rest, restPasses, restAnchored⟩ := others clean
      obtain ⟨tokens, passes, anchored⟩ := accepted (restPasses.faults ▸ clean)
      exact ⟨_, passes.append restPasses, .cons anchored restAnchored⟩

end

theorem located_block (cursor : Cursor) :
    Located start block cursor fun block next => next.faults = [] → Accepted Anchored.Block cursor next block :=
  .congr (blockWithin (statementBudget cursor)) (by rw [block]) (located_blockWithin _ cursor)

theorem located_typeMark (cursor : Cursor) :
    Located start typeMark cursor fun mark next =>
      ∃ token, cursor.Passes next [token] ∧ token.kind = .keyword (Grammar.typeWord mark.primitive) ∧
        mark.node.span = token.span := by
  unfold typeMark
  refine located_peek ?_
  have mark (primitive : Primitive) (isWord : cursor.peek.kind = .keyword (Grammar.typeWord primitive)) :
      Located start (do
        let _ ← advance
        let id ← freshId
        return ⟨primitive, ⟨id, cursor.peek.span⟩⟩ : Parser TypeMark) cursor fun mark next =>
        ∃ token, cursor.Passes next [token] ∧ token.kind = .keyword (Grammar.typeWord mark.primitive) ∧
          mark.node.span = token.span := by
    refine located_advance (by simp [isWord]) fun afterWord taken => ?_
    refine located_freshId fun id last numbered => ?_
    exact located_pure ⟨_, taken.append numbered, isWord, rfl⟩
  dsimp only
  split
  next isInt => exact mark .int isInt
  next isBool => exact mark .bool isBool
  next isVoid => exact mark .void isVoid
  · exact located_throw_here rfl
  · exact located_throw_here rfl

theorem located_parameter (cursor : Cursor) :
    Located start parameter cursor fun parameter next => Accepted Anchored.Parameter cursor next parameter := by
  refine .of_reaches fun ordered reaches => ?_
  unfold parameter
  refine located_freshId fun id afterId numbered => ?_
  refine (located_typeMark afterId).bind ?_
  rintro type afterType ⟨word, typed, isWord, same⟩
  have begun := numbered.append typed
  dsimp only
  split
  · -- the fault is at the type, which has been taken by then
    have sees : cursor.Sees type.node.span := .inr ⟨word, by rw [begun.rest]; exact List.mem_cons_self, same⟩
    exact Located.bind (located_throw (reaches.sees sees) : Located start _ afterType fun _ _ => False) nofun
  next valued =>
    refine located_identifier.bind ?_
    rintro name last ⟨token, named, isName⟩
    have whole := begun.append named
    have starts : type.node.span.StartsAt word := same ▸ Span.startsAt_self word
    refine located_pure ⟨_, whole, .mk ⟨isWord, starts⟩ valued isName ?_⟩
    exact starts.merge_later isName.node List.mem_cons_self (whole.ordered (reaches.ordered ordered))

theorem located_parametersWithin : ∀ (budget : Nat) (cursor : Cursor),
    Located start (parametersWithin budget) cursor fun list next =>
      Accepted (Divided Anchored.Parameter) cursor next list
  | 0, cursor => by
    rw [parametersWithin]
    exact located_peek (located_throw_here rfl)
  | budget + 1, cursor => by
    rw [parametersWithin]
    refine (located_parameter cursor).bind ?_
    rintro first afterFirst ⟨tokens, passes, anchored⟩
    refine located_eat (by simp) ?_ (located_pure ⟨_, passes, .last anchored⟩)
    intro comma afterComma isComma taken
    refine (located_parametersWithin budget afterComma).bind ?_
    rintro rest last ⟨restTokens, restPasses, restAnchored⟩
    exact located_pure ⟨_, passes.append (taken.append restPasses), .more anchored isComma restAnchored⟩

theorem located_parameterList (cursor : Cursor) :
    Located start parameterList cursor fun list next => ∃ tokens, cursor.Passes next tokens ∧
      Listed Anchored.Parameter tokens list.1 ∧ list.2.span.Starts tokens := by
  refine .of_reaches fun ordered reaches => ?_
  unfold parameterList
  refine (located_expect (by simp)).bind ?_
  rintro opening afterOpening ⟨isOpening, opened⟩
  refine located_freshId fun id afterId numbered => ?_
  have finish (list : List Parameter) (tokens : List Token) (next : Cursor) (passes : afterId.Passes next tokens)
      (listed : ∀ closing : Token, closing.kind = .mark .rightParen →
        Listed Anchored.Parameter (opening :: tokens ++ [closing]) list) :
      Located start (do
        let closing ← expect (.mark .rightParen)
        return (list, ⟨id, opening.span.merge closing.span⟩) : Parser (List Parameter × Node)) next
        fun list last => ∃ tokens, cursor.Passes last tokens ∧ Listed Anchored.Parameter tokens list.1 ∧
          list.2.span.Starts tokens := by
    refine (located_expect (by simp)).bind ?_
    rintro closing last ⟨isClosing, closed⟩
    have whole := opened.append (numbered.append (passes.append closed))
    refine located_pure ⟨_, whole, listed closing isClosing, (Span.startsFirst_cons _ rfl).mpr ?_⟩
    exact whole.starts_merge (reaches.ordered ordered) (Span.startsAt_self closing) (by simp)
  refine located_check ?_
  dsimp only
  split
  · exact finish [] [] afterId (.refl _) fun closing isClosing => .none isOpening isClosing
  · refine Located.bind (located_parametersWithin _ afterId : Located start parameters afterId _) ?_
    rintro list next ⟨tokens, passes, anchored⟩
    exact finish list tokens next passes fun closing isClosing => .some isOpening anchored isClosing

theorem located_function (cursor : Cursor) :
    Located start function cursor fun function next =>
      next.faults = [] → Accepted Anchored.Function cursor next function := by
  refine .of_reaches fun ordered reaches => ?_
  unfold function
  refine (located_expect (by simp)).bind ?_
  rintro word afterWord ⟨isWord, taken⟩
  refine located_freshId fun id afterId numbered => ?_
  refine (located_typeMark afterId).bind ?_
  rintro result afterResult ⟨typeToken, typed, isType, same⟩
  refine located_identifier.bind ?_
  rintro name afterName ⟨token, named, isName⟩
  refine (located_parameterList afterName).bind ?_
  rintro ⟨parameters, list⟩ afterList ⟨listTokens, listed, listAnchored, listStarts⟩
  refine (located_block afterList).bind fun body last bodyAccepted => ?_
  refine located_pure fun clean => ?_
  obtain ⟨inner, bodyPasses, bodyAnchored⟩ := bodyAccepted clean
  have whole := taken.append (numbered.append (typed.append (named.append (listed.append bodyPasses))))
  refine ⟨word :: typeToken :: token :: listTokens ++ inner, whole, ?_⟩
  have typeStarts : result.node.span.StartsAt typeToken := same ▸ Span.startsAt_self typeToken
  obtain ⟨brace, member, starts⟩ := bodyAnchored.startsAmong
  refine .mk isWord ⟨isType, typeStarts⟩ isName listAnchored listStarts bodyAnchored ?_
  exact whole.starts_merge (reaches.ordered ordered) starts (by simp [member])

theorem located_functionsWithin : ∀ (budget : Nat) (cursor : Cursor),
    Located start (ofRecovering (functionsWithin budget)) cursor fun functions next =>
      next.faults = [] → Accepted (Sequence Anchored.Function) cursor next functions
  | 0, cursor => by
    rw [functionsWithin]
    exact located_pure fun _ => ⟨[], .refl cursor, .nil⟩
  | budget + 1, cursor => by
    by_cases goes : cursor.peek.kind = .keyword .funcWord
    · refine .congr (do
        let definition ← ofRecovering (recover (do return [← function]) recoverFunction)
        return definition ++ (← ofRecovering (functionsWithin budget))) ?_ ?_
      · rw [ofRecovering, functionsWithin_succ, if_pos goes]
        rfl
      have one : Located start (do return [← function] : Parser (List Function)) cursor fun list next =>
          next.faults = [] → ∃ function, list = [function] ∧ Accepted Anchored.Function cursor next function :=
        (located_function cursor).bind fun function next accepted =>
          located_pure fun clean => ⟨function, rfl, accepted clean⟩
      refine (located_recover one fun fault next => reaches_resumeItem _).bind ?_
      refine fun definition next accepted => (located_functionsWithin budget next).bind ?_
      refine fun functions last others => located_pure fun clean => ?_
      obtain ⟨rest, restPasses, restAnchored⟩ := others clean
      obtain ⟨function, rfl, tokens, passes, anchored⟩ := accepted (restPasses.faults ▸ clean)
      exact ⟨_, passes.append restPasses, .cons anchored restAnchored⟩
    · refine .congr (pure []) ?_ (located_pure fun _ => ⟨[], .refl cursor, .nil⟩)
      rw [ofRecovering, functionsWithin_succ, if_neg goes]
      rfl

theorem located_mainBlock (cursor : Cursor) :
    Located start mainBlock cursor fun block next => next.faults = [] →
      ∃ word tokens, word.kind = .keyword .mainWord ∧ cursor.Passes next (word :: tokens) ∧
        Anchored.Block tokens block := by
  unfold mainBlock
  refine (located_expect (by simp)).bind ?_
  rintro word afterWord ⟨isWord, taken⟩
  refine (located_block afterWord).mono fun block next accepted clean => ?_
  obtain ⟨tokens, passes, anchored⟩ := accepted clean
  exact ⟨word, tokens, isWord, taken.append passes, anchored⟩

theorem reaches_expectEnd (cursor : Cursor) : cursor.Reaches (expectEnd cursor) := by
  unfold expectEnd
  dsimp only
  split
  · exact .refl cursor
  · exact (Reaches.refl cursor).record cursor.sees_peek

end

theorem expectEnd_of_clean {cursor : Cursor} (clean : (expectEnd cursor).faults = []) : expectEnd cursor = cursor := by
  unfold expectEnd at clean ⊢
  dsimp only at clean ⊢
  split at clean
  next atEnd => exact if_pos atEnd
  next => exact absurd clean (record_faults_ne_nil _ _)

/-- A region that goes from the next token to the last one taken begins with the next token. -/
theorem starts_previousSpan {cursor next : Cursor} {tokens : List Token} (passes : cursor.Passes next tokens)
    (some : tokens ≠ []) (reaches : cursor.Reaches next) (ordered : cursor.Ordered) :
    (cursor.peek.span.merge next.previousSpan).Starts tokens := by
  obtain ⟨first, rest, rfl⟩ := List.exists_cons_of_ne_nil some
  have ahead : cursor.rest = first :: (rest ++ next.rest) := passes.rest
  rcases reaches.previous with ⟨-, unmoved⟩ | ⟨last, member, taken⟩
  · have length := passes.length
    rw [unmoved, List.length_cons] at length
    omega
  · rw [previousSpan, taken, Option.getD_some, peek_of_rest ahead]
    refine (Span.startsFirst_cons _ rfl).mpr ((Span.startsAt_self first).merge (Span.startsAt_self last) ?_)
    rw [ahead] at member
    rcases List.mem_cons.mp member with same | later
    · exact .inl same.symm
    · exact .inr ((List.pairwise_cons.mp (ahead ▸ ordered : Token.Ordered _)).1 last later)

/-- Reading a whole program puts its faults at tokens, and a program without faults is anchored in its tokens. -/
theorem located_program {cursor : Cursor} (ordered : cursor.Ordered) :
    cursor.Reaches (program cursor).2 ∧
      ((program cursor).2.faults = [] → Accepted Anchored.Program cursor (program cursor).2 (program cursor).1) := by
  rw [program_eq]
  dsimp only
  have functions (numbered : Cursor) : Located cursor (ofRecovering functions) numbered fun functions next =>
      next.faults = [] → Accepted (Sequence Anchored.Function) numbered next functions :=
    .congr (ofRecovering (functionsWithin (numbered.rest.length + 1))) rfl (located_functionsWithin _ numbered)
  have main (afterFunctions : Cursor) : Located cursor (ofRecovering (recover mainBlock recoverMain)) afterFunctions
      fun block next => next.faults = [] → ∃ word tokens, word.kind = .keyword .mainWord ∧
        afterFunctions.Passes next (word :: tokens) ∧ Anchored.Block tokens block :=
    located_recover (located_mainBlock afterFunctions) fun fault next => .still rfl rfl rfl rfl
  have functions := (functions { cursor with nextId := cursor.nextId + 1 }).result ordered (.still rfl rfl rfl rfl)
  have main := (main _).result ordered functions.1
  have reaches := main.1.trans (reaches_expectEnd _)
  refine ⟨reaches, fun clean => ?_⟩
  have quiet := expectEnd_of_clean clean
  rw [quiet] at clean reaches ⊢
  obtain ⟨word, inner, isWord, mainPasses, mainAnchored⟩ := main.2 clean
  obtain ⟨tokens, passes, anchored⟩ := functions.2 (mainPasses.faults ▸ clean)
  have together := passes.append mainPasses
  have whole : cursor.Passes _ (tokens ++ word :: inner) := ⟨together.rest, together.faults⟩
  exact ⟨_, whole, .mk anchored isWord mainAnchored (starts_previousSpan whole (by simp) reaches ordered)⟩

end Parser

end Stackwright
