import Stackwright.Proofs.Tree.Deriving

/-! What is derivable is accepted: statements, blocks, function definitions and programs. -/

set_option autoImplicit false

namespace Stackwright.Grammar

open Cursor Stackwright.Parser

theorem builds_declaration {cursor : Cursor} {word identifier assign semicolon : Token}
    {isMutable : Bool} {tokens rest : List Token} {value : Expr}
    (ahead : cursor.rest = (word :: identifier :: assign :: tokens ++ [semicolon]) ++ rest)
    (isWord : word.kind = .keyword (if isMutable then .mutWord else .immWord))
    (isName : identifier.kind = .identifier) (isAssign : assign.kind = .mark .assign)
    (derived : Expression 0 tokens value) (isSemicolon : semicolon.kind = .mark .semicolon) :
    Builds declaration Stmt.bare cursor (word :: identifier :: assign :: tokens ++ [semicolon])
      (.declare isMutable (name identifier) value .blank) := by
  simp only [List.cons_append, List.append_assoc] at ahead
  unfold declaration
  refine finds_advance ahead fun afterWord taken nameAhead => ?_
  refine finds_freshId nameAhead fun id afterId numbered nameAhead => ?_
  refine finds_identifier nameAhead isName fun name afterName sameName named assignAhead => ?_
  refine finds_expect assignAhead isAssign (by simp) fun _ afterAssign assigned valueAhead => ?_
  refine (derived.builds valueAhead (stops_of_mark isSemicolon (by simp) rfl)).bind valueAhead ?_
  intro expr afterValue sameValue valued semicolonAhead
  refine finds_expect semicolonAhead isSemicolon (by simp) fun _ last ended _ => ?_
  have sameWord : (word.kind == .keyword .mutWord) = isMutable := by
    cases isMutable <;> simp [isWord]
  refine outcome_pure ⟨by simp [Stmt.bare, sameName, sameValue, sameWord], ?_⟩
  exact taken.append (numbered.append (named.append (assigned.append (valued.append ended))))

theorem builds_assignment {cursor : Cursor} {identifier assign semicolon : Token}
    {tokens rest : List Token} {value : Expr}
    (ahead : cursor.rest = (identifier :: assign :: tokens ++ [semicolon]) ++ rest)
    (isName : identifier.kind = .identifier) (isAssign : assign.kind = .mark .assign)
    (derived : Expression 0 tokens value) (isSemicolon : semicolon.kind = .mark .semicolon) :
    Builds assignment Stmt.bare cursor (identifier :: assign :: tokens ++ [semicolon])
      (.assign (name identifier) value .blank) := by
  simp only [List.cons_append, List.append_assoc] at ahead
  unfold assignment
  refine finds_freshId ahead fun id afterId numbered nameAhead => ?_
  refine finds_identifier nameAhead isName fun name afterName sameName named assignAhead => ?_
  refine finds_expect assignAhead isAssign (by simp) fun _ afterAssign assigned valueAhead => ?_
  refine (derived.builds valueAhead (stops_of_mark isSemicolon (by simp) rfl)).bind valueAhead ?_
  intro expr afterValue sameValue valued semicolonAhead
  refine finds_expect semicolonAhead isSemicolon (by simp) fun _ last ended _ => ?_
  refine outcome_pure ⟨by simp [Stmt.bare, sameName, sameValue], ?_⟩
  exact numbered.append (named.append (assigned.append (valued.append ended)))

theorem builds_callStatement {cursor : Cursor} {word callee semicolon : Token}
    {tokens rest : List Token} {arguments : List Expr}
    (ahead : cursor.rest = (word :: callee :: tokens ++ [semicolon]) ++ rest)
    (isWord : word.kind = .keyword .callWord) (isName : callee.kind = .identifier)
    (listed : Listed (Expression 0) tokens arguments) (isSemicolon : semicolon.kind = .mark .semicolon) :
    Builds callStatement Stmt.bare cursor (word :: callee :: tokens ++ [semicolon])
      (.call ⟨name callee, arguments, .blank, .blank⟩ .blank) := by
  simp only [List.cons_append, List.append_assoc] at ahead
  unfold callStatement
  refine finds_expect ahead isWord (by simp) fun _ afterWord taken nameAhead => ?_
  refine finds_freshId nameAhead fun id afterId numbered nameAhead => ?_
  refine finds_identifier nameAhead isName fun name afterName sameName named listAhead => ?_
  refine (listed.builds_call name listAhead).bind listAhead ?_
  intro call afterCall sameCall called semicolonAhead
  refine finds_expect semicolonAhead isSemicolon (by simp) fun _ last ended _ => ?_
  refine outcome_pure ⟨by simp [Stmt.bare, sameName, sameCall], ?_⟩
  exact taken.append (numbered.append (named.append (called.append ended)))

theorem builds_return {cursor : Cursor} {word semicolon : Token} {rest : List Token}
    (ahead : cursor.rest = [word, semicolon] ++ rest) (isWord : word.kind = .keyword .returnWord)
    (isSemicolon : semicolon.kind = .mark .semicolon) :
    Builds returnStatement Stmt.bare cursor [word, semicolon] (.ret none .blank) := by
  unfold returnStatement
  refine finds_expect ahead isWord (by simp) fun _ afterWord taken semicolonAhead => ?_
  refine finds_freshId semicolonAhead fun id afterId numbered semicolonAhead => ?_
  refine outcome_check ?_
  have ends : (afterId.peek.kind == .mark .semicolon) = true := by
    simp [peek_of_rest semicolonAhead, isSemicolon]
  simp only [ends, if_true]
  refine finds_expect semicolonAhead isSemicolon (by simp) fun _ last ended _ => ?_
  exact outcome_pure ⟨rfl, taken.append (numbered.append ended)⟩

theorem builds_returnValue {cursor : Cursor} {word semicolon : Token} {tokens rest : List Token}
    {value : Expr} (ahead : cursor.rest = (word :: tokens ++ [semicolon]) ++ rest)
    (isWord : word.kind = .keyword .returnWord) (derived : Expression 0 tokens value)
    (isSemicolon : semicolon.kind = .mark .semicolon) :
    Builds returnStatement Stmt.bare cursor (word :: tokens ++ [semicolon])
      (.ret (some value) .blank) := by
  simp only [List.cons_append, List.append_assoc] at ahead
  unfold returnStatement
  refine finds_expect ahead isWord (by simp) fun _ afterWord taken valueAhead => ?_
  refine finds_freshId valueAhead fun id afterId numbered valueAhead => ?_
  refine outcome_check ?_
  have goes : (afterId.peek.kind == .mark .semicolon) = false := by
    rw [afterId.peek_kind, valueAhead]
    simpa using ne_of_starts (derived.begins _) rfl
  simp only [goes]
  have one : Builds (some <$> expression 0) (Option.map Expr.bare) afterId tokens (some value) :=
    (derived.builds valueAhead (stops_of_mark isSemicolon (by simp) rfl)).bind valueAhead
      fun expr next same valued _ => outcome_pure ⟨by simp [same], valued⟩
  refine one.bind valueAhead fun expr afterValue sameValue valued semicolonAhead => ?_
  refine finds_expect semicolonAhead isSemicolon (by simp) fun _ last ended _ => ?_
  refine outcome_pure ⟨by simp [Stmt.bare, sameValue], ?_⟩
  exact taken.append (numbered.append (valued.append ended))

/-- A run of dividers is taken whole when no divider follows. -/
theorem builds_separators {cursor : Cursor} {dividers rest : List Token}
    (ahead : cursor.rest = dividers ++ rest) (all : ∀ token ∈ dividers, IsDivider token)
    (ends : ∀ token ∈ rest.head?, ¬ IsDivider token) :
    Builds separators id cursor dividers dividers := by
  refine Outcome.mono (outcome_separators cursor) ?_
  rintro marks next ⟨passes, -, taken⟩
  have stops : rest.takeWhile isSeparator = [] := by
    cases rest with
    | nil => rfl
    | cons token more =>
      have plain : ¬ isSeparator token = true := fun divides =>
        ends token (by simp) ((isSeparator_iff token).mp divides)
      simp [plain]
  have same : marks = dividers := by
    rw [taken, ahead, List.takeWhile_append_of_pos fun token member =>
      (isSeparator_iff token).mpr (all token member), stops, List.append_nil]
  exact ⟨same, same ▸ passes⟩

/-- Print items begin with a value, or there are none. -/
theorem Printed.begins {tokens : List Token} {items : List PrintItem} :
    Printed tokens items → tokens = [] ∨ ∀ rest, startsExpression (headKind (tokens ++ rest)) = true
  | .none => .inl rfl
  | .last derived => .inr derived.begins
  | .more derived _ _ _ => .inr fun rest => by
    rw [List.append_assoc]
    exact derived.begins _

theorem Printed.no_divider {tokens rest : List Token} {items : List PrintItem}
    (printed : Printed tokens items) (ends : headKind rest = .mark .semicolon) :
    ∀ token ∈ (tokens ++ rest).head?, ¬ IsDivider token := by
  have plain : headKind (tokens ++ rest) = .mark .semicolon ∨
      startsExpression (headKind (tokens ++ rest)) = true := by
    rcases printed.begins with rfl | begins
    · exact .inl ends
    · exact .inr (begins rest)
  intro token member divides
  obtain ⟨more, front⟩ := List.head?_eq_some_iff.mp (Option.mem_def.mp member)
  rw [front] at plain
  rcases divides with isMark | isMark | isMark <;>
    simp [headKind, isMark, startsExpression, Kind.isLiteral] at plain

theorem Printed.builds {tokens rest : List Token} {items : List PrintItem} {budget : Nat} {cursor : Cursor}
    (printed : Printed tokens items) (ahead : cursor.rest = tokens ++ rest)
    (ends : headKind rest = .mark .semicolon) (enough : cursor.rest.length < budget) :
    Builds (printValuesWithin budget) (List.map PrintItem.bare) cursor tokens items := by
  induction printed generalizing budget cursor with
  | none =>
    obtain ⟨budget, rfl⟩ : ∃ less, budget = less + 1 := ⟨budget - 1, by omega⟩
    rw [printValuesWithin]
    refine outcome_peek ?_
    have stays : startsExpression cursor.peek.kind = false := by
      rw [cursor.peek_kind, ahead]
      simp [ends, startsExpression, Kind.isLiteral]
    simp only [stays]
    exact outcome_pure ⟨rfl, .refl cursor⟩
  | last derived =>
    obtain ⟨budget, rfl⟩ : ∃ less, budget = less + 1 := ⟨budget - 1, by omega⟩
    rw [printValuesWithin]
    refine outcome_peek ?_
    rw [cursor.peek_kind, ahead, derived.begins rest, if_pos rfl]
    refine (derived.builds ahead (stops_of_mark ends (by simp) rfl)).bind ahead ?_
    intro value next same valued restAhead
    refine outcome_check ?_
    rw [next.peek_kind, restAhead, ends, if_pos (by simp)]
    exact outcome_pure ⟨by simp [PrintItem.bare, same], valued⟩
  | @more _ dividers _ _ _ derived nonempty all printed ih =>
    obtain ⟨budget, rfl⟩ : ∃ less, budget = less + 1 := ⟨budget - 1, by omega⟩
    rw [List.append_assoc, List.append_assoc] at ahead
    obtain ⟨divider, more, rfl⟩ := List.exists_cons_of_ne_nil nonempty
    have divides : IsDivider divider := all divider (by simp)
    rw [printValuesWithin]
    refine outcome_peek ?_
    rw [cursor.peek_kind, ahead, derived.begins _, if_pos rfl]
    refine (derived.builds ahead divides.stops).bind ahead ?_
    intro value afterValue same valued marksAhead
    have valueLength := valued.length
    have valuePositive := derived.length_pos
    refine outcome_check ?_
    have goes : ¬ (afterValue.peek.kind == .mark .semicolon) = true := by
      rw [peek_of_rest marksAhead]
      rcases divides with isMark | isMark | isMark <;> simp [isMark]
    rw [if_neg goes]
    refine (builds_separators marksAhead all (printed.no_divider ends)).bind marksAhead ?_
    rintro _ afterMarks rfl marked restAhead
    have marksLength := marked.length
    rw [if_neg (by simp)]
    have others := @ih budget afterMarks restAhead (by omega)
    refine others.bind restAhead fun values last sameRest restPasses _ => ?_
    refine outcome_pure ⟨?_, valued.append (marked.append restPasses)⟩
    simp only [List.cons_append, List.map_cons, List.map_append, bare_separatorItems, sameRest,
      PrintItem.bare, same]

theorem builds_printStatement {cursor : Cursor} {word semicolon : Token}
    {dividers tokens rest : List Token} {items : List PrintItem}
    (ahead : cursor.rest = (word :: (dividers ++ tokens) ++ [semicolon]) ++ rest)
    (isWord : word.kind = .keyword .printWord) (all : ∀ token ∈ dividers, IsDivider token)
    (printed : Printed tokens items) (isSemicolon : semicolon.kind = .mark .semicolon) :
    Builds printStatement Stmt.bare cursor (word :: (dividers ++ tokens) ++ [semicolon])
      (.print (dividers.filterMap dividerItem? ++ items) .blank) := by
  simp only [List.cons_append, List.append_assoc] at ahead
  unfold printStatement
  refine finds_expect ahead isWord (by simp) fun _ afterWord taken marksAhead => ?_
  refine finds_freshId marksAhead fun id afterId numbered marksAhead => ?_
  refine (builds_separators marksAhead all (printed.no_divider isSemicolon)).bind marksAhead ?_
  rintro _ afterMarks rfl marked itemsAhead
  have builds : Builds printValues (List.map PrintItem.bare) afterMarks tokens items :=
    printed.builds itemsAhead isSemicolon (Nat.lt_succ_self _)
  refine builds.bind itemsAhead fun values afterItems same listed semicolonAhead => ?_
  refine finds_expect semicolonAhead isSemicolon (by simp) fun _ last ended _ => ?_
  refine outcome_pure ⟨by simp [Stmt.bare, same, bare_separatorItems], ?_⟩
  exact taken.append (numbered.append ((marked.append listed).append ended))

/-- No statement begins like what may follow one. -/
structure BeginsStatement (kind : Kind) : Prop where
  notElse : kind ≠ .keyword .elseWord
  notClosing : kind ≠ .mark .rightBrace
  notEnd : kind ≠ .endOfFile

theorem Block.begins {tokens : List Token} {body : Stackwright.Block} :
    Block tokens body → ∀ rest, headKind (tokens ++ rest) = .mark .leftBrace
  | .braces isOpening _ _, _ => isOpening

theorem Statement.begins {tokens : List Token} {stmt : Stmt} :
    Statement tokens stmt → ∀ rest, BeginsStatement (headKind (tokens ++ rest))
  | @Statement.declare _ _ _ _ isMutable _ _ isWord _ _ _ _, _ => by
    cases isMutable <;> constructor <;> simp [headKind, isWord]
  | .assign isName .., _ => by constructor <;> simp [headKind, isName]
  | .print isWord .., _ => by constructor <;> simp [headKind, isWord]
  | .call isWord .., _ => by constructor <;> simp [headKind, isWord]
  | .choose isWord .., _ => by constructor <;> simp [headKind, isWord]
  | .chooseElse isWord .., _ => by constructor <;> simp [headKind, isWord]
  | .ret isWord .., _ => by constructor <;> simp [headKind, isWord]
  | .retValue isWord .., _ => by constructor <;> simp [headKind, isWord]
  | .nested body, rest => by constructor <;> simp [body.begins rest]

theorem Statement.length_pos {tokens : List Token} {stmt : Stmt} (derived : Statement tokens stmt) :
    0 < tokens.length := by
  refine List.length_pos_iff.mpr fun empty => ?_
  have begins := derived.begins []
  rw [empty] at begins
  exact begins.notEnd rfl

theorem Sequence.next_ne_else {tokens rest : List Token} {statements : List Stmt}
    (derived : Sequence Statement tokens statements) (closes : headKind rest = .mark .rightBrace) :
    headKind (tokens ++ rest) ≠ .keyword .elseWord := by
  cases derived with
  | nil => simp [closes]
  | cons first others =>
    rw [List.append_assoc]
    exact (first.begins _).notElse

theorem recover_of_builds {α β : Type} {rule : Parser α} {bare : α → β} {cursor : Cursor}
    {tokens : List Token} {tree : β} (builds : Builds rule bare cursor tokens tree)
    (handler : SyntaxFault → Recovering α) :
    bare (recover rule handler cursor).1 = tree ∧ cursor.Passes (recover rule handler cursor).2 tokens := by
  obtain ⟨value, next, result, built⟩ := builds.exists_ok
  simpa [recover, result] using built

/-- Read the condition in front of a conditional statement, then go on with its blocks. -/
theorem finds_condition {γ : Type} {cursor : Cursor} {word opening closing : Token} {tokens rest : List Token}
    {value : Expr} (ahead : cursor.rest = word :: opening :: (tokens ++ closing :: rest))
    (isWord : word.kind = .keyword .ifWord) (isOpening : opening.kind = .mark .leftParen)
    (derived : Expression 0 tokens value) (isClosing : closing.kind = .mark .rightParen)
    {follow : Token → Nat → Expr → Parser γ} {good : γ → Cursor → Prop}
    (two : ∀ found id condition next, condition.bare = value →
      cursor.Passes next (word :: opening :: tokens ++ [closing]) → next.rest = rest →
      Outcome False (follow found id condition) next good) :
    Outcome False (do
      let found ← expect (.keyword .ifWord)
      let id ← freshId
      let _ ← expect (.mark .leftParen)
      let condition ← expression 0
      let _ ← expect (.mark .rightParen)
      follow found id condition) cursor good := by
  refine finds_expect ahead isWord (by simp) fun found afterWord taken openingAhead => ?_
  refine finds_freshId openingAhead fun id afterId numbered openingAhead => ?_
  refine finds_expect openingAhead isOpening (by simp) fun _ afterOpening opened conditionAhead => ?_
  refine (derived.builds conditionAhead (stops_of_mark isClosing (by simp) rfl)).bind conditionAhead ?_
  intro condition afterCondition same conditioned closingAhead
  refine finds_expect closingAhead isClosing (by simp) fun _ last closed restAhead => ?_
  refine two found id condition last same ?_ restAhead
  exact taken.append (numbered.append (opened.append (conditioned.append closed)))

mutual

theorem Statement.builds {tokens : List Token} {stmt : Stmt} :
    Statement tokens stmt → ∀ (budget : Nat) (cursor : Cursor) (rest : List Token),
      cursor.rest = tokens ++ rest → headKind rest ≠ .keyword .elseWord →
      3 * cursor.rest.length + 1 ≤ budget →
      Builds (statementWithin budget) Stmt.bare cursor tokens stmt
  | _, 0, _, _, _, _, enough => by omega
  | @Statement.declare _ _ _ _ isMutable _ _ isWord isName isAssign derived isSemicolon, budget + 1, cursor,
      rest, ahead, _, _ => by
    rw [statementWithin]
    refine finds_peek ahead ?_
    have builds := builds_declaration ahead isWord isName isAssign derived isSemicolon
    simp only [isWord]
    cases isMutable <;> exact builds
  | .assign isName isAssign derived isSemicolon, budget + 1, cursor, rest, ahead, _, _ => by
    rw [statementWithin]
    refine finds_peek ahead ?_
    simp only [isName]
    exact builds_assignment ahead isName isAssign derived isSemicolon
  | .print isWord all printed isSemicolon, budget + 1, cursor, rest, ahead, _, _ => by
    rw [statementWithin]
    refine finds_peek ahead ?_
    simp only [isWord]
    exact builds_printStatement ahead isWord all printed isSemicolon
  | .call isWord isName listed isSemicolon, budget + 1, cursor, rest, ahead, _, _ => by
    rw [statementWithin]
    refine finds_peek ahead ?_
    simp only [isWord]
    exact builds_callStatement ahead isWord isName listed isSemicolon
  | .ret isWord isSemicolon, budget + 1, cursor, rest, ahead, _, _ => by
    rw [statementWithin]
    refine finds_peek ahead ?_
    simp only [isWord]
    exact builds_return ahead isWord isSemicolon
  | .retValue isWord derived isSemicolon, budget + 1, cursor, rest, ahead, _, _ => by
    rw [statementWithin]
    refine finds_peek ahead ?_
    simp only [isWord]
    exact builds_returnValue ahead isWord derived isSemicolon
  | .nested body, budget + 1, cursor, rest, ahead, _, enough => by
    rw [statementWithin]
    refine outcome_peek ?_
    simp only [cursor.peek_kind, ahead, body.begins rest]
    refine (Block.builds body budget cursor rest ahead (by omega)).bind ahead ?_
    intro block next same passes _
    exact outcome_pure ⟨by simp [Stmt.bare, same], passes⟩
  | .choose isWord isOpening derived isClosing body, budget + 1, cursor, rest, ahead, noElse, enough => by
    simp only [List.cons_append, List.append_assoc] at ahead
    rw [statementWithin]
    refine finds_peek ahead ?_
    simp only [isWord]
    refine finds_condition ahead isWord isOpening derived isClosing ?_
    intro _ id condition afterClosing sameCondition sofar thenAhead
    have sofarLength := sofar.length
    refine (Block.builds body budget afterClosing rest thenAhead (by omega)).bind thenAhead ?_
    intro thenBlock afterThen sameThen thenPasses restAhead
    refine misses_eat (restAhead ▸ noElse) (by simp) ?_
    refine outcome_pure ⟨by simp [Stmt.bare, sameCondition, sameThen], ?_⟩
    simpa using sofar.append thenPasses
  | @Statement.chooseElse _ _ _ _ _ _ elseTokens _ _ elseTree isWord isOpening derived isClosing body isElse
      other, budget + 1, cursor, rest, ahead, _, enough => by
    simp only [List.cons_append, List.append_assoc] at ahead
    rw [statementWithin]
    refine finds_peek ahead ?_
    simp only [isWord]
    refine finds_condition ahead isWord isOpening derived isClosing ?_
    intro _ id condition afterClosing sameCondition sofar thenAhead
    have sofarLength := sofar.length
    refine (Block.builds body budget afterClosing _ thenAhead (by omega)).bind thenAhead ?_
    intro thenBlock afterThen sameThen thenPasses elseAhead
    refine finds_eat elseAhead isElse (by simp) fun afterElse elsed otherAhead => ?_
    have elseLength := (thenPasses.append elsed).length
    have one : Builds (some <$> blockWithin budget) (Option.map Stackwright.Block.bare) afterElse
        elseTokens (some elseTree) :=
      (Block.builds other budget afterElse rest otherAhead (by omega)).bind otherAhead
        fun block next same passes _ => outcome_pure ⟨by simp [same], passes⟩
    refine one.bind otherAhead fun elseBlock last sameElse elsePasses _ => ?_
    obtain ⟨block, rfl, sameBlock⟩ := Option.map_eq_some_iff.mp sameElse
    refine outcome_pure ⟨by simp [Stmt.bare, sameCondition, sameThen, sameBlock], ?_⟩
    simpa using sofar.append (thenPasses.append (elsed.append elsePasses))

theorem Block.builds {tokens : List Token} {body : Stackwright.Block} :
    Block tokens body → ∀ (budget : Nat) (cursor : Cursor) (rest : List Token),
      cursor.rest = tokens ++ rest → 3 * cursor.rest.length ≤ budget →
      Builds (blockWithin budget) Stackwright.Block.bare cursor tokens body
  | .braces isOpening statements isClosing, budget, cursor, rest, ahead, enough => by
    simp only [List.cons_append, List.append_assoc] at ahead
    have length := congrArg List.length ahead
    simp only [List.length_cons] at length
    obtain ⟨budget, rfl⟩ : ∃ less, budget = less + 1 := ⟨budget - 1, by omega⟩
    rw [blockWithin]
    have opens : cursor.peek.kind = .mark .leftBrace := peek_of_rest ahead ▸ isOpening
    refine (outcome_openBlock (.inr opens)).bind ?_
    rintro opening afterOpening ⟨-, opened⟩
    have front := opened.rest.symm.trans ahead
    simp only [List.cons_append, List.nil_append, List.cons.injEq] at front
    rw [front.1] at opened
    have openingLength := opened.length
    simp only [List.length_singleton] at openingLength
    refine finds_freshId front.2 fun id afterId numbered bodyAhead => ?_
    have idLength := numbered.length
    simp only [List.length_nil] at idLength
    have within : Builds (ofRecovering (statementsWithin budget)) Stmt.bareAll afterId _ _ :=
      Sequence.builds statements budget afterId _ bodyAhead isClosing (by omega)
    refine within.bind bodyAhead fun inner afterBody same passes closingAhead => ?_
    refine finds_expect closingAhead isClosing (by simp) fun _ last closed _ => ?_
    refine outcome_pure ⟨by simp [Stackwright.Block.bare, same], ?_⟩
    exact opened.append (numbered.append (passes.append closed))

theorem Sequence.builds {tokens : List Token} {statements : List Stmt} :
    Sequence Statement tokens statements → ∀ (budget : Nat) (cursor : Cursor) (rest : List Token),
      cursor.rest = tokens ++ rest → headKind rest = .mark .rightBrace →
      3 * cursor.rest.length + 2 ≤ budget →
      Stmt.bareAll (statementsWithin budget cursor).1 = statements ∧
        cursor.Passes (statementsWithin budget cursor).2 tokens
  | _, 0, _, _, _, _, enough => by omega
  | .nil, budget + 1, cursor, rest, ahead, closes, _ => by
    have ends : cursor.peek.kind = .mark .rightBrace := by
      rw [cursor.peek_kind, ahead]
      exact closes
    rw [statementsWithin_succ, if_pos (by simp [ends])]
    exact ⟨rfl, .refl cursor⟩
  | @Sequence.cons _ _ _ otherTokens _ _ derived others, budget + 1, cursor, rest, ahead, closes, enough => by
    rw [List.append_assoc] at ahead
    have begins := derived.begins (otherTokens ++ rest)
    rw [← ahead, ← cursor.peek_kind] at begins
    rw [statementsWithin_succ, if_neg (by simp [begins.notClosing, begins.notEnd])]
    have builds := Statement.builds derived budget cursor _ ahead (others.next_ne_else closes) (by omega)
    obtain ⟨same, passes⟩ := recover_of_builds builds (recoverStatement cursor.peek.span)
    have restAhead := passes.rest_eq ahead
    have firstLength := passes.length
    have firstPositive := derived.length_pos
    obtain ⟨sameRest, restPasses⟩ := Sequence.builds others budget _ rest restAhead closes (by omega)
    exact ⟨by simp [Stmt.bareAll, same, sameRest], passes.append restPasses⟩

end

theorem Block.builds_block {tokens rest : List Token} {body : Stackwright.Block} {cursor : Cursor}
    (derived : Block tokens body) (ahead : cursor.rest = tokens ++ rest) :
    Builds block Stackwright.Block.bare cursor tokens body := by
  have builds := derived.builds (statementBudget cursor) cursor rest ahead (by simp [statementBudget])
  unfold Builds Outcome block
  exact builds

theorem builds_typeMark {cursor : Cursor} {token : Token} {rest : List Token} {primitive : Primitive}
    (ahead : cursor.rest = token :: rest) (isType : token.kind = .keyword (typeWord primitive)) :
    Builds typeMark TypeMark.bare cursor [token] ⟨primitive, .blank⟩ := by
  unfold typeMark
  refine finds_peek ahead ?_
  have mark : Outcome False (do
      let _ ← advance
      let id ← freshId
      return ⟨primitive, ⟨id, token.span⟩⟩ : Parser TypeMark) cursor
      fun value next => value.bare = ⟨primitive, .blank⟩ ∧ cursor.Passes next [token] := by
    refine finds_advance ahead fun afterWord taken _ => ?_
    refine outcome_freshId fun id last numbered => ?_
    exact outcome_pure ⟨rfl, taken.append numbered⟩
  dsimp only
  simp only [isType]
  cases primitive <;> exact mark

theorem Parameter.builds {tokens rest : List Token} {tree : Stackwright.Parameter} {cursor : Cursor}
    (derived : Parameter tokens tree) (ahead : cursor.rest = tokens ++ rest) :
    Builds parameter Stackwright.Parameter.bare cursor tokens tree := by
  obtain ⟨isType, valued, isName⟩ := derived
  unfold parameter
  refine finds_freshId ahead fun id afterId numbered typeAhead => ?_
  refine (builds_typeMark typeAhead isType).bind typeAhead ?_
  intro type afterType sameType typed nameAhead
  have primitive := congrArg TypeMark.primitive sameType
  simp only [TypeMark.bare] at primitive
  dsimp only
  rw [if_neg (by rw [primitive]; exact valued)]
  refine finds_identifier nameAhead isName fun name last sameName named _ => ?_
  refine outcome_pure ⟨by simp [Parameter.bare, sameType, sameName], ?_⟩
  exact numbered.append (typed.append named)

theorem Divided.builds_parameters {tokens rest : List Token} {list : List Stackwright.Parameter}
    {budget : Nat} {cursor : Cursor} (divided : Divided Parameter tokens list)
    (ahead : cursor.rest = tokens ++ rest) (closes : headKind rest = .mark .rightParen)
    (enough : cursor.rest.length < budget) :
    Builds (parametersWithin budget) (List.map Stackwright.Parameter.bare) cursor tokens list := by
  induction divided generalizing budget cursor with
  | last derived =>
    obtain ⟨budget, rfl⟩ : ∃ less, budget = less + 1 := ⟨budget - 1, by omega⟩
    rw [parametersWithin]
    refine (derived.builds ahead).bind ahead fun first next same passes restAhead => ?_
    refine misses_eat (by simp [restAhead, closes]) (by simp) ?_
    exact outcome_pure ⟨by simp [same], passes⟩
  | more derived isComma _ ih =>
    obtain ⟨budget, rfl⟩ : ∃ less, budget = less + 1 := ⟨budget - 1, by omega⟩
    rw [List.append_assoc] at ahead
    rw [parametersWithin]
    refine (derived.builds ahead).bind ahead fun first afterFirst same passes commaAhead => ?_
    refine finds_eat commaAhead isComma (by simp) fun afterComma taken restAhead => ?_
    have length := (passes.append taken).length
    simp only [List.length_append, List.length_singleton] at length
    have others := @ih budget afterComma restAhead (by omega)
    refine others.bind restAhead fun list last sameRest restPasses _ => ?_
    refine outcome_pure ⟨by simp [same, sameRest], ?_⟩
    exact passes.append (taken.append restPasses)

theorem Divided.parameters_begin {tokens rest : List Token} {list : List Stackwright.Parameter}
    (derived : Divided Parameter tokens list) : headKind (tokens ++ rest) ≠ .mark .rightParen := by
  have begins {tokens rest : List Token} {parameter : Stackwright.Parameter}
      (derived : Parameter tokens parameter) : headKind (tokens ++ rest) ≠ .mark .rightParen := by
    obtain ⟨isType, -, -⟩ := derived
    simp [headKind, isType]
  cases derived with
  | last derived => exact begins derived
  | more derived _ _ =>
    rw [List.append_assoc]
    exact begins derived

theorem Listed.builds_parameterList {tokens rest : List Token} {list : List Stackwright.Parameter}
    {cursor : Cursor} (listed : Listed Parameter tokens list) (ahead : cursor.rest = tokens ++ rest) :
    Builds parameterList (fun pair => pair.1.map Stackwright.Parameter.bare) cursor tokens list := by
  unfold parameterList
  cases listed with
  | none isOpening isClosing =>
    refine finds_expect ahead isOpening (by simp) fun _ afterOpening opened closingAhead => ?_
    refine finds_freshId closingAhead fun id afterId numbered closingAhead => ?_
    refine outcome_check ?_
    have closes : (afterId.peek.kind == .mark .rightParen) = true := by
      simp [peek_of_rest closingAhead, isClosing]
    simp only [closes, if_true]
    refine finds_expect closingAhead isClosing (by simp) fun _ last closed _ => ?_
    exact outcome_pure ⟨rfl, opened.append (numbered.append closed)⟩
  | some isOpening divided isClosing =>
    rw [List.cons_append, List.cons_append, List.append_assoc] at ahead
    refine finds_expect ahead isOpening (by simp) fun _ afterOpening opened listAhead => ?_
    refine finds_freshId listAhead fun id afterId numbered listAhead => ?_
    refine outcome_check ?_
    have goes : (afterId.peek.kind == .mark .rightParen) = false := by
      rw [afterId.peek_kind, listAhead]
      simpa using divided.parameters_begin
    simp only [goes]
    have builds : Builds parameters (List.map Stackwright.Parameter.bare) afterId _ list :=
      divided.builds_parameters listAhead isClosing (Nat.lt_succ_self _)
    refine builds.bind listAhead fun values afterList same passes closingAhead => ?_
    refine finds_expect closingAhead isClosing (by simp) fun _ last closed _ => ?_
    exact outcome_pure ⟨same, opened.append (numbered.append (passes.append closed))⟩

theorem Function.builds {tokens rest : List Token} {tree : Stackwright.Function} {cursor : Cursor}
    (derived : Function tokens tree) (ahead : cursor.rest = tokens ++ rest) :
    Builds function Stackwright.Function.bare cursor tokens tree := by
  obtain ⟨isWord, isType, isName, listed, body⟩ := derived
  simp only [List.cons_append, List.append_assoc] at ahead
  unfold function
  refine finds_expect ahead isWord (by simp) fun _ afterWord taken typeAhead => ?_
  refine finds_freshId typeAhead fun id afterId numbered typeAhead => ?_
  refine (builds_typeMark typeAhead isType).bind typeAhead ?_
  intro type afterType sameType typed nameAhead
  refine finds_identifier nameAhead isName fun name afterName sameName named listAhead => ?_
  refine (listed.builds_parameterList listAhead).bind listAhead ?_
  rintro ⟨list, node⟩ afterList sameList passes bodyAhead
  refine (body.builds_block bodyAhead).bind bodyAhead fun block last sameBody bodyPasses _ => ?_
  refine outcome_pure ⟨?_, ?_⟩
  · simp only at sameList
    simp [Function.bare, sameType, sameName, sameList, sameBody]
  · exact taken.append (numbered.append (typed.append (named.append (passes.append bodyPasses))))

theorem Function.begins {tokens : List Token} {tree : Stackwright.Function} :
    Function tokens tree → ∀ rest, headKind (tokens ++ rest) = .keyword .funcWord
  | .mk isWord .., _ => isWord

theorem Function.length_pos {tokens : List Token} {tree : Stackwright.Function} :
    Function tokens tree → 0 < tokens.length
  | .mk .. => by simp

theorem Sequence.builds_functions {tokens : List Token} {list : List Stackwright.Function} :
    Sequence Function tokens list → ∀ (budget : Nat) (cursor : Cursor) (rest : List Token),
      cursor.rest = tokens ++ rest → headKind rest = .keyword .mainWord →
      cursor.rest.length < budget →
      (functionsWithin budget cursor).1.map Stackwright.Function.bare = list ∧
        cursor.Passes (functionsWithin budget cursor).2 tokens
  | _, 0, _, _, _, _, enough => by omega
  | .nil, budget + 1, cursor, rest, ahead, ends, _ => by
    have isMain : cursor.peek.kind = .keyword .mainWord := by
      rw [cursor.peek_kind, ahead]
      exact ends
    rw [functionsWithin_succ, if_neg (by simp [isMain])]
    exact ⟨rfl, .refl cursor⟩
  | @Sequence.cons _ _ _ _ first _ derived others, budget + 1, cursor, rest, ahead, ends, enough => by
    rw [List.append_assoc] at ahead
    have isFunction : cursor.peek.kind = .keyword .funcWord := by
      rw [cursor.peek_kind, ahead]
      exact derived.begins _
    rw [functionsWithin_succ, if_pos isFunction]
    have one : Builds (do return [← function] : Parser (List Stackwright.Function))
        (List.map Stackwright.Function.bare) cursor _ [first] :=
      (derived.builds ahead).bind ahead fun value next same passes _ => outcome_pure ⟨by simp [same], passes⟩
    obtain ⟨same, passes⟩ := recover_of_builds one recoverFunction
    have restAhead := passes.rest_eq ahead
    have length := passes.length
    have positive := derived.length_pos
    obtain ⟨sameRest, restPasses⟩ := others.builds_functions budget _ rest restAhead ends (by omega)
    refine ⟨?_, passes.append restPasses⟩
    rw [List.map_append, same, sameRest]
    rfl

theorem builds_mainBlock {cursor : Cursor} {word : Token} {inner : List Token} {body : Stackwright.Block}
    (ahead : cursor.rest = word :: inner) (isMain : word.kind = .keyword .mainWord)
    (derived : Block inner body) :
    Builds mainBlock Stackwright.Block.bare cursor (word :: inner) body := by
  unfold mainBlock
  refine finds_expect ahead isMain (by simp) fun _ afterWord taken bodyAhead => ?_
  refine Outcome.mono (derived.builds_block (bodyAhead.trans (List.append_nil _).symm)) ?_
  rintro block next ⟨same, passes⟩
  exact ⟨same, taken.append passes⟩

/-- On tokens that the grammar derives, and nothing behind them, the parser records no fault and
builds their tree. -/
theorem Program.builds {tokens : List Token} {tree : Stackwright.Program} {cursor : Cursor}
    (derived : Program tokens tree) (ahead : cursor.rest = tokens) :
    (program cursor).1.bare = tree ∧ (program cursor).2.faults = cursor.faults := by
  obtain ⟨list, isMain, body⟩ := derived
  rw [program_eq]
  simp only [functions]
  generalize started : ({ cursor with nextId := cursor.nextId + 1 } : Cursor) = start
  have numbered : cursor.Passes start [] := started ▸ ⟨rfl, rfl⟩
  have functionsAhead := numbered.rest_eq ahead
  obtain ⟨sameFunctions, passes⟩ := list.builds_functions (cursor.rest.length + 1) start _ functionsAhead
    isMain (by have := numbered.length; simp only [List.length_nil] at this; omega)
  have mainAhead := passes.rest_eq functionsAhead
  have main := builds_mainBlock mainAhead isMain body
  obtain ⟨sameMain, mainPasses⟩ := recover_of_builds main recoverMain
  have ended := mainPasses.rest_eq (mainAhead.trans (List.append_nil _).symm)
  have atEnd : (recover mainBlock recoverMain
      (functionsWithin (cursor.rest.length + 1) start).2).2.peek.kind = .endOfFile := by
    rw [Cursor.peek_kind, ended, headKind]
  rw [expectEnd, if_pos atEnd]
  refine ⟨?_, (numbered.append (passes.append mainPasses)).faults⟩
  simp only [Stackwright.Program.bare, sameMain, sameFunctions]

end Stackwright.Grammar
