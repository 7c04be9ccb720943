import Stackwright.Proofs.Tree.Deciding
import Stackwright.Proofs.Tree.Progress

/-! A damaged statement harms only itself. In a main block of good statements, a run of tokens up to
the next `;` that is no statement is reported once and replaced by one node; what stands before and
behind it is read as if it were not there. A rule that fails on the run has not gone past its `;`,
since only a brace could lead it further, so skipping to the next `;` ends at the end of the run. -/

set_option autoImplicit false

namespace Stackwright

namespace Cursor

/-- From one cursor to the other the given tokens were taken, and one fault was recorded, which lies at
one of the tokens of `place`. -/
structure Trips (cursor next : Cursor) (tokens place : List Token) : Prop where
  rest : cursor.rest = tokens ++ next.rest
  fault : ∃ fault, next.faults = cursor.faults ++ [fault] ∧ ∃ token ∈ place, fault.span = token.span

variable {first second third : Cursor} {tokens later place : List Token}

theorem Passes.trips (passes : first.Passes second tokens) (trips : second.Trips third later place) :
    first.Trips third (tokens ++ later) place :=
  ⟨by rw [passes.rest, trips.rest, List.append_assoc], passes.faults ▸ trips.fault⟩

theorem Trips.passes (trips : first.Trips second tokens place) (passes : second.Passes third later) :
    first.Trips third (tokens ++ later) place :=
  ⟨by rw [trips.rest, passes.rest, List.append_assoc], passes.faults ▸ trips.fault⟩

theorem Trips.rest_eq {rest : List Token} (trips : first.Trips second tokens place)
    (ahead : first.rest = tokens ++ rest) : second.rest = rest :=
  List.append_cancel_left (trips.rest.symm.trans ahead)

end Cursor

namespace Grammar

open Cursor Stackwright.Parser

/-- A run of tokens inside one statement: without `;` and without braces. -/
def Level (run : List Token) : Prop :=
  ∀ token ∈ run, token.kind ≠ .mark .semicolon ∧ token.kind ≠ .mark .leftBrace ∧ token.kind ≠ .mark .rightBrace

/-- Whether the rule fails at the cursor. -/
def failsAt {α : Type} (rule : Parser α) (cursor : Cursor) : Bool :=
  match rule cursor with
  | .ok _ _ => false
  | .error _ _ => true

/-- The rule for statements fails on the tokens, at some place where no `else` follows them: alone, or
where they stand in a program. -/
def Refused (tokens : List Token) : Prop :=
  ∃ (cursor : Cursor) (rest : List Token), cursor.rest = tokens ++ rest ∧
    headKind rest ≠ .keyword .elseWord ∧ failsAt statement cursor = true

section Run

variable {cursor next : Cursor} {run rest : List Token} {semicolon : Token}

/-- The run is what stands before the first `;`. -/
theorem takeWhile_run (plain : ∀ token ∈ run, token.kind ≠ .mark .semicolon)
    (isSemicolon : semicolon.kind = .mark .semicolon) (rest : List Token) :
    (run ++ semicolon :: rest).takeWhile (fun token => token.kind != .mark .semicolon) = run := by
  rw [List.takeWhile_append_of_pos (by simpa using plain), List.takeWhile_cons_of_neg (by simp [isSemicolon]),
    List.append_nil]

/-- The run with its `;` begins like the run, unless the run is empty. -/
theorem headKind_run (run : List Token) (isSemicolon : semicolon.kind = .mark .semicolon) (rest : List Token) :
    headKind (run ++ semicolon :: rest) = .mark .semicolon ∨
      headKind (run ++ semicolon :: rest) = headKind run ∧ ∃ token ∈ run, headKind run = token.kind := by
  cases run with
  | nil => exact .inl isSemicolon
  | cons token run => exact .inr ⟨rfl, token, List.mem_cons_self, rfl⟩

theorem not_opens (ahead : cursor.rest = run ++ semicolon :: rest) (level : Level run)
    (isSemicolon : semicolon.kind = .mark .semicolon) : ¬ cursor.Opens := by
  rintro ⟨front, brace, others, split, plain, isBrace⟩
  have before := takeWhile_run (fun token member => (level token member).1) isSemicolon rest
  rw [← ahead, split, List.takeWhile_append_of_pos (by simpa using plain),
    List.takeWhile_cons_of_pos (by simp [isBrace])] at before
  have member : brace ∈ run := before ▸ List.mem_append_right _ List.mem_cons_self
  exact (level brace member).2.1 isBrace

/-- A statement that was read at the run is the run with its `;`. -/
theorem passes_of_ends (ends : cursor.Ends next) (ahead : cursor.rest = run ++ semicolon :: rest) (level : Level run)
    (isSemicolon : semicolon.kind = .mark .semicolon) : cursor.Passes next (run ++ [semicolon]) := by
  obtain ⟨taken, last, passes, plain, isLast⟩ := ends.level.resolve_right (not_opens ahead level isSemicolon)
  have split := passes.rest.symm.trans ahead
  rw [List.append_assoc, List.singleton_append] at split
  have same : taken = run := by
    rw [← takeWhile_run plain isLast next.rest, split,
      takeWhile_run (fun token member => (level token member).1) isSemicolon]
  subst same
  obtain rfl : last = semicolon := by simpa using congrArg List.head? (List.append_cancel_left split)
  exact passes

/-- What is read from the run is derivable. -/
theorem derived_of_read {budget : Nat} {value : Stmt} (ahead : cursor.rest = run ++ semicolon :: rest)
    (level : Level run) (isSemicolon : semicolon.kind = .mark .semicolon)
    (given : statementWithin budget cursor = .ok value next) : Statement (run ++ [semicolon]) value.bare := by
  -- with nothing recorded before, a run that was read leaves nothing recorded
  have reads := ends_statementWithin budget cursor.clear
  have blind := reads.blind cursor.faults
  rw [behind_clear, given] at blind
  cases result : statementWithin budget cursor.clear with
  | error fault last =>
    rw [result] at blind
    cases blind
  | ok same last =>
    rw [result] at blind
    cases blind
    have passes := passes_of_ends (reads.ok result) ahead level isSemicolon
    obtain ⟨tokens, others, derived⟩ := (accepts_statementWithin budget cursor.clear).ok result passes.faults
    obtain rfl : tokens = run ++ [semicolon] := List.append_cancel_right (others.rest.symm.trans passes.rest)
    exact derived

theorem Refused.fails (refused : Refused (run ++ [semicolon])) (level : Level run)
    (isSemicolon : semicolon.kind = .mark .semicolon) (ahead : cursor.rest = run ++ semicolon :: rest)
    (budget : Nat) : ∃ fault next, statementWithin budget cursor = .error fault next := by
  cases result : statementWithin budget cursor with
  | error fault next => exact ⟨fault, next, rfl⟩
  | ok value next =>
    obtain ⟨elsewhere, others, there, notElse, failed⟩ := refused
    have derived := derived_of_read ahead level isSemicolon result
    have builds := derived.builds (statementBudget elsewhere) elsewhere others there notElse
      (by simp [statementBudget])
    obtain ⟨stmt, after, read, -⟩ := builds.exists_ok
    rw [failsAt, statement, read] at failed
    cases failed

theorem skipStatement_run (previous : Option Span) (level : Level run)
    (isSemicolon : semicolon.kind = .mark .semicolon) :
    (skipStatement previous (run ++ semicolon :: rest)).2 = rest := by
  induction run generalizing previous with
  | nil => simp [skipStatement, isSemicolon]
  | cons token run ih =>
    have here := level token List.mem_cons_self
    rw [List.cons_append, skipStatement]
    split
    next closes => exact absurd closes here.2.2
    next ends => exact absurd ends here.1
    · exact ih _ fun other member => level other (List.mem_cons_of_mem _ member)

/-- Where a rule failed on the run, some of the run and its `;` are left. -/
theorem left_of_passes {taken : List Token} (passes : cursor.Passes next taken)
    (plain : ∀ token ∈ taken, token.kind ≠ .mark .semicolon) (ahead : cursor.rest = run ++ semicolon :: rest)
    (isSemicolon : semicolon.kind = .mark .semicolon) :
    ∃ left, run = taken ++ left ∧ next.rest = left ++ semicolon :: rest := by
  have split := List.append_eq_append_iff.mp (passes.rest.symm.trans ahead)
  rcases split with ⟨left, split, others⟩ | ⟨beyond, split, others⟩
  · exact ⟨left, split, others⟩
  · cases beyond with
    | nil => exact ⟨[], by simpa using split.symm, by simpa using others.symm⟩
    | cons token beyond =>
      obtain rfl : semicolon = token := by simpa using congrArg List.head? others
      exact absurd isSemicolon (plain semicolon (by simp [split]))

end Run

/-- The run is reported once and replaced by one node. -/
theorem Refused.replaced {cursor : Cursor} {run rest : List Token} {semicolon : Token}
    (refused : Refused (run ++ [semicolon])) (level : Level run) (isSemicolon : semicolon.kind = .mark .semicolon)
    (ahead : cursor.rest = run ++ semicolon :: rest) (budget : Nat) (start : Span) :
    (recover (statementWithin budget) (recoverStatement start) cursor).1.bare = .invalid .blank ∧
      cursor.Trips (recover (statementWithin budget) (recoverStatement start) cursor).2
        (run ++ [semicolon]) (run ++ [semicolon]) := by
  obtain ⟨fault, next, failed⟩ := refused.fails level isSemicolon ahead budget
  obtain ⟨taken, passes, plain, located⟩ :=
    ((ends_statementWithin budget cursor).error failed).level.resolve_right (not_opens ahead level isSemicolon)
  obtain ⟨left, rfl, onward⟩ := left_of_passes passes plain ahead isSemicolon
  have levelLeft : Level left := fun token member => level token (List.mem_append_right _ member)
  have skipped : (next.record fault).resumeStatement.rest = rest := by
    change (skipStatement next.previous next.rest).2 = rest
    rw [onward]
    exact skipStatement_run next.previous levelLeft isSemicolon
  have found : next.peek ∈ taken ++ left ++ [semicolon] := by
    rw [List.append_assoc]
    apply List.mem_append_right
    unfold Cursor.peek
    rw [onward]
    cases left <;> simp
  simp only [recover, failed, recoverStatement, Stmt.bare, true_and]
  refine ⟨?_, fault, ?_, ?_⟩
  · rw [skipped, ahead, List.append_assoc (taken ++ left), List.singleton_append]
  · exact congrArg (· ++ [fault]) passes.faults
  · rcases located with here | ⟨token, member, same⟩
    · exact ⟨next.peek, found, here⟩
    · exact ⟨token, by simp [member], same⟩

/-- A list of good statements is read one by one, whatever comes behind it. -/
theorem Sequence.reads_first {before : List Token} {earlier : List Stmt}
    (good : Sequence Statement before earlier) {cursor : Cursor} {rest : List Token} {budget : Nat}
    (ahead : cursor.rest = before ++ rest) (notElse : headKind rest ≠ .keyword .elseWord)
    (enough : 3 * cursor.rest.length + 2 ≤ budget) :
    ∃ next less, cursor.Passes next before ∧ 3 * next.rest.length + 2 ≤ less ∧
      Stmt.bareAll (statementsWithin budget cursor).1 = earlier ++ Stmt.bareAll (statementsWithin less next).1 ∧
      (statementsWithin budget cursor).2 = (statementsWithin less next).2 := by
  induction good generalizing cursor budget with
  | nil => exact ⟨cursor, budget, .refl cursor, enough, rfl, rfl⟩
  | @cons _ others _ _ derived more ih =>
    rw [List.append_assoc] at ahead
    have begins := derived.begins (others ++ rest)
    rw [← ahead, ← cursor.peek_kind] at begins
    have goesOn : headKind (others ++ rest) ≠ .keyword .elseWord := by
      cases more with
      | nil => exact notElse
      | cons second _ =>
        rw [List.append_assoc]
        exact (second.begins _).notElse
    obtain ⟨budget, rfl⟩ : ∃ less, budget = less + 1 := ⟨budget - 1, by omega⟩
    have builds := derived.builds budget cursor _ ahead goesOn (by omega)
    obtain ⟨same, passes⟩ := recover_of_builds builds (recoverStatement cursor.peek.span)
    have length := passes.length
    have positive := derived.length_pos
    obtain ⟨next, less, onward, bound, sameRest, sameEnd⟩ := @ih _ budget (passes.rest_eq ahead) (by omega)
    rw [statementsWithin_succ, if_neg (by simp [begins.notClosing, begins.notEnd])]
    exact ⟨next, less, passes.append onward, bound, by simp [Stmt.bareAll, same, sameRest], sameEnd⟩

theorem Sequence.append {α : Type} {part : List Token → α → Prop} {first second : List Token} {values more : List α}
    (one : Sequence part first values) (two : Sequence part second more) :
    Sequence part (first ++ second) (values ++ more) := by
  induction one with
  | nil => exact two
  | cons derived _ ih =>
    rw [List.append_assoc]
    exact .cons derived ih

/-- A program in whose main block a run of tokens that is no statement stands between good statements. -/
structure Damage where
  defined : List Token
  word : Token
  opening : Token
  before : List Token
  run : List Token
  semicolon : Token
  after : List Token
  closing : Token
  functions : List Stackwright.Function
  earlier : List Stmt
  later : List Stmt
  functionsDerived : Sequence Function defined functions
  isMain : word.kind = .keyword .mainWord
  isOpening : opening.kind = .mark .leftBrace
  earlierDerived : Sequence Statement before earlier
  level : Level run
  notElse : headKind run ≠ .keyword .elseWord
  isSemicolon : semicolon.kind = .mark .semicolon
  refused : Refused (run ++ [semicolon])
  laterDerived : Sequence Statement after later
  isClosing : closing.kind = .mark .rightBrace

namespace Damage

variable (damage : Damage) {cursor : Cursor}

/-- The damaged part: the run and its `;`. -/
def place : List Token := damage.run ++ [damage.semicolon]

/-- The tokens between the braces of the main block. -/
def body : List Token := damage.before ++ (damage.place ++ damage.after)

def tokens : List Token :=
  damage.defined ++ damage.word :: damage.opening :: (damage.body ++ [damage.closing])

/-- One node stands for the damaged part. -/
def statements : List Stmt := damage.earlier ++ .invalid .blank :: damage.later

theorem reads_statements (budget : Nat) (real : ∀ token ∈ damage.run, token.kind ≠ .endOfFile)
    (ahead : cursor.rest = damage.body ++ [damage.closing]) (enough : 3 * cursor.rest.length + 2 ≤ budget) :
    Stmt.bareAll (statementsWithin budget cursor).1 = damage.statements ∧
      cursor.Trips (statementsWithin budget cursor).2 damage.body damage.place := by
  have ahead : cursor.rest =
      damage.before ++ (damage.run ++ damage.semicolon :: (damage.after ++ [damage.closing])) := by
    simpa [body, place] using ahead
  have head := headKind_run damage.run damage.isSemicolon (damage.after ++ [damage.closing])
  have notElse : headKind (damage.run ++ damage.semicolon :: (damage.after ++ [damage.closing])) ≠
      .keyword .elseWord := by
    rcases head with isSemicolon | ⟨same, -⟩
    · simp [isSemicolon]
    · exact same ▸ damage.notElse
  obtain ⟨next, less, passes, bound, sameFirst, sameEnd⟩ := damage.earlierDerived.reads_first ahead notElse enough
  have onward := passes.rest_eq ahead
  have goesOn : ¬ (next.peek.kind == .mark .rightBrace || next.peek.kind == .endOfFile) = true := by
    rw [next.peek_kind, onward]
    rcases head with isSemicolon | ⟨same, token, member, isFirst⟩
    · simp [isSemicolon]
    · simp [same, isFirst, (damage.level token member).2.2, real token member]
  obtain ⟨less, rfl⟩ : ∃ fewer, less = fewer + 1 := ⟨less - 1, by omega⟩
  obtain ⟨replaced, trips⟩ := damage.refused.replaced damage.level damage.isSemicolon onward less next.peek.span
  have onward : next.rest = damage.run ++ [damage.semicolon] ++ (damage.after ++ [damage.closing]) := by
    simpa using onward
  have rest := trips.rest_eq onward
  have length := congrArg List.length trips.rest
  simp only [List.length_append, List.length_singleton] at length
  obtain ⟨sameLast, lastPasses⟩ := damage.laterDerived.builds less _ [damage.closing] rest damage.isClosing (by omega)
  rw [sameFirst, sameEnd, statementsWithin_succ, if_neg goesOn]
  refine ⟨by simp [Stmt.bareAll, replaced, sameLast, statements], ?_⟩
  exact passes.trips (trips.passes lastPasses)

theorem reads_main (real : ∀ token ∈ damage.run, token.kind ≠ .endOfFile)
    (ahead : cursor.rest = damage.word :: damage.opening :: (damage.body ++ [damage.closing])) :
    Outcome False mainBlock cursor fun block next => block.bare = .mk damage.statements .blank ∧
      cursor.Trips next (damage.word :: damage.opening :: (damage.body ++ [damage.closing])) damage.place := by
  unfold mainBlock
  refine finds_expect ahead damage.isMain (by simp) fun _ afterWord taken blockAhead => ?_
  have inner : Outcome False (blockWithin (statementBudget afterWord)) afterWord fun block next =>
      block.bare = .mk damage.statements .blank ∧
        afterWord.Trips next (damage.opening :: (damage.body ++ [damage.closing])) damage.place := by
    rw [statementBudget, blockWithin]
    have opens : afterWord.peek.kind = .mark .leftBrace := peek_of_rest blockAhead ▸ damage.isOpening
    refine (outcome_openBlock (.inr opens)).bind ?_
    rintro opening afterOpening ⟨-, opened⟩
    have front := opened.rest.symm.trans blockAhead
    simp only [List.cons_append, List.nil_append, List.cons.injEq] at front
    rw [front.1] at opened
    have openingLength := opened.length
    simp only [List.length_singleton] at openingLength
    refine finds_freshId front.2 fun id afterId numbered bodyAhead => ?_
    have idLength := numbered.length
    simp only [List.length_nil] at idLength
    have within : Outcome False (ofRecovering (statementsWithin (3 * afterWord.rest.length + 3))) afterId
        fun statements next => Stmt.bareAll statements = damage.statements ∧
          afterId.Trips next damage.body damage.place :=
      damage.reads_statements (3 * afterWord.rest.length + 3) real bodyAhead (by omega)
    refine within.bind ?_
    rintro statements afterBody ⟨same, trips⟩
    refine finds_expect (trips.rest_eq bodyAhead) damage.isClosing (by simp) fun _ last closed _ => ?_
    refine outcome_pure ⟨by rw [Stackwright.Block.bare, same], ?_⟩
    exact opened.trips (numbered.trips (trips.passes closed))
  have inner : Outcome False block afterWord fun block next => block.bare = .mk damage.statements .blank ∧
      afterWord.Trips next (damage.opening :: (damage.body ++ [damage.closing])) damage.place := by
    unfold Outcome block
    exact inner
  refine inner.mono ?_
  rintro block next ⟨same, trips⟩
  exact ⟨same, taken.trips trips⟩

/-- The parser records one fault, at the damaged part, and puts one node in its place. -/
theorem reads_program (real : ∀ token ∈ damage.run, token.kind ≠ .endOfFile) (ahead : cursor.rest = damage.tokens) :
    (program cursor).1.bare = ⟨damage.functions, .mk damage.statements .blank, .blank, 0⟩ ∧
      cursor.Trips (program cursor).2 damage.tokens damage.place := by
  rw [program_eq]
  simp only [Stackwright.Parser.functions]
  generalize started : ({ cursor with nextId := cursor.nextId + 1 } : Cursor) = start
  have numbered : cursor.Passes start [] := started ▸ ⟨rfl, rfl⟩
  have functionsAhead := numbered.rest_eq ahead
  have sameLength := numbered.length
  simp only [List.length_nil] at sameLength
  obtain ⟨sameFunctions, passes⟩ := damage.functionsDerived.builds_functions (cursor.rest.length + 1) start _
    functionsAhead damage.isMain (by omega)
  obtain ⟨block, next, result, sameMain, trips⟩ := (damage.reads_main real (passes.rest_eq functionsAhead)).exists_ok
  have ended := trips.rest_eq ((passes.rest_eq functionsAhead).trans (List.append_nil _).symm)
  have made : recover mainBlock recoverMain (functionsWithin (cursor.rest.length + 1) start).2 = (block, next) := by
    rw [recover, result]
  have atEnd : next.peek.kind = .endOfFile := by rw [Cursor.peek_kind, ended, headKind]
  rw [made]
  dsimp only
  rw [expectEnd, if_pos atEnd]
  refine ⟨?_, numbered.trips (passes.trips trips)⟩
  simp only [Stackwright.Program.bare, sameMain, sameFunctions]

end Damage

end Grammar

/-- Recovery is local. In the main block of a program, between two statements, stands a run of tokens
without `;` and braces, followed by `;`, from which no statement can be read. Then the parser adds one
fault to those of the text, it lies at a token of the run or at its `;`, and the tree is that of the
program without the run, with one node in the place of the run. -/
theorem Program.recovery_is_local {source : String} {damage : Grammar.Damage}
    (tokens : (Scan.ofText source).tokens = damage.tokens) :
    (∃ fault, (Program.read source).2 = (Scan.ofText source).faults.map SyntaxFault.ofLexical ++ [fault] ∧
      ∃ token ∈ damage.run ++ [damage.semicolon], fault.span = token.span) ∧
    (Program.read source).1.bare =
      ⟨damage.functions, .mk (damage.earlier ++ .invalid .blank :: damage.later) .blank, .blank, 0⟩ := by
  have real (token : Token) (member : token ∈ damage.run) : token.kind ≠ .endOfFile := by
    have here : token ∈ (Scan.ofText source).tokens := by
      simp [tokens, Grammar.Damage.tokens, Grammar.Damage.body, Grammar.Damage.place, member]
    exact (Scan.tokens_sound source token here).1
  have ahead : (Cursor.ofText source).rest = damage.tokens := tokens
  obtain ⟨same, trips⟩ := damage.reads_program real ahead
  exact ⟨trips.fault, same⟩

/-- Two values stand side by side between two statements: `main { return; x := 2 3; return; }`. -/
def Grammar.Damage.surplus : Grammar.Damage :=
  let token (kind : Kind) (lexeme : String) (column : Nat) : Token := ⟨kind, lexeme, ⟨1, column, lexeme.length⟩⟩
  { defined := []
    word := token (.keyword .mainWord) "main" 1
    opening := token (.mark .leftBrace) "\x7b" 6
    before := [token (.keyword .returnWord) "return" 8, token (.mark .semicolon) ";" 14]
    run := [token .identifier "x" 16, token (.mark .assign) ":=" 18, token .intLiteral "2" 21,
      token .intLiteral "3" 23]
    semicolon := token (.mark .semicolon) ";" 24
    after := [token (.keyword .returnWord) "return" 26, token (.mark .semicolon) ";" 32]
    closing := token (.mark .rightBrace) "\x7d" 34
    functions := []
    earlier := [.ret none .blank]
    later := [.ret none .blank]
    functionsDerived := .nil
    isMain := rfl
    isOpening := rfl
    earlierDerived := @Grammar.Sequence.cons _ _ [_, _] [] _ _ (.ret rfl rfl) .nil
    level := by
      unfold Grammar.Level
      decide
    notElse := by decide
    isSemicolon := rfl
    refused := ⟨⟨_, default, none, [], 0⟩, [], rfl, by decide, by decide +kernel⟩
    laterDerived := @Grammar.Sequence.cons _ _ [_, _] [] _ _ (.ret rfl rfl) .nil
    isClosing := rfl }

theorem Program.recovery_is_local_surplus :
    (Scan.ofText "main \x7b return; x := 2 3; return; \x7d").tokens = Grammar.Damage.surplus.tokens ∧
      ∃ fault, (Program.read "main \x7b return; x := 2 3; return; \x7d").2 = [fault] ∧
        (Program.read "main \x7b return; x := 2 3; return; \x7d").1.main.bare =
          .mk [.ret none .blank, .invalid .blank, .ret none .blank] .blank := by
  have tokens : (Scan.ofText "main \x7b return; x := 2 3; return; \x7d").tokens =
    Grammar.Damage.surplus.tokens := by decide +kernel
  have clean : (Scan.ofText "main \x7b return; x := 2 3; return; \x7d").faults = [] := by decide +kernel
  obtain ⟨⟨fault, faults, -⟩, tree⟩ := Program.recovery_is_local tokens
  rw [clean] at faults
  exact ⟨tokens, fault, faults, congrArg (·.main) tree⟩

end Stackwright
