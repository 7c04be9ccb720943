import Stackwright.Proofs.Tree.Cursor
import Stackwright.Tree.Parser.Program

/-! What is read from a source text. Every rule of the parser numbers the nodes of its part in
order, and a part in which something could not be read goes with a recorded fault. Hence a tree
that was read without faults is legible, and its numbers are those from zero up, each used once. -/

set_option autoImplicit false

namespace Stackwright

namespace Parser

open Cursor

theorem parses_literal (token : Token) :
    Parses (literal token) Expr.ids Expr.Legible := by
  intro cursor
  unfold literal
  refine parses_advance.bind fun _ next taken => ?_
  split
  · refine parses_freshId.bind fun id last numbered => ?_
    exact yields_pure ((taken.append numbered).imp rfl (fun _ => trivial))
  · exact yields_throw

mutual

theorem parses_expressionWithin :
    ∀ budget minimum, Parses (expressionWithin budget minimum) Expr.ids Expr.Legible
  | 0, _ => by
    intro cursor
    rw [expressionWithin]
    exact yields_peek_bind yields_throw
  | budget + 1, minimum => by
    intro cursor
    rw [expressionWithin]
    refine (parses_operandWithin budget).bind fun left next reads => ?_
    exact yields_operatorsWithin budget minimum left cursor next reads

/-- The operand on the left was read since `start`. -/
theorem yields_operatorsWithin : ∀ (budget minimum : Nat) (left : Expr) (start cursor : Cursor),
    Reads start cursor left.ids left.Legible →
    Yields (operatorsWithin budget minimum left) cursor
      fun expr next => Reads start next expr.ids expr.Legible
  | 0, _, _, _, _, reads => by
    rw [operatorsWithin]
    exact yields_pure reads
  | budget + 1, minimum, left, start, cursor, reads => by
    rw [operatorsWithin]
    refine yields_peek_bind ?_
    split
    · exact yields_pure reads
    · split
      · exact yields_pure reads
      · refine parses_advance.bind fun _ afterMark taken => ?_
        refine (parses_expressionWithin budget _).bind fun right afterRight rightReads => ?_
        refine parses_freshId.bind fun id last numbered => ?_
        refine yields_operatorsWithin budget minimum _ start last ?_
        refine (reads.append (taken.append (rightReads.append numbered))).imp ?_ ?_
        · simp [Expr.ids]
        · rintro ⟨leftLegible, -, rightLegible, -⟩
          exact ⟨leftLegible, rightLegible⟩

theorem parses_operandWithin : ∀ budget, Parses (operandWithin budget) Expr.ids Expr.Legible
  | 0 => by
    intro cursor
    rw [operandWithin]
    exact yields_peek_bind yields_throw
  | budget + 1 => by
    intro cursor
    rw [operandWithin]
    refine yields_peek_bind ?_
    split
    all_goals try exact parses_literal _ cursor
    · refine parses_identifier.bind fun name afterName named => ?_
      refine (parses_check _).bind fun found next looked => ?_
      have sofar := (named.append looked).imp (List.append_nil _) And.left
      split
      · refine (yields_callWithin budget name cursor next sofar).bind (fun _ _ reads => reads.2) ?_
        rintro call last ⟨reads, -⟩
        exact yields_pure reads
      · exact yields_pure (sofar.imp rfl (fun _ => trivial))
    · refine parses_advance.bind fun _ afterMark taken => ?_
      refine (parses_expressionWithin budget _).bind fun operand afterOperand operandReads => ?_
      refine parses_freshId.bind fun id last numbered => ?_
      exact yields_pure ((taken.append (operandReads.append numbered)).imp rfl fun legible => legible.2.1)
    · refine parses_advance.bind fun _ afterMark taken => ?_
      refine (parses_expressionWithin budget 0).bind fun inner afterInner innerReads => ?_
      refine (parses_expect _).bind fun _ last closed => ?_
      refine yields_pure ((taken.append (innerReads.append closed)).imp ?_ fun legible => legible.2.1)
      simp
    · exact yields_throw
    · exact yields_throw

/-- The callee was read since `start`. -/
theorem yields_callWithin : ∀ (budget : Nat) (callee : Name) (start cursor : Cursor),
    Reads start cursor [callee.node.id] (IsName callee.text) →
    Yields (callWithin budget callee) cursor
      fun call next => Reads start next call.ids call.expr.Legible ∧ cursor.Leads next
  | 0, _, _, _, _ => by
    rw [callWithin]
    exact yields_peek_bind yields_throw
  | budget + 1, callee, start, cursor, named => by
    rw [callWithin]
    refine (parses_expect _).bind fun opening afterOpening opened => ?_
    refine parses_freshId.bind fun list afterList listed => ?_
    refine (parses_check _).bind fun closes afterLook looked => ?_
    have sofar := opened.append (listed.append looked)
    -- both forms of the list end the same way
    have finish : ∀ (arguments : List Expr) (next : Cursor),
        Reads afterLook next (Expr.idsAll arguments) (Expr.LegibleAll arguments) →
        Yields (do
          let closing ← expect (.mark .rightParen)
          let id ← freshId
          return ⟨callee, arguments, ⟨list, opening.span.merge closing.span⟩,
            ⟨id, callee.node.span.merge closing.span⟩⟩ : Parser Call) next
          fun call next => Reads start next call.ids call.expr.Legible ∧ cursor.Leads next := by
      intro arguments next argumentReads
      refine (parses_expect _).bind fun closing afterClosing closed => ?_
      refine parses_freshId.bind fun id last numbered => ?_
      have onward := sofar.append (argumentReads.append (closed.append numbered))
      refine yields_pure ⟨(named.append onward).imp ?_ fun legible => legible.2.2.1, onward.toLeads⟩
      simp [Call.ids, Call.expr, Expr.ids]
    dsimp only
    split
    · exact finish [] afterLook (.bare (.refl _) rfl)
    · exact (parses_argumentsWithin budget).bind fun arguments next reads => finish arguments next reads

theorem parses_argumentsWithin :
    ∀ budget, Parses (argumentsWithin budget) Expr.idsAll Expr.LegibleAll
  | 0 => by
    intro cursor
    rw [argumentsWithin]
    exact yields_peek_bind yields_throw
  | budget + 1 => by
    intro cursor
    rw [argumentsWithin]
    refine (parses_expressionWithin budget 0).bind fun first afterFirst firstReads => ?_
    refine (parses_eat _).bind fun more afterComma taken => ?_
    split
    · refine (parses_argumentsWithin budget).bind fun rest last restReads => ?_
      exact yields_pure ((firstReads.append (taken.append restReads)).imp rfl
        fun legible => ⟨legible.1, legible.2.2⟩)
    · exact yields_pure ((firstReads.append taken).imp rfl fun legible => ⟨legible.1, trivial⟩)

end

theorem parses_expression (minimum : Nat) : Parses (expression minimum) Expr.ids Expr.Legible :=
  .within (fun budget => parses_expressionWithin budget minimum) fun _ => rfl

theorem yields_call (callee : Name) (start cursor : Cursor)
    (named : Reads start cursor [callee.node.id] (IsName callee.text)) :
    Yields (call callee) cursor
      fun call next => Reads start next call.ids call.expr.Legible ∧ cursor.Leads next := by
  unfold Yields call
  exact yields_callWithin (expressionBudget cursor) callee start cursor named

theorem parses_declaration : Parses declaration Stmt.ids Stmt.Legible := by
  intro cursor
  unfold declaration
  refine parses_advance.bind fun keyword afterKeyword taken => ?_
  refine parses_freshId.bind fun id afterId numbered => ?_
  refine parses_identifier.bind fun name afterName named => ?_
  refine (parses_expect _).bind fun _ afterMark marked => ?_
  refine (parses_expression 0).bind fun value afterValue valued => ?_
  refine (parses_expect _).bind fun _ last ended => ?_
  have reads := taken.append (numbered.append (named.append (marked.append (valued.append ended))))
  refine yields_pure (reads.imp ?_ fun legible => legible.2.2.2.2.1)
  simp [Stmt.ids]

theorem parses_assignment : Parses assignment Stmt.ids Stmt.Legible := by
  intro cursor
  unfold assignment
  refine parses_freshId.bind fun id afterId numbered => ?_
  refine parses_identifier.bind fun target afterName named => ?_
  refine (parses_expect _).bind fun _ afterMark marked => ?_
  refine (parses_expression 0).bind fun value afterValue valued => ?_
  refine (parses_expect _).bind fun _ last ended => ?_
  have reads := numbered.append (named.append (marked.append (valued.append ended)))
  refine yields_pure (reads.imp ?_ fun legible => legible.2.2.2.1)
  simp [Stmt.ids]

theorem parses_callStatement : Parses callStatement Stmt.ids Stmt.Legible := by
  intro cursor
  unfold callStatement
  refine (parses_expect _).bind fun _ afterKeyword taken => ?_
  refine parses_freshId.bind fun id afterId numbered => ?_
  refine parses_identifier.bind fun callee afterName named => ?_
  refine (yields_call callee afterId afterName named).bind (fun _ _ reads => reads.2) ?_
  rintro call afterCall ⟨called, -⟩
  refine (parses_expect _).bind fun _ last ended => ?_
  refine yields_pure ((taken.append (numbered.append (called.append ended))).imp ?_
    fun legible => legible.2.2.1)
  simp [Stmt.ids]

theorem parses_returnStatement : Parses returnStatement Stmt.ids Stmt.Legible := by
  intro cursor
  unfold returnStatement
  refine (parses_expect _).bind fun start afterKeyword taken => ?_
  refine parses_freshId.bind fun id afterId numbered => ?_
  refine (parses_check _).bind fun bare afterLook looked => ?_
  have sofar := taken.append (numbered.append looked)
  dsimp only
  split
  · refine (parses_expect _).bind fun _ last ended => ?_
    exact yields_pure ((sofar.append ended).imp (by simp [Stmt.ids]) fun _ => trivial)
  · have one : Yields (expression 0 >>= fun expr => pure (some expr)) afterLook fun value next =>
        ∃ expr, value = some expr ∧ Reads afterLook next expr.ids expr.Legible :=
      (parses_expression 0).bind fun expr next reads => yields_pure ⟨expr, rfl, reads⟩
    refine one.bind (by rintro _ _ ⟨_, -, reads⟩; exact reads.toLeads) ?_
    rintro _ afterValue ⟨value, rfl, valued⟩
    refine (parses_expect _).bind fun _ last ended => ?_
    refine yields_pure ((sofar.append (valued.append ended)).imp ?_ fun legible => legible.2.1)
    simp [Stmt.ids]

theorem parses_separators : Parses separators (fun _ => []) (fun _ => True) := fun _ =>
  .bare ⟨List.dropWhile_suffix _, id, Nat.le_refl _⟩ rfl

/-- The marks between print items have no numbers and are always legible. -/
theorem ids_separatorItems (tokens : List Token) :
    (tokens.filterMap separatorItem?).flatMap PrintItem.ids = [] := by
  induction tokens with
  | nil => rfl
  | cons token rest ih =>
    rw [List.filterMap_cons]
    unfold separatorItem? at *
    split
    · exact ih
    next item found =>
      have none : item.ids = [] := by
        split at found <;> simp only [Option.some.injEq, reduceCtorEq] at found <;> subst found <;> rfl
      simpa [none] using ih

theorem legible_separatorItems (tokens : List Token) :
    ∀ item ∈ tokens.filterMap separatorItem?, item.Legible := by
  intro item member
  obtain ⟨token, -, found⟩ := List.mem_filterMap.mp member
  unfold separatorItem? at found
  split at found <;> simp only [Option.some.injEq, reduceCtorEq] at found <;> subst found <;> trivial

theorem parses_printValuesWithin : ∀ budget, Parses (printValuesWithin budget)
    (List.flatMap PrintItem.ids) (fun items => ∀ item ∈ items, item.Legible)
  | 0 => by
    intro cursor
    rw [printValuesWithin]
    exact yields_pure ((Reads.bare (.refl _) rfl).imp rfl (by simp))
  | budget + 1 => by
    intro cursor
    rw [printValuesWithin]
    refine yields_peek_bind ?_
    split
    · refine (parses_expression 0).bind fun value afterValue valued => ?_
      refine (parses_check _).bind fun ends afterLook looked => ?_
      split
      · exact yields_pure ((valued.append looked).imp (by simp [PrintItem.ids])
          fun legible item member => by simp_all [PrintItem.Legible])
      · refine parses_separators.bind fun marks afterMarks marked => ?_
        split
        · exact yields_peek_bind yields_throw
        · refine (parses_printValuesWithin budget).bind fun rest last more => ?_
          refine yields_pure ((valued.append (looked.append (marked.append more))).imp ?_ ?_)
          · simp [PrintItem.ids, ids_separatorItems]
          · rintro ⟨valueLegible, -, -, restLegible⟩ item member
            simp only [List.cons_append, List.mem_cons, List.mem_append] at member
            rcases member with rfl | member | member
            · exact valueLegible
            · exact legible_separatorItems marks item member
            · exact restLegible item member
    · exact yields_pure ((Reads.bare (.refl _) rfl).imp rfl (by simp))

theorem parses_printValues : Parses printValues
    (List.flatMap PrintItem.ids) (fun items => ∀ item ∈ items, item.Legible) :=
  .within parses_printValuesWithin fun _ => rfl

theorem parses_printStatement : Parses printStatement Stmt.ids Stmt.Legible := by
  intro cursor
  unfold printStatement
  refine (parses_expect _).bind fun start afterKeyword taken => ?_
  refine parses_freshId.bind fun id afterId numbered => ?_
  refine parses_separators.bind fun marks afterMarks marked => ?_
  refine parses_printValues.bind fun items afterItems itemized => ?_
  refine (parses_expect _).bind fun _ last ended => ?_
  have reads := taken.append (numbered.append (marked.append (itemized.append ended)))
  refine yields_pure (reads.imp ?_ ?_)
  · simp [Stmt.ids, ids_separatorItems]
  · rintro ⟨-, -, -, itemsLegible, -⟩ item member
    rcases List.mem_append.mp member with member | member
    · exact legible_separatorItems marks item member
    · exact itemsLegible item member

theorem parses_openBlock : Parses openBlock (fun _ => []) (fun _ => True) := by
  intro cursor
  have opened := parses_expect (.mark .leftBrace) cursor
  unfold Yields openBlock at *
  cases result : expect (.mark .leftBrace) cursor <;> simpa [result] using opened

/-- What a rule reads when every failure is made good by `handler`. -/
theorem reads_recover {α : Type} {rule : Parser α} {handler : SyntaxFault → Recovering α}
    {ids : α → List Nat} {legible : α → Prop} {cursor : Cursor} (parses : Parses rule ids legible)
    (handled : ∀ fault next, cursor.Leads next →
      Reads cursor (handler fault next).2 (ids (handler fault next).1) (legible (handler fault next).1)) :
    Reads cursor (recover rule handler cursor).2 (ids (recover rule handler cursor).1)
      (legible (recover rule handler cursor).1) := by
  have read := parses cursor
  unfold Yields at read
  unfold recover
  cases result : rule cursor with
  | ok value next => simpa [result] using read
  | error fault next => exact handled fault next (by simpa [result] using read)

/-- A statement that could not be read leaves a fault behind. -/
theorem reads_recoverStatement (start : Span) (fault : SyntaxFault) {cursor next : Cursor}
    (leads : cursor.Leads next) :
    Reads cursor (recoverStatement start fault next).2 (recoverStatement start fault next).1.ids
      (recoverStatement start fault next).1.Legible := by
  have onward := (leads.trans (next.leads_record fault)).trans (Cursor.leads_resumeStatement _)
  refine .ofFault ⟨onward.rest, onward.faults, Nat.le_succ_of_le onward.nextId⟩
    (next.record_faults_ne_nil fault) (List.pairwise_singleton ..) ?_
  intro id member
  simp only [recoverStatement, Stmt.ids, List.mem_singleton] at member ⊢
  subst member
  exact ⟨onward.nextId, Nat.lt_succ_self _⟩

theorem statementsWithin_succ (budget : Nat) (cursor : Cursor) :
    statementsWithin (budget + 1) cursor =
      if cursor.peek.kind == .mark .rightBrace || cursor.peek.kind == .endOfFile then ([], cursor)
      else
        let first := recover (statementWithin budget) (recoverStatement cursor.peek.span) cursor
        let rest := statementsWithin budget first.2
        (first.1 :: rest.1, rest.2) := by
  rw [statementsWithin]
  change (ite _ _ _ : Recovering (List Stmt)) cursor = _
  split <;> rfl

mutual

theorem parses_statementWithin : ∀ budget, Parses (statementWithin budget) Stmt.ids Stmt.Legible
  | 0 => by
    intro cursor
    rw [statementWithin]
    exact yields_peek_bind yields_throw
  | budget + 1 => by
    intro cursor
    rw [statementWithin]
    refine yields_peek_bind ?_
    split
    · exact parses_declaration cursor
    · exact parses_declaration cursor
    · exact parses_assignment cursor
    · exact parses_printStatement cursor
    · exact parses_callStatement cursor
    · refine (parses_expect _).bind fun start afterKeyword taken => ?_
      refine parses_freshId.bind fun id afterId numbered => ?_
      refine (parses_expect _).bind fun _ afterOpening opened => ?_
      refine (parses_expression 0).bind fun condition afterCondition conditioned => ?_
      refine (parses_expect _).bind fun _ afterClosing closed => ?_
      refine (parses_blockWithin budget).bind fun thenBlock afterThen thenReads => ?_
      refine (parses_eat _).bind fun more afterElse looked => ?_
      have sofar := taken.append (numbered.append (opened.append (conditioned.append
        (closed.append (thenReads.append looked)))))
      dsimp only
      split
      · have one : Yields (blockWithin budget >>= fun elseBlock => pure (some elseBlock)) afterElse
            fun value next => ∃ elseBlock, value = some elseBlock ∧
              Reads afterElse next elseBlock.ids elseBlock.Legible :=
          (parses_blockWithin budget).bind fun elseBlock next reads =>
            yields_pure ⟨elseBlock, rfl, reads⟩
        refine one.bind (by rintro _ _ ⟨_, -, reads⟩; exact reads.toLeads) ?_
        rintro _ last ⟨elseBlock, rfl, elseReads⟩
        refine yields_pure ((sofar.append elseReads).imp ?_ ?_)
        · simp [Stmt.ids]
        · rintro ⟨⟨-, -, -, conditionLegible, -, thenLegible, -⟩, elseLegible⟩
          exact ⟨conditionLegible, thenLegible, elseLegible⟩
      · refine yields_pure (sofar.imp ?_ ?_)
        · simp [Stmt.ids]
        · rintro ⟨-, -, -, conditionLegible, -, thenLegible, -⟩
          exact ⟨conditionLegible, thenLegible, trivial⟩
    · exact parses_returnStatement cursor
    · refine (parses_blockWithin budget).bind fun body next reads => ?_
      exact yields_pure reads
    · exact yields_throw
    · exact yields_throw

theorem parses_blockWithin : ∀ budget, Parses (blockWithin budget) Block.ids Block.Legible
  | 0 => by
    intro cursor
    rw [blockWithin]
    exact yields_peek_bind yields_throw
  | budget + 1 => by
    intro cursor
    rw [blockWithin]
    refine parses_openBlock.bind fun start afterOpening opened => ?_
    refine parses_freshId.bind fun id afterId numbered => ?_
    have within : Parses (ofRecovering (statementsWithin budget)) Stmt.idsAll Stmt.LegibleAll :=
      fun cursor => reads_statementsWithin budget cursor
    refine within.bind fun statements afterBody body => ?_
    refine (parses_expect _).bind fun _ last closed => ?_
    refine yields_pure ((opened.append (numbered.append (body.append closed))).imp ?_ ?_)
    · simp [Block.ids]
    · exact fun legible => legible.2.2.1

theorem reads_statementsWithin : ∀ (budget : Nat) (cursor : Cursor),
    Reads cursor (statementsWithin budget cursor).2 (Stmt.idsAll (statementsWithin budget cursor).1)
      (Stmt.LegibleAll (statementsWithin budget cursor).1)
  | 0, cursor => by
    rw [statementsWithin]
    exact (Reads.bare (.refl cursor) rfl).imp rfl fun _ => trivial
  | budget + 1, cursor => by
    rw [statementsWithin_succ]
    split
    · exact (Reads.bare (.refl cursor) rfl).imp rfl fun _ => trivial
    · have first := reads_recover (parses_statementWithin budget)
        (fun fault next (leads : cursor.Leads next) =>
          reads_recoverStatement cursor.peek.span fault leads)
      have rest := reads_statementsWithin budget
        (recover (statementWithin budget) (recoverStatement cursor.peek.span) cursor).2
      exact first.append rest

end

theorem parses_block : Parses block Block.ids Block.Legible :=
  .within parses_blockWithin fun cursor => by rw [block]

theorem parses_typeMark : Parses typeMark (fun mark => [mark.node.id]) (fun _ => True) := by
  intro cursor
  unfold typeMark
  refine yields_peek_bind ?_
  have mark : ∀ primitive : Primitive, Yields (do
      let _ ← advance
      let id ← freshId
      return ⟨primitive, ⟨id, cursor.peek.span⟩⟩ : Parser TypeMark) cursor
      fun mark next => Reads cursor next [mark.node.id] True := by
    intro primitive
    refine parses_advance.bind fun _ next taken => ?_
    refine parses_freshId.bind fun id last numbered => ?_
    exact yields_pure ((taken.append numbered).imp rfl fun _ => trivial)
  dsimp only
  split
  · exact mark .int
  · exact mark .bool
  · exact mark .void
  · exact yields_throw
  · exact yields_throw

theorem parses_parameter :
    Parses parameter Parameter.ids (fun parameter => parameter.type.primitive ≠ .void) := by
  intro cursor
  unfold parameter
  refine parses_freshId.bind fun id afterId numbered => ?_
  refine parses_typeMark.bind fun type afterType typed => ?_
  dsimp only
  split
  · have never {fault : SyntaxFault} : Yields (throw fault : Parser Unit) afterType fun _ _ => False :=
      yields_throw
    exact never.bind (fun _ _ none => none.elim) fun _ _ none => none.elim
  next proper =>
    refine parses_identifier.bind fun name last named => ?_
    exact yields_pure ((numbered.append (typed.append named)).imp rfl fun _ => proper)

theorem parses_parametersWithin : ∀ budget, Parses (parametersWithin budget)
    (List.flatMap Parameter.ids) (fun list => ∀ parameter ∈ list, parameter.type.primitive ≠ .void)
  | 0 => by
    intro cursor
    rw [parametersWithin]
    exact yields_peek_bind yields_throw
  | budget + 1 => by
    intro cursor
    rw [parametersWithin]
    refine parses_parameter.bind fun first afterFirst firstReads => ?_
    refine (parses_eat _).bind fun more afterComma taken => ?_
    split
    · refine (parses_parametersWithin budget).bind fun rest last restReads => ?_
      exact yields_pure ((firstReads.append (taken.append restReads)).imp rfl
        fun legible => List.forall_mem_cons.mpr ⟨legible.1, legible.2.2⟩)
    · exact yields_pure ((firstReads.append taken).imp (by simp)
        fun legible => by simpa using legible.1)

theorem parses_parameters : Parses parameters (List.flatMap Parameter.ids)
    (fun list => ∀ parameter ∈ list, parameter.type.primitive ≠ .void) :=
  .within parses_parametersWithin fun _ => rfl

theorem parses_parameterList : Parses parameterList
    (fun list => list.2.id :: list.1.flatMap Parameter.ids)
    (fun list => ∀ parameter ∈ list.1, parameter.type.primitive ≠ .void) := by
  intro cursor
  unfold parameterList
  refine (parses_expect _).bind fun opening afterOpening opened => ?_
  refine parses_freshId.bind fun id afterId numbered => ?_
  refine (parses_check _).bind fun closes afterLook looked => ?_
  have sofar := opened.append (numbered.append looked)
  have finish : ∀ (list : List Parameter) (next : Cursor),
      Reads afterLook next (list.flatMap Parameter.ids)
        (∀ parameter ∈ list, parameter.type.primitive ≠ .void) →
      Yields (do
        let closing ← expect (.mark .rightParen)
        return (list, ⟨id, opening.span.merge closing.span⟩) : Parser (List Parameter × Node)) next
        fun list next => Reads cursor next (list.2.id :: list.1.flatMap Parameter.ids)
          (∀ parameter ∈ list.1, parameter.type.primitive ≠ .void) := by
    intro list next listed
    refine (parses_expect _).bind fun _ last closed => ?_
    refine yields_pure ((sofar.append (listed.append closed)).imp ?_ fun legible => legible.2.1)
    simp
  dsimp only
  split
  · exact finish [] afterLook ((Reads.bare (.refl _) rfl).imp rfl (by simp))
  · exact parses_parameters.bind fun list next reads => finish list next reads

theorem parses_function : Parses function Function.ids Function.Legible := by
  intro cursor
  unfold function
  refine (parses_expect _).bind fun start afterKeyword taken => ?_
  refine parses_freshId.bind fun id afterId numbered => ?_
  refine parses_typeMark.bind fun result afterResult typed => ?_
  refine parses_identifier.bind fun name afterName named => ?_
  refine parses_parameterList.bind fun list afterList listed => ?_
  refine parses_block.bind fun body last blocked => ?_
  have reads := taken.append (numbered.append (typed.append (named.append (listed.append blocked))))
  refine yields_pure (reads.imp ?_ ?_)
  · simp [Function.ids]
  · rintro ⟨-, -, -, spelt, values, bodyLegible⟩
    exact ⟨spelt, values, bodyLegible⟩

theorem functionsWithin_succ (budget : Nat) (cursor : Cursor) :
    functionsWithin (budget + 1) cursor =
      if cursor.peek.kind = .keyword .funcWord then
        let first := recover (do return [← function]) recoverFunction cursor
        let rest := functionsWithin budget first.2
        (first.1 ++ rest.1, rest.2)
      else ([], cursor) := by
  rw [functionsWithin]
  change (ite _ _ _ : Recovering (List Function)) cursor = _
  split <;> rfl

theorem reads_functionsWithin : ∀ (budget : Nat) (cursor : Cursor),
    Reads cursor (functionsWithin budget cursor).2
      ((functionsWithin budget cursor).1.flatMap Function.ids)
      (∀ function ∈ (functionsWithin budget cursor).1, function.Legible)
  | 0, cursor => by
    rw [functionsWithin]
    exact (Reads.bare (.refl cursor) rfl).imp rfl fun _ _ member => by cases member
  | budget + 1, cursor => by
    rw [functionsWithin_succ]
    split
    · have one : Parses (do return [← function] : Parser (List Function))
          (List.flatMap Function.ids) (fun list => ∀ function ∈ list, function.Legible) := by
        intro cursor
        refine parses_function.bind fun function next reads => ?_
        exact yields_pure (reads.imp (by simp) fun legible => by simpa using legible)
      have handled (fault : SyntaxFault) (next : Cursor) (leads : cursor.Leads next) :
          Reads cursor (recoverFunction fault next).2 ((recoverFunction fault next).1.flatMap Function.ids)
            (∀ function ∈ (recoverFunction fault next).1, function.Legible) :=
        .ofFault ((leads.trans (next.leads_record fault)).trans (Cursor.leads_resumeItem _))
          (next.record_faults_ne_nil fault) .nil (by simp [recoverFunction])
      have first := reads_recover one handled
      have rest := reads_functionsWithin budget
        (recover (do return [← function]) recoverFunction cursor).2
      refine (first.append rest).imp (by simp) ?_
      rintro ⟨firstLegible, restLegible⟩ function member
      rcases List.mem_append.mp member with member | member
      · exact firstLegible function member
      · exact restLegible function member
    · exact (Reads.bare (.refl cursor) rfl).imp rfl fun _ _ member => by cases member

theorem parses_mainBlock : Parses mainBlock Block.ids Block.Legible := by
  intro cursor
  unfold mainBlock
  refine (parses_expect _).bind fun _ next taken => ?_
  exact (parses_block next).mono fun body last reads => (taken.append reads).imp rfl And.right

theorem reads_recoverMain (fault : SyntaxFault) {cursor next : Cursor} (leads : cursor.Leads next) :
    Reads cursor (recoverMain fault next).2 (recoverMain fault next).1.ids
      (recoverMain fault next).1.Legible := by
  have onward := leads.trans (next.leads_record fault)
  refine .ofFault ⟨onward.rest, onward.faults, Nat.le_succ_of_le onward.nextId⟩
    (next.record_faults_ne_nil fault) (List.pairwise_singleton ..) ?_
  intro id member
  simp only [recoverMain, Block.ids, Stmt.idsAll, List.mem_singleton] at member ⊢
  subst member
  exact ⟨onward.nextId, Nat.lt_succ_self _⟩

theorem reads_expectEnd (cursor : Cursor) : Reads cursor (expectEnd cursor) [] True := by
  unfold expectEnd
  dsimp only
  split
  · exact .bare (.refl cursor) rfl
  · exact .bare (cursor.leads_record _) rfl

theorem program_eq (cursor : Cursor) :
    program cursor =
      let started := { cursor with nextId := cursor.nextId + 1 }
      let functions := functions started
      let main := recover mainBlock recoverMain functions.2
      let finish := expectEnd main.2
      (⟨functions.1, main.1, ⟨cursor.nextId, cursor.peek.span.merge finish.previousSpan⟩, finish.nextId⟩,
        finish) := rfl

/-- Reading a whole program numbers its nodes in order. -/
theorem reads_program (cursor : Cursor) :
    Reads cursor (program cursor).2 (program cursor).1.ids (program cursor).1.Legible := by
  rw [program_eq]
  have started := parses_freshId cursor
  have functions := reads_functionsWithin (cursor.rest.length + 1) { cursor with nextId := cursor.nextId + 1 }
  have main (afterFunctions : Cursor) : Reads afterFunctions (recover mainBlock recoverMain afterFunctions).2
      (recover mainBlock recoverMain afterFunctions).1.ids
      (recover mainBlock recoverMain afterFunctions).1.Legible :=
    reads_recover parses_mainBlock fun fault next leads => reads_recoverMain fault leads
  have reads := Reads.append started (functions.append ((main _).append (reads_expectEnd _)))
  refine reads.imp ?_ ?_
  · simp [Program.ids, Parser.functions]
  · rintro ⟨-, functionsLegible, mainLegible, -⟩
    exact ⟨functionsLegible, mainLegible⟩

end Parser

/-- Every identifier that is cut from a text is spelt like a name. -/
theorem Munch.piece_identifier {first : Char} {rest : List Char}
    (accepted : (Munch.piece first rest).outcome = .ok .identifier) :
    ∀ c ∈ (Munch.piece first rest).taken, Munch.continuesName c = true := by
  unfold Munch.piece at accepted ⊢
  split at accepted
  · exfalso
    unfold Munch.number Munch.integer Munch.exponent Munch.float Munch.accept Munch.reject at accepted
    grind
  · split at accepted
    · rename_i notDigit starts
      simp only [notDigit, starts, if_true]
      unfold Munch.word at accepted ⊢
      dsimp only at accepted ⊢
      split at accepted
      · simp [Munch.accept] at accepted
      next unreserved =>
        exact List.all_eq_true.mp List.all_takeWhile
    · exfalso
      split at accepted
      · unfold Munch.character Munch.accept Munch.reject at accepted
        grind
      · split at accepted
        · unfold Munch.string Munch.accept Munch.reject at accepted
          grind
        · unfold Munch.mark Munch.accept Munch.reject at accepted
          split at accepted <;> simp at accepted

/-- What holds of every piece that is accepted holds of every token of a text. -/
theorem Scan.forall_tokens {good : Token → Prop}
    (made : ∀ first rest kind span, (Munch.piece first rest).outcome = .ok kind →
      good ⟨kind, String.ofList (Munch.piece first rest).taken, span⟩)
    (budget : Nat) (position : Position) (chars : List Char) :
    ∀ token ∈ (Scan.scanFrom budget position chars).tokens, good token := by
  induction budget generalizing position chars with
  | zero => simp [Scan.scanFrom, Scan.tokens]
  | succ budget ih =>
    unfold Scan.scanFrom
    dsimp only
    split
    · simp [Scan.tokens]
    next first rest _ =>
      intro token member
      simp only [Scan.tokens, List.filterMap_cons] at member
      split at member
      · exact ih _ _ token member
      next accepted found =>
        rcases List.mem_cons.mp member with rfl | member
        · unfold Munch.lexeme at found
          split at found
          next kind outcome =>
            simp only [Lexeme.token?, Option.some.injEq] at found
            exact found ▸ made first rest kind _ outcome
          · simp [Lexeme.token?] at found
        · exact ih _ _ token member

theorem Cursor.proper_ofText (text : String) : (Cursor.ofText text).Proper := by
  refine Scan.forall_tokens (fun first rest kind span accepted isIdentifier => ?_) _ _ _
  simp only at isIdentifier
  subst isIdentifier
  simpa [IsName] using Munch.piece_identifier accepted

/-- A rising list fits between its bounds. -/
theorem length_le_of_rising {ids : List Nat} {low high : Nat} (ordered : low ≤ high)
    (rising : ids.Pairwise (· < ·)) (bounds : ∀ id ∈ ids, low ≤ id ∧ id < high) :
    low + ids.length ≤ high := by
  induction ids generalizing low with
  | nil => simpa using ordered
  | cons first rest ih =>
    obtain ⟨above, restRising⟩ := List.pairwise_cons.mp rising
    have firstBounds := bounds first (by simp)
    have tail := ih (show first + 1 ≤ high by omega) restRising
      (fun id member => ⟨above id member, (bounds id (by simp [member])).2⟩)
    simp only [List.length_cons]
    omega

/-- A rising list that fills the space between its bounds has every number in it. -/
theorem eq_range'_of_rising {ids : List Nat} {low high : Nat} (rising : ids.Pairwise (· < ·))
    (bounds : ∀ id ∈ ids, low ≤ id ∧ id < high) (full : high = low + ids.length) :
    ids = List.range' low ids.length := by
  induction ids generalizing low with
  | nil => rfl
  | cons first rest ih =>
    obtain ⟨above, restRising⟩ := List.pairwise_cons.mp rising
    have firstBounds := bounds first (by simp)
    have restBounds : ∀ id ∈ rest, first + 1 ≤ id ∧ id < high :=
      fun id member => ⟨above id member, (bounds id (by simp [member])).2⟩
    have fits := length_le_of_rising (by omega) restRising restBounds
    simp only [List.length_cons] at full
    have atLow : first = low := by omega
    subst atLow
    rw [List.length_cons, List.range'_succ, ← ih restRising restBounds (by omega)]

/-- A source text that is read without faults gives a legible tree whose nodes are numbered
from zero up, each number used once. -/
theorem Program.legible_and_ids_of_parse {source : String} {program : Program}
    (parsed : Program.parse source = .ok program) :
    program.Legible ∧ program.ids = List.range program.nodeCount := by
  have reads := Parser.reads_program (Cursor.ofText source)
  unfold Program.parse at parsed
  have read : Program.read source = ((Parser.program (Cursor.ofText source)).1,
    (Parser.program (Cursor.ofText source)).2.faults) := rfl
  rw [read] at parsed
  cases noFaults : (Parser.program (Cursor.ofText source)).2.faults with
  | cons fault rest => simp [noFaults] at parsed
  | nil =>
    simp only [noFaults, Except.ok.injEq] at parsed
    subst parsed
    have count := reads.complete noFaults
    have start : (Cursor.ofText source).nextId = 0 := rfl
    have numbers := eq_range'_of_rising reads.rising reads.bounds (by simpa using count)
    have total : (Parser.program (Cursor.ofText source)).1.nodeCount =
        (Parser.program (Cursor.ofText source)).1.ids.length := by
      rw [start, Nat.zero_add] at count
      exact count
    refine ⟨reads.legible (Cursor.proper_ofText source) noFaults, ?_⟩
    rw [total, List.range_eq_range']
    exact numbers

end Stackwright
