import Stackwright.Proofs.Tree.Progress
import Stackwright.Proofs.Tree.Shape
import Stackwright.Proofs.Tree.Spelling

/-! No parsing rule looks at where a token stands. On tokens of the same spelling a rule goes the same way,
gives trees of the same shape with the same numbers, and reports the same faults but for their places. And
where every literal has a value, no rule reports text that is no token. -/

set_option autoImplicit false

namespace Stackwright

/-- Tokens of the same spelling, which have the same value if they are literals. -/
structure Token.Alike (token token' : Token) : Prop extends token.Agrees token' where
  value : token.kind.isLiteral = true → ∃ value, Literal.ofToken token = .ok value ∧ Literal.ofToken token' = .ok value

/-- Faults of the same wording, which are not about text that is no token. -/
structure SyntaxFault.Alike (fault fault' : SyntaxFault) : Prop where
  kind : fault.kind = fault'.kind
  message : fault.message = fault'.message
  syntactic : fault.kind ≠ .invalidToken

theorem SyntaxFault.alike_mk {kind : SyntaxFault.Kind} {span span' : Span} {message : String}
    (syntactic : kind ≠ .invalidToken) : SyntaxFault.Alike ⟨kind, span, message⟩ ⟨kind, span', message⟩ :=
  ⟨rfl, rfl, syntactic⟩

theorem Token.alike_endOfFile (span span' : Span) : (Token.endOfFile span).Alike (.endOfFile span') :=
  ⟨⟨rfl, rfl⟩, nofun⟩

/-- Parts of trees that differ at most in the regions of their nodes: they have the same shape, and their
nodes have the same numbers. -/
structure Twins {α : Type} (bare : α → α) (ids : α → List Nat) (value value' : α) : Prop where
  bare : bare value = bare value'
  ids : ids value = ids value'

/-- Lists of such parts. -/
abbrev AllTwins {α : Type} (bare : α → α) (ids : α → List Nat) : List α → List α → Prop :=
  Twins (List.map bare) (List.flatMap ids)

section Twins

variable {α : Type} {bare : α → α} {ids : α → List Nat}

theorem Twins.singleton {value value' : α} (same : Twins bare ids value value') :
    AllTwins bare ids [value] [value'] :=
  ⟨congrArg (fun value => [value]) same.bare, by simp only [List.flatMap_cons, List.flatMap_nil, same.ids]⟩

theorem AllTwins.append {list list' more more' : List α} (first : AllTwins bare ids list list')
    (second : AllTwins bare ids more more') : AllTwins bare ids (list ++ more) (list' ++ more') :=
  ⟨by rw [List.map_append, List.map_append, first.bare, second.bare],
    by rw [List.flatMap_append, List.flatMap_append, first.ids, second.ids]⟩

end Twins

/-- Lists of elements that look the same look the same. -/
theorem map_eq_of_forall₂ {α β γ : Type} {related : α → β → Prop} {view : α → γ} {view' : β → γ} {list : List α}
    {list' : List β} (same : ∀ value value', related value value' → view value = view' value')
    (pairs : List.Forall₂ related list list') : list.map view = list'.map view' := by
  induction pairs with
  | nil => rfl
  | cons here _ ih => rw [List.map_cons, List.map_cons, same _ _ here, ih]

/-- Equal classes of related elements are taken alike from the front. -/
theorem forall₂_span {α : Type} {related : α → α → Prop} {inside : α → Bool} {list list' : List α}
    (same : ∀ value value', related value value' → inside value = inside value')
    (pairs : List.Forall₂ related list list') :
    List.Forall₂ related (list.takeWhile inside) (list'.takeWhile inside) ∧
      List.Forall₂ related (list.dropWhile inside) (list'.dropWhile inside) := by
  induction pairs with
  | nil => exact ⟨.nil, .nil⟩
  | @cons value value' rest rest' here others ih =>
    rw [List.takeWhile_cons, List.takeWhile_cons, List.dropWhile_cons, List.dropWhile_cons, ← same _ _ here]
    split
    · exact ⟨.cons here ih.1, ih.2⟩
    · exact ⟨.nil, .cons here others⟩

namespace Cursor

/-- The tokens ahead and the faults recorded are alike, and the next number is the same. -/
structure Alike (cursor cursor' : Cursor) : Prop where
  rest : List.Forall₂ Token.Alike cursor.rest cursor'.rest
  faults : List.Forall₂ SyntaxFault.Alike cursor.faults cursor'.faults
  nextId : cursor.nextId = cursor'.nextId

variable {cursor cursor' : Cursor} {fault fault' : SyntaxFault}

theorem Alike.peek (alike : cursor.Alike cursor') : cursor.peek.Alike cursor'.peek := by
  have pairs := alike.rest
  unfold Cursor.peek
  cases rest : cursor.rest <;> cases rest' : cursor'.rest <;> rw [rest, rest'] at pairs <;> cases pairs
  · exact Token.alike_endOfFile _ _
  next here _ => exact here

theorem Alike.advance (alike : cursor.Alike cursor') : cursor.advance.Alike cursor'.advance := by
  have pairs := alike.rest
  unfold Cursor.advance
  cases rest : cursor.rest <;> cases rest' : cursor'.rest <;> rw [rest, rest'] at pairs <;> cases pairs
  · exact alike
  next _ others => exact ⟨others, alike.faults, alike.nextId⟩

theorem Alike.length (alike : cursor.Alike cursor') : cursor.rest.length = cursor'.rest.length :=
  alike.rest.length_eq

theorem Alike.number (alike : cursor.Alike cursor') :
    Alike { cursor with nextId := cursor.nextId + 1 } { cursor' with nextId := cursor'.nextId + 1 } :=
  ⟨alike.rest, alike.faults, congrArg (· + 1) alike.nextId⟩

theorem Alike.record (alike : cursor.Alike cursor') (faults : fault.Alike fault') :
    (cursor.record fault).Alike (cursor'.record fault') :=
  ⟨alike.rest, List.rel_append alike.faults (.cons faults .nil), alike.nextId⟩

theorem skipStatement_alike {tokens tokens' : List Token} (pairs : List.Forall₂ Token.Alike tokens tokens')
    (previous previous' : Option Span) :
    List.Forall₂ Token.Alike (skipStatement previous tokens).2 (skipStatement previous' tokens').2 := by
  induction pairs generalizing previous previous' with
  | nil => exact .nil
  | cons here others ih =>
    rw [skipStatement, skipStatement, ← here.kind]
    split
    · exact .cons here others
    · exact others
    · exact ih _ _

theorem skipItem_alike {tokens tokens' : List Token} (pairs : List.Forall₂ Token.Alike tokens tokens')
    (previous previous' : Option Span) :
    List.Forall₂ Token.Alike (skipItem previous tokens).2 (skipItem previous' tokens').2 := by
  induction pairs generalizing previous previous' with
  | nil => exact .nil
  | cons here others ih =>
    rw [skipItem, skipItem, ← here.kind]
    split
    · exact .cons here others
    · exact .cons here others
    · exact ih _ _

theorem Alike.resumeStatement (alike : cursor.Alike cursor') :
    cursor.resumeStatement.Alike cursor'.resumeStatement :=
  ⟨skipStatement_alike alike.rest _ _, alike.faults, alike.nextId⟩

theorem Alike.resumeItem (alike : cursor.Alike cursor') : cursor.resumeItem.Alike cursor'.resumeItem :=
  ⟨skipItem_alike alike.rest _ _, alike.faults, alike.nextId⟩

end Cursor

namespace Parser

variable {α β : Type}

/-- Two rules end alike: both succeed with related results, or both fail with faults of the same wording. -/
inductive EndsAlike (related : α → α → Prop) :
    EStateM.Result SyntaxFault Cursor α → EStateM.Result SyntaxFault Cursor α → Prop
  | ok {value value' : α} {next next' : Cursor} : related value value' → next.Alike next' →
    EndsAlike related (.ok value next) (.ok value' next')
  | error {fault fault' : SyntaxFault} {next next' : Cursor} : fault.Alike fault' → next.Alike next' →
    EndsAlike related (.error fault next) (.error fault' next')

/-- Rules that end alike on tokens of the same spelling. -/
def Parallel (related : α → α → Prop) (rule rule' : Parser α) : Prop :=
  ∀ cursor cursor' : Cursor, cursor.Alike cursor' → EndsAlike related (rule cursor) (rule' cursor')

/-- Rules that never fail and end alike on tokens of the same spelling. -/
def RecoversAlike (related : α → α → Prop) (rule rule' : Recovering α) : Prop :=
  ∀ cursor cursor' : Cursor, cursor.Alike cursor' →
    related (rule cursor).1 (rule' cursor').1 ∧ (rule cursor).2.Alike (rule' cursor').2

section

variable {related : α → α → Prop} {alsoRelated : β → β → Prop} {rule rule' : Parser α}
  {follow follow' : α → Parser β}

theorem Parallel.bind (one : Parallel related rule rule')
    (two : ∀ value value', related value value' → Parallel alsoRelated (follow value) (follow' value')) :
    Parallel alsoRelated (rule >>= follow) (rule' >>= follow') := by
  intro cursor cursor' alike
  have first := one cursor cursor' alike
  cases given : rule cursor <;> cases given' : rule' cursor' <;> rw [given, given'] at first <;> cases first
  next same onward =>
    rw [bind_of_ok given, bind_of_ok given']
    exact two _ _ same _ _ onward
  next same onward =>
    rw [bind_of_error given, bind_of_error given']
    exact .error same onward

/-- A result that is the same on both sides needs one name only. -/
theorem Parallel.bind_eq {follow follow' : α → Parser β} (one : Parallel Eq rule rule')
    (two : ∀ value, Parallel alsoRelated (follow value) (follow' value)) :
    Parallel alsoRelated (rule >>= follow) (rule' >>= follow') := by
  apply one.bind
  rintro value _ rfl
  exact two value

theorem parallel_pure {value value' : α} (same : related value value') : Parallel related (pure value) (pure value') :=
  fun _ _ alike => .ok same alike

theorem parallel_throw {fault fault' : SyntaxFault} (same : fault.Alike fault') :
    Parallel related (throw fault) (throw fault') :=
  fun _ _ alike => .error same alike

/-- A rule whose result is there, where another form of the text has none. -/
theorem Parallel.bind_some {follow follow' : Option α → Parser β} (one : Parallel related rule rule')
    (two : ∀ value value', related value value' → Parallel alsoRelated (follow (some value)) (follow' (some value'))) :
    Parallel alsoRelated (some <$> rule >>= follow) (some <$> rule' >>= follow') := by
  have there : Parallel (fun one two => ∃ value value', one = some value ∧ two = some value' ∧ related value value')
      (some <$> rule) (some <$> rule') :=
    one.bind fun value value' same => parallel_pure ⟨value, value', rfl, rfl, same⟩
  apply there.bind
  rintro _ _ ⟨value, value', rfl, rfl, same⟩
  exact two value value' same

/-- A rule that starts on a budget taken from the number of tokens ahead. -/
theorem parallel_within {within within' : Nat → Parser α} (budget : Nat → Nat)
    (each : ∀ amount, Parallel related (within amount) (within' amount))
    (same : ∀ cursor, rule cursor = within (budget cursor.rest.length) cursor)
    (same' : ∀ cursor, rule' cursor = within' (budget cursor.rest.length) cursor) : Parallel related rule rule' := by
  intro cursor cursor' alike
  rw [same, same', alike.length]
  exact each _ cursor cursor' alike

end

theorem parallel_peek : Parallel Token.Alike peek peek := fun _ _ alike => .ok alike.peek alike

theorem parallel_advance : Parallel Token.Alike advance advance := fun _ _ alike => .ok alike.peek alike.advance

theorem parallel_check (kind : Kind) : Parallel Eq (check kind) (check kind) := fun _ _ alike =>
  .ok (by rw [alike.peek.kind]) alike

theorem parallel_freshId : Parallel Eq freshId freshId := fun _ _ alike => .ok alike.nextId alike.number

theorem parallel_eat (kind : Kind) : Parallel Eq (eat kind) (eat kind) := by
  unfold eat
  refine (parallel_check kind).bind_eq fun found => ?_
  split
  · exact parallel_advance.bind fun _ _ _ => parallel_pure rfl
  · exact parallel_pure rfl

theorem parallel_expect (kind : Kind) : Parallel Token.Alike (expect kind) (expect kind) := by
  unfold expect
  refine parallel_peek.bind fun found found' same => ?_
  rw [← same.kind]
  split
  · exact parallel_advance
  · split
    · exact parallel_throw (SyntaxFault.alike_mk nofun)
    · exact parallel_throw (SyntaxFault.alike_mk nofun)

/-- The same name under the same number. -/
abbrev NameTwins : Name → Name → Prop := Twins Name.bare fun name => [name.node.id]

theorem parallel_identifier : Parallel NameTwins identifier identifier := by
  unfold identifier
  refine parallel_peek.bind fun token token' same => ?_
  rw [← same.kind]
  split
  · refine parallel_advance.bind fun _ _ _ => ?_
    refine parallel_freshId.bind_eq fun id => ?_
    rw [same.lexeme]
    exact parallel_pure ⟨rfl, rfl⟩
  · exact parallel_throw (SyntaxFault.alike_mk nofun)
  · exact parallel_throw (SyntaxFault.alike_mk nofun)

abbrev ExprTwins : Expr → Expr → Prop := Twins Expr.bare Expr.ids

abbrev ArgumentTwins : List Expr → List Expr → Prop := Twins Expr.bareAll Expr.idsAll

abbrev CallTwins : Call → Call → Prop := Twins Call.bare Call.ids

theorem twins_binary {operator : BinaryOperator} {left left' right right' : Expr} {id : Nat} {span span' : Span}
    (first : ExprTwins left left') (second : ExprTwins right right') :
    ExprTwins (.binary operator left right ⟨id, span⟩) (.binary operator left' right' ⟨id, span'⟩) :=
  ⟨by simp only [Expr.bare, first.bare, second.bare], by simp only [Expr.ids, first.ids, second.ids]⟩

theorem twins_call {callee callee' : Name} {arguments arguments' : List Expr} {list id : Nat}
    {span span' whole whole' : Span} (names : NameTwins callee callee') (same : ArgumentTwins arguments arguments') :
    CallTwins ⟨callee, arguments, ⟨list, span⟩, ⟨id, whole⟩⟩ ⟨callee', arguments', ⟨list, span'⟩, ⟨id, whole'⟩⟩ := by
  have ids : callee.node.id = callee'.node.id := (List.cons.inj names.ids).1
  exact ⟨by simp only [Call.bare, names.bare, same.bare], by simp only [Call.ids, Call.expr, Expr.ids, ids, same.ids]⟩

theorem parallel_literal {token token' : Token} (same : token.Alike token') (isLiteral : token.kind.isLiteral = true) :
    Parallel ExprTwins (literal token) (literal token') := by
  obtain ⟨value, valued, valued'⟩ := same.value isLiteral
  unfold literal
  rw [valued, valued']
  refine parallel_advance.bind fun _ _ _ => ?_
  refine parallel_freshId.bind_eq fun id => ?_
  exact parallel_pure ⟨rfl, rfl⟩

mutual

theorem parallel_expressionWithin : ∀ budget minimum : Nat,
    Parallel ExprTwins (expressionWithin budget minimum) (expressionWithin budget minimum)
  | 0, _ => by
    rw [expressionWithin]
    exact parallel_peek.bind fun _ _ _ => parallel_throw (SyntaxFault.alike_mk nofun)
  | budget + 1, minimum => by
    rw [expressionWithin]
    exact (parallel_operandWithin budget).bind fun left left' same => parallel_operatorsWithin budget minimum same

theorem parallel_operatorsWithin : ∀ (budget minimum : Nat) {left left' : Expr}, ExprTwins left left' →
    Parallel ExprTwins (operatorsWithin budget minimum left) (operatorsWithin budget minimum left')
  | 0, _, _, _, same => by
    rw [operatorsWithin, operatorsWithin]
    exact parallel_pure same
  | budget + 1, minimum, left, left', same => by
    rw [operatorsWithin, operatorsWithin]
    refine parallel_peek.bind fun token token' mark => ?_
    rw [← mark.kind]
    split
    · exact parallel_pure same
    · split
      · exact parallel_pure same
      · refine parallel_advance.bind fun _ _ _ => ?_
        refine (parallel_expressionWithin budget _).bind fun right right' second => ?_
        refine parallel_freshId.bind_eq fun id => ?_
        exact parallel_operatorsWithin budget minimum (twins_binary same second)

theorem parallel_operandWithin : ∀ budget : Nat, Parallel ExprTwins (operandWithin budget) (operandWithin budget)
  | 0 => by
    rw [operandWithin]
    exact parallel_peek.bind fun _ _ _ => parallel_throw (SyntaxFault.alike_mk nofun)
  | budget + 1 => by
    rw [operandWithin]
    refine parallel_peek.bind fun token token' same => ?_
    rw [← same.kind]
    split
    next isInt => exact parallel_literal same (by simp [isInt, Kind.isLiteral])
    next isFloat => exact parallel_literal same (by simp [isFloat, Kind.isLiteral])
    next isChar => exact parallel_literal same (by simp [isChar, Kind.isLiteral])
    next isString => exact parallel_literal same (by simp [isString, Kind.isLiteral])
    next isTrue => exact parallel_literal same (by simp [isTrue, Kind.isLiteral])
    next isFalse => exact parallel_literal same (by simp [isFalse, Kind.isLiteral])
    · refine parallel_identifier.bind fun name name' names => ?_
      refine (parallel_check _).bind_eq fun calls => ?_
      split
      · refine (parallel_callWithin budget names).bind fun call call' calls => ?_
        exact parallel_pure ⟨Call.bare_expr calls.bare, calls.ids⟩
      · exact parallel_pure ⟨by simp only [Expr.bare, names.bare], names.ids⟩
    · refine parallel_advance.bind fun _ _ _ => ?_
      refine (parallel_expressionWithin budget _).bind fun operand operand' inner => ?_
      refine parallel_freshId.bind_eq fun id => ?_
      exact parallel_pure ⟨by simp only [Expr.bare, inner.bare], by simp only [Expr.ids, inner.ids]⟩
    · refine parallel_advance.bind fun _ _ _ => ?_
      refine (parallel_expressionWithin budget 0).bind fun inner inner' group => ?_
      exact (parallel_expect _).bind fun _ _ _ => parallel_pure group
    · exact parallel_throw (SyntaxFault.alike_mk nofun)
    · exact parallel_throw (SyntaxFault.alike_mk nofun)

theorem parallel_callWithin : ∀ (budget : Nat) {callee callee' : Name}, NameTwins callee callee' →
    Parallel CallTwins (callWithin budget callee) (callWithin budget callee')
  | 0, _, _, _ => by
    rw [callWithin, callWithin]
    exact parallel_peek.bind fun _ _ _ => parallel_throw (SyntaxFault.alike_mk nofun)
  | budget + 1, callee, callee', names => by
    rw [callWithin, callWithin]
    refine (parallel_expect _).bind fun opening opening' _ => ?_
    refine parallel_freshId.bind_eq fun list => ?_
    refine (parallel_check _).bind_eq fun ends => ?_
    -- both forms of the list end the same way
    have finish {arguments arguments' : List Expr} (same : ArgumentTwins arguments arguments') :
        Parallel CallTwins
          (do
            let closing ← expect (.mark .rightParen)
            let id ← freshId
            return ⟨callee, arguments, ⟨list, opening.span.merge closing.span⟩,
              ⟨id, callee.node.span.merge closing.span⟩⟩)
          (do
            let closing ← expect (.mark .rightParen)
            let id ← freshId
            return ⟨callee', arguments', ⟨list, opening'.span.merge closing.span⟩,
              ⟨id, callee'.node.span.merge closing.span⟩⟩) := by
      refine (parallel_expect _).bind fun closing closing' _ => ?_
      refine parallel_freshId.bind_eq fun id => ?_
      exact parallel_pure (twins_call names same)
    dsimp only
    split
    · exact finish ⟨rfl, rfl⟩
    · exact (parallel_argumentsWithin budget).bind fun arguments arguments' same => finish same

theorem parallel_argumentsWithin : ∀ budget : Nat, Parallel ArgumentTwins (argumentsWithin budget) (argumentsWithin budget)
  | 0 => by
    rw [argumentsWithin]
    exact parallel_peek.bind fun _ _ _ => parallel_throw (SyntaxFault.alike_mk nofun)
  | budget + 1 => by
    rw [argumentsWithin]
    refine (parallel_expressionWithin budget 0).bind fun first first' same => ?_
    refine (parallel_eat _).bind_eq fun more => ?_
    split
    · refine (parallel_argumentsWithin budget).bind fun rest rest' others => ?_
      exact parallel_pure ⟨by simp only [Expr.bareAll, same.bare, others.bare],
        by simp only [Expr.idsAll, same.ids, others.ids]⟩
    · exact parallel_pure ⟨by simp only [Expr.bareAll, same.bare], by simp only [Expr.idsAll, same.ids]⟩

end

theorem parallel_expression (minimum : Nat) : Parallel ExprTwins (expression minimum) (expression minimum) :=
  parallel_within (fun length => 2 * length + 4) (fun budget => parallel_expressionWithin budget minimum)
    (fun _ => rfl) (fun _ => rfl)

theorem parallel_call {callee callee' : Name} (names : NameTwins callee callee') :
    Parallel CallTwins (call callee) (call callee') :=
  parallel_within (fun length => 2 * length + 4) (fun budget => parallel_callWithin budget names)
    (fun _ => rfl) (fun _ => rfl)

abbrev StmtTwins : Stmt → Stmt → Prop := Twins Stmt.bare Stmt.ids

abbrev BlockTwins : Block → Block → Prop := Twins Block.bare Block.ids

abbrev ItemTwins : List PrintItem → List PrintItem → Prop := AllTwins PrintItem.bare PrintItem.ids

theorem twins_value {value value' : Expr} (same : ExprTwins value value') : ItemTwins [.value value] [.value value'] :=
  Twins.singleton ⟨congrArg PrintItem.value same.bare, same.ids⟩

theorem twins_separators {marks marks' : List Token} (pairs : List.Forall₂ Token.Alike marks marks') :
    ItemTwins (marks.filterMap separatorItem?) (marks'.filterMap separatorItem?) := by
  induction pairs with
  | nil => exact ⟨rfl, rfl⟩
  | @cons mark mark' rest rest' here _ ih =>
    have first : ItemTwins (separatorItem? mark).toList (separatorItem? mark').toList := by
      rw [separatorItem?, separatorItem?, ← here.kind]
      split <;> exact ⟨rfl, rfl⟩
    have apart (mark : Token) (rest : List Token) : (mark :: rest).filterMap separatorItem? =
        (separatorItem? mark).toList ++ rest.filterMap separatorItem? := by
      rw [List.filterMap_cons]
      cases separatorItem? mark <;> rfl
    rw [apart, apart]
    exact AllTwins.append first ih

/-- A rule that ends with `;`. -/
theorem parallel_closing {related : α → α → Prop} {result result' : Token → α}
    (same : ∀ token token', related (result token) (result' token')) :
    Parallel related (expect (.mark .semicolon) >>= fun token => pure (result token))
      (expect (.mark .semicolon) >>= fun token => pure (result' token)) :=
  (parallel_expect _).bind fun token token' _ => parallel_pure (same token token')

theorem parallel_declaration : Parallel StmtTwins declaration declaration := by
  unfold declaration
  refine parallel_advance.bind fun word word' words => ?_
  refine parallel_freshId.bind_eq fun id => ?_
  refine parallel_identifier.bind fun name name' names => ?_
  refine (parallel_expect _).bind fun _ _ _ => ?_
  refine (parallel_expression 0).bind fun value value' values => ?_
  have numbers : name.node.id = name'.node.id := (List.cons.inj names.ids).1
  rw [words.kind]
  exact parallel_closing fun _ _ => ⟨by simp only [Stmt.bare, names.bare, values.bare],
    by simp only [Stmt.ids, numbers, values.ids]⟩

theorem parallel_assignment : Parallel StmtTwins assignment assignment := by
  unfold assignment
  refine parallel_freshId.bind_eq fun id => ?_
  refine parallel_identifier.bind fun target target' names => ?_
  refine (parallel_expect _).bind fun _ _ _ => ?_
  refine (parallel_expression 0).bind fun value value' values => ?_
  have numbers : target.node.id = target'.node.id := (List.cons.inj names.ids).1
  exact parallel_closing fun _ _ => ⟨by simp only [Stmt.bare, names.bare, values.bare],
    by simp only [Stmt.ids, numbers, values.ids]⟩

theorem parallel_callStatement : Parallel StmtTwins callStatement callStatement := by
  unfold callStatement
  refine (parallel_expect _).bind fun _ _ _ => ?_
  refine parallel_freshId.bind_eq fun id => ?_
  refine parallel_identifier.bind fun callee callee' names => ?_
  refine (parallel_call names).bind fun call call' calls => ?_
  exact parallel_closing fun _ _ => ⟨by simp only [Stmt.bare, calls.bare], by simp only [Stmt.ids, calls.ids]⟩

theorem parallel_returnStatement : Parallel StmtTwins returnStatement returnStatement := by
  unfold returnStatement
  refine (parallel_expect _).bind fun _ _ _ => ?_
  refine parallel_freshId.bind_eq fun id => ?_
  refine (parallel_check _).bind_eq fun ends => ?_
  dsimp only
  split
  · exact parallel_closing fun _ _ => ⟨by simp only [Stmt.bare], by simp only [Stmt.ids]⟩
  · refine (parallel_expression 0).bind_some fun expr expr' same => ?_
    exact parallel_closing fun _ _ => ⟨by simp only [Stmt.bare, Option.map_some, same.bare],
      by simp only [Stmt.ids, same.ids]⟩

theorem parallel_separators : Parallel (List.Forall₂ Token.Alike) separators separators := by
  -- the rule takes a run of separators off the tokens, so it is followed on the lists
  intro cursor cursor' alike
  have divides (token token' : Token) (same : token.Alike token') : isSeparator token = isSeparator token' := by
    simp only [isSeparator, same.kind]
  obtain ⟨taken, rest⟩ := forall₂_span divides alike.rest
  exact .ok taken ⟨rest, alike.faults, alike.nextId⟩

theorem parallel_printValuesWithin (budget : Nat) :
    Parallel ItemTwins (printValuesWithin budget) (printValuesWithin budget) := by
  induction budget with
  | zero =>
    rw [printValuesWithin]
    exact parallel_pure ⟨rfl, rfl⟩
  | succ budget ih =>
    rw [printValuesWithin]
    refine parallel_peek.bind fun token token' same => ?_
    rw [← same.kind]
    split
    · refine (parallel_expression 0).bind fun value value' values => ?_
      refine (parallel_check _).bind_eq fun ends => ?_
      split
      · exact parallel_pure (twins_value values)
      · refine parallel_separators.bind fun marks marks' pairs => ?_
        have empty : marks.isEmpty = marks'.isEmpty := by cases pairs <;> rfl
        rw [empty]
        split
        · refine parallel_peek.bind fun found found' here => ?_
          rw [here.kind]
          exact parallel_throw (SyntaxFault.alike_mk (by simp))
        · refine ih.bind fun rest rest' others => ?_
          exact parallel_pure (((twins_value values).append (twins_separators pairs)).append others)
    · exact parallel_pure ⟨rfl, rfl⟩

theorem parallel_printStatement : Parallel StmtTwins printStatement printStatement := by
  unfold printStatement
  refine (parallel_expect _).bind fun _ _ _ => ?_
  refine parallel_freshId.bind_eq fun id => ?_
  refine parallel_separators.bind fun marks marks' pairs => ?_
  have values : Parallel ItemTwins printValues printValues :=
    parallel_within (fun length => length + 1) parallel_printValuesWithin (fun _ => rfl) (fun _ => rfl)
  refine values.bind fun items items' same => ?_
  have all := (twins_separators pairs).append same
  exact parallel_closing fun _ _ => ⟨by simp only [Stmt.bare, all.bare], by simp only [Stmt.ids, all.ids]⟩

theorem parallel_openBlock : Parallel Token.Alike openBlock openBlock := by
  intro cursor cursor' alike
  unfold openBlock
  have opened := parallel_expect (.mark .leftBrace) cursor cursor' alike
  cases given : expect (.mark .leftBrace) cursor <;> cases given' : expect (.mark .leftBrace) cursor' <;>
    rw [given, given'] at opened <;> cases opened
  next same onward => exact .ok same onward
  next same onward => exact .error ⟨rfl, same.message, nofun⟩ onward

theorem recoversAlike_recover {related : α → α → Prop} {rule rule' : Parser α}
    {handler handler' : SyntaxFault → Recovering α} (tried : Parallel related rule rule')
    (handled : ∀ fault fault', fault.Alike fault' → RecoversAlike related (handler fault) (handler' fault')) :
    RecoversAlike related (recover rule handler) (recover rule' handler') := by
  intro cursor cursor' alike
  have first := tried cursor cursor' alike
  unfold recover
  cases given : rule cursor <;> cases given' : rule' cursor' <;> rw [given, given'] at first <;> cases first
  next same onward => exact ⟨same, onward⟩
  next same onward => exact handled _ _ same _ _ onward

theorem parallel_ofRecovering {related : α → α → Prop} {rule rule' : Recovering α}
    (recovers : RecoversAlike related rule rule') : Parallel related (ofRecovering rule) (ofRecovering rule') :=
  fun cursor cursor' alike =>
    have ⟨same, onward⟩ := recovers cursor cursor' alike
    .ok same onward

theorem recoversAlike_recoverStatement (start start' : Span) (fault fault' : SyntaxFault) (same : fault.Alike fault') :
    RecoversAlike StmtTwins (recoverStatement start fault) (recoverStatement start' fault') := by
  intro cursor cursor' alike
  have resumed := (alike.record same).resumeStatement
  refine ⟨⟨rfl, ?_⟩, resumed.number⟩
  simp only [recoverStatement, Stmt.ids, resumed.nextId]

mutual

theorem parallel_statementWithin : ∀ budget : Nat, Parallel StmtTwins (statementWithin budget) (statementWithin budget)
  | 0 => by
    rw [statementWithin]
    exact parallel_peek.bind fun _ _ _ => parallel_throw (SyntaxFault.alike_mk nofun)
  | budget + 1 => by
    rw [statementWithin]
    refine parallel_peek.bind fun token token' same => ?_
    rw [← same.kind]
    split
    · exact parallel_declaration
    · exact parallel_declaration
    · exact parallel_assignment
    · exact parallel_printStatement
    · exact parallel_callStatement
    · refine (parallel_expect _).bind fun _ _ _ => ?_
      refine parallel_freshId.bind_eq fun id => ?_
      refine (parallel_expect _).bind fun _ _ _ => ?_
      refine (parallel_expression 0).bind fun condition condition' conditions => ?_
      refine (parallel_expect _).bind fun _ _ _ => ?_
      refine (parallel_blockWithin budget).bind fun thenBlock thenBlock' thenBlocks => ?_
      refine (parallel_eat _).bind_eq fun more => ?_
      dsimp only
      split
      · refine (parallel_blockWithin budget).bind_some fun body body' bodies => ?_
        exact parallel_pure ⟨by simp only [Stmt.bare, conditions.bare, thenBlocks.bare, bodies.bare],
          by simp only [Stmt.ids, conditions.ids, thenBlocks.ids, bodies.ids]⟩
      · exact parallel_pure ⟨by simp only [Stmt.bare, conditions.bare, thenBlocks.bare],
          by simp only [Stmt.ids, conditions.ids, thenBlocks.ids]⟩
    · exact parallel_returnStatement
    · refine (parallel_blockWithin budget).bind fun body body' bodies => ?_
      exact parallel_pure ⟨by simp only [Stmt.bare, bodies.bare], by simp only [Stmt.ids, bodies.ids]⟩
    · exact parallel_throw (SyntaxFault.alike_mk nofun)
    · exact parallel_throw (SyntaxFault.alike_mk nofun)

theorem parallel_blockWithin : ∀ budget : Nat, Parallel BlockTwins (blockWithin budget) (blockWithin budget)
  | 0 => by
    rw [blockWithin]
    exact parallel_peek.bind fun _ _ _ => parallel_throw (SyntaxFault.alike_mk nofun)
  | budget + 1 => by
    rw [blockWithin]
    refine parallel_openBlock.bind fun _ _ _ => ?_
    refine parallel_freshId.bind_eq fun id => ?_
    refine (parallel_ofRecovering (recoversAlike_statementsWithin budget)).bind fun statements statements' same => ?_
    refine (parallel_expect _).bind fun _ _ _ => ?_
    exact parallel_pure ⟨by simp only [Block.bare, same.bare], by simp only [Block.ids, same.ids]⟩

theorem recoversAlike_statementsWithin : ∀ budget : Nat,
    RecoversAlike (Twins Stmt.bareAll Stmt.idsAll) (statementsWithin budget) (statementsWithin budget)
  | 0 => by
    intro cursor cursor' alike
    rw [statementsWithin]
    exact ⟨⟨rfl, rfl⟩, alike⟩
  | budget + 1 => by
    intro cursor cursor' alike
    -- both sides recover in the same place, since skipping looks at the kinds of tokens only
    rw [statementsWithin_succ, statementsWithin_succ, ← alike.peek.kind]
    split
    · exact ⟨⟨rfl, rfl⟩, alike⟩
    · obtain ⟨first, onward⟩ := recoversAlike_recover (parallel_statementWithin budget)
        (recoversAlike_recoverStatement cursor.peek.span cursor'.peek.span) cursor cursor' alike
      obtain ⟨rest, finish⟩ := recoversAlike_statementsWithin budget _ _ onward
      exact ⟨⟨by simp only [Stmt.bareAll, first.bare, rest.bare], by simp only [Stmt.idsAll, first.ids, rest.ids]⟩,
        finish⟩

end

theorem parallel_block : Parallel BlockTwins block block :=
  parallel_within (fun length => 3 * length + 4) parallel_blockWithin (fun _ => rfl) (fun _ => rfl)

/-- The same type under the same number. -/
abbrev MarkTwins : TypeMark → TypeMark → Prop := Twins TypeMark.bare fun mark => [mark.node.id]

abbrev ParameterTwins : List Parameter → List Parameter → Prop := AllTwins Parameter.bare Parameter.ids

abbrev FunctionTwins : List Function → List Function → Prop := AllTwins Function.bare Function.ids

theorem parallel_typeMark : Parallel MarkTwins typeMark typeMark := by
  unfold typeMark
  refine parallel_peek.bind fun token token' same => ?_
  have mark (primitive : Primitive) : Parallel MarkTwins
      (do
        let _ ← advance
        let id ← freshId
        return ⟨primitive, ⟨id, token.span⟩⟩)
      (do
        let _ ← advance
        let id ← freshId
        return ⟨primitive, ⟨id, token'.span⟩⟩) := by
    refine parallel_advance.bind fun _ _ _ => ?_
    refine parallel_freshId.bind_eq fun id => ?_
    exact parallel_pure ⟨rfl, rfl⟩
  dsimp only
  rw [← same.kind]
  split
  · exact mark .int
  · exact mark .bool
  · exact mark .void
  · exact parallel_throw (SyntaxFault.alike_mk nofun)
  · exact parallel_throw (SyntaxFault.alike_mk nofun)

theorem parallel_parameter : Parallel (Twins Parameter.bare Parameter.ids) parameter parameter := by
  unfold parameter
  refine parallel_freshId.bind_eq fun id => ?_
  refine parallel_typeMark.bind fun type type' types => ?_
  have primitives : type.primitive = type'.primitive := (TypeMark.mk.inj types.bare).1
  have typeIds : type.node.id = type'.node.id := (List.cons.inj types.ids).1
  dsimp only
  rw [primitives]
  split
  · -- a parameter of no value is rejected before its name is read
    have never : Parallel (fun _ _ : Unit => False)
        (throw ⟨.expectedType, type.node.span, "parameters must be int or bool"⟩)
        (throw ⟨.expectedType, type'.node.span, "parameters must be int or bool"⟩) :=
      parallel_throw (SyntaxFault.alike_mk nofun)
    exact never.bind nofun
  · refine parallel_identifier.bind fun name name' names => ?_
    have nameIds : name.node.id = name'.node.id := (List.cons.inj names.ids).1
    exact parallel_pure ⟨by simp only [Parameter.bare, types.bare, names.bare],
      by simp only [Parameter.ids, typeIds, nameIds]⟩

theorem parallel_parametersWithin : ∀ budget : Nat,
    Parallel ParameterTwins (parametersWithin budget) (parametersWithin budget)
  | 0 => by
    rw [parametersWithin]
    exact parallel_peek.bind fun _ _ _ => parallel_throw (SyntaxFault.alike_mk nofun)
  | budget + 1 => by
    rw [parametersWithin]
    refine parallel_parameter.bind fun first first' same => ?_
    refine (parallel_eat _).bind_eq fun more => ?_
    split
    · refine (parallel_parametersWithin budget).bind fun rest rest' others => ?_
      exact parallel_pure (same.singleton.append others)
    · exact parallel_pure same.singleton

/-- The same parameters in a list of the same number. -/
abbrev ListTwins : List Parameter × Node → List Parameter × Node → Prop :=
  Twins (fun list => (list.1.map Parameter.bare, .blank)) fun list => list.2.id :: list.1.flatMap Parameter.ids

theorem parallel_parameterList : Parallel ListTwins parameterList parameterList := by
  unfold parameterList
  refine (parallel_expect _).bind fun opening opening' _ => ?_
  refine parallel_freshId.bind_eq fun id => ?_
  refine (parallel_check _).bind_eq fun ends => ?_
  have finish {list list' : List Parameter} (same : ParameterTwins list list') :
      Parallel ListTwins
        (expect (.mark .rightParen) >>= fun closing => pure (list, ⟨id, opening.span.merge closing.span⟩))
        (expect (.mark .rightParen) >>= fun closing => pure (list', ⟨id, opening'.span.merge closing.span⟩)) :=
    (parallel_expect _).bind fun _ _ _ => parallel_pure ⟨by simp only [same.bare], by simp only [same.ids]⟩
  dsimp only
  split
  · exact finish ⟨rfl, rfl⟩
  · have each : Parallel ParameterTwins parameters parameters :=
      parallel_within (fun length => length + 1) parallel_parametersWithin (fun _ => rfl) (fun _ => rfl)
    exact each.bind fun list list' same => finish same

theorem parallel_function : Parallel (Twins Function.bare Function.ids) function function := by
  unfold function
  refine (parallel_expect _).bind fun _ _ _ => ?_
  refine parallel_freshId.bind_eq fun id => ?_
  refine parallel_typeMark.bind fun result result' results => ?_
  refine parallel_identifier.bind fun name name' names => ?_
  refine parallel_parameterList.bind ?_
  rintro ⟨parameters, list⟩ ⟨parameters', list'⟩ lists
  refine parallel_block.bind fun body body' bodies => ?_
  have resultIds : result.node.id = result'.node.id := (List.cons.inj results.ids).1
  have nameIds : name.node.id = name'.node.id := (List.cons.inj names.ids).1
  have shapes : parameters.map Parameter.bare = parameters'.map Parameter.bare := congrArg Prod.fst lists.bare
  have listIds : list.id = list'.id := (List.cons.inj lists.ids).1
  have parameterIds : parameters.flatMap Parameter.ids = parameters'.flatMap Parameter.ids :=
    (List.cons.inj lists.ids).2
  exact parallel_pure ⟨by simp only [Function.bare, results.bare, names.bare, shapes, bodies.bare],
    by simp only [Function.ids, resultIds, nameIds, listIds, parameterIds, bodies.ids]⟩

theorem recoversAlike_functionsWithin : ∀ budget : Nat,
    RecoversAlike FunctionTwins (functionsWithin budget) (functionsWithin budget)
  | 0 => by
    intro cursor cursor' alike
    rw [functionsWithin]
    exact ⟨⟨rfl, rfl⟩, alike⟩
  | budget + 1 => by
    intro cursor cursor' alike
    have one : Parallel FunctionTwins (do return [← function]) (do return [← function]) :=
      parallel_function.bind fun _ _ same => parallel_pure same.singleton
    have handled (fault fault' : SyntaxFault) (same : fault.Alike fault') :
        RecoversAlike FunctionTwins (recoverFunction fault) (recoverFunction fault') :=
      fun _ _ alike => ⟨⟨rfl, rfl⟩, (alike.record same).resumeItem⟩
    rw [functionsWithin_succ, functionsWithin_succ, ← alike.peek.kind]
    split
    · obtain ⟨first, onward⟩ := recoversAlike_recover one handled cursor cursor' alike
      obtain ⟨rest, finish⟩ := recoversAlike_functionsWithin budget _ _ onward
      exact ⟨first.append rest, finish⟩
    · exact ⟨⟨rfl, rfl⟩, alike⟩

theorem recoversAlike_main : RecoversAlike BlockTwins (recover mainBlock recoverMain) (recover mainBlock recoverMain) := by
  have main : Parallel BlockTwins mainBlock mainBlock := (parallel_expect _).bind fun _ _ _ => parallel_block
  refine recoversAlike_recover main fun fault fault' same cursor cursor' alike => ?_
  refine ⟨⟨rfl, ?_⟩, (alike.record same).number⟩
  simp only [recoverMain, Block.ids, alike.nextId]

theorem alike_expectEnd {cursor cursor' : Cursor} (alike : cursor.Alike cursor') :
    (expectEnd cursor).Alike (expectEnd cursor') := by
  unfold expectEnd
  dsimp only
  rw [← alike.peek.kind]
  split
  · exact alike
  · exact alike.record (SyntaxFault.alike_mk nofun)

/-- Programs that differ at most in the regions of their nodes. -/
structure ProgramTwins (program program' : Program) : Prop extends Twins Program.bare Program.ids program program' where
  nodeCount : program.nodeCount = program'.nodeCount

theorem recoversAlike_program : RecoversAlike ProgramTwins program program := by
  intro cursor cursor' alike
  rw [program_eq, program_eq]
  have each : RecoversAlike FunctionTwins functions functions := by
    intro cursor cursor' alike
    rw [functions, functions, alike.length]
    exact recoversAlike_functionsWithin _ cursor cursor' alike
  obtain ⟨same, onward⟩ := each _ _ alike.number
  obtain ⟨mains, finish⟩ := recoversAlike_main _ _ onward
  have ended := alike_expectEnd finish
  refine ⟨⟨⟨?_, ?_⟩, ended.nextId⟩, ended⟩
  · simp only [Program.bare, same.bare, mains.bare]
  · simp only [Program.ids, same.ids, mains.ids]
    rw [alike.nextId]

end Parser

end Stackwright
