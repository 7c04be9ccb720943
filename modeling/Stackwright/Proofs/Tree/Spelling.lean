import Stackwright.Proofs.Tree.Deciding

/-! What a token sequence means depends on how its tokens are spelled and not on where they stand: the
grammar gives sequences of the same spelling the same tree. -/

set_option autoImplicit false

namespace Stackwright

/-- What a token is and how it is written, wherever it stands. -/
def Token.spelling (token : Token) : Kind × String := (token.kind, token.lexeme)

/-- Tokens of the same spelling. -/
structure Token.Agrees (token token' : Token) : Prop where
  kind : token.kind = token'.kind
  lexeme : token.lexeme = token'.lexeme

/-- Token sequences of the same spelling. -/
abbrev Respelled (tokens tokens' : List Token) : Prop := List.Forall₂ Token.Agrees tokens tokens'

theorem respelled_of_map_eq {tokens tokens' : List Token}
    (same : tokens.map Token.spelling = tokens'.map Token.spelling) : Respelled tokens tokens' := by
  have paired : List.Forall₂ Eq (tokens.map Token.spelling) (tokens'.map Token.spelling) := same ▸ List.forall₂_refl _
  refine (List.forall₂_map_right_iff.mp (List.forall₂_map_left_iff.mp paired)).imp fun _ _ spelled => ?_
  obtain ⟨kind, lexeme⟩ := Prod.mk.inj spelled
  exact ⟨kind, lexeme⟩

namespace Respelled

variable {first second tokens' : List Token} {token token' : Token}

theorem of_append (respelled : Respelled (first ++ second) tokens') :
    ∃ first' second', tokens' = first' ++ second' ∧ Respelled first first' ∧ Respelled second second' := by
  induction first generalizing tokens' with
  | nil => exact ⟨[], tokens', rfl, .nil, respelled⟩
  | cons token rest ih =>
    rcases respelled with _ | ⟨same, others⟩
    obtain ⟨first', second', rfl, front, back⟩ := ih others
    exact ⟨_ :: first', second', rfl, .cons same front, back⟩

theorem of_singleton (respelled : Respelled [token] tokens') :
    ∃ token', tokens' = [token'] ∧ token.Agrees token' := by
  rcases respelled with _ | ⟨same, ⟨⟩⟩
  exact ⟨_, rfl, same⟩

end Respelled

/-- The value of a literal is that of its spelling. -/
theorem Literal.ofToken_of_agrees {token token' : Token} {value : Literal} (same : token.Agrees token')
    (valued : Literal.ofToken token = .ok value) : Literal.ofToken token' = .ok value := by
  obtain ⟨kind, lexeme, span⟩ := token
  obtain ⟨kind', lexeme', span'⟩ := token'
  obtain ⟨rfl, rfl⟩ := same
  cases kind with
  | intLiteral => cases found : readInt? lexeme.toList <;> simp_all [ofToken]
  | floatLiteral => cases found : Binary64.ofDecimal? (.ofLiteral lexeme.toList) <;> simp_all [ofToken]
  | charLiteral => cases found : readChar? lexeme.toList <;> simp_all [ofToken]
  | stringLiteral => cases found : readString? lexeme.toList <;> simp_all [ofToken]
  | keyword word => cases word <;> simp_all [ofToken]
  | _ => simp [ofToken] at valued

namespace Grammar

theorem name_of_agrees {token token' : Token} (same : token.Agrees token') : name token = name token' :=
  congrArg (fun lexeme => (⟨lexeme, .blank⟩ : Name)) same.lexeme

/-- The parts of a language that can be spelled anew. -/
def Respells {α : Type} (part : List Token → α → Prop) : Prop :=
  ∀ tokens tokens' value, part tokens value → Respelled tokens tokens' → part tokens' value

section Lists

variable {α : Type} {part : List Token → α → Prop} (anew : Respells part)

include anew

theorem Sequence.respells : Respells (Sequence part) := by
  intro tokens tokens' values derived
  induction derived generalizing tokens' with
  | nil =>
    rintro ⟨⟩
    exact .nil
  | cons here _ ih =>
    intro respelled
    obtain ⟨first', rest', rfl, first, rest⟩ := respelled.of_append
    exact .cons (anew _ _ _ here first) (ih _ rest)

theorem Divided.respells : Respells (Divided part) := by
  intro tokens tokens' values derived
  induction derived generalizing tokens' with
  | last here => exact fun respelled => .last (anew _ _ _ here respelled)
  | more here isComma _ ih =>
    intro respelled
    obtain ⟨first', rest', rfl, first, rest⟩ := respelled.of_append
    rcases rest with _ | ⟨comma, rest⟩
    exact .more (anew _ _ _ here first) (comma.kind ▸ isComma) (ih _ rest)

theorem Listed.respells : Respells (Listed part) := by
  intro tokens tokens' values derived respelled
  cases derived with
  | none isOpening isClosing =>
    rcases respelled with _ | ⟨opening, _ | ⟨closing, ⟨⟩⟩⟩
    exact .none (opening.kind ▸ isOpening) (closing.kind ▸ isClosing)
  | some isOpening inner isClosing =>
    obtain ⟨front, back, rfl, first, last⟩ := respelled.of_append
    obtain ⟨closing', rfl, closing⟩ := last.of_singleton
    rcases first with _ | ⟨opening, first⟩
    exact .some (opening.kind ▸ isOpening) (Divided.respells anew _ _ _ inner first)
      (closing.kind ▸ isClosing)

end Lists

mutual

theorem Expression.respells {row : Nat} {tokens tokens' : List Token} {expr : Expr} :
    Expression row tokens expr → Respelled tokens tokens' → Expression row tokens' expr
  | .tighter inner, respelled => .tighter (inner.respells respelled)
  | .chain left isOperator right, respelled => by
    obtain ⟨before', after', rfl, before, after⟩ := respelled.of_append
    rcases after with _ | ⟨mark, after⟩
    exact .chain (left.respells before) (mark.kind ▸ isOperator) (right.respells after)
  | .negation isMinus operand, respelled => by
    rcases respelled with _ | ⟨mark, rest⟩
    exact .negation (mark.kind ▸ isMinus) (operand.respells rest)
  | .literal isLiteral valued, respelled => by
    obtain ⟨token', rfl, same⟩ := respelled.of_singleton
    exact .literal (same.kind ▸ isLiteral) (Literal.ofToken_of_agrees same valued)
  | .named isName, respelled => by
    obtain ⟨token', rfl, same⟩ := respelled.of_singleton
    rw [name_of_agrees same]
    exact .named (same.kind ▸ isName)
  | .call isName arguments, respelled => by
    rcases respelled with _ | ⟨callee, rest⟩
    rw [name_of_agrees callee]
    exact .call (callee.kind ▸ isName) (arguments.respellsArguments rest)
  | .group isOpening inner isClosing, respelled => by
    obtain ⟨front, back, rfl, first, last⟩ := respelled.of_append
    obtain ⟨closing', rfl, closing⟩ := last.of_singleton
    rcases first with _ | ⟨opening, first⟩
    exact .group (opening.kind ▸ isOpening) (inner.respells first)
      (closing.kind ▸ isClosing)

/-- Arguments are parts of the expression around them, which is why the general statement does not serve. -/
theorem Listed.respellsArguments {tokens tokens' : List Token} {arguments : List Expr} :
    Listed (Expression 0) tokens arguments → Respelled tokens tokens' → Listed (Expression 0) tokens' arguments
  | .none isOpening isClosing, respelled => by
    rcases respelled with _ | ⟨opening, _ | ⟨closing, ⟨⟩⟩⟩
    exact .none (opening.kind ▸ isOpening) (closing.kind ▸ isClosing)
  | .some isOpening inner isClosing, respelled => by
    obtain ⟨front, back, rfl, first, last⟩ := respelled.of_append
    obtain ⟨closing', rfl, closing⟩ := last.of_singleton
    rcases first with _ | ⟨opening, first⟩
    exact .some (opening.kind ▸ isOpening) (inner.respellsArguments first)
      (closing.kind ▸ isClosing)

theorem Divided.respellsArguments {tokens tokens' : List Token} {arguments : List Expr} :
    Divided (Expression 0) tokens arguments → Respelled tokens tokens' → Divided (Expression 0) tokens' arguments
  | .last here, respelled => .last (here.respells respelled)
  | .more here isComma others, respelled => by
    obtain ⟨first', rest', rfl, first, rest⟩ := respelled.of_append
    rcases rest with _ | ⟨comma, rest⟩
    exact .more (here.respells first) (comma.kind ▸ isComma) (others.respellsArguments rest)

end

theorem IsDivider.respells {dividers dividers' : List Token} (respelled : Respelled dividers dividers')
    (each : ∀ token ∈ dividers, IsDivider token) : ∀ token ∈ dividers', IsDivider token := by
  induction respelled with
  | nil => exact each
  | cons same _ ih =>
    obtain ⟨here, others⟩ := List.forall_mem_cons.mp each
    refine List.forall_mem_cons.mpr ⟨?_, ih others⟩
    rwa [IsDivider, same.kind] at here

theorem dividerItems_of_respelled {dividers dividers' : List Token} (respelled : Respelled dividers dividers') :
    dividers.filterMap dividerItem? = dividers'.filterMap dividerItem? := by
  induction respelled with
  | nil => rfl
  | cons same _ ih =>
    simp only [List.filterMap_cons, dividerItem?, same.kind, ih]

theorem Printed.respells : Respells Printed := by
  intro tokens tokens' items derived
  induction derived generalizing tokens' with
  | none =>
    rintro ⟨⟩
    exact .none
  | last value => exact fun respelled => .last (value.respells respelled)
  | more value nonempty areDividers _ ih =>
    intro respelled
    obtain ⟨first', others', rfl, first, others⟩ := respelled.of_append
    obtain ⟨dividers', rest', rfl, dividers, rest⟩ := others.of_append
    rw [dividerItems_of_respelled dividers]
    refine .more (value.respells first) ?_ (IsDivider.respells dividers areDividers) (ih _ rest)
    rintro rfl
    exact nonempty (List.forall₂_nil_right_iff.mp dividers)

mutual

theorem Statement.respells {tokens tokens' : List Token} {stmt : Stmt} :
    Statement tokens stmt → Respelled tokens tokens' → Statement tokens' stmt
  | .declare isWord isName isAssign value isSemicolon, respelled => by
    obtain ⟨front, back, rfl, first, last⟩ := respelled.of_append
    obtain ⟨semicolon', rfl, semicolon⟩ := last.of_singleton
    rcases first with _ | ⟨word, _ | ⟨identifier, _ | ⟨assign, inner⟩⟩⟩
    rw [name_of_agrees identifier]
    exact .declare (word.kind ▸ isWord) (identifier.kind ▸ isName)
      (assign.kind ▸ isAssign) (value.respells inner)
      (semicolon.kind ▸ isSemicolon)
  | .assign isName isAssign value isSemicolon, respelled => by
    obtain ⟨front, back, rfl, first, last⟩ := respelled.of_append
    obtain ⟨semicolon', rfl, semicolon⟩ := last.of_singleton
    rcases first with _ | ⟨identifier, _ | ⟨assign, inner⟩⟩
    rw [name_of_agrees identifier]
    exact .assign (identifier.kind ▸ isName) (assign.kind ▸ isAssign)
      (value.respells inner) (semicolon.kind ▸ isSemicolon)
  | .print isWord areDividers items isSemicolon, respelled => by
    obtain ⟨front, back, rfl, first, last⟩ := respelled.of_append
    obtain ⟨semicolon', rfl, semicolon⟩ := last.of_singleton
    rcases first with _ | ⟨word, inner⟩
    obtain ⟨dividers', rest', rfl, dividers, rest⟩ := Respelled.of_append inner
    rw [dividerItems_of_respelled dividers]
    exact .print (word.kind ▸ isWord) (IsDivider.respells dividers areDividers)
      (Printed.respells _ _ _ items rest) (semicolon.kind ▸ isSemicolon)
  | .call isWord isName arguments isSemicolon, respelled => by
    obtain ⟨front, back, rfl, first, last⟩ := respelled.of_append
    obtain ⟨semicolon', rfl, semicolon⟩ := last.of_singleton
    rcases first with _ | ⟨word, _ | ⟨callee, inner⟩⟩
    rw [name_of_agrees callee]
    exact .call (word.kind ▸ isWord) (callee.kind ▸ isName)
      (arguments.respellsArguments inner) (semicolon.kind ▸ isSemicolon)
  | .choose isWord isOpening condition isClosing thenBlock, respelled => by
    obtain ⟨front, back, rfl, first, last⟩ := respelled.of_append
    rcases first with _ | ⟨word, _ | ⟨opening, inner⟩⟩
    rcases last with _ | ⟨closing, body⟩
    exact .choose (word.kind ▸ isWord) (opening.kind ▸ isOpening)
      (condition.respells inner) (closing.kind ▸ isClosing) (thenBlock.respells body)
  | .chooseElse isWord isOpening condition isClosing thenBlock isElse elseBlock, respelled => by
    obtain ⟨choice, otherwise, rfl, first, last⟩ := respelled.of_append
    obtain ⟨front, middle, rfl, first, second⟩ := first.of_append
    rcases first with _ | ⟨word, _ | ⟨opening, inner⟩⟩
    rcases second with _ | ⟨closing, body⟩
    rcases last with _ | ⟨otherwise, other⟩
    exact .chooseElse (word.kind ▸ isWord) (opening.kind ▸ isOpening)
      (condition.respells inner) (closing.kind ▸ isClosing) (thenBlock.respells body)
      (otherwise.kind ▸ isElse) (elseBlock.respells other)
  | .ret isWord isSemicolon, respelled => by
    rcases respelled with _ | ⟨word, _ | ⟨semicolon, ⟨⟩⟩⟩
    exact .ret (word.kind ▸ isWord) (semicolon.kind ▸ isSemicolon)
  | .retValue isWord value isSemicolon, respelled => by
    obtain ⟨front, back, rfl, first, last⟩ := respelled.of_append
    obtain ⟨semicolon', rfl, semicolon⟩ := last.of_singleton
    rcases first with _ | ⟨word, inner⟩
    exact .retValue (word.kind ▸ isWord) (value.respells inner)
      (semicolon.kind ▸ isSemicolon)
  | .nested body, respelled => .nested (body.respells respelled)

theorem Block.respells {tokens tokens' : List Token} {body : Stackwright.Block} :
    Block tokens body → Respelled tokens tokens' → Block tokens' body
  | .braces isOpening statements isClosing, respelled => by
    obtain ⟨front, back, rfl, first, last⟩ := respelled.of_append
    obtain ⟨closing', rfl, closing⟩ := last.of_singleton
    rcases first with _ | ⟨opening, inner⟩
    exact .braces (opening.kind ▸ isOpening) (statements.respellsStatements inner)
      (closing.kind ▸ isClosing)

theorem Sequence.respellsStatements {tokens tokens' : List Token} {statements : List Stmt} :
    Sequence Statement tokens statements → Respelled tokens tokens' → Sequence Statement tokens' statements
  | .nil, respelled => by
    rcases respelled with ⟨⟩
    exact .nil
  | .cons here others, respelled => by
    obtain ⟨first', rest', rfl, first, rest⟩ := respelled.of_append
    exact .cons (here.respells first) (others.respellsStatements rest)

end

theorem Parameter.respells : Respells Parameter := by
  rintro tokens tokens' parameter ⟨isType, proper, isName⟩ respelled
  rcases respelled with _ | ⟨type, _ | ⟨identifier, ⟨⟩⟩⟩
  rw [name_of_agrees identifier]
  exact .mk (type.kind ▸ isType) proper (identifier.kind ▸ isName)

theorem Function.respells : Respells Function := by
  rintro tokens tokens' function ⟨isWord, isType, isName, parameters, body⟩ respelled
  obtain ⟨front, back, rfl, first, inner⟩ := respelled.of_append
  rcases first with _ | ⟨word, _ | ⟨type, _ | ⟨identifier, list⟩⟩⟩
  rw [name_of_agrees identifier]
  exact .mk (word.kind ▸ isWord) (type.kind ▸ isType)
    (identifier.kind ▸ isName) (Listed.respells Parameter.respells _ _ _ parameters list)
    (body.respells inner)

/-- Programs of the same spelling have the same tree. -/
theorem Program.respells : Respells Program := by
  rintro tokens tokens' program ⟨functions, isWord, main⟩ respelled
  obtain ⟨front, back, rfl, first, last⟩ := respelled.of_append
  rcases last with _ | ⟨word, inner⟩
  exact .mk (Sequence.respells Function.respells _ _ _ functions first) (word.kind ▸ isWord)
    (main.respells inner)

end Grammar

end Stackwright
