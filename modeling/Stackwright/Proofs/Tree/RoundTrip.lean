import Stackwright.Proofs.Token.Spacing

/-! Writing expressions as texts. An operand is put in parentheses exactly where its operator binds too
loosely for the place it stands in; reading the text gives the same tree back. -/

set_option autoImplicit false

namespace Stackwright

open Grammar (Expression Listed Divided)

/-- A word that is not reserved. -/
def Name.isIdentifier (name : Name) : Bool := isWord name.text && (Keyword.ofText? name.text).isNone

/-- Whether there is a text for the literal: numbers of 31 bits, truth values, and strings of one line
without a quote. -/
def Literal.isPrintable : Literal → Bool
  | .int value => value < 2 ^ 31
  | .bool _ => true
  | .string text => text.toList.all fun c => c != '"' && c != '\n'
  | .char _ | .float _ => false

mutual

/-- Whether the expression is made of literals that can be printed, identifiers, operators and calls. -/
def Expr.isPrintable : Expr → Bool
  | .literal value _ => value.isPrintable
  | .named name => name.isIdentifier
  | .binary _ left right _ => left.isPrintable && right.isPrintable
  | .unary _ operand _ => operand.isPrintable
  | .call callee arguments _ _ => callee.isIdentifier && Expr.isPrintableAll arguments
  | .invalid _ => false

def Expr.isPrintableAll : List Expr → Bool
  | [] => true
  | first :: rest => first.isPrintable && Expr.isPrintableAll rest

end

def Keyword.token (word : Keyword) : Token := ⟨.keyword word, word.text, default⟩

def Mark.token (mark : Mark) : Token := ⟨.mark mark, mark.text, default⟩

def BinaryOperator.sign : BinaryOperator → Mark
  | .greater => .greater
  | .add => .plus
  | .subtract => .minus
  | .multiply => .star

def Name.token (name : Name) : Token := ⟨.identifier, name.text, default⟩

def Literal.tokens : Literal → List Token
  | .int value => [⟨.intLiteral, toString value, default⟩]
  | .bool value => [(if value then Keyword.trueWord else .falseWord).token]
  | .string text => [⟨.stringLiteral, "\"" ++ text ++ "\"", default⟩]
  | .char _ | .float _ => []

/-- The row of the grammar that the expression belongs to without parentheses. -/
def Expr.row : Expr → Nat
  | .binary operator _ _ _ => operator.row
  | _ => 3

/-- An expression of one row where one of another is asked for, in parentheses if it binds too loosely. -/
def enclosed (own asked : Nat) (tokens : List Token) : List Token :=
  if own < asked then Mark.leftParen.token :: tokens ++ [Mark.rightParen.token] else tokens

mutual

def Expr.tokens : Expr → List Token
  | .literal value _ => value.tokens
  | .named name => [name.token]
  | .binary operator left right _ =>
    enclosed left.row operator.row left.tokens ++
      operator.sign.token :: enclosed right.row (operator.row + 1) right.tokens
  | .unary _ operand _ => Mark.minus.token :: enclosed operand.row 3 operand.tokens
  | .call callee arguments _ _ =>
    callee.token :: (Mark.leftParen.token :: Expr.tokensAll arguments ++ [Mark.rightParen.token])
  | .invalid _ => []

/-- The expressions with commas between them. -/
def Expr.tokensAll : List Expr → List Token
  | [] => []
  | [last] => last.tokens
  | first :: next :: rest => first.tokens ++ Mark.comma.token :: Expr.tokensAll (next :: rest)

end

/-- The expression as a text, with spaces between its tokens. -/
def Expr.text (expr : Expr) : String := Token.spaced expr.tokens

/-- The tokens stand for the tree as an expression of the row, and each can be written between spaces. -/
structure Renders (row : Nat) (tokens : List Token) (tree : Expr) : Prop where
  derived : Expression row tokens tree
  stand : ∀ token ∈ tokens, token.Stands

theorem Mark.stands_token (mark : Mark) : mark.token.Stands := stands_mark mark

theorem BinaryOperator.ofKind?_sign (operator : BinaryOperator) :
    BinaryOperator.ofKind? operator.sign.token.kind = some operator := by
  cases operator <;> rfl

theorem Name.stands_token {name : Name} (identifier : name.isIdentifier = true) : name.token.Stands := by
  obtain ⟨word, unreserved⟩ := Bool.and_eq_true_iff.mp identifier
  have kind : name.token =
      ⟨((Keyword.ofText? name.text).map Kind.keyword).getD .identifier, name.text, default⟩ := by
    simp [token, Option.isNone_iff_eq_none.mp unreserved]
  rw [kind]
  exact stands_word word

theorem stand_group {tokens : List Token} (stand : ∀ token ∈ tokens, token.Stands) :
    ∀ token ∈ Mark.leftParen.token :: tokens ++ [Mark.rightParen.token], token.Stands :=
  List.forall_mem_append.mpr ⟨List.forall_mem_cons.mpr ⟨Mark.stands_token _, stand⟩,
    List.forall_mem_singleton.mpr (Mark.stands_token _)⟩

namespace Renders

variable {own asked row : Nat} {tokens : List Token} {tree : Expr}

theorem of_token {token : Token} (derived : Expression row [token] tree) (stands : token.Stands) :
    Renders row [token] tree :=
  ⟨derived, List.forall_mem_singleton.mpr stands⟩

theorem group (renders : Renders row tokens tree) :
    Renders 3 (Mark.leftParen.token :: tokens ++ [Mark.rightParen.token]) tree :=
  ⟨.group rfl (renders.derived.loosen (Nat.zero_le _)) rfl, stand_group renders.stand⟩

theorem enclosed (renders : Renders own tokens tree) (le : asked ≤ 3) :
    Renders asked (enclosed own asked tokens) tree := by
  unfold Stackwright.enclosed
  split
  · exact ⟨renders.group.derived.loosen le, renders.group.stand⟩
  · exact ⟨renders.derived.loosen (by omega), renders.stand⟩

end Renders

theorem Literal.renders {value : Literal} (printable : value.isPrintable = true) :
    Renders 3 value.tokens (.literal value .blank) := by
  cases value with
  | int value =>
    have small : value < Munch.integerLimit := of_decide_eq_true printable
    have digits : (toString value).toList.all Char.isDigit = true :=
      List.all_eq_true.mpr fun _ => isDigit_of_mem_toString
    have read : readInt? (toString value).toList = some value := by
      simp only [readInt?, digits, digitsValue_toString, small]
      simp
    exact .of_token (.literal rfl (by simp only [ofToken, read]; rfl)) (stands_integer small)
  | bool value => cases value <;> exact .of_token (.literal rfl rfl) (stands_keyword _)
  | string text =>
    have plain : ∀ c ∈ text.toList, Munch.continuesString c = true := List.all_eq_true.mp printable
    have read : readString? ("\"" ++ text ++ "\"").toList = some text.toList := by simp [readString?]
    have valued : ofToken ⟨.stringLiteral, "\"" ++ text ++ "\"", default⟩ = .ok (.string text) := by
      simp only [ofToken, read, Option.map_some, String.ofList_toList]
    exact .of_token (.literal rfl valued) (stands_string plain)
  | char value => simp [isPrintable] at printable
  | float bits => simp [isPrintable] at printable

mutual

theorem Expr.renders : ∀ expr : Expr, expr.isPrintable = true → Renders expr.row expr.tokens expr.bare
  | .literal value _, printable => Literal.renders printable
  | .named name, printable => .of_token (.named rfl) (Name.stands_token printable)
  | .binary operator left right _, printable => by
    obtain ⟨leftPrintable, rightPrintable⟩ := Bool.and_eq_true_iff.mp printable
    -- the left operand may be of the operator's own row, the right one has to bind more tightly
    have before := (left.renders leftPrintable).enclosed (Nat.le_succ_of_le operator.row_le)
    have after := (right.renders rightPrintable).enclosed (Nat.succ_le_succ operator.row_le)
    refine ⟨.chain before.derived operator.ofKind?_sign after.derived, ?_⟩
    exact List.forall_mem_append.mpr
      ⟨before.stand, List.forall_mem_cons.mpr ⟨Mark.stands_token _, after.stand⟩⟩
  | .unary .negate operand _, printable => by
    have inner := (operand.renders printable).enclosed (Nat.le_refl 3)
    exact ⟨.negation rfl inner.derived, List.forall_mem_cons.mpr ⟨Mark.stands_token _, inner.stand⟩⟩
  | .call callee arguments _ _, printable => by
    obtain ⟨named, argumentsPrintable⟩ := Bool.and_eq_true_iff.mp printable
    obtain ⟨divided, stand⟩ := Expr.rendersAll arguments argumentsPrintable
    have listed : Listed (Expression 0)
        (Mark.leftParen.token :: Expr.tokensAll arguments ++ [Mark.rightParen.token])
        (Expr.bareAll arguments) := by
      cases arguments with
      | nil => exact .none rfl rfl
      | cons first rest => exact .some rfl (divided (List.cons_ne_nil _ _)) rfl
    refine ⟨.call rfl listed, List.forall_mem_cons.mpr ⟨Name.stands_token named, ?_⟩⟩
    exact stand_group stand
  | .invalid _, printable => by simp [Expr.isPrintable] at printable

theorem Expr.rendersAll : ∀ arguments : List Expr, Expr.isPrintableAll arguments = true →
    (arguments ≠ [] → Divided (Expression 0) (Expr.tokensAll arguments) (Expr.bareAll arguments)) ∧
      ∀ token ∈ Expr.tokensAll arguments, token.Stands
  | [], _ => by simp [Expr.tokensAll]
  | [last], printable => by
    have renders := last.renders (Bool.and_eq_true_iff.mp printable).1
    exact ⟨fun _ => .last (renders.derived.loosen (Nat.zero_le _)), renders.stand⟩
  | first :: next :: rest, printable => by
    obtain ⟨firstPrintable, restPrintable⟩ := Bool.and_eq_true_iff.mp printable
    have renders := first.renders firstPrintable
    obtain ⟨divided, stand⟩ := Expr.rendersAll (next :: rest) restPrintable
    refine ⟨fun _ => ?_, ?_⟩
    · exact .more (renders.derived.loosen (Nat.zero_le _)) rfl (divided (List.cons_ne_nil _ _))
    · exact List.forall_mem_append.mpr ⟨renders.stand, List.forall_mem_cons.mpr ⟨Mark.stands_token _, stand⟩⟩

end

/-- Reading back the text of an expression succeeds without faults, gives the same tree up to the numbers
and regions of its nodes, and leaves no token behind. -/
theorem Expr.parse_text (expr : Expr) (printable : expr.isPrintable = true) :
    (Scan.ofText expr.text).faults = [] ∧
      ∃ value next, Parser.expression 0 (Cursor.ofText expr.text) = .ok value next ∧
        value.bare = expr.bare ∧ next.faults = [] ∧ next.peek.kind = .endOfFile := by
  have renders := expr.renders printable
  -- the tokens cut from the text lie elsewhere than those that were printed, but are spelled like them
  obtain ⟨clean, respelled⟩ := Scan.ofText_spaced renders.stand
  have derived := (renders.derived.respells respelled).loosen (Nat.zero_le _)
  have ahead : (Cursor.ofText expr.text).rest = (Scan.ofText expr.text).tokens ++ [] := by
    rw [List.append_nil]
    rfl
  have stops : Grammar.Stops 0 (headKind []) := ⟨by simp [headKind], fun operator found => by cases found⟩
  obtain ⟨value, next, parsed, same, passes⟩ := (derived.builds ahead stops).exists_ok
  refine ⟨clean, value, next, parsed, same, ?_, ?_⟩
  · rw [passes.faults]
    exact (Program.faults_ofText_eq_nil_iff _).mpr clean
  · rw [Cursor.peek_kind, passes.rest_eq ahead]
    rfl

/-- A comparison whose left side has a difference on the right of a difference, a double use of the minus
sign, and a call with a string, the greatest number and another call as arguments. -/
def Expr.crowded : Expr :=
  let name text : Name := ⟨text, default⟩
  let difference := Expr.binary .subtract (.named (name "a"))
    (.binary .subtract (.named (name "b")) (.unary .negate (.named (name "c")) default) default) default
  let call := Expr.call (name "f") [.literal (.int 2147483647) default, .literal (.string "a % b") default,
    .call (name "g") [] default default] default default
  .binary .greater (.binary .multiply difference call default) (.literal (.bool true) default) default

theorem Expr.parse_text_crowded :
    crowded.text = "( a - ( b - - c ) ) * f ( 2147483647 , \"a % b\" , g ( ) ) > true" ∧
      ∃ value next, Parser.expression 0 (Cursor.ofText crowded.text) = .ok value next ∧
        value.bare = crowded.bare ∧ next.peek.kind = .endOfFile := by
  obtain ⟨-, value, next, parsed, same, -, ended⟩ := Expr.parse_text crowded (by decide +kernel)
  exact ⟨by decide +kernel, value, next, parsed, same, ended⟩

end Stackwright
