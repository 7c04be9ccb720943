import Mathlib
import Stackwright.Token.Lexer
import Stackwright.Tree.Literal

/-! The grammar of programs: which token sequences are programs, and the tree of each. The
trees of the grammar are bare, without the numbers and the regions of text that a tree read
from a source carries. -/

set_option autoImplicit false

namespace Stackwright

/-- The node of every part of a bare tree. -/
def Node.blank : Node := default

def Name.bare (name : Name) : Name := ⟨name.text, .blank⟩

mutual

def Expr.bare : Expr → Expr
  | .literal value _ => .literal value .blank
  | .named name => .named name.bare
  | .binary operator left right _ => .binary operator left.bare right.bare .blank
  | .unary operator operand _ => .unary operator operand.bare .blank
  | .call callee arguments _ _ => .call callee.bare (Expr.bareAll arguments) .blank .blank
  | .invalid _ => .invalid .blank

def Expr.bareAll : List Expr → List Expr
  | [] => []
  | first :: rest => first.bare :: Expr.bareAll rest

end

def Call.bare (call : Call) : Call :=
  ⟨call.callee.bare, Expr.bareAll call.arguments, .blank, .blank⟩

def PrintItem.bare : PrintItem → PrintItem
  | .value expr => .value expr.bare
  | .space _ => .space default
  | .newline _ => .newline default

mutual

def Stmt.bare : Stmt → Stmt
  | .declare isMutable name value _ => .declare isMutable name.bare value.bare .blank
  | .assign target value _ => .assign target.bare value.bare .blank
  | .branch condition thenBlock elseBlock _ =>
    .branch condition.bare thenBlock.bare
      (match elseBlock with
        | some elseBlock => some elseBlock.bare
        | none => none)
      .blank
  | .ret value _ => .ret (value.map Expr.bare) .blank
  | .call call _ => .call call.bare .blank
  | .print items _ => .print (items.map PrintItem.bare) .blank
  | .nested body => .nested body.bare
  | .invalid _ => .invalid .blank

def Block.bare : Block → Block
  | .mk statements _ => .mk (Stmt.bareAll statements) .blank

def Stmt.bareAll : List Stmt → List Stmt
  | [] => []
  | first :: rest => first.bare :: Stmt.bareAll rest

end

def TypeMark.bare (mark : TypeMark) : TypeMark := ⟨mark.primitive, .blank⟩

def Parameter.bare (parameter : Parameter) : Parameter :=
  ⟨parameter.type.bare, parameter.name.bare, .blank⟩

def Function.bare (function : Function) : Function :=
  ⟨function.result.bare, function.name.bare, function.parameters.map Parameter.bare, .blank,
    function.body.bare, .blank⟩

/-- The program without the numbers and regions of its nodes. -/
def Program.bare (program : Program) : Program :=
  ⟨program.functions.map Function.bare, program.main.bare, .blank, 0⟩

/-- The row of the grammar that the operator belongs to: comparisons, sums, products. -/
def BinaryOperator.row : BinaryOperator → Nat
  | .greater => 0
  | .add | .subtract => 1
  | .multiply => 2

namespace Grammar

/-- The name that an identifier stands for. -/
def name (token : Token) : Name := ⟨token.lexeme, .blank⟩

/-- Parts one after the other. -/
inductive Sequence {α : Type} (part : List Token → α → Prop) : List Token → List α → Prop
  | nil : Sequence part [] []
  | cons {tokens rest : List Token} {value : α} {values : List α} :
    part tokens value → Sequence part rest values →
    Sequence part (tokens ++ rest) (value :: values)

/-- One or more parts with commas between them. -/
inductive Divided {α : Type} (part : List Token → α → Prop) : List Token → List α → Prop
  | last {tokens : List Token} {value : α} : part tokens value → Divided part tokens [value]
  | more {tokens rest : List Token} {comma : Token} {value : α} {values : List α} :
    part tokens value → comma.kind = .mark .comma → Divided part rest values →
    Divided part (tokens ++ comma :: rest) (value :: values)

/-- Parts in parentheses, with commas between them. -/
inductive Listed {α : Type} (part : List Token → α → Prop) : List Token → List α → Prop
  | none {opening closing : Token} :
    opening.kind = .mark .leftParen → closing.kind = .mark .rightParen →
    Listed part [opening, closing] []
  | some {opening closing : Token} {tokens : List Token} {values : List α} :
    opening.kind = .mark .leftParen → Divided part tokens values →
    closing.kind = .mark .rightParen → Listed part (opening :: tokens ++ [closing]) values

/-- The expressions of a row of the grammar: row `0` holds comparisons, row `1` sums, row `2`
products and row `3` atoms. Each row is one operand of the next row, or a shorter expression
of its own, an operator of the row and an operand of the next: operators of one row group
from the left. -/
inductive Expression : (row : Nat) → List Token → Expr → Prop
  | tighter {row : Nat} {tokens : List Token} {expr : Expr} :
    Expression (row + 1) tokens expr → Expression row tokens expr
  | chain {operator : BinaryOperator} {mark : Token} {before after : List Token} {left right : Expr} :
    Expression operator.row before left → BinaryOperator.ofKind? mark.kind = some operator →
    Expression (operator.row + 1) after right →
    Expression operator.row (before ++ mark :: after) (.binary operator left right .blank)
  | negation {mark : Token} {tokens : List Token} {operand : Expr} :
    mark.kind = .mark .minus → Expression 3 tokens operand →
    Expression 3 (mark :: tokens) (.unary .negate operand .blank)
  | literal {token : Token} {value : Literal} :
    token.kind.isLiteral = true → Literal.ofToken token = .ok value →
    Expression 3 [token] (.literal value .blank)
  | named {token : Token} :
    token.kind = .identifier → Expression 3 [token] (.named (name token))
  | call {callee : Token} {tokens : List Token} {arguments : List Expr} :
    callee.kind = .identifier → Listed (Expression 0) tokens arguments →
    Expression 3 (callee :: tokens) (.call (name callee) arguments .blank .blank)
  | group {opening closing : Token} {tokens : List Token} {expr : Expr} :
    opening.kind = .mark .leftParen → Expression 0 tokens expr →
    closing.kind = .mark .rightParen → Expression 3 (opening :: tokens ++ [closing]) expr

/-- The divider of print items is a comma, `\s` or `\n`. -/
def IsDivider (token : Token) : Prop :=
  token.kind = .mark .comma ∨ token.kind = .mark .space ∨ token.kind = .mark .newline

/-- What a divider prints; a comma prints nothing. -/
def dividerItem? (token : Token) : Option PrintItem :=
  match token.kind with
  | .mark .space => some (.space default)
  | .mark .newline => some (.newline default)
  | _ => none

/-- Values, each but the last followed by at least one divider. -/
inductive Printed : List Token → List PrintItem → Prop
  | none : Printed [] []
  | last {tokens : List Token} {value : Expr} : Expression 0 tokens value → Printed tokens [.value value]
  | more {tokens dividers rest : List Token} {value : Expr} {items : List PrintItem} :
    Expression 0 tokens value → dividers ≠ [] → (∀ token ∈ dividers, IsDivider token) →
    Printed rest items →
    Printed (tokens ++ (dividers ++ rest)) (.value value :: dividers.filterMap dividerItem? ++ items)

mutual

inductive Statement : List Token → Stmt → Prop
  | declare {word identifier assign semicolon : Token} {isMutable : Bool} {tokens : List Token}
      {value : Expr} :
    word.kind = .keyword (if isMutable then .mutWord else .immWord) →
    identifier.kind = .identifier → assign.kind = .mark .assign → Expression 0 tokens value →
    semicolon.kind = .mark .semicolon →
    Statement (word :: identifier :: assign :: tokens ++ [semicolon])
      (.declare isMutable (name identifier) value .blank)
  | assign {identifier assign semicolon : Token} {tokens : List Token} {value : Expr} :
    identifier.kind = .identifier → assign.kind = .mark .assign → Expression 0 tokens value →
    semicolon.kind = .mark .semicolon →
    Statement (identifier :: assign :: tokens ++ [semicolon])
      (.assign (name identifier) value .blank)
  | print {word semicolon : Token} {dividers tokens : List Token} {items : List PrintItem} :
    word.kind = .keyword .printWord → (∀ token ∈ dividers, IsDivider token) →
    Printed tokens items → semicolon.kind = .mark .semicolon →
    Statement (word :: (dividers ++ tokens) ++ [semicolon])
      (.print (dividers.filterMap dividerItem? ++ items) .blank)
  | call {word callee semicolon : Token} {tokens : List Token} {arguments : List Expr} :
    word.kind = .keyword .callWord → callee.kind = .identifier →
    Listed (Expression 0) tokens arguments → semicolon.kind = .mark .semicolon →
    Statement (word :: callee :: tokens ++ [semicolon])
      (.call ⟨name callee, arguments, .blank, .blank⟩ .blank)
  | choose {word opening closing : Token} {tokens inner : List Token} {condition : Expr}
      {thenBlock : Stackwright.Block} :
    word.kind = .keyword .ifWord → opening.kind = .mark .leftParen →
    Expression 0 tokens condition → closing.kind = .mark .rightParen → Block inner thenBlock →
    Statement (word :: opening :: tokens ++ closing :: inner)
      (.branch condition thenBlock none .blank)
  | chooseElse {word opening closing otherwise : Token} {tokens inner other : List Token}
      {condition : Expr} {thenBlock elseBlock : Stackwright.Block} :
    word.kind = .keyword .ifWord → opening.kind = .mark .leftParen →
    Expression 0 tokens condition → closing.kind = .mark .rightParen → Block inner thenBlock →
    otherwise.kind = .keyword .elseWord → Block other elseBlock →
    Statement (word :: opening :: tokens ++ closing :: inner ++ otherwise :: other)
      (.branch condition thenBlock (some elseBlock) .blank)
  | ret {word semicolon : Token} :
    word.kind = .keyword .returnWord → semicolon.kind = .mark .semicolon →
    Statement [word, semicolon] (.ret none .blank)
  | retValue {word semicolon : Token} {tokens : List Token} {value : Expr} :
    word.kind = .keyword .returnWord → Expression 0 tokens value →
    semicolon.kind = .mark .semicolon →
    Statement (word :: tokens ++ [semicolon]) (.ret (some value) .blank)
  | nested {tokens : List Token} {body : Stackwright.Block} :
    Block tokens body → Statement tokens (.nested body)

inductive Block : List Token → Stackwright.Block → Prop
  | braces {opening closing : Token} {tokens : List Token} {statements : List Stmt} :
    opening.kind = .mark .leftBrace → Sequence Statement tokens statements →
    closing.kind = .mark .rightBrace →
    Block (opening :: tokens ++ [closing]) (.mk statements .blank)

end

/-- The keyword of a type. -/
def typeWord : Primitive → Keyword
  | .int => .intWord
  | .bool => .boolWord
  | .void => .voidWord

inductive Parameter : List Token → Stackwright.Parameter → Prop
  | mk {type identifier : Token} {primitive : Primitive} :
    type.kind = .keyword (typeWord primitive) → primitive ≠ .void →
    identifier.kind = .identifier →
    Parameter [type, identifier] ⟨⟨primitive, .blank⟩, name identifier, .blank⟩

inductive Function : List Token → Stackwright.Function → Prop
  | mk {word type identifier : Token} {primitive : Primitive} {list inner : List Token}
      {parameters : List Stackwright.Parameter} {body : Stackwright.Block} :
    word.kind = .keyword .funcWord → type.kind = .keyword (typeWord primitive) →
    identifier.kind = .identifier → Listed Parameter list parameters → Block inner body →
    Function (word :: type :: identifier :: list ++ inner)
      ⟨⟨primitive, .blank⟩, name identifier, parameters, .blank, body, .blank⟩

/-- Function definitions, then `main` and its block. -/
inductive Program : List Token → Stackwright.Program → Prop
  | mk {word : Token} {tokens inner : List Token} {functions : List Stackwright.Function}
      {main : Stackwright.Block} :
    Sequence Function tokens functions → word.kind = .keyword .mainWord → Block inner main →
    Program (tokens ++ word :: inner) ⟨functions, main, .blank, 0⟩

end Grammar

end Stackwright
