import Stackwright.Proofs.Tree.Grammar

/-! Trees of the same shape: they are the same but for the numbers and the regions of their nodes. -/

set_option autoImplicit false

namespace Stackwright

/-- Names of the same shape have the same text. -/
theorem Name.bare_eq_iff {name other : Name} : name.bare = other.bare ↔ name.text = other.text := by
  simp [Name.bare]

attribute [local simp] Name.bare_eq_iff Expr.bare Expr.bareAll PrintItem.bare Stmt.bare Block.bare Stmt.bareAll

section Expr

variable {expr : Expr} {node list : Node}

theorem Expr.of_bare_literal {value : Literal} (same : (Expr.literal value node).bare = expr.bare) :
    ∃ node', expr = .literal value node' := by
  cases expr <;> simp at same
  exact ⟨_, by rw [same]⟩

theorem Expr.of_bare_named {name : Name} (same : (Expr.named name).bare = expr.bare) :
    ∃ name', expr = .named name' ∧ name.text = name'.text := by
  cases expr <;> simp at same
  exact ⟨_, rfl, same⟩

theorem Expr.of_bare_binary {operator : BinaryOperator} {left right : Expr}
    (same : (Expr.binary operator left right node).bare = expr.bare) :
    ∃ left' right' node', expr = .binary operator left' right' node' ∧ left.bare = left'.bare ∧
      right.bare = right'.bare := by
  cases expr <;> simp at same
  obtain ⟨rfl, left, right⟩ := same
  exact ⟨_, _, _, rfl, left, right⟩

theorem Expr.of_bare_unary {operator : UnaryOperator} {operand : Expr}
    (same : (Expr.unary operator operand node).bare = expr.bare) :
    ∃ operand' node', expr = .unary operator operand' node' ∧ operand.bare = operand'.bare := by
  cases expr <;> simp only [Expr.bare, reduceCtorEq, Expr.unary.injEq, and_true] at same
  exact ⟨_, _, rfl, same.2⟩

theorem Expr.of_bare_call {callee : Name} {arguments : List Expr}
    (same : (Expr.call callee arguments list node).bare = expr.bare) :
    ∃ callee' arguments' list' node', expr = .call callee' arguments' list' node' ∧
      callee.text = callee'.text ∧ Expr.bareAll arguments = Expr.bareAll arguments' := by
  cases expr <;> simp at same
  exact ⟨_, _, _, _, rfl, same.1, same.2⟩

theorem Expr.of_bare_invalid (same : (Expr.invalid node).bare = expr.bare) : ∃ node', expr = .invalid node' := by
  cases expr <;> simp at same
  exact ⟨_, rfl⟩

theorem Expr.of_bareAll_nil {exprs : List Expr} (same : Expr.bareAll [] = Expr.bareAll exprs) : exprs = [] := by
  cases exprs with
  | nil => rfl
  | cons first rest => simp at same

theorem Expr.of_bareAll_cons {first : Expr} {rest exprs : List Expr}
    (same : Expr.bareAll (first :: rest) = Expr.bareAll exprs) :
    ∃ first' rest', exprs = first' :: rest' ∧ first.bare = first'.bare ∧
      Expr.bareAll rest = Expr.bareAll rest' := by
  cases exprs with
  | nil => simp at same
  | cons first' rest' =>
    simp at same
    exact ⟨_, _, rfl, same.1, same.2⟩

end Expr

theorem Call.bare_expr {call call' : Call} (same : call.bare = call'.bare) : call.expr.bare = call'.expr.bare := by
  simp only [Call.bare, Call.mk.injEq, and_true] at same
  simp only [Call.expr, Expr.bare, same]

section PrintItem

variable {item : PrintItem} {span : Span}

theorem PrintItem.of_bare_value {expr : Expr} (same : (PrintItem.value expr).bare = item.bare) :
    ∃ expr', item = .value expr' ∧ expr.bare = expr'.bare := by
  cases item <;> simp at same
  exact ⟨_, rfl, same⟩

theorem PrintItem.of_bare_space (same : (PrintItem.space span).bare = item.bare) : ∃ span', item = .space span' := by
  cases item <;> simp at same
  exact ⟨_, rfl⟩

theorem PrintItem.of_bare_newline (same : (PrintItem.newline span).bare = item.bare) :
    ∃ span', item = .newline span' := by
  cases item <;> simp at same
  exact ⟨_, rfl⟩

end PrintItem

section Stmt

theorem Stmt.bare_branch (condition : Expr) (thenBlock : Block) (elseBlock : Option Block) (node : Node) :
    (Stmt.branch condition thenBlock elseBlock node).bare =
      .branch condition.bare thenBlock.bare (elseBlock.map Block.bare) .blank := by
  cases elseBlock <;> rw [Stmt.bare] <;> rfl

variable {stmt : Stmt} {node : Node}

theorem Stmt.of_bare_declare {isMutable : Bool} {name : Name} {value : Expr}
    (same : (Stmt.declare isMutable name value node).bare = stmt.bare) :
    ∃ name' value' node', stmt = .declare isMutable name' value' node' ∧ name.text = name'.text ∧
      value.bare = value'.bare := by
  cases stmt <;> simp [↓Stmt.bare_branch] at same
  obtain ⟨rfl, name, value⟩ := same
  exact ⟨_, _, _, rfl, name, value⟩

theorem Stmt.of_bare_assign {target : Name} {value : Expr}
    (same : (Stmt.assign target value node).bare = stmt.bare) :
    ∃ target' value' node', stmt = .assign target' value' node' ∧ target.text = target'.text ∧
      value.bare = value'.bare := by
  cases stmt <;> simp [↓Stmt.bare_branch] at same
  exact ⟨_, _, _, rfl, same⟩

theorem Stmt.of_bare_branch {condition : Expr} {thenBlock : Block} {elseBlock : Option Block}
    (same : (Stmt.branch condition thenBlock elseBlock node).bare = stmt.bare) :
    ∃ condition' thenBlock' elseBlock' node', stmt = .branch condition' thenBlock' elseBlock' node' ∧
      condition.bare = condition'.bare ∧ thenBlock.bare = thenBlock'.bare ∧
      elseBlock.map Block.bare = elseBlock'.map Block.bare := by
  cases stmt <;> simp [↓Stmt.bare_branch] at same
  exact ⟨_, _, _, _, rfl, same⟩

theorem Stmt.of_bare_ret {value : Option Expr} (same : (Stmt.ret value node).bare = stmt.bare) :
    ∃ value' node', stmt = .ret value' node' ∧ value.map Expr.bare = value'.map Expr.bare := by
  cases stmt <;> simp [↓Stmt.bare_branch] at same
  exact ⟨_, _, rfl, same⟩

theorem Stmt.of_bare_call {call : Call} (same : (Stmt.call call node).bare = stmt.bare) :
    ∃ call' node', stmt = .call call' node' ∧ call.bare = call'.bare := by
  cases stmt <;> simp [↓Stmt.bare_branch] at same
  exact ⟨_, _, rfl, same⟩

theorem Stmt.of_bare_print {items : List PrintItem} (same : (Stmt.print items node).bare = stmt.bare) :
    ∃ items' node', stmt = .print items' node' ∧ items.map PrintItem.bare = items'.map PrintItem.bare := by
  cases stmt <;> simp [↓Stmt.bare_branch] at same
  exact ⟨_, _, rfl, same⟩

theorem Stmt.of_bare_nested {body : Block} (same : (Stmt.nested body).bare = stmt.bare) :
    ∃ body', stmt = .nested body' ∧ body.bare = body'.bare := by
  cases stmt <;> simp [↓Stmt.bare_branch] at same
  exact ⟨_, rfl, same⟩

theorem Stmt.of_bare_invalid (same : (Stmt.invalid node).bare = stmt.bare) : ∃ node', stmt = .invalid node' := by
  cases stmt <;> simp [↓Stmt.bare_branch] at same
  exact ⟨_, rfl⟩

theorem Block.of_bare_mk {statements : List Stmt} {body : Block}
    (same : (Block.mk statements node).bare = body.bare) :
    ∃ statements' node', body = .mk statements' node' ∧ Stmt.bareAll statements = Stmt.bareAll statements' := by
  obtain ⟨statements', node'⟩ := body
  simp at same
  exact ⟨_, _, rfl, same⟩

theorem Stmt.of_bareAll_nil {stmts : List Stmt} (same : Stmt.bareAll [] = Stmt.bareAll stmts) : stmts = [] := by
  cases stmts with
  | nil => rfl
  | cons first rest => simp at same

theorem Stmt.of_bareAll_cons {first : Stmt} {rest stmts : List Stmt}
    (same : Stmt.bareAll (first :: rest) = Stmt.bareAll stmts) :
    ∃ first' rest', stmts = first' :: rest' ∧ first.bare = first'.bare ∧
      Stmt.bareAll rest = Stmt.bareAll rest' := by
  cases stmts with
  | nil => simp at same
  | cons first' rest' =>
    simp at same
    exact ⟨_, _, rfl, same.1, same.2⟩

end Stmt

section Function

/-- Functions of the same shape have the same name, types and parameters, and bodies of the same shape. -/
structure Function.Like (function other : Function) : Prop where
  result : function.result.primitive = other.result.primitive
  name : function.name.text = other.name.text
  parameters : function.parameters.map (fun parameter => (parameter.name.text, parameter.type.primitive)) =
    other.parameters.map fun parameter => (parameter.name.text, parameter.type.primitive)
  body : function.body.bare = other.body.bare

theorem Function.Like.symm {function other : Function} (like : function.Like other) : other.Like function :=
  ⟨like.result.symm, like.name.symm, like.parameters.symm, like.body.symm⟩

theorem Function.like_of_bare {function other : Function} (same : function.bare = other.bare) :
    function.Like other := by
  simp only [Function.bare, Function.mk.injEq, TypeMark.bare, TypeMark.mk.injEq, Name.bare_eq_iff, and_true] at same
  obtain ⟨result, name, parameters, -, body⟩ := same
  refine ⟨result, name, ?_, body⟩
  have read : ∀ parameter : Parameter, (parameter.name.text, parameter.type.primitive) =
      (parameter.bare.name.text, parameter.bare.type.primitive) := fun _ => rfl
  have mapped := congrArg (List.map fun parameter : Parameter => (parameter.name.text, parameter.type.primitive))
    parameters
  simpa only [List.map_map, Function.comp_def, ← read] using mapped

end Function

end Stackwright
