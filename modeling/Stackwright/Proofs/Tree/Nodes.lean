import Stackwright.Token.Munch
import Stackwright.Tree.Basic

/-! The numbers of the nodes of a tree, in the order in which they are handed out, and the trees
in which nothing stands for text that could not be read. -/

set_option autoImplicit false

namespace Stackwright

mutual

def Expr.ids : Expr → List Nat
  | .literal _ node => [node.id]
  | .named name => [name.node.id]
  | .binary _ left right node => left.ids ++ (right.ids ++ [node.id])
  | .unary _ operand node => operand.ids ++ [node.id]
  | .call callee arguments list node =>
    callee.node.id :: list.id :: (Expr.idsAll arguments ++ [node.id])
  | .invalid node => [node.id]

def Expr.idsAll : List Expr → List Nat
  | [] => []
  | first :: rest => first.ids ++ Expr.idsAll rest

end

def Call.ids (call : Call) : List Nat := call.expr.ids

def PrintItem.ids : PrintItem → List Nat
  | .value expr => expr.ids
  | .space _ | .newline _ => []

mutual

def Stmt.ids : Stmt → List Nat
  | .declare _ name value node => node.id :: name.node.id :: value.ids
  | .assign target value node => node.id :: target.node.id :: value.ids
  | .branch condition thenBlock elseBlock node =>
    node.id :: (condition.ids ++ (thenBlock.ids ++
      match elseBlock with
      | some elseBlock => elseBlock.ids
      | none => []))
  | .ret value node =>
    node.id :: match value with
      | some value => value.ids
      | none => []
  | .call call node => node.id :: call.ids
  | .print items node => node.id :: items.flatMap PrintItem.ids
  | .nested body => body.ids
  | .invalid node => [node.id]

def Block.ids : Block → List Nat
  | .mk statements node => node.id :: Stmt.idsAll statements

def Stmt.idsAll : List Stmt → List Nat
  | [] => []
  | first :: rest => first.ids ++ Stmt.idsAll rest

end

def Parameter.ids (parameter : Parameter) : List Nat :=
  [parameter.node.id, parameter.type.node.id, parameter.name.node.id]

def Function.ids (function : Function) : List Nat :=
  function.node.id :: function.result.node.id :: function.name.node.id :: function.list.id ::
    (function.parameters.flatMap Parameter.ids ++ function.body.ids)

def Program.ids (program : Program) : List Nat :=
  program.node.id :: (program.functions.flatMap Function.ids ++ program.main.ids)

mutual

/-- Nothing in the expression stands for text that could not be read. -/
def Expr.Legible : Expr → Prop
  | .literal _ _ | .named _ => True
  | .binary _ left right _ => left.Legible ∧ right.Legible
  | .unary _ operand _ => operand.Legible
  | .call _ arguments _ _ => Expr.LegibleAll arguments
  | .invalid _ => False

def Expr.LegibleAll : List Expr → Prop
  | [] => True
  | first :: rest => first.Legible ∧ Expr.LegibleAll rest

end

def PrintItem.Legible : PrintItem → Prop
  | .value expr => expr.Legible
  | .space _ | .newline _ => True

mutual

/-- Nothing in the statement stands for text that could not be read. -/
def Stmt.Legible : Stmt → Prop
  | .declare _ _ value _ => value.Legible
  | .assign _ value _ => value.Legible
  | .branch condition thenBlock elseBlock _ =>
    condition.Legible ∧ thenBlock.Legible ∧
      match elseBlock with
      | some elseBlock => elseBlock.Legible
      | none => True
  | .ret value _ =>
    match value with
    | some value => value.Legible
    | none => True
  | .call call _ => call.expr.Legible
  | .print items _ => ∀ item ∈ items, item.Legible
  | .nested body => body.Legible
  | .invalid _ => False

def Block.Legible : Block → Prop
  | .mk statements _ => Stmt.LegibleAll statements

def Stmt.LegibleAll : List Stmt → Prop
  | [] => True
  | first :: rest => first.Legible ∧ Stmt.LegibleAll rest

end

/-- Only letters, digits and underscores. -/
def IsName (text : String) : Prop := ∀ c ∈ text.toList, Munch.continuesName c = true

structure Function.Legible (function : Function) : Prop where
  name : IsName function.name.text
  parameters : ∀ parameter ∈ function.parameters, parameter.type.primitive ≠ .void
  body : function.body.Legible

structure Program.Legible (program : Program) : Prop where
  functions : ∀ function ∈ program.functions, function.Legible
  main : program.main.Legible

end Stackwright
