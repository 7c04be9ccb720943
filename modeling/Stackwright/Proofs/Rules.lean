import Stackwright.Proofs.Nest
import Stackwright.Tree.Basic

/-! The static rules of the language, stated for trees without numbers, scopes or storage: which
type an expression has among given names, and which statements, blocks, functions and programs
are well formed. -/

set_option autoImplicit false

namespace Stackwright

/-- What is known about a declared name. -/
structure Entry where
  ty : Ty
  isMutable : Bool
  deriving DecidableEq, Repr

/-- The names that are visible at some place of a program. -/
abbrev Context := Nest Entry

mutual

/-- The type of an expression among the visible names. -/
inductive HasType (context : Context) : Expr → Ty → Prop where
  | int {value : Nat} {node : Node} : HasType context (.literal (.int value) node) .int
  | bool {value : Bool} {node : Node} : HasType context (.literal (.bool value) node) .bool
  | named {name : Name} {entry : Entry} :
      context.find? name.text = some entry → HasType context (.named name) entry.ty
  | arithmetic {operator : BinaryOperator} {left right : Expr} {node : Node} :
      operator ≠ .greater → HasType context left .int → HasType context right .int →
      HasType context (.binary operator left right node) .int
  | greater {left right : Expr} {node : Node} :
      HasType context left .int → HasType context right .int →
      HasType context (.binary .greater left right node) .bool
  | negate {operand : Expr} {node : Node} :
      HasType context operand .int → HasType context (.unary .negate operand node) .int
  | call {callee : Name} {arguments : List Expr} {list node : Node} {entry : Entry}
      {parameters : List Ty} {result : Ty} :
      context.find? callee.text = some entry → entry.ty = .function parameters result →
      HaveTypes context arguments parameters →
      HasType context (.call callee arguments list node) result

inductive HaveTypes (context : Context) : List Expr → List Ty → Prop where
  | nil : HaveTypes context [] []
  | cons {first : Expr} {rest : List Expr} {ty : Ty} {types : List Ty} :
      HasType context first ty → HaveTypes context rest types →
      HaveTypes context (first :: rest) (ty :: types)

end

/-- An item that can be printed. -/
def PrintItem.Fits (context : Context) : PrintItem → Prop
  | .value expr => ∃ ty, HasType context expr ty ∧ ty.isValue = true
  | .space _ | .newline _ => True

mutual

/-- A statement that is well formed among the visible names, and the names visible after it.
`result` is the result type of the function around it, if there is one. -/
inductive Stmt.Fits (result : Option Ty) : Context → Stmt → Context → Prop where
  | declare {context : Context} {isMutable : Bool} {name : Name} {value : Expr} {node : Node} {ty : Ty} :
      HasType context value ty → ty.isValue = true → ¬ context.Declares name.text →
      Stmt.Fits result context (.declare isMutable name value node)
        (context.declare name.text ⟨ty, isMutable⟩)
  | assign {context : Context} {target : Name} {value : Expr} {node : Node} {ty : Ty} :
      context.find? target.text = some ⟨ty, true⟩ → HasType context value ty →
      Stmt.Fits result context (.assign target value node) context
  | branch {context : Context} {condition : Expr} {thenBlock : Block} {node : Node} :
      HasType context condition .bool → Block.Fits result context thenBlock →
      Stmt.Fits result context (.branch condition thenBlock none node) context
  | branchElse {context : Context} {condition : Expr} {thenBlock elseBlock : Block} {node : Node} :
      HasType context condition .bool → Block.Fits result context thenBlock →
      Block.Fits result context elseBlock →
      Stmt.Fits result context (.branch condition thenBlock (some elseBlock) node) context
  | ret {context : Context} {node : Node} :
      result = some .void → Stmt.Fits result context (.ret none node) context
  | retValue {context : Context} {value : Expr} {node : Node} {ty : Ty} :
      HasType context value ty → ty.isValue = true → result = some ty →
      Stmt.Fits result context (.ret (some value) node) context
  | call {context : Context} {call : Call} {node : Node} {ty : Ty} :
      HasType context call.expr ty → Stmt.Fits result context (.call call node) context
  | print {context : Context} {items : List PrintItem} {node : Node} :
      (∀ item ∈ items, item.Fits context) → Stmt.Fits result context (.print items node) context
  | nested {context : Context} {body : Block} :
      Block.Fits result context body → Stmt.Fits result context (.nested body) context

/-- A block declares names of its own, which end with it. -/
inductive Block.Fits (result : Option Ty) : Context → Block → Prop where
  | mk {context after : Context} {statements : List Stmt} {node : Node} :
      Stmt.FitAll result ([] :: context) statements after →
      Block.Fits result context (.mk statements node)

inductive Stmt.FitAll (result : Option Ty) : Context → List Stmt → Context → Prop where
  | nil {context : Context} : Stmt.FitAll result context [] context
  | cons {context between after : Context} {first : Stmt} {rest : List Stmt} :
      Stmt.Fits result context first between → Stmt.FitAll result between rest after →
      Stmt.FitAll result context (first :: rest) after

end

mutual

/-- Some path through the statement comes out at its end, if every condition may go either way. -/
inductive Stmt.Completes : Stmt → Prop where
  | declare {isMutable : Bool} {name : Name} {value : Expr} {node : Node} :
      Stmt.Completes (.declare isMutable name value node)
  | assign {target : Name} {value : Expr} {node : Node} : Stmt.Completes (.assign target value node)
  | thenPath {condition : Expr} {thenBlock : Block} {elseBlock : Option Block} {node : Node} :
      Block.Completes thenBlock → Stmt.Completes (.branch condition thenBlock elseBlock node)
  | elsePath {condition : Expr} {thenBlock elseBlock : Block} {node : Node} :
      Block.Completes elseBlock →
      Stmt.Completes (.branch condition thenBlock (some elseBlock) node)
  | skipped {condition : Expr} {thenBlock : Block} {node : Node} :
      Stmt.Completes (.branch condition thenBlock none node)
  | call {call : Call} {node : Node} : Stmt.Completes (.call call node)
  | print {items : List PrintItem} {node : Node} : Stmt.Completes (.print items node)
  | nested {body : Block} : Block.Completes body → Stmt.Completes (.nested body)
  | invalid {node : Node} : Stmt.Completes (.invalid node)

inductive Block.Completes : Block → Prop where
  | mk {statements : List Stmt} {node : Node} :
      Stmt.CompleteAll statements → Block.Completes (.mk statements node)

inductive Stmt.CompleteAll : List Stmt → Prop where
  | nil : Stmt.CompleteAll []
  | cons {first : Stmt} {rest : List Stmt} :
      Stmt.Completes first → Stmt.CompleteAll rest → Stmt.CompleteAll (first :: rest)

end

/-- The names that the definitions of functions declare, the latest first. -/
def Function.entries (functions : List Function) : List (String × Entry) :=
  (functions.map fun function => (function.name.text, ⟨function.signature.ty, false⟩)).reverse

/-- The names of parameters, the latest first. -/
def Parameter.entries (parameters : List Parameter) : List (String × Entry) :=
  (parameters.map fun parameter => (parameter.name.text, ⟨parameter.type.ty, false⟩)).reverse

/-- A function among the functions of its program. Its body sees its parameters and all
functions, and nothing else. -/
structure Function.WellFormed (functions : List Function) (function : Function) : Prop where
  parameters : (function.parameters.map fun parameter => parameter.name.text).Nodup
  body : ∃ after, Stmt.FitAll (some function.result.ty)
    [[], Parameter.entries function.parameters, Function.entries functions]
    function.body.statements after
  returns : function.result.ty ≠ .void → ¬ function.body.Completes

/-- A program that obeys the static rules. -/
structure Program.WellFormed (program : Program) : Prop where
  names : (program.functions.map fun function => function.name.text).Nodup
  functions : ∀ function ∈ program.functions, function.WellFormed program.functions
  main : program.main.Fits none [Function.entries program.functions]

end Stackwright
