import Stackwright.Operator
import Stackwright.Span

/-! Program trees. Every node has a number of its own and the region of source text it was
read from; what later stages find out about a node is kept in tables under its number.
Parentheses only group and leave no node behind. Node numbers are natural numbers: sources with 2^32
nodes, for which a 32-bit counter would not be enough, are not treated apart. -/

set_option autoImplicit false

namespace Stackwright

structure Node where
  id : Nat
  span : Span
  deriving DecidableEq, Repr, Inhabited

/-- A name where it is declared or used. -/
structure Name where
  text : String
  node : Node
  deriving DecidableEq, Repr, Inhabited

inductive Literal where
  | int (value : Nat)
  | bool (value : Bool)
  | char (value : Char)
  /-- The bits of a double-precision number. -/
  | float (bits : UInt64)
  /-- The text between the quotes. -/
  | string (text : String)
  deriving DecidableEq, Repr

/-- The words for the literal when it is refused. -/
def Literal.description : Literal → String
  | .int _ => "integer literal"
  | .bool _ => "boolean literal"
  | .char _ => "character literal"
  | .float _ => "float literal"
  | .string _ => "string literal"

inductive Expr where
  | literal (value : Literal) (node : Node)
  | named (name : Name)
  | binary (operator : BinaryOperator) (left right : Expr) (node : Node)
  | unary (operator : UnaryOperator) (operand : Expr) (node : Node)
  | call (callee : Name) (arguments : List Expr) (list node : Node)
  | invalid (node : Node)
  deriving Repr, Inhabited

namespace Expr

def node : Expr → Node
  | .literal _ node => node
  | .named name => name.node
  | .binary _ _ _ node => node
  | .unary _ _ node => node
  | .call _ _ _ node => node
  | .invalid node => node

def span (expr : Expr) : Span := expr.node.span

def id (expr : Expr) : Nat := expr.node.id

end Expr

/-- A call; `list` is the node of the argument list. -/
structure Call where
  callee : Name
  arguments : List Expr
  list : Node
  node : Node
  deriving Repr, Inhabited

def Call.expr (call : Call) : Expr := .call call.callee call.arguments call.list call.node

/-- One item of a print statement. -/
inductive PrintItem where
  | value (expr : Expr)
  | space (span : Span)
  | newline (span : Span)
  deriving Repr

mutual

inductive Stmt where
  | declare (isMutable : Bool) (name : Name) (value : Expr) (node : Node)
  | assign (target : Name) (value : Expr) (node : Node)
  | branch (condition : Expr) (thenBlock : Block) (elseBlock : Option Block) (node : Node)
  | ret (value : Option Expr) (node : Node)
  | call (call : Call) (node : Node)
  | print (items : List PrintItem) (node : Node)
  | nested (body : Block)
  /-- Stands for a statement that could not be read. -/
  | invalid (node : Node)
  deriving Repr

inductive Block where
  | mk (statements : List Stmt) (node : Node)
  deriving Repr

end

namespace Block

def statements : Block → List Stmt
  | .mk statements _ => statements

def node : Block → Node
  | .mk _ node => node

def span (block : Block) : Span := block.node.span

def id (block : Block) : Nat := block.node.id

end Block

namespace Stmt

def node : Stmt → Node
  | .declare _ _ _ node => node
  | .assign _ _ node => node
  | .branch _ _ _ node => node
  | .ret _ node => node
  | .call _ node => node
  | .print _ node => node
  | .nested body => body.node
  | .invalid node => node

end Stmt

/-- The types that a program can write down. -/
inductive Primitive where
  | int | bool | void
  deriving DecidableEq, Repr

def Primitive.ty : Primitive → Ty
  | .int => .int
  | .bool => .bool
  | .void => .void

structure TypeMark where
  primitive : Primitive
  node : Node
  deriving DecidableEq, Repr

def TypeMark.ty (mark : TypeMark) : Ty := mark.primitive.ty

structure Parameter where
  type : TypeMark
  name : Name
  node : Node
  deriving DecidableEq, Repr

/-- A function definition; `list` is the node of the parameter list. -/
structure Function where
  result : TypeMark
  name : Name
  parameters : List Parameter
  list : Node
  body : Block
  node : Node
  deriving Repr

namespace Function

def signature (function : Function) : Signature :=
  ⟨function.parameters.map fun parameter => parameter.type.ty, function.result.ty⟩

end Function

/-- A whole program; the numbers of its nodes are below `nodeCount`. -/
structure Program where
  functions : List Function
  main : Block
  node : Node
  nodeCount : Nat
  deriving Repr

/-- The first function with the given name, for callers that look into a tree. -/
def Program.function? (program : Program) (name : String) : Option Function :=
  program.functions.find? fun function => function.name.text == name

end Stackwright
