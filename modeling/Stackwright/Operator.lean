import Stackwright.Token.Kind
import Stackwright.Ty

/-! The operators of the language: their marks, how tightly they bind, and the operand types
they accept. -/

set_option autoImplicit false

namespace Stackwright

/-- Binary operators, loosest first. -/
inductive BinaryOperator where
  | greater | add | subtract | multiply
  deriving DecidableEq, Repr

namespace BinaryOperator

def ofKind? : Kind → Option BinaryOperator
  | .mark .greater => some .greater
  | .mark .plus => some .add
  | .mark .minus => some .subtract
  | .mark .star => some .multiply
  | _ => none

/-- How tightly the operator holds the operand on its left. -/
def leftPower : BinaryOperator → Nat
  | .greater => 1
  | .add | .subtract => 3
  | .multiply => 5

/-- One more than on the left, so that equal operators group from the left. -/
def rightPower (operator : BinaryOperator) : Nat := operator.leftPower + 1

def text : BinaryOperator → String
  | .greater => ">"
  | .add => "+"
  | .subtract => "-"
  | .multiply => "*"

def signatures : BinaryOperator → List Signature
  | .greater => [⟨[.int, .int], .bool⟩]
  | .add | .subtract | .multiply => [⟨[.int, .int], .int⟩]

end BinaryOperator

inductive UnaryOperator where
  | negate
  deriving DecidableEq, Repr

namespace UnaryOperator

/-- The operator a token stands for in front of an operand, for callers; the parser asks for the
minus sign itself. -/
def ofKind? : Kind → Option UnaryOperator
  | .mark .minus => some .negate
  | _ => none

/-- Unary operators hold their operand more tightly than any binary one. -/
def power (_ : UnaryOperator) : Nat := 7

def text : UnaryOperator → String
  | .negate => "-"

def signatures : UnaryOperator → List Signature
  | .negate => [⟨[.int], .int⟩]

end UnaryOperator

/-- The result type of the first signature that accepts the operands. -/
def Signature.resolve? (signatures : List Signature) (operands : List Ty) : Option Ty :=
  (signatures.find? fun signature => signature.accepts operands).map Signature.result

def BinaryOperator.resolve? (operator : BinaryOperator) (left right : Ty) : Option Ty :=
  Signature.resolve? operator.signatures [left, right]

def UnaryOperator.resolve? (operator : UnaryOperator) (operand : Ty) : Option Ty :=
  Signature.resolve? operator.signatures [operand]

end Stackwright
