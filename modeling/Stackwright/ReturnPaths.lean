import Stackwright.Tree.Basic

/-! Whether every path through a function body reaches a `return`. -/

set_option autoImplicit false

namespace Stackwright

mutual

def Stmt.alwaysReturns : Stmt → Bool
  | .ret _ _ => true
  | .nested body => body.alwaysReturns
  | .branch _ thenBlock (some elseBlock) _ => thenBlock.alwaysReturns && elseBlock.alwaysReturns
  | .branch _ _ none _ => false
  | .declare _ _ _ _ | .assign _ _ _ | .call _ _ | .print _ _ | .invalid _ => false

def Block.alwaysReturns : Block → Bool
  | .mk statements _ => anyReturns statements

/-- Whether one of the statements always returns. -/
def anyReturns : List Stmt → Bool
  | [] => false
  | statement :: rest => statement.alwaysReturns || anyReturns rest

end

end Stackwright
