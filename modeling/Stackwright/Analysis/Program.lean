import Stackwright.Analysis.Statement
import Stackwright.ReturnPaths

/-! Whole programs. All function names are declared before any body is checked, so functions
may call each other in any order. -/

set_option autoImplicit false

namespace Stackwright

namespace Checker

/-- The types that a function definition writes down, and its name. -/
def declareFunction (program : Nat) (function : Function) : Checker Unit := do
  setType function.result.node.id function.result.ty
  function.parameters.forM fun parameter => setType parameter.type.node.id parameter.type.ty
  setType function.node.id function.signature.ty
  declare program function.name function.signature.ty false

def declareParameter (scope : Nat) (parameter : Parameter) : Checker Unit := do
  setType parameter.node.id parameter.type.ty
  declare scope parameter.name parameter.type.ty false

/-- A function that gives a result must do so on every path. -/
def checkPaths (function : Function) : Checker Unit := do
  let result := function.result.ty
  if result ≠ .void && !function.body.alwaysReturns then
    report (.missingReturn function.name.text result.text) function.name.node.span

def checkFunction (program : Nat) (function : Function) : Checker Unit := do
  let scope ← openScope fun tree => tree.openParameters program
  setScope function.node.id scope
  setScope function.list.id scope
  function.parameters.forM (declareParameter scope)
  checkBody scope function.result.ty function.body
  leaveScope scope
  checkPaths function

def checkProgram (program : Program) : Checker Unit := do
  let scope ← openScope ScopeTree.openProgram
  setScope program.node.id scope
  program.functions.forM (declareFunction scope)
  program.functions.forM (checkFunction scope)
  checkNested ⟨scope, none⟩ program.main
  leaveScope scope

end Checker

/-- Everything that can be known about a program. -/
def Program.analyze (program : Program) : Analysis :=
  (Checker.checkProgram program Analysis.empty).2

end Stackwright
