import Stackwright.Analysis.Expression

/-! The rules for statements and blocks. -/

set_option autoImplicit false

namespace Stackwright.Checker

/-- Where a statement stands: its scope, and the result type of the function around it. -/
structure Place where
  scope : Nat
  result : Option Ty

def checkDeclaration (place : Place) (isMutable : Bool) (name : Name) (value : Expr) (node : Node) :
    Checker Unit := do
  let ty ← checkValue place.scope ("declaration of '" ++ name.text ++ "'") value
  setType node.id ty
  declare place.scope name ty isMutable

/-- A target of type `error` was reported where it was declared or not found. -/
def checkAssignment (place : Place) (target : Name) (value : Expr) : Checker Unit := do
  let binding ← resolve place.scope target
  let ty ← checkExpr place.scope value
  if binding.ty.isError then return
  else if !binding.isMutable then report (.immutableAssignment target.text) target.node.span
  else if !ty.isError && ty ≠ binding.ty then
    report (.assignmentMismatch target.text binding.ty.text ty.text) value.span

def checkCondition (place : Place) (condition : Expr) : Checker Unit := do
  let ty ← checkExpr place.scope condition
  if ty ≠ .bool && !ty.isError then report (.conditionNotBool ty.text) condition.span

/-- A returned value of the given type, where a statement at `span` may return one. -/
def checkResult (place : Place) (found : Ty) (span : Span) : Checker Unit :=
  match place.result with
  | none => report .returnOutsideFunction span
  | some expected =>
    if !found.isError && found ≠ expected then report (.returnMismatch expected.text found.text) span
    else return

def checkReturn (place : Place) (value : Option Expr) (span : Span) : Checker Unit := do
  match value with
  | none => checkResult place .void span
  | some value =>
    let ty ← checkExpr place.scope value
    if ty.isValue || ty.isError then checkResult place ty span
    else report (.notAValue "return" ty.text) value.span

def checkPrint (place : Place) : List PrintItem → Checker Unit
  | [] => return
  | .value expr :: rest => do
    let _ ← checkValue place.scope "print" expr
    checkPrint place rest
  | _ :: rest => checkPrint place rest

mutual

def checkStmt (place : Place) : Stmt → Checker Unit
  | .declare isMutable name value node => checkDeclaration place isMutable name value node
  | .assign target value _ => checkAssignment place target value
  | .branch condition thenBlock elseBlock _ => do
    checkCondition place condition
    checkNested place thenBlock
    match elseBlock with
    | none => return
    | some elseBlock => checkNested place elseBlock
  | .ret value node => checkReturn place value node.span
  | .call call _ => do
    let _ ← checkExpr place.scope call.expr
  | .print items _ => checkPrint place items
  | .nested body => checkNested place body
  | .invalid _ => return

/-- A block inside another one, in a scope of its own. -/
def checkNested (place : Place) : Block → Checker Unit
  | .mk statements node => do
    let scope ← openScope fun tree => tree.openNested place.scope
    setScope node.id scope
    checkStatements { place with scope := scope } statements
    leaveScope scope

def checkStatements (place : Place) : List Stmt → Checker Unit
  | [] => return
  | statement :: rest => do
    checkStmt place statement
    checkStatements place rest

end

/-- The body of a function, in a scope below that of its parameters. -/
def checkBody (parameters : Nat) (result : Ty) (body : Block) : Checker Unit := do
  let scope ← openScope fun tree => tree.openProcedure parameters
  setScope body.id scope
  checkStatements ⟨scope, some result⟩ body.statements
  leaveScope scope

end Stackwright.Checker
