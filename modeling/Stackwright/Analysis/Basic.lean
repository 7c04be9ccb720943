import Std.Data.TreeMap
import Stackwright.Diagnostic
import Stackwright.Scope.Tree
import Stackwright.Tree.Basic

/-! What is known about a program: its scopes, and for each node its type, binding and scope
where it has one. The tree itself never changes; the tables are keyed by node number. -/

set_option autoImplicit false

namespace Stackwright

structure Analysis where
  scopes : ScopeTree
  types : Std.TreeMap Nat Ty
  bindings : Std.TreeMap Nat Binding
  nodeScopes : Std.TreeMap Nat Nat
  /-- Everything that is wrong, in the order it was found. -/
  diagnostics : List Diagnostic

namespace Analysis

def empty : Analysis := ⟨.empty, ∅, ∅, ∅, []⟩

instance : Inhabited Analysis := ⟨empty⟩

/-- The nodes of type `error`, in increasing order, for callers that inspect an analysis. -/
def errorNodes (analysis : Analysis) : List Nat :=
  (analysis.types.toList.filter fun entry => entry.2.isError).map Prod.fst

end Analysis

/-- A step of checking; it extends what is known. -/
abbrev Checker := StateM Analysis

namespace Checker

def setType (node : Nat) (ty : Ty) : Checker Unit :=
  modify fun analysis => { analysis with types := analysis.types.insert node ty }

def setBinding (node : Nat) (binding : Binding) : Checker Unit :=
  modify fun analysis => { analysis with bindings := analysis.bindings.insert node binding }

def setScope (node : Nat) (scope : Nat) : Checker Unit :=
  modify fun analysis => { analysis with nodeScopes := analysis.nodeScopes.insert node scope }

def report (cause : Diagnostic.Cause) (span : Span) : Checker Unit :=
  modify fun analysis => { analysis with diagnostics := analysis.diagnostics ++ [⟨cause, span⟩] }

/-- Open a scope in the scope tree. -/
def openScope (opener : ScopeTree → Nat × ScopeTree) : Checker Nat :=
  modifyGet fun analysis =>
    let (scope, scopes) := opener analysis.scopes
    (scope, { analysis with scopes := scopes })

def leaveScope (scope : Nat) : Checker Unit :=
  modify fun analysis => { analysis with scopes := analysis.scopes.leave scope }

/-- Declare a name in a scope. A second declaration there is reported and gets the null
binding; the first one stays. -/
def declare (scope : Nat) (name : Name) (ty : Ty) (isMutable : Bool) : Checker Unit := do
  setType name.node.id ty
  match (← get).scopes.bind? scope name.text ty isMutable with
  | some (binding, scopes) =>
    modify fun analysis => { analysis with scopes := scopes }
    setBinding name.node.id binding
  | none =>
    report (.redefinition name.text) name.node.span
    setBinding name.node.id .null

/-- Note what a used name refers to. -/
def record (name : Name) (binding : Binding) : Checker Binding := do
  setType name.node.id binding.ty
  setBinding name.node.id binding
  return binding

/-- Find the declaration of a name that is used; without one it gets the null binding. -/
def resolve (scope : Nat) (name : Name) : Checker Binding := do
  match (← get).scopes.lookup scope name.text with
  | some binding => record name binding
  | none =>
    report (.useBeforeDefine name.text) name.node.span
    record name .null

end Checker

end Stackwright
