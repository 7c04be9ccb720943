import Stackwright.Scope.Allocator

/-! Lexical scopes. Scopes are numbered in the order they are opened, each below an earlier
one. The program, the parameters of a function and its body have an allocator of their own;
a nested block shares that of the scope around it and gives its storage back when left. Scopes and
allocators are numbered without a bound. -/

set_option autoImplicit false

namespace Stackwright

inductive Scope.Kind where
  | program
  | parameters
  | procedure
  | nested
  deriving DecidableEq, Repr

structure Scope where
  kind : Scope.Kind
  /-- The scope around this one, where names are looked up next. -/
  parent : Option Nat
  names : List (String × Binding)
  /-- The number of the allocator in use. -/
  allocator : Nat
  deriving DecidableEq, Repr

def Scope.get? (scope : Scope) (name : String) : Option Binding := scope.names.lookup name

structure ScopeTree where
  scopes : Array Scope
  allocators : Array Allocator
  /-- How many scopes were opened, and how many left. -/
  entered : Nat
  left : Nat
  deriving DecidableEq, Repr

namespace ScopeTree

def empty : ScopeTree := ⟨#[], #[], 0, 0⟩

instance : Inhabited ScopeTree := ⟨empty⟩

/-- The bytes between the frame pointer and the first local variable of a function: the frame
pointer of the caller and the return address. -/
def linkageSize : Nat := 8

def addScope (tree : ScopeTree) (kind : Scope.Kind) (parent : Option Nat) (allocator : Nat) :
    Nat × ScopeTree :=
  (tree.scopes.size,
    { tree with
      scopes := tree.scopes.push ⟨kind, parent, [], allocator⟩
      entered := tree.entered + 1 })

/-- Open a scope with an allocator of its own. -/
def addOwner (tree : ScopeTree) (kind : Scope.Kind) (parent : Option Nat) (allocator : Allocator) :
    Nat × ScopeTree :=
  { tree with allocators := tree.allocators.push allocator }.addScope kind parent tree.allocators.size

/-- Global variables lie upward from the start of the global block. -/
def openProgram (tree : ScopeTree) : Nat × ScopeTree :=
  tree.addOwner .program none (.starting .global .upward 0)

/-- Arguments lie upward from the frame pointer. -/
def openParameters (tree : ScopeTree) (program : Nat) : Nat × ScopeTree :=
  tree.addOwner .parameters (some program) (.starting .frame .upward 0)

/-- Local variables lie downward from the linkage below the frame pointer. -/
def openProcedure (tree : ScopeTree) (parameters : Nat) : Nat × ScopeTree :=
  tree.addOwner .procedure (some parameters) (.starting .frame .downward (-linkageSize))

/-- The allocator that a scope uses. -/
def allocatorOf (tree : ScopeTree) (scope : Nat) : Nat :=
  (tree.scopes[scope]?.map Scope.allocator).getD 0

def openNested (tree : ScopeTree) (parent : Nat) : Nat × ScopeTree :=
  let allocator := tree.allocatorOf parent
  { tree with allocators := tree.allocators.modify allocator Allocator.save }.addScope
    .nested (some parent) allocator

/-- Close a scope. -/
def leave (tree : ScopeTree) (scope : Nat) : ScopeTree :=
  let allocators :=
    match tree.scopes[scope]? with
    | some ⟨.nested, _, _, allocator⟩ => tree.allocators.modify allocator Allocator.restore
    | _ => tree.allocators
  { tree with allocators := allocators, left := tree.left + 1 }

/-- The binding of a name in that very scope. -/
def get? (tree : ScopeTree) (scope : Nat) (name : String) : Option Binding :=
  tree.scopes[scope]?.bind fun scope => scope.get? name

/-- Bind a name and give it storage; nothing if the scope binds the name already. -/
def bind? (tree : ScopeTree) (scope : Nat) (name : String) (ty : Ty) (isMutable : Bool) :
    Option (Binding × ScopeTree) :=
  match tree.scopes[scope]? with
  | none => none
  | some entry =>
    match entry.get? name, tree.allocators[entry.allocator]? with
    | none, some allocator =>
      let (location, allocator) := allocator.allocate ty.size
      let binding : Binding := ⟨ty, location, name, isMutable⟩
      some (binding,
        { tree with
          scopes := tree.scopes.setIfInBounds scope { entry with names := (name, binding) :: entry.names }
          allocators := tree.allocators.setIfInBounds entry.allocator allocator })
    | _, _ => none

/-- Walk outward through at most `budget` scopes. -/
def lookupWithin (tree : ScopeTree) (name : String) : (budget : Nat) → (scope : Nat) → Option Binding
  | 0, _ => none
  | budget + 1, number =>
    match tree.scopes[number]? with
    | none => none
    | some scope =>
      match scope.get? name, scope.parent with
      | some binding, _ => some binding
      | none, some parent => tree.lookupWithin name budget parent
      | none, none => none

/-- The nearest binding of a name. A scope has a higher number than the one around it, so
its number bounds the walk. -/
def lookup (tree : ScopeTree) (scope : Nat) (name : String) : Option Binding :=
  tree.lookupWithin name (scope + 1) scope

/-- The most bytes that the allocator of a scope had in use. -/
def allocatedSize (tree : ScopeTree) (scope : Nat) : Nat :=
  (tree.allocators[tree.allocatorOf scope]?.map Allocator.peak).getD 0

end ScopeTree

end Stackwright
