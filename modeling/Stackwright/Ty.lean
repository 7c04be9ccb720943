/-! Static types: two value types, the result type of a function without a result, function
types, and `error`, the type of whatever failed to check. -/

set_option autoImplicit false

namespace Stackwright

inductive Ty where
  | int
  | bool
  | void
  | error
  | function (parameters : List Ty) (result : Ty)
  deriving Inhabited, Repr

namespace Ty

mutual

/-- Structural equality. -/
def same : Ty → Ty → Bool
  | .int, .int | .bool, .bool | .void, .void | .error, .error => true
  | .function parameters result, .function parameters' result' =>
    sameAll parameters parameters' && same result result'
  | _, _ => false

def sameAll : List Ty → List Ty → Bool
  | [], [] => true
  | ty :: rest, ty' :: rest' => same ty ty' && sameAll rest rest'
  | _, _ => false

end

mutual

theorem same_iff : ∀ left right : Ty, same left right = true ↔ left = right
  | .int, right => by cases right <;> simp [same]
  | .bool, right => by cases right <;> simp [same]
  | .void, right => by cases right <;> simp [same]
  | .error, right => by cases right <;> simp [same]
  | .function parameters result, right => by
    cases right with
    | function parameters' result' =>
      simp [same, sameAll_iff parameters parameters', same_iff result result']
    | _ => simp [same]

theorem sameAll_iff : ∀ left right : List Ty, sameAll left right = true ↔ left = right
  | [], right => by cases right <;> simp [sameAll]
  | ty :: rest, right => by
    cases right with
    | nil => simp [sameAll]
    | cons ty' rest' => simp [sameAll, same_iff ty ty', sameAll_iff rest rest']

end

instance : DecidableEq Ty := fun left right =>
  decidable_of_iff (same left right = true) (same_iff left right)

/-- The bytes that a variable of the type occupies; a function name is a code address. -/
def size : Ty → Nat
  | .int => 4
  | .bool => 1
  | .void | .error => 0
  | .function _ _ => 4

/-- The bytes that variables of the types occupy together. -/
def totalSize : List Ty → Nat
  | [] => 0
  | ty :: rest => ty.size + totalSize rest

/-- Whether a value of the type can be stored, printed or passed. -/
def isValue : Ty → Bool
  | .int | .bool => true
  | _ => false

def isError : Ty → Bool
  | .error => true
  | _ => false

mutual

def text : Ty → String
  | .int => "int"
  | .bool => "bool"
  | .void => "void"
  | .error => "<error>"
  | .function parameters result => "(" ++ listText parameters ++ ") -> " ++ text result

/-- The types in order, divided by commas. -/
def listText : List Ty → String
  | [] => ""
  | [ty] => text ty
  | ty :: next :: rest => text ty ++ ", " ++ listText (next :: rest)

end

end Ty

/-- The types of a function's parameters and of its result. -/
structure Signature where
  parameters : List Ty
  result : Ty
  deriving DecidableEq, Repr

def Ty.signature? : Ty → Option Signature
  | .function parameters result => some ⟨parameters, result⟩
  | _ => none

namespace Signature

def ty (signature : Signature) : Ty := .function signature.parameters signature.result

def text (signature : Signature) : String := signature.ty.text

/-- The number of arguments, for callers that show signatures. -/
def arity (signature : Signature) : Nat := signature.parameters.length

def accepts (signature : Signature) (arguments : List Ty) : Bool :=
  signature.parameters == arguments

/-- The bytes that the arguments of a call occupy. -/
def argumentSize (signature : Signature) : Nat := Ty.totalSize signature.parameters

end Signature

end Stackwright
