import Stackwright.Ty

/-! What a name refers to and where it is stored. -/

set_option autoImplicit false

namespace Stackwright

/-- What the offset of a location counts from. -/
inductive Base where
  /-- The start of the block of global variables. -/
  | global
  /-- The frame pointer of the running function. -/
  | frame
  /-- No storage at all. -/
  | null
  deriving DecidableEq, Repr

structure Location where
  base : Base
  offset : Int
  deriving DecidableEq, Repr

def Location.null : Location := ⟨.null, 0⟩

structure Binding where
  ty : Ty
  location : Location
  lexeme : String
  isMutable : Bool
  deriving DecidableEq, Repr

namespace Binding

/-- The binding of a name that could not be resolved or declared. -/
def null : Binding := ⟨.error, .null, "the-null-binding", false⟩

def isNull (binding : Binding) : Bool := binding.location.base == .null

end Binding

end Stackwright
