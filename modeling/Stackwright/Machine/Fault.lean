/-! Why the machine stops before its program ends. -/

set_option autoImplicit false

namespace Stackwright.Machine

/-- Faults of a running program name the instruction they arose at. -/
inductive Fault where
  | stackUnderflow (pc : Nat)
  | badAddress (address : Int) (pc : Nat)
  | unknownLabel (label : String)
  | duplicateLabel (label : String)
  | badJumpTarget (target : Int32) (pc : Nat)
  | badFormat (format : String)
  | outOfMemory (required available : Nat)
  | stepLimitExceeded (limit : Nat)
  | ranOffEnd
  deriving DecidableEq, Repr

def Fault.message : Fault → String
  | .stackUnderflow pc => "operand stack underflow at instruction " ++ toString pc
  | .badAddress address pc =>
    "memory access out of bounds at address " ++ toString address ++ " (instruction " ++ toString pc ++ ")"
  | .unknownLabel label => "unknown label '" ++ label ++ "'"
  | .duplicateLabel label => "label '" ++ label ++ "' is defined more than once"
  | .badJumpTarget target pc =>
    "jump to invalid code address " ++ toString target.toInt ++ " (instruction " ++ toString pc ++ ")"
  | .badFormat format => "unsupported printf format '" ++ format ++ "'"
  | .outOfMemory required available =>
    "data segment of " ++ toString required ++ " bytes exceeds memory of " ++ toString available ++ " bytes"
  | .stepLimitExceeded limit => "execution did not halt within " ++ toString limit ++ " steps"
  | .ranOffEnd => "execution ran past the last instruction"

end Stackwright.Machine
