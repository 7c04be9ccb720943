import Stackwright.Assembly.Instruction
import Stackwright.Ty

/-! Pieces of code, each with what it leaves on the operand stack. -/

set_option autoImplicit false

namespace Stackwright

/-- What a fragment leaves on the operand stack. -/
inductive Fragment.Kind where
  | value
  /-- The address of a value. -/
  | address
  /-- Nothing. -/
  | void
  deriving DecidableEq, Repr

structure Fragment where
  kind : Fragment.Kind
  code : Code
  deriving DecidableEq, Repr

/-- The load for a value of the type; a value of type `bool` is one byte. -/
def Ty.loadOpcode : Ty → Opcode
  | .bool => .loadByte
  | _ => .loadInt

/-- The store for a value of the type. -/
def Ty.storeOpcode : Ty → Opcode
  | .bool => .storeByte
  | _ => .storeInt

namespace Code

/-- Push the value in the four-byte cell at a label. -/
def loadFrom (label : String) : Code :=
  [.withLabel .pushAddress label, .plain .loadInt]

/-- Take a value into the four-byte cell at a label. -/
def storeTo (label : String) : Code :=
  [.withLabel .pushAddress label, .plain .exchange, .plain .storeInt]

end Code

namespace Fragment

def empty (kind : Kind) : Fragment := ⟨kind, []⟩

def isAddress (fragment : Fragment) : Bool := fragment.kind == .address

def isEmpty (fragment : Fragment) : Bool := fragment.code.isEmpty

/-- Code at the end. -/
def append (fragment : Fragment) (code : Code) : Fragment :=
  { fragment with code := fragment.code ++ code }

/-- The code of a fragment followed by a load if it leaves an address. -/
def valueCode (fragment : Fragment) (ty : Ty) : Code :=
  if fragment.isAddress then fragment.code ++ [.plain ty.loadOpcode] else fragment.code

/-- Annotate the last instruction, for callers that put fragments together; lowering annotates each
instruction when it is made. -/
def comment (fragment : Fragment) (comment : String) : Fragment :=
  { fragment with
    code :=
      match fragment.code.getLast? with
      | some last => fragment.code.dropLast ++ [last.annotate comment]
      | none => [] }

def stripComments (fragment : Fragment) : Fragment :=
  { fragment with code := fragment.code.stripComments }

end Fragment

end Stackwright
