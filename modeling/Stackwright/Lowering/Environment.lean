import Stackwright.Assembly.Fragment
import Stackwright.Scope.Binding

/-! The data that every program relies on, the reserved labels for it, and the code that
computes addresses from them. -/

set_option autoImplicit false

namespace Stackwright

namespace Reserved

def mainLabel : String := "$$main"
def globalBlock : String := "$global-memory-block"
def stackPointer : String := "$stack-pointer"
def framePointer : String := "$frame-pointer"
def integerFormat : String := "$print-format-integer"
def booleanFormat : String := "$print-format-boolean"
def newlineFormat : String := "$print-format-newline"
def spaceFormat : String := "$print-format-space"
def trueString : String := "$boolean-true-string"
def falseString : String := "$boolean-false-string"

end Reserved

namespace Environment

def stringConstant (label text : String) : Code :=
  [.withLabel .dataLabel label, .withString .dataString text]

def cell (label : String) : Code :=
  [.withLabel .dataLabel label, .withInt .dataZero 4]

/-- The formats, texts and pointer cells that come first in a program. -/
def data : Code :=
  [.withLabel .jump Reserved.mainLabel] ++
  stringConstant Reserved.integerFormat "%d" ++
  stringConstant Reserved.booleanFormat "%s" ++
  stringConstant Reserved.newlineFormat "\n" ++
  stringConstant Reserved.spaceFormat " " ++
  stringConstant Reserved.trueString "true" ++
  stringConstant Reserved.falseString "false" ++
  cell Reserved.stackPointer ++
  cell Reserved.framePointer

/-- Both pointers start at the top of memory. -/
def stackStart : Code :=
  [.plain .memoryTop, .plain .duplicate] ++
  Code.storeTo Reserved.stackPointer ++
  Code.storeTo Reserved.framePointer

end Environment

/-- Push the address of a location; the comment goes to the first instruction. -/
def Location.addressCode (location : Location) (comment : String) : Code :=
  let offset := Int32.ofInt location.offset
  match location.base with
  | .global =>
    [(Instruction.withLabel .pushAddress Reserved.globalBlock).annotate comment,
      .withInt .pushInt offset, .plain .add]
  | .frame =>
    [(Instruction.withLabel .pushAddress Reserved.framePointer).annotate comment,
      .plain .loadInt, .withInt .pushInt offset, .plain .add]
  | .null => [(Instruction.withInt .pushInt 0).annotate comment]

/-- Push the address of a variable. -/
def Binding.addressCode (binding : Binding) : Code :=
  binding.location.addressCode ("%% " ++ binding.lexeme)

end Stackwright
