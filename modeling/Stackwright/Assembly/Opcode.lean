/-! The operations of the stack machine. Arithmetic takes its operands from the operand stack
and leaves its result there; memory is addressed by bytes. -/

set_option autoImplicit false

namespace Stackwright

inductive Opcode where
  /-- Mark a place in the code. -/
  | label
  /-- Mark a place in the data. -/
  | dataLabel
  /-- Reserve zero bytes of data. -/
  | dataZero
  /-- Place a text and a zero byte into the data. -/
  | dataString
  | pushInt
  /-- Push the address of a label. -/
  | pushAddress
  | pop
  | duplicate
  | exchange
  | add
  | subtract
  | multiply
  | negate
  | loadInt
  | loadByte
  | storeInt
  | storeByte
  /-- Push the first address past the end of memory. -/
  | memoryTop
  | jump
  | jumpFalse
  | jumpTrue
  | jumpPositive
  /-- Take a code address, push the address after this instruction, and go there. -/
  | call
  /-- Take a code address and go there. -/
  | ret
  | halt
  /-- Take the address of a format and one value for each of its conversions. -/
  | print
  deriving DecidableEq, Repr

namespace Opcode

def mnemonic : Opcode → String
  | .label => "Label"
  | .dataLabel => "DLabel"
  | .dataZero => "DataZ"
  | .dataString => "DataS"
  | .pushInt => "PushI"
  | .pushAddress => "PushD"
  | .pop => "Pop"
  | .duplicate => "Duplicate"
  | .exchange => "Exchange"
  | .add => "Add"
  | .subtract => "Subtract"
  | .multiply => "Multiply"
  | .negate => "Negate"
  | .loadInt => "LoadI"
  | .loadByte => "LoadC"
  | .storeInt => "StoreI"
  | .storeByte => "StoreC"
  | .memoryTop => "Memtop"
  | .jump => "Jump"
  | .jumpFalse => "JumpFalse"
  | .jumpTrue => "JumpTrue"
  | .jumpPositive => "JumpPos"
  | .call => "CallV"
  | .ret => "Return"
  | .halt => "Halt"
  | .print => "Printf"

def all : List Opcode :=
  [.label, .dataLabel, .dataZero, .dataString, .pushInt, .pushAddress, .pop, .duplicate, .exchange,
    .add, .subtract, .multiply, .negate, .loadInt, .loadByte, .storeInt, .storeByte, .memoryTop,
    .jump, .jumpFalse, .jumpTrue, .jumpPositive, .call, .ret, .halt, .print]

def ofMnemonic? (text : String) : Option Opcode :=
  all.find? fun opcode => opcode.mnemonic == text

/-- Directives lay out memory or name places; they do nothing when they are executed. -/
def isDirective : Opcode → Bool
  | .label | .dataLabel | .dataZero | .dataString => true
  | _ => false

def isJump : Opcode → Bool
  | .jump | .jumpFalse | .jumpTrue | .jumpPositive => true
  | _ => false

def takesLabel : Opcode → Bool
  | .label | .dataLabel | .pushAddress => true
  | opcode => opcode.isJump

end Opcode

end Stackwright
