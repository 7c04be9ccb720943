import Stackwright.Lowering.Statement

/-! Functions and the calling convention. The caller has pushed the arguments on the call
stack and the call has left the return address on the operand stack. Around the frame
pointer of a running function, addresses growing upward:

    arguments, the first one lowest     from fp
    frame pointer of the caller         fp - 4
    return address                      fp - 8
    local variables                     down to sp
-/

set_option autoImplicit false

namespace Stackwright.Lowering

/-- The label that every `return` of a function jumps to. -/
def epilogueLabel (name : String) : String := "function-" ++ name ++ "-epilogue"

def linkage : Int32 := Int32.ofNat ScopeTree.linkageSize

/-- Store the code address of a function in the global cell of its name. -/
def storeAddress (analysis : Analysis) (function : Function) : Code :=
  (analysis.bindingOf function.name.node.id).addressCode ++
  [.withLabel .pushAddress function.name.text, .plain .storeInt]

/-- Push the value of a pointer cell less a constant. -/
def below (pointer : String) (distance : Int32) : Code :=
  Code.loadFrom pointer ++ [.withInt .pushInt distance, .plain .subtract]

/-- Save the frame pointer and the return address, and make room for the local variables. -/
def prologue (name : String) (frameSize : Nat) : Code :=
  [(Instruction.withLabel .label name).annotate ("%% function " ++ name)] ++
  below Reserved.stackPointer 4 ++ Code.loadFrom Reserved.framePointer ++ [.plain .storeInt] ++
  below Reserved.stackPointer linkage ++ [.plain .exchange, .plain .storeInt] ++
  Code.loadFrom Reserved.stackPointer ++ Code.storeTo Reserved.framePointer ++
  below Reserved.stackPointer linkage ++
  [.withInt .pushInt (Int32.ofNat frameSize), .plain .subtract] ++
  Code.storeTo Reserved.stackPointer

/-- Move the result from below the return address to the call stack. -/
def handOver (result : Ty) : Code :=
  if result.isValue then
    [.plain .exchange] ++
    below Reserved.stackPointer (size result) ++ Code.storeTo Reserved.stackPointer ++
    Code.loadFrom Reserved.stackPointer ++ [.plain .exchange, .plain result.storeOpcode]
  else []

/-- Give up the frame, hand over the result and go back to the caller. -/
def epilogue (name : String) (result : Ty) : Code :=
  [.withLabel .label (epilogueLabel name)] ++
  below Reserved.framePointer linkage ++ [.plain .loadInt] ++
  Code.loadFrom Reserved.framePointer ++ Code.storeTo Reserved.stackPointer ++
  below Reserved.framePointer 4 ++ [.plain .loadInt] ++ Code.storeTo Reserved.framePointer ++
  handOver result ++
  [.plain .ret]

def function (analysis : Analysis) (function : Function) : Emit Code := do
  let name := function.name.text
  let body ← block analysis (some (epilogueLabel name)) function.body
  return prologue name (analysis.sizeOf function.body.id) ++ body ++ epilogue name function.result.ty

/-- The code of functions, one after the other. -/
def functions (analysis : Analysis) : List Function → Emit Code
  | [] => return []
  | first :: rest => do
    let code ← function analysis first
    return code ++ (← functions analysis rest)

end Stackwright.Lowering
