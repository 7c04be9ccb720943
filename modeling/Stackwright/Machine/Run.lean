import Stackwright.Machine.Step

/-! Whole runs. A machine runs one program after another; memory, operand stack and step count
are reset each time, while the output goes on until it is taken. -/

set_option autoImplicit false

namespace Stackwright

namespace Machine

/-- How a run ended, with no fault if it reached its end. -/
structure Ending where
  fault : Option Fault
  state : State

/-- Run until the program halts, a fault arises, or `remaining` more instructions were
executed. An instruction over the limit is counted but not executed. -/
def execute (code : Array Op) (limit : Nat) : (remaining : Nat) → State → Ending
  | 0, state =>
    match code[state.pc]? with
    | none => ⟨some .ranOffEnd, state⟩
    | some _ => ⟨some (.stepLimitExceeded limit), { state with steps := state.steps + 1 }⟩
  | remaining + 1, state =>
    match code[state.pc]? with
    | none => ⟨some .ranOffEnd, state⟩
    | some op =>
      match op.execute code.size { state with steps := state.steps + 1 } with
      | .running state => execute code limit remaining state
      | .halted state => ⟨none, state⟩
      | .faulted fault state => ⟨some fault, state⟩

/-- The state in which a loaded program begins. -/
def Image.start (image : Image) (output : String) : State := ⟨0, [], image.memory, output, 0⟩

structure Config where
  /-- The size of memory in bytes. -/
  memorySize : Nat := 0x100000
  /-- How many instructions a run may execute. -/
  stepLimit : Nat := 10000000
  deriving DecidableEq, Repr

end Machine

/-- A machine between runs. -/
structure Machine where
  config : Machine.Config
  /-- Memory as the last run left it. -/
  memory : Machine.Memory
  /-- The operand stack after the last run, top first. -/
  stack : List Int32
  /-- Everything printed since the output was last taken. -/
  output : String
  /-- How many instructions the last run executed. -/
  steps : Nat

namespace Machine

def starting (config : Config) : Machine := ⟨config, .zeroed config.memorySize, [], "", 0⟩

/-- Forget what the last run left behind, except for the output. -/
def reset (machine : Machine) : Machine :=
  { machine with memory := .zeroed machine.config.memorySize, stack := [], steps := 0 }

/-- The machine after a run that ended in the given state. -/
def finish (machine : Machine) (state : State) : Machine :=
  { machine with memory := state.memory, stack := state.stack, output := state.output, steps := state.steps }

/-- Load a program and run it. -/
def run (machine : Machine) (code : Code) : Option Fault × Machine :=
  let machine := machine.reset
  match Image.loadInto machine.memory code with
  | .error fault => (some fault, { machine with memory := Image.memoryAfter machine.memory code })
  | .ok image =>
    let limit := machine.config.stepLimit
    let ending := execute image.code limit limit (image.start machine.output)
    (ending.fault, machine.finish ending.state)

def takeOutput (machine : Machine) : String × Machine :=
  (machine.output, { machine with output := "" })

end Machine

end Stackwright
