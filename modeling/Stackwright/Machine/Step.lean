import Stackwright.Machine.Format
import Stackwright.Machine.Image

/-! One instruction. A fault leaves the values it took off the operand stack taken, so an
underflow leaves the stack empty. -/

set_option autoImplicit false

namespace Stackwright.Machine

structure State where
  pc : Nat
  /-- The operand stack, top first. -/
  stack : List Int32
  memory : Memory
  output : String
  /-- How many instructions were begun. -/
  steps : Nat

inductive Outcome where
  | running (state : State)
  | halted (state : State)
  | faulted (fault : Fault) (state : State)

namespace State

/-- Go on with the next instruction. -/
def next (state : State) (stack : List Int32) : Outcome :=
  .running { state with pc := state.pc + 1, stack := stack }

def goto (state : State) (target : Nat) (stack : List Int32) : Outcome :=
  .running { state with pc := target, stack := stack }

def fail (state : State) (fault : Fault) (stack : List Int32) : Outcome :=
  .faulted fault { state with stack := stack }

def underflow (state : State) : Outcome := state.fail (.stackUnderflow state.pc) []

def binary (state : State) (operation : Int32 → Int32 → Int32) : Outcome :=
  match state.stack with
  | right :: left :: rest => state.next (operation left right :: rest)
  | _ => state.underflow

/-- Take a value and jump if it passes the test. -/
def jumpIf (state : State) (test : Int32 → Bool) (target : Nat) : Outcome :=
  match state.stack with
  | value :: rest => if test value then state.goto target rest else state.next rest
  | [] => state.underflow

/-- Take an address and replace it by what is read there. -/
def load (state : State) (read : Memory → Int32 → Except Int Int32) : Outcome :=
  match state.stack with
  | address :: rest =>
    match read state.memory address with
    | .ok value => state.next (value :: rest)
    | .error failed => state.fail (.badAddress failed state.pc) rest
  | [] => state.underflow

/-- Take a value and an address below it, and change the `length` bytes there. -/
def store (state : State) (length : Nat) (change : Memory → Nat → Int32 → Memory) : Outcome :=
  match state.stack with
  | value :: address :: rest =>
    match state.memory.locate address length with
    | .ok index =>
      .running { state with
        pc := state.pc + 1
        stack := rest
        memory := change state.memory index value }
    | .error failed => state.fail (.badAddress failed state.pc) rest
  | _ => state.underflow

/-- Go to a code address that was taken off the stack. -/
def enter (state : State) (codeSize : Nat) (target : Int32) (stack rest : List Int32) : Outcome :=
  if 0 ≤ target.toInt ∧ target.toInt < codeSize then state.goto target.toInt.toNat stack
  else state.fail (.badJumpTarget target state.pc) rest

def print (state : State) : Outcome :=
  match state.stack with
  | [] => state.underflow
  | address :: rest =>
    match state.memory.readText address with
    | .error failed => state.fail (.badAddress failed state.pc) rest
    | .ok format =>
      let chars := format.toList
      let count := Format.conversions chars
      if rest.length < count then state.underflow
      else
        let values := (rest.take count).reverse
        let (output, fault) := Format.write state.memory state.pc format chars values state.output
        let state := { state with output := output }
        match fault with
        | none => state.next (rest.drop count)
        | some fault => state.fail fault (rest.drop count)

end State

/-- Execute one instruction of a program of the given size. -/
def Op.execute (op : Op) (codeSize : Nat) (state : State) : Outcome :=
  match op with
  | .skip => state.next state.stack
  | .push value => state.next (value :: state.stack)
  | .pop =>
    match state.stack with
    | _ :: rest => state.next rest
    | [] => state.underflow
  | .duplicate =>
    match state.stack with
    | top :: rest => state.next (top :: top :: rest)
    | [] => state.underflow
  | .exchange =>
    match state.stack with
    | top :: below :: rest => state.next (below :: top :: rest)
    | _ => state.underflow
  | .add => state.binary fun left right => left + right
  | .subtract => state.binary fun left right => left - right
  | .multiply => state.binary fun left right => left * right
  | .negate =>
    match state.stack with
    | value :: rest => state.next (-value :: rest)
    | [] => state.underflow
  | .loadInt => state.load Memory.readInt
  | .loadByte =>
    state.load fun memory address => (memory.readByte address).map fun byte => Int32.ofNat byte.toNat
  | .storeInt => state.store 4 Memory.setInt
  | .storeByte =>
    state.store 1 fun memory index value => memory.setByte index (UInt8.ofNat value.toUInt32.toNat)
  | .memoryTop => state.next (Int32.ofNat state.memory.size :: state.stack)
  | .jump target => state.goto target state.stack
  | .jumpFalse target => state.jumpIf (fun value => value == 0) target
  | .jumpTrue target => state.jumpIf (fun value => value != 0) target
  | .jumpPositive target => state.jumpIf (fun value => decide (0 < value)) target
  | .call =>
    match state.stack with
    | target :: rest => state.enter codeSize target (Int32.ofNat (state.pc + 1) :: rest) rest
    | [] => state.underflow
  | .ret =>
    match state.stack with
    | target :: rest => state.enter codeSize target rest rest
    | [] => state.underflow
  | .halt => .halted state
  | .print => state.print

end Stackwright.Machine
