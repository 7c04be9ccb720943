import Stackwright.Assembly.Instruction
import Stackwright.Machine.Fault
import Stackwright.Machine.Memory

/-! Loading a program: data directives fill memory from address zero, labels become addresses,
and what is left is code without names. Every label that an instruction refers to is looked up when
the program is loaded, and a label without a place is found then; the labels of a program stay what
they are while it runs, so that looking them up each time an instruction is executed would give the
same. Places and sizes are natural numbers: programs with 2^31 instructions or bytes of data, whose
addresses would not be told apart as 32-bit values, can be loaded as well. -/

set_option autoImplicit false

namespace Stackwright.Machine

/-- What an instruction does, with its label resolved. -/
inductive Op where
  | skip
  | push (value : Int32)
  | pop
  | duplicate
  | exchange
  | add
  | subtract
  | multiply
  | negate
  | loadInt
  | loadByte
  | storeInt
  | storeByte
  | memoryTop
  | jump (target : Nat)
  | jumpFalse (target : Nat)
  | jumpTrue (target : Nat)
  | jumpPositive (target : Nat)
  | call
  | ret
  | halt
  | print
  deriving DecidableEq, Repr

/-- Where labels point, and the data placed so far. -/
structure Layout where
  /-- Code labels, with the index of the instruction they stand at. -/
  codeLabels : List (String × Nat)
  /-- Data labels, with their addresses. -/
  dataLabels : List (String × Nat)
  dataSize : Nat
  memory : Memory

/-- A program ready to run, and the memory it starts with. -/
structure Image where
  code : Array Op
  memory : Memory

namespace Layout

/-- No labels and no data yet. -/
def empty (memory : Memory) : Layout := ⟨[], [], 0, memory⟩

def starting (memorySize : Nat) : Layout := empty (.zeroed memorySize)

/-- Where a jump to the label goes. -/
def target? (layout : Layout) (label : String) : Option Nat := layout.codeLabels.lookup label

/-- What the label stands for as a value. -/
def address? (layout : Layout) (label : String) : Option Nat :=
  (layout.dataLabels.lookup label).or (layout.target? label)

def isDefined (layout : Layout) (label : String) : Bool := (layout.address? label).isSome

/-- Take note of the directive at an index. A missing operand counts as empty. -/
def place (layout : Layout) (index : Nat) (instruction : Instruction) : Except Fault Layout :=
  let label := instruction.label?.getD ""
  match instruction.opcode with
  | .label =>
    if layout.isDefined label then .error (.duplicateLabel label)
    else .ok { layout with codeLabels := (label, index) :: layout.codeLabels }
  | .dataLabel =>
    if layout.isDefined label then .error (.duplicateLabel label)
    else .ok { layout with dataLabels := (label, layout.dataSize) :: layout.dataLabels }
  | .dataZero =>
    .ok { layout with dataSize := layout.dataSize + ((instruction.int?.getD 0).toInt).toNat }
  | .dataString =>
    let text := instruction.string?.getD ""
    match layout.memory.writeText layout.dataSize text with
    | .ok memory => .ok { layout with
        dataSize := layout.dataSize + (Memory.textBytes text).length
        memory := memory }
    | .error required => .error (.outOfMemory required layout.memory.size)
  | _ => .ok layout

/-- Take note of all directives, the first instruction having the given index. -/
def placeAll (layout : Layout) (index : Nat) : Code → Except Fault Layout
  | [] => .ok layout
  | instruction :: rest =>
    match layout.place index instruction with
    | .ok layout => layout.placeAll (index + 1) rest
    | .error fault => .error fault

/-- What was noted of the directives, of all or of those before the first fault. -/
def placed (layout : Layout) (index : Nat) : Code → Layout
  | [] => layout
  | instruction :: rest =>
    match layout.place index instruction with
    | .ok layout => layout.placed (index + 1) rest
    | .error _ => layout

/-- The code index that a jump instruction goes to. -/
def targetOf (layout : Layout) (instruction : Instruction) : Except Fault Nat :=
  let label := instruction.label?.getD ""
  match layout.target? label with
  | some index => .ok index
  | none => .error (.unknownLabel label)

def addressOf (layout : Layout) (instruction : Instruction) : Except Fault Int32 :=
  let label := instruction.label?.getD ""
  match layout.address? label with
  | some address => .ok (Int32.ofNat address)
  | none => .error (.unknownLabel label)

def resolve (layout : Layout) (instruction : Instruction) : Except Fault Op :=
  match instruction.opcode with
  | .label | .dataLabel | .dataZero | .dataString => .ok .skip
  | .pushInt => .ok (.push (instruction.int?.getD 0))
  | .pushAddress => (layout.addressOf instruction).map .push
  | .pop => .ok .pop
  | .duplicate => .ok .duplicate
  | .exchange => .ok .exchange
  | .add => .ok .add
  | .subtract => .ok .subtract
  | .multiply => .ok .multiply
  | .negate => .ok .negate
  | .loadInt => .ok .loadInt
  | .loadByte => .ok .loadByte
  | .storeInt => .ok .storeInt
  | .storeByte => .ok .storeByte
  | .memoryTop => .ok .memoryTop
  | .jump => (layout.targetOf instruction).map .jump
  | .jumpFalse => (layout.targetOf instruction).map .jumpFalse
  | .jumpTrue => (layout.targetOf instruction).map .jumpTrue
  | .jumpPositive => (layout.targetOf instruction).map .jumpPositive
  | .call => .ok .call
  | .ret => .ok .ret
  | .halt => .ok .halt
  | .print => .ok .print

def resolveAll (layout : Layout) : Code → Except Fault (List Op)
  | [] => .ok []
  | instruction :: rest =>
    match layout.resolve instruction with
    | .error fault => .error fault
    | .ok op =>
      match layout.resolveAll rest with
      | .error fault => .error fault
      | .ok ops => .ok (op :: ops)

end Layout

/-- Load a program into memory. Directives are checked before other instructions. -/
def Image.loadInto (memory : Memory) (code : Code) : Except Fault Image :=
  match (Layout.empty memory).placeAll 0 code with
  | .error fault => .error fault
  | .ok layout =>
    if memory.size < layout.dataSize then .error (.outOfMemory layout.dataSize memory.size)
    else
      match layout.resolveAll code with
      | .error fault => .error fault
      | .ok ops => .ok ⟨ops.toArray, layout.memory⟩

/-- What memory holds when a program was loaded, also if that failed. -/
def Image.memoryAfter (memory : Memory) (code : Code) : Memory := ((Layout.empty memory).placed 0 code).memory

/-- Load a program into fresh memory. -/
def Image.load (code : Code) (memorySize : Nat) : Except Fault Image := loadInto (.zeroed memorySize) code

theorem Image.load_def (code : Code) (memorySize : Nat) :
    Image.load code memorySize =
      match (Layout.starting memorySize).placeAll 0 code with
      | .error fault => .error fault
      | .ok layout =>
        if memorySize < layout.dataSize then .error (.outOfMemory layout.dataSize memorySize)
        else
          match layout.resolveAll code with
          | .error fault => .error fault
          | .ok ops => .ok ⟨ops.toArray, layout.memory⟩ := by
  rw [load, loadInto, Memory.size_zeroed]
  rfl

end Stackwright.Machine
