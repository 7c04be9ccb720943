import Stackwright.Proofs.Machine.Conversions
import Stackwright.Proofs.Machine.Memory
import Stackwright.Proofs.Machine.Steps

/-! What single instructions do to a point of a run. -/

set_option autoImplicit false

namespace Stackwright.Machine

/-- The operand stack after an operation on its two topmost values. -/
def Op.rearrangeBinary (operation : Int32 → Int32 → Int32) : List Int32 → Option (List Int32)
  | right :: left :: rest => some (operation left right :: rest)
  | _ => none

/-- The operand stack after an address on it was replaced by what is read there. -/
def Op.rearrangeLoad (read : Int32 → Except Int Int32) : List Int32 → Option (List Int32)
  | address :: rest => (read address).toOption.map fun value => value :: rest
  | [] => none

/-- The operand stack after an instruction that only works on it, if it does not fail. -/
def Op.rearrange (memory : Memory) (op : Op) (stack : List Int32) : Option (List Int32) :=
  match op with
  | .skip => some stack
  | .push value => some (value :: stack)
  | .pop => stack.tail?
  | .duplicate =>
    match stack with
    | top :: rest => some (top :: top :: rest)
    | [] => none
  | .exchange =>
    match stack with
    | top :: below :: rest => some (below :: top :: rest)
    | _ => none
  | .add => rearrangeBinary (fun left right => left + right) stack
  | .subtract => rearrangeBinary (fun left right => left - right) stack
  | .multiply => rearrangeBinary (fun left right => left * right) stack
  | .negate =>
    match stack with
    | value :: rest => some (-value :: rest)
    | [] => none
  | .loadInt => rearrangeLoad memory.readInt stack
  | .loadByte =>
    rearrangeLoad (fun address => (memory.readByte address).map fun byte => Int32.ofNat byte.toNat) stack
  | .memoryTop => some (Int32.ofNat memory.size :: stack)
  | _ => none

/-- The operand stack after several such instructions. -/
def Op.rearrangeAll (memory : Memory) : List Op → List Int32 → Option (List Int32)
  | [], stack => some stack
  | op :: rest, stack => (op.rearrange memory stack).bind (Op.rearrangeAll memory rest)

theorem Op.rearrangeAll_append (memory : Memory) (first second : List Op) (stack : List Int32) :
    Op.rearrangeAll memory (first ++ second) stack =
      (Op.rearrangeAll memory first stack).bind (Op.rearrangeAll memory second) := by
  induction first generalizing stack with
  | nil => rfl
  | cons op rest ih =>
    rw [List.cons_append, rearrangeAll, rearrangeAll, Option.bind_assoc]
    exact congrArg _ (funext ih)

variable {code : Array Op} {pc depth : Nat} {stack stack' : List Int32} {memory : Memory} {output : String} {op : Op}

section
variable {value top below left right address : Int32}

@[simp] theorem rearrange_push : (Op.push value).rearrange memory stack = some (value :: stack) := rfl

@[simp] theorem rearrange_exchange :
    Op.exchange.rearrange memory (top :: below :: stack) = some (below :: top :: stack) := rfl

@[simp] theorem rearrange_add :
    Op.add.rearrange memory (right :: left :: stack) = some ((left + right) :: stack) := rfl

@[simp] theorem rearrange_subtract :
    Op.subtract.rearrange memory (right :: left :: stack) = some ((left - right) :: stack) := rfl

@[simp] theorem rearrange_loadInt :
    Op.loadInt.rearrange memory (address :: stack) =
      (memory.readInt address).toOption.map fun value => value :: stack := rfl

@[simp] theorem rearrange_loadByte :
    Op.loadByte.rearrange memory (address :: stack) =
      ((memory.readByte address).map fun byte => Int32.ofNat byte.toNat).toOption.map
        fun value => value :: stack := rfl

end

theorem advance_eq (fetched : code[pc]? = some op) :
    advance code ⟨pc, stack, memory, output, depth⟩ =
      match op.execute code.size ⟨pc, stack, memory, output, 0⟩ with
      | .running state => some ⟨state.pc, state.stack, state.memory, state.output, op.depthAfter depth⟩
      | .halted _ | .faulted _ _ => none := by
  rw [advance]
  simp only [fetched]
  rfl

theorem execute_load (read : Memory → Int32 → Except Int Int32) {state : State}
    (ran : Op.rearrangeLoad (read state.memory) state.stack = some stack') :
    state.load read = state.next stack' := by
  unfold State.load
  cases shape : state.stack with
  | nil => simp [shape, Op.rearrangeLoad] at ran
  | cons address rest =>
    cases value : read state.memory address with
    | error failed => simp [shape, Op.rearrangeLoad, value, Except.toOption] at ran
    | ok found =>
      simp only [shape, Op.rearrangeLoad, value, Except.toOption, Option.map_some, Option.some.injEq] at ran
      simp only [value, ran]

theorem execute_binary {operation : Int32 → Int32 → Int32} {state : State}
    (ran : Op.rearrangeBinary operation state.stack = some stack') :
    state.binary operation = state.next stack' := by
  unfold State.binary
  unfold Op.rearrangeBinary at ran
  split at ran
  next right left rest same => simp_all
  · cases ran

theorem execute_of_rearrange {codeSize : Nat} {state : State}
    (ran : op.rearrange state.memory state.stack = some stack') :
    op.execute codeSize state = state.next stack' ∧ ∀ depth, op.depthAfter depth = depth := by
  cases op with
  | skip | push | memoryTop =>
    obtain rfl := Option.some.inj ran
    exact ⟨rfl, fun _ => rfl⟩
  | pop | duplicate | negate =>
    refine ⟨?_, fun _ => rfl⟩
    obtain ⟨pc, stack, memory, output, steps⟩ := state
    cases stack with
    | nil => cases ran
    | cons top rest =>
      obtain rfl := Option.some.inj ran
      rfl
  | exchange =>
    refine ⟨?_, fun _ => rfl⟩
    obtain ⟨pc, stack, memory, output, steps⟩ := state
    match stack, ran with
    | top :: below :: rest, ran =>
      obtain rfl := Option.some.inj ran
      rfl
  | add => exact ⟨execute_binary ran, fun _ => rfl⟩
  | subtract => exact ⟨execute_binary ran, fun _ => rfl⟩
  | multiply => exact ⟨execute_binary ran, fun _ => rfl⟩
  | loadInt => exact ⟨execute_load Memory.readInt ran, fun _ => rfl⟩
  | loadByte =>
    let read (memory : Memory) (address : Int32) : Except Int Int32 :=
      (memory.readByte address).map fun byte => Int32.ofNat byte.toNat
    have ran : Op.rearrangeLoad (read state.memory) state.stack = some stack' := ran
    exact ⟨execute_load read ran, fun _ => rfl⟩
  | storeInt | storeByte | jump | jumpFalse | jumpTrue | jumpPositive | call | ret | halt | print =>
    cases ran

theorem advance_of_rearrange (fetched : code[pc]? = some op) (ran : op.rearrange memory stack = some stack') :
    advance code ⟨pc, stack, memory, output, depth⟩ = some ⟨pc + 1, stack', memory, output, depth⟩ := by
  obtain ⟨executed, same⟩ :=
    @execute_of_rearrange stack' op code.size ⟨pc, stack, memory, output, 0⟩ ran
  simp only [advance_eq fetched, executed, State.next, same]

theorem advance_storeInt {value address : Int32} {index : Nat} (fetched : code[pc]? = some .storeInt)
    (located : memory.locate address 4 = .ok index) :
    advance code ⟨pc, value :: address :: stack, memory, output, depth⟩ =
      some ⟨pc + 1, stack, memory.setInt index value, output, depth⟩ := by
  simp only [advance_eq fetched, Op.execute, State.store, located]
  rfl

theorem advance_storeByte {value address : Int32} {index : Nat} (fetched : code[pc]? = some .storeByte)
    (located : memory.locate address 1 = .ok index) :
    advance code ⟨pc, value :: address :: stack, memory, output, depth⟩ =
      some ⟨pc + 1, stack, memory.setByte index (UInt8.ofNat (word value)), output, depth⟩ := by
  simp only [advance_eq fetched, Op.execute, State.store, located]
  rfl

theorem advance_jump {target : Nat} (fetched : code[pc]? = some (.jump target)) :
    advance code ⟨pc, stack, memory, output, depth⟩ = some ⟨target, stack, memory, output, depth⟩ := by
  rw [advance_eq fetched]
  rfl

theorem advance_jumpFalse {target : Nat} {value : Int32} (fetched : code[pc]? = some (.jumpFalse target)) :
    advance code ⟨pc, value :: stack, memory, output, depth⟩ =
      some ⟨if value = 0 then target else pc + 1, stack, memory, output, depth⟩ := by
  rw [advance_eq fetched]
  by_cases zero : value = 0 <;> simp [Op.execute, State.jumpIf, zero, State.goto, State.next, Op.depthAfter]

theorem advance_jumpTrue {target : Nat} {value : Int32} (fetched : code[pc]? = some (.jumpTrue target)) :
    advance code ⟨pc, value :: stack, memory, output, depth⟩ =
      some ⟨if value = 0 then pc + 1 else target, stack, memory, output, depth⟩ := by
  rw [advance_eq fetched]
  by_cases zero : value = 0 <;> simp [Op.execute, State.jumpIf, zero, State.goto, State.next, Op.depthAfter]

theorem advance_jumpPositive {target : Nat} {value : Int32} (fetched : code[pc]? = some (.jumpPositive target)) :
    advance code ⟨pc, value :: stack, memory, output, depth⟩ =
      some ⟨if 0 < value then target else pc + 1, stack, memory, output, depth⟩ := by
  rw [advance_eq fetched]
  by_cases positive : 0 < value <;>
    simp [Op.execute, State.jumpIf, positive, State.goto, State.next, Op.depthAfter]

/-- A code address that is taken off the stack. -/
theorem toInt_ofNat_inside {target : Nat} (inside : target < code.size) (short : code.size < 2 ^ 31) :
    0 ≤ (Int32.ofNat target).toInt ∧ (Int32.ofNat target).toInt < code.size ∧
      (Int32.ofNat target).toInt.toNat = target := by
  rw [Int32.toInt_ofNat_of_lt (Nat.lt_trans inside short)]
  omega

theorem advance_call {target : Nat} (fetched : code[pc]? = some .call) (inside : target < code.size)
    (short : code.size < 2 ^ 31) :
    advance code ⟨pc, Int32.ofNat target :: stack, memory, output, depth⟩ =
      some ⟨target, Int32.ofNat (pc + 1) :: stack, memory, output, depth + 1⟩ := by
  obtain ⟨low, high, same⟩ := toInt_ofNat_inside inside short
  simp only [advance_eq fetched, Op.execute, State.enter, low, high, and_self, if_true, same]
  rfl

theorem advance_ret {target : Nat} (fetched : code[pc]? = some .ret) (inside : target < code.size)
    (short : code.size < 2 ^ 31) :
    advance code ⟨pc, Int32.ofNat target :: stack, memory, output, depth + 1⟩ =
      some ⟨target, stack, memory, output, depth⟩ := by
  obtain ⟨low, high, same⟩ := toInt_ofNat_inside inside short
  simp only [advance_eq fetched, Op.execute, State.enter, low, high, and_self, if_true, same]
  rfl

/-- Printing takes one value for each conversion of the format. -/
theorem advance_print {address : Int32} {format text : String} {values : List Int32}
    (fetched : code[pc]? = some .print) (read : memory.readText address = .ok format)
    (writes : Format.Writes memory format.toList values text) :
    advance code ⟨pc, address :: values.reverse ++ stack, memory, output, depth⟩ =
      some ⟨pc + 1, stack, memory, output ++ text, depth⟩ := by
  have printed : State.print ⟨pc, address :: values.reverse ++ stack, memory, output, 0⟩ = _ :=
    State.print_of_writes rfl read writes
  simp only [advance_eq fetched, Op.execute, printed]
  rfl

theorem advance_printInt {address value : Int32} (fetched : code[pc]? = some .print)
    (format : memory.readText address = .ok "%d") :
    advance code ⟨pc, address :: value :: stack, memory, output, depth⟩ =
      some ⟨pc + 1, stack, memory, output ++ toString value.toInt, depth⟩ := by
  have writes : Format.Writes memory "%d".toList [value] (toString value.toInt ++ "") := .int .done
  rw [String.append_empty] at writes
  exact advance_print fetched format writes

theorem advance_printText {address place : Int32} {text : String} (fetched : code[pc]? = some .print)
    (format : memory.readText address = .ok "%s") (read : memory.readText place = .ok text) :
    advance code ⟨pc, address :: place :: stack, memory, output, depth⟩ =
      some ⟨pc + 1, stack, memory, output ++ text, depth⟩ := by
  have writes : Format.Writes memory "%s".toList [place] (text ++ "") := .text read .done
  rw [String.append_empty] at writes
  exact advance_print fetched format writes

/-- Printing a format of one character that takes no values. -/
theorem advance_printChar {address : Int32} {c : Char} (fetched : code[pc]? = some .print)
    (format : memory.readText address = .ok (String.singleton c)) (plain : c ≠ '%') :
    advance code ⟨pc, address :: stack, memory, output, depth⟩ =
      some ⟨pc + 1, stack, memory, output ++ String.singleton c, depth⟩ := by
  have writes : Format.Writes memory [c] [] (String.singleton c ++ "") := .plain plain .done
  have chars : (String.singleton c).toList = [c] := by simp
  rw [String.append_empty, ← chars] at writes
  exact advance_print fetched format writes

end Stackwright.Machine
