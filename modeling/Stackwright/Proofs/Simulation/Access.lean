import Stackwright.Proofs.Simulation.Runs

/-! Loads and stores of a run. The pointers can always be read and set. A store on the call stack
either comes to lie between the data and the end of memory, or the run is lost. -/

set_option autoImplicit false

namespace Stackwright

open Machine

theorem Machine.Memory.locate_ofNat {memory : Memory} {index length : Nat} (small : index < 2 ^ 31)
    (inside : index + length ≤ memory.size) : memory.locate (Int32.ofNat index) length = .ok index := by
  have reading : word (Int32.ofNat index) = index := by
    rw [word_ofNat]
    omega
  rw [Memory.locate_eq_ok_iff, reading]
  exact ⟨small, inside, rfl⟩

theorem Build.Intact.readInt {build : Build} {memory : Memory} (intact : build.Intact memory) {index : Nat}
    (inside : index + 4 ≤ 29) : memory.readInt (Int32.ofNat index) = .ok (memory.intAt index) := by
  have size := intact.size
  have data := build.dataSize_ge
  rw [Memory.readInt, Memory.locate_ofNat (by omega) (by omega)]
  rfl

/-- The label is that of one of the two pointers, which lies at the index. -/
structure Build.Points (build : Build) (pointer : String) (index : Nat) : Prop where
  op : build.op (.withLabel .pushAddress pointer) = .push (Int32.ofNat index)
  low : 21 ≤ index
  high : index + 4 ≤ 29

theorem Build.points_stack (build : Build) : build.Points Reserved.stackPointer 21 :=
  ⟨build.op_stackPointer, by decide, by decide⟩

theorem Build.points_frame (build : Build) : build.Points Reserved.framePointer 25 :=
  ⟨build.op_framePointer, by decide, by decide⟩

theorem Ty.loadOpcode_eq {ty : Ty} (isValue : ty.isValue = true) (build : Build) :
    build.op (.plain ty.loadOpcode) = .loadByte ∧ ty = .bool ∨ build.op (.plain ty.loadOpcode) = .loadInt ∧ ty = .int := by
  cases ty with
  | bool => exact .inl ⟨rfl, rfl⟩
  | int => exact .inr ⟨rfl, rfl⟩
  | _ => cases isValue

theorem Ty.storeOpcode_eq {ty : Ty} (isValue : ty.isValue = true) (build : Build) :
    build.op (.plain ty.storeOpcode) = .storeByte ∧ ty = .bool ∨
      build.op (.plain ty.storeOpcode) = .storeInt ∧ ty = .int := by
  cases ty with
  | bool => exact .inl ⟨rfl, rfl⟩
  | int => exact .inr ⟨rfl, rfl⟩
  | _ => cases isValue

theorem Ty.growth_loadOpcode (ty : Ty) {height : Nat} : ((height + 1 : Nat) : Int) = (height + 1 : Nat) + ty.loadOpcode.growth := by
  cases ty <;> rfl

theorem Ty.growth_storeOpcode (ty : Ty) {height : Nat} : (height : Int) = (height + 1 + 1 : Nat) + ty.storeOpcode.growth := by
  cases ty <;> simp only [Ty.storeOpcode, Opcode.growth] <;> omega

namespace Watch

variable {watch : Watch} {home : watch.build.Home} {depth pc count : Nat} {stack : List Int32}
  {memory : Memory} {output : String} {α : Type} {run : Timed α} {goal : α → Point → Prop}
  {ty : Ty} {address value : Int32}

/-- A run that cannot go on is lost. -/
theorem Segment.lost {instruction : Instruction} {code : Code}
    (segment : watch.Segment home depth pc (instruction :: code)) (fine : home.Fine pc memory) (lossy : watch.lossy)
    (ends : advance watch.build.ops ⟨pc, stack, memory, output, depth⟩ = none ∨
      watch.build.code.Spills watch.build.dataSize ⟨pc, stack, memory, output, depth⟩) :
    watch.Follows count ⟨pc, stack, memory, output, depth⟩ run goal :=
  .inl ⟨lossy, [], _, .refl, segment.allowed_here fine, ends⟩

theorem Segment.load (segment : watch.Segment home depth pc [.plain ty.loadOpcode]) (fine : home.Fine pc memory)
    (isValue : ty.isValue = true) (room : watch.lossy ∨ ∃ index, memory.locate address ty.size = .ok index)
    (next : ∀ index, memory.locate address ty.size = .ok index →
      watch.Follows count ⟨pc + 1, memory.get ty index :: stack, memory, output, depth⟩ run goal) :
    watch.Follows count ⟨pc, address :: stack, memory, output, depth⟩
      (do Timed.spend [.plain ty.loadOpcode]; run) goal := by
  have fetched := segment.stands.fetch
  cases found : memory.locate address ty.size with
  | ok index =>
    have loaded : Op.rearrange memory _ (address :: stack) = _ :=
      rearrange_load address (ty.loadOpcode_eq isValue watch.build) found
    exact (next index found).step (segment.quietStep fine (advance_of_rearrange fetched loaded) ty.growth_loadOpcode)
  | error failed =>
    have lossy : watch.lossy := room.resolve_right fun ⟨_, located⟩ => by
      rw [found] at located
      cases located
    refine segment.lost fine lossy (.inl ?_)
    rw [advance_eq fetched]
    rcases ty.loadOpcode_eq isValue watch.build with ⟨same, rfl⟩ | ⟨same, rfl⟩
    · have found : memory.locate address 1 = .error failed := found
      simp only [same, Op.execute, State.load, Memory.readByte, found, Except.map, State.fail]
    · have found : memory.locate address 4 = .error failed := found
      simp only [same, Op.execute, State.load, Memory.readInt, found, Except.map, State.fail]

theorem Segment.store (segment : watch.Segment home depth pc [.plain ty.storeOpcode]) (fine : home.Fine pc memory)
    (isValue : ty.isValue = true) {index : Nat} (found : memory.locate address ty.size = .ok index) :
    watch.Run (Code.beats [.plain ty.storeOpcode]) ⟨pc, value :: address :: stack, memory, output, depth⟩
      ⟨pc + 1, stack, memory.put ty index value, output, depth⟩ :=
  segment.quietStep fine (advance_store segment.stands.fetch (ty.storeOpcode_eq isValue watch.build) found)
    ty.growth_storeOpcode

/-- A store on the call stack, by the code of a function or at the stack pointer. -/
theorem Segment.push (segment : watch.Segment home depth pc [.plain ty.storeOpcode]) (fine : home.Fine pc memory)
    (isValue : ty.isValue = true) (free : ¬ watch.build.code.SetsPointer pc)
    (own : watch.build.haltAt < pc ∨ address = memory.intAt 21)
    (room : watch.lossy ∨ watch.build.dataSize ≤ word address ∧ word address + ty.size ≤ memory.size ∧
      word address < 2 ^ 31)
    (next : watch.build.dataSize ≤ word address → word address + ty.size ≤ memory.size → word address < 2 ^ 31 →
      watch.Follows count ⟨pc + 1, stack, memory.put ty (word address) value, output, depth⟩ run goal) :
    watch.Follows count ⟨pc, value :: address :: stack, memory, output, depth⟩
      (do Timed.spend [.plain ty.storeOpcode]; run) goal := by
  have fetched := segment.stands.fetch
  by_cases inside : word address + ty.size ≤ memory.size ∧ word address < 2 ^ 31
  · have found : memory.locate address ty.size = .ok (word address) :=
      Memory.locate_eq_ok_iff.mpr ⟨inside.2, inside.1, rfl⟩
    by_cases above : watch.build.dataSize ≤ word address
    · exact (next above inside.1 inside.2).step (segment.store fine isValue found)
    · have lossy : watch.lossy := room.resolve_right fun ⟨clear, _⟩ => above clear
      refine segment.lost fine lossy (.inr ?_)
      refine ⟨_, value, address, stack, segment.stands.getElem?, ?_, free, rfl, Nat.lt_of_not_le above, ?_⟩
      · cases ty with
        | bool => exact .inr rfl
        | _ => exact .inl rfl
      · exact own.imp_left watch.build.exists_halt
  · have lossy : watch.lossy := room.resolve_right fun ⟨_, fits⟩ => inside fits
    have failed : ∃ error, memory.locate address ty.size = .error error := by
      cases found : memory.locate address ty.size with
      | error error => exact ⟨error, rfl⟩
      | ok index =>
        obtain ⟨low, high, _⟩ := Memory.locate_eq_ok_iff.mp found
        exact absurd ⟨high, low⟩ inside
    obtain ⟨error, failed⟩ := failed
    refine segment.lost fine lossy (.inl ?_)
    rw [advance_eq fetched]
    rcases ty.storeOpcode_eq isValue watch.build with ⟨same, rfl⟩ | ⟨same, rfl⟩
    · have failed : memory.locate address 1 = .error error := failed
      simp only [same, Op.execute, State.store, failed, State.fail]
    · have failed : memory.locate address 4 = .error error := failed
      simp only [same, Op.execute, State.store, failed, State.fail]

section Jumps

variable {label : String} {target : Nat} {code : Code} (fine : home.Fine pc memory)
  (found : watch.build.layout.target? label = some target)

include fine found

theorem Segment.jump (segment : watch.Segment home depth pc (.withLabel .jump label :: code)) :
    watch.Run (Opcode.code [.jump]).beats ⟨pc, stack, memory, output, depth⟩ ⟨target, stack, memory, output, depth⟩ :=
  segment.quietStep fine (advance_jump (segment.stands.fetch.trans (congrArg some (Build.op_jump found))))
    (by simp [Instruction.withLabel, Opcode.growth])

theorem Segment.jumpFalse (segment : watch.Segment home depth pc (.withLabel .jumpFalse label :: code)) :
    watch.Run (Opcode.code [.jumpFalse]).beats ⟨pc, value :: stack, memory, output, depth⟩
      ⟨if value = 0 then target else pc + 1, stack, memory, output, depth⟩ :=
  segment.quietStep fine (advance_jumpFalse (segment.stands.fetch.trans (congrArg some (Build.op_jumpFalse found))))
    (by simp [Instruction.withLabel, Opcode.growth])

theorem Segment.jumpTrue (segment : watch.Segment home depth pc (.withLabel .jumpTrue label :: code)) :
    watch.Run (Opcode.code [.jumpTrue]).beats ⟨pc, value :: stack, memory, output, depth⟩
      ⟨if value = 0 then pc + 1 else target, stack, memory, output, depth⟩ :=
  segment.quietStep fine (advance_jumpTrue (segment.stands.fetch.trans (congrArg some (Build.op_jumpTrue found))))
    (by simp [Instruction.withLabel, Opcode.growth])

end Jumps

section Pointers

variable {pointer : String} {index : Nat} (points : watch.build.Points pointer index)

include points

/-- Pushing the value of a pointer. -/
theorem Segment.loadPointer (segment : watch.Segment home depth pc (Code.loadFrom pointer))
    (fine : home.Fine pc memory) :
    watch.Run (Code.loadFrom pointer).beats ⟨pc, stack, memory, output, depth⟩
      ⟨pc + 2, memory.intAt index :: stack, memory, output, depth⟩ := by
  refine segment.straight fine ?_
  simp [Code.loadFrom, Op.rearrangeAll, points.op, Build.op_loadInt, fine.intact.readInt points.high, Except.toOption]

/-- Pushing an address below a pointer. -/
theorem Segment.below {distance : Int32} (segment : watch.Segment home depth pc (Lowering.below pointer distance))
    (fine : home.Fine pc memory) :
    watch.Run (Lowering.below pointer distance).beats ⟨pc, stack, memory, output, depth⟩
      ⟨pc + 4, (memory.intAt index - distance) :: stack, memory, output, depth⟩ := by
  refine segment.straight fine ?_
  simp [Lowering.below, Code.loadFrom, Op.rearrangeAll, points.op, Build.op_loadInt, Build.op_pushInt,
    Build.op_subtract, fine.intact.readInt points.high, Except.toOption]

/-- Taking a value into a pointer. -/
theorem Segment.setPointer (segment : watch.Segment home depth pc (Code.storeTo pointer))
    (fine : home.Fine pc memory) :
    watch.Run (Code.storeTo pointer).beats ⟨pc, value :: stack, memory, output, depth⟩
      ⟨pc + 3, stack, memory.setInt index value, output, depth⟩ := by
  have swapped : Op.rearrangeAll memory
      (([.withLabel .pushAddress pointer, .plain .exchange] : Code).map watch.build.op) (value :: stack) =
        some (value :: Int32.ofNat index :: stack) := by
    rw [List.map_cons, points.op]
    rfl
  have segment : watch.Segment home depth pc
    ([Instruction.withLabel .pushAddress pointer, .plain .exchange] ++ [Instruction.plain .storeInt]) := segment
  have size := fine.intact.size
  have data := watch.build.dataSize_ge
  have inside := points.high
  have found : memory.locate (Int32.ofNat index) Ty.int.size = .ok index :=
    Memory.locate_ofNat (by omega) (by simp only [Ty.size]; omega)
  have last : watch.Segment home depth (pc + 2) [.plain Ty.int.storeOpcode] := segment.right
  exact (segment.left.straight fine swapped).trans (last.store (fine.later (by omega)) rfl found)

end Pointers

end Watch

end Stackwright
