import Stackwright.Proofs.Simulation.Activation

/-! The beginning of a run. Before the main block, the code sets both pointers to the top of memory and
stores where each function begins; from then on the environment is intact. -/

set_option autoImplicit false

namespace Stackwright

open Machine Checked

namespace Build

variable {build : Build} {allowed : Point → Prop} {pc depth index : Nat} {stack : List Int32} {memory : Memory}
  {output : String} {value : Int32} (early : ∀ point : Point, point.pc < build.mainAt → allowed point)

include early

/-- A store in the data, before the main block. -/
theorem At.storeInt (stands : build.At pc [.plain .storeInt]) (before : pc < build.mainAt) (small : index < 2 ^ 31)
    (inside : index + 4 ≤ memory.size) :
    Steps build.ops allowed (Code.beats [.plain .storeInt])
      ⟨pc, value :: Int32.ofNat index :: stack, memory, output, depth⟩
      ⟨pc + 1, stack, memory.setInt index value, output, depth⟩ := by
  refine .cons (early _ before) (advance_storeInt stands.fetch (Memory.locate_ofNat small inside)) ?_ .refl
  refine ⟨String.append_empty.symm, ?_⟩
  simp only [List.length_cons, Instruction.plain, Opcode.growth]
  omega

/-- Taking a value into a pointer, before the main block. -/
theorem At.setPointer {pointer : String} (points : build.Points pointer index)
    (stands : build.At pc (Code.storeTo pointer)) (before : pc + 2 < build.mainAt) (fits : 29 ≤ memory.size) :
    Steps build.ops allowed (Code.storeTo pointer).beats ⟨pc, value :: stack, memory, output, depth⟩
      ⟨pc + 3, stack, memory.setInt index value, output, depth⟩ := by
  have parts : build.At pc
      ([Instruction.withLabel .pushAddress pointer, .plain .exchange] ++ [Instruction.plain .storeInt]) := stands
  have swapped : Op.rearrangeAll memory
      (([.withLabel .pushAddress pointer, .plain .exchange] : Code).map build.op) (value :: stack) =
        some (value :: Int32.ofNat index :: stack) := by
    rw [List.map_cons, points.op]
    rfl
  have inside := points.high
  have last : build.At (pc + 2) [.plain .storeInt] := parts.right
  refine Steps.trans (parts.left.straight (fun point _ _ high _ => early point ?_) swapped)
    (last.storeInt early before (by omega) (by omega))
  have high : point.pc < pc + 2 := high
  omega

/-- The first instructions set both pointers to the top of memory. -/
theorem startPointers {size : Nat} (fits : build.dataSize ≤ size) :
    Steps build.ops allowed (Code.beats (Opcode.code [.jump, .label] ++ Environment.stackStart))
      ⟨0, [], Build.memory size, output, depth⟩
      ⟨28, [], ((Build.memory size).setInt 21 (Int32.ofNat size)).setInt 25 (Int32.ofNat size), output, depth⟩ := by
  have data := build.dataSize_ge
  have late : 28 ≤ build.mainAt := by
    rw [mainAt, front_length, start_length]
    omega
  have whole : (Build.memory size).size = size := size_memory
  have first : build.At 0 [.withLabel .jump Reserved.mainLabel] := ⟨_, rfl⟩
  have stands : build.At 19 (([Instruction.withLabel .label Reserved.mainLabel, .plain .memoryTop, .plain .duplicate] ++
      (Code.storeTo Reserved.stackPointer ++ Code.storeTo Reserved.framePointer)) ++ build.cells) := build.at_start
  have target : build.layout.target? Reserved.mainLabel = some 19 := build.at_start.target? rfl rfl
  have jump : Steps build.ops allowed (Opcode.code [.jump]).beats ⟨0, [], Build.memory size, output, depth⟩
      ⟨19, [], Build.memory size, output, depth⟩ := by
    refine .cons (early _ (show 0 < _ by omega)) (advance_jump (first.fetch.trans (congrArg some (op_jump target)))) ?_ .refl
    exact ⟨String.append_empty.symm, rfl⟩
  have tops : Op.rearrangeAll (Build.memory size) (([.withLabel .label Reserved.mainLabel, .plain .memoryTop,
      .plain .duplicate] : Code).map build.op) [] = some [Int32.ofNat size, Int32.ofNat size] := by
    have top : Op.rearrangeAll (Build.memory size) (([.withLabel .label Reserved.mainLabel, .plain .memoryTop,
      .plain .duplicate] : Code).map build.op) [] =
        some [Int32.ofNat (Build.memory size).size, Int32.ofNat (Build.memory size).size] := rfl
    rwa [whole] at top
  have push : Steps build.ops allowed _ ⟨19, [], Build.memory size, output, depth⟩
      ⟨22, [Int32.ofNat size, Int32.ofNat size], Build.memory size, output, depth⟩ :=
    stands.left.left.straight (fun point _ _ high _ => early point (Nat.lt_of_lt_of_le high (by simp; omega))) tops
  have setStack : Steps build.ops allowed _ ⟨22, [Int32.ofNat size, Int32.ofNat size], Build.memory size, output, depth⟩
      ⟨25, [Int32.ofNat size], (Build.memory size).setInt 21 (Int32.ofNat size), output, depth⟩ :=
    stands.left.right.left.setPointer early build.points_stack (show 24 < _ by omega) (by omega)
  have setFrame : Steps build.ops allowed _
      ⟨25, [Int32.ofNat size], (Build.memory size).setInt 21 (Int32.ofNat size), output, depth⟩
      ⟨28, [], ((Build.memory size).setInt 21 (Int32.ofNat size)).setInt 25 (Int32.ofNat size), output, depth⟩ :=
    stands.left.right.right.setPointer early build.points_frame (show 27 < _ by omega)
      (by rw [Memory.size_setInt]; omega)
  exact jump.trans (push.trans (setStack.trans setFrame))

omit early in
theorem rearrangeAll_cell (build : Build) (place : Place) (index : Nat) (memory : Memory) (stack : List Int32) :
    Op.rearrangeAll memory ((place.function.cell index).addressCode.map build.op) stack =
      some (Int32.ofNat (29 + 4 * index) :: stack) := by
  rw [← Watch.address_cell memory place]
  simp [Binding.addressCode, Location.addressCode, Function.cell, Op.rearrangeAll, op_annotate, op_globalBlock,
    op_pushInt, op_add, Build.address]

/-- Storing where one function begins. -/
theorem startCell {place : Place} (placed : build.places[index]? = some place)
    (stands : build.At pc ((place.function.cell index).addressCode ++
      ([Instruction.withLabel .pushAddress place.function.name.text] ++ [.plain .storeInt])))
    (before : pc + 4 < build.mainAt) (fits : build.dataSize ≤ memory.size) :
    Steps build.ops allowed (Code.beats (Timed.find .global ++ Opcode.code [.pushAddress, .storeInt]))
      ⟨pc, [], memory, output, depth⟩
      ⟨pc + 5, [], memory.setInt (29 + 4 * index) (Int32.ofNat place.start), output, depth⟩ := by
  have cell := cell_le placed
  have code := build.code_lt
  have data := build.dataSize_le
  have parts : build.At pc (((place.function.cell index).addressCode ++
      [Instruction.withLabel .pushAddress place.function.name.text]) ++ [Instruction.plain .storeInt]) := by
    rwa [List.append_assoc]
  have found : Op.rearrangeAll memory (((place.function.cell index).addressCode ++
      [Instruction.withLabel .pushAddress place.function.name.text] : Code).map build.op) [] =
        some [Int32.ofNat place.start, Int32.ofNat (29 + 4 * index)] := by
    rw [List.map_append, Op.rearrangeAll_append, rearrangeAll_cell, List.map_cons,
      build.op_name (List.mem_of_getElem? placed)]
    rfl
  have addresses : Steps build.ops allowed (Code.beats (Timed.find .global ++ [Instruction.plain .pushAddress]))
      ⟨pc, [], memory, output, depth⟩
      ⟨pc + 4, [Int32.ofNat place.start, Int32.ofNat (29 + 4 * index)], memory, output, depth⟩ := by
    have steps : Steps build.ops allowed _ ⟨pc, [], memory, output, depth⟩ _ :=
      parts.left.straight (fun point _ _ high _ => early point (Nat.lt_trans high before)) found
    rwa [Code.beats_append, Binding.beats_addressCode] at steps
  have last : build.At (pc + 4) [.plain .storeInt] := parts.right
  exact addresses.trans (last.storeInt early before (by omega) (by omega))

/-- Storing where each of the functions from an index on begins. -/
theorem startCells {rest : List Function} {first : Nat} (same : build.program.functions.drop first = rest)
    (stands : build.At pc (rest.flatMap (Lowering.storeAddress build.analysis)))
    (before : pc + 5 * rest.length ≤ build.mainAt) (fits : build.dataSize ≤ memory.size) :
    ∃ after, Steps build.ops allowed
        (Code.beats (rest.flatMap fun _ => Timed.find .global ++ Opcode.code [.pushAddress, .storeInt]))
        ⟨pc, [], memory, output, depth⟩ ⟨pc + 5 * rest.length, [], after, output, depth⟩ ∧
      after.size = memory.size ∧ (∀ byte < 29 + 4 * first, after.byteAt byte = memory.byteAt byte) ∧
      ∀ {index : Nat} {place : Place}, first ≤ index → build.places[index]? = some place →
        after.intAt (29 + 4 * index) = Int32.ofNat place.start := by
  induction rest generalizing first pc memory with
  | nil =>
    refine ⟨memory, .refl, rfl, fun _ _ => rfl, fun {index place} late here => ?_⟩
    have inProgram := (List.getElem?_eq_some_iff.mp here).1
    have length := congrArg List.length build.map_function_places
    rw [List.length_map] at length
    have none := List.drop_eq_nil_iff.mp same
    omega
  | cons function rest ih =>
    have here : build.program.functions[first]? = some function := by
      rw [← List.head?_drop, same, List.head?_cons]
    obtain ⟨place, placed, rfl⟩ := build.exists_place here
    have cell := cell_le placed
    rw [List.flatMap_cons, Lowering.storeAddress, build.bindingOf_function here, List.append_assoc] at stands
    rw [List.length_cons] at before ⊢
    have store : Steps build.ops allowed _ ⟨pc, [], memory, output, depth⟩
        ⟨pc + 5, [], memory.setInt (29 + 4 * first) (Int32.ofNat place.start), output, depth⟩ :=
      startCell early placed (List.append_assoc _ _ _ ▸ stands).left (by omega) fits
    have others : build.At (pc + 5) (rest.flatMap (Lowering.storeAddress build.analysis)) := stands.right.right
    have same' : build.program.functions.drop (first + 1) = rest := by
      rw [← List.drop_drop, same, List.drop_one, List.tail_cons]
    have fits' : build.dataSize ≤ (memory.setInt (29 + 4 * first) (Int32.ofNat place.start)).size := by
      rwa [Memory.size_setInt]
    obtain ⟨after, steps, size, low, cells⟩ := ih same' others (by omega) fits'
    refine ⟨after, ?_, size.trans (Memory.size_setInt _ _ _), fun byte below => ?_, fun {index other} late found => ?_⟩
    · rw [List.flatMap_cons, Code.beats_append, Nat.mul_succ, Nat.add_comm _ 5, ← Nat.add_assoc]
      exact store.trans steps
    · rw [low byte (by omega), Memory.byteAt_setInt_of_outside _ (by omega) (.inl below)]
    · rcases Nat.eq_or_lt_of_le late with rfl | later
      · obtain rfl : place = other := Option.some.inj (placed.symm.trans found)
        have kept : after.intAt (29 + 4 * first) =
            (memory.setInt (29 + 4 * first) (Int32.ofNat place.start)).intAt (29 + 4 * first) :=
          Memory.intAt_congr fun offset among => low (29 + 4 * first + offset) (by omega)
        exact kept.trans (Memory.intAt_setInt _ (by omega))
      · exact cells later found

/-- Everything before the main block. -/
theorem starts {size : Nat} (fits : build.dataSize ≤ size) :
    ∃ after, Steps build.ops allowed (Code.beats (Opcode.code [.jump, .label] ++ Environment.stackStart) ++
        Code.beats (build.program.functions.flatMap fun _ => Timed.find .global ++ Opcode.code [.pushAddress, .storeInt]))
        ⟨0, [], Build.memory size, output, depth⟩ ⟨build.mainAt, [], after, output, depth⟩ ∧
      build.Intact after ∧ after.size = size ∧ after.stackAt = size % 2 ^ 32 := by
  have data := build.dataSize_ge
  have whole : (Build.memory size).size = size := size_memory
  have mainAt : build.mainAt = 28 + 5 * build.program.functions.length := by
    rw [Checked.mainAt, front_length, start_length]
    omega
  generalize setStack : (Build.memory size).setInt 21 (Int32.ofNat size) = lower
  generalize setFrame : lower.setInt 25 (Int32.ofNat size) = upper
  have stands : build.At 28 (build.program.functions.flatMap (Lowering.storeAddress build.analysis)) :=
    build.at_start.right
  have lowerSize : lower.size = size := by rw [← setStack, Memory.size_setInt, whole]
  have upperSize : upper.size = size := by rw [← setFrame, Memory.size_setInt, lowerSize]
  have fits' : build.dataSize ≤ upper.size := by rwa [upperSize]
  obtain ⟨after, steps, afterSize, low, cells⟩ := startCells early List.drop_zero stands (by omega) fits'
  refine ⟨after, ?_, ⟨?_, fun index among => ?_, fun {index place} here => cells (Nat.zero_le _) here⟩, ?_, ?_⟩
  · rw [mainAt]
    subst setStack setFrame
    exact (startPointers early fits).trans steps
  · rw [afterSize, upperSize]
    exact fits
  · rw [low index (by omega), ← setFrame, Memory.byteAt_setInt_of_outside _ (by omega) (.inl (by omega)), ← setStack,
      Memory.byteAt_setInt_of_outside _ (by omega) (.inl (by omega)), build.byteAt_memory fits among]
  · rw [afterSize, upperSize]
  · have kept : after.intAt 21 = lower.intAt 21 := by
      refine Memory.intAt_congr fun offset among => ?_
      rw [low (21 + offset) (by omega), ← setFrame]
      exact Memory.byteAt_setInt_of_outside _ (by omega) (.inl (by omega))
    rw [Memory.stackAt, kept, ← setStack, Memory.intAt_setInt _ (by omega), word_ofNat]

end Build

end Stackwright
