import Stackwright.Proofs.Lowering.Decision
import Stackwright.Proofs.Scope.Spending
import Stackwright.Proofs.Simulation.Places

/-! The parts of the code of an expression that do no call: finding and loading variables, comparing,
making room for an argument, and entering a function. -/

set_option autoImplicit false

namespace Stackwright

open Machine Checked

/-- The code that finds a variable depends on its offset in no way that can be seen. -/
theorem Binding.beats_addressCode (binding : Binding) :
    binding.addressCode.beats = (Timed.find binding.location.base).beats := by
  have same (instruction : Instruction) (rest : Code) (comment : String) :
      Code.beats (instruction.annotate comment :: rest) = Code.beats (instruction :: rest) := by
    rw [Code.beats, Code.beats, List.map_cons, List.map_cons, Instruction.opcode_annotate]
  unfold Binding.addressCode Timed.find Location.addressCode
  cases binding.location.base <;> exact (same _ _ _).trans (same _ _ _).symm

/-- The end of a comparison does what it does in any code that is loaded. -/
theorem Build.At.decides {build : Build} {pc : Nat} {labels : LabelFamily} {skipped : Nat} {op : Op}
    (stands : build.At pc (Lowering.decideCode labels)) (here : (Lowering.decideOps pc)[skipped]? = some op) :
    build.ops[pc + skipped]? = some op := by
  have inside := stands.lt_of_pos (Nat.succ_pos 10)
  obtain ⟨after, same⟩ := stands
  have whole : build.code = build.code.take pc ++ (Lowering.decideCode labels ++ after) := by
    rw [same, List.take_append_drop]
  have length : (build.code.take pc).length = pc := by
    rw [List.length_take, Nat.min_eq_left (Nat.le_of_lt inside)]
  have loaded := build.load_code (Nat.le_refl build.dataSize)
  rw [whole] at loaded
  have found := Lowering.decideOps_of_load loaded (length.symm ▸ here)
  rwa [length] at found

namespace Watch

variable {watch : Watch} {home : watch.build.Home} {depth pc bound : Nat} {stack : List Int32}
  {memory : Memory} {output : String}

/-- A run came to the end of an expression and left its value on the operand stack; a call without a
result leaves some word. -/
def Yields (watch : Watch) (home : watch.build.Home) (depth pc stop : Nat) (stack : List Int32) (memory : Memory)
    (ty : Ty) (result : Option Value) (last : Point) : Prop :=
  ∃ operand after output, last = ⟨stop, operand :: stack, after, output, depth⟩ ∧
    result.elim (ty = .void) (fun value => value.ty = ty ∧ value.IsWord operand) ∧ home.Keeps pc memory after

theorem rearrangeAll_address {build : Build} {binding : Binding} (intact : build.Intact memory)
    (stored : binding.location.base ≠ .null) :
    Op.rearrangeAll memory (binding.addressCode.map build.op) stack =
      some (Build.address memory binding :: stack) := by
  have read : memory.readInt 25 = .ok (memory.intAt 25) := intact.readInt (by decide)
  rw [Binding.addressCode, Location.addressCode]
  cases kind : binding.location.base with
  | null => exact absurd kind stored
  | global =>
    simp [Op.rearrangeAll, Build.op_annotate, Build.op_globalBlock, Build.op_pushInt, Build.op_add,
      Build.address, kind]
  | frame =>
    simp [Op.rearrangeAll, Build.op_annotate, Build.op_framePointer, Build.op_loadInt, Build.op_pushInt,
      Build.op_add, Build.address, kind, read, Except.toOption]

/-- The code that finds a variable. -/
theorem Segment.address {binding : Binding} (segment : watch.Segment home depth pc binding.addressCode)
    (fine : home.Fine pc memory) (stored : binding.location.base ≠ .null) :
    watch.Run (Timed.find binding.location.base).beats ⟨pc, stack, memory, output, depth⟩
      ⟨pc + binding.addressCode.length, Build.address memory binding :: stack, memory, output, depth⟩ := by
  rw [← binding.beats_addressCode]
  exact segment.straight fine (rearrangeAll_address fine.intact stored)

/-- What the instruction for an operator leaves; a comparison begins with the difference. -/
def combine : BinaryOperator → Int32 → Int32 → Int32
  | .add, left, right => left + right
  | .subtract, left, right | .greater, left, right => left - right
  | .multiply, left, right => left * right

theorem timed_arithmetic {operator : BinaryOperator} (kind : operator ≠ .greater) (left right : Int32) :
    operator.timed (.int left) (.int right) = do
      Timed.spend [.plain (Lowering.arithmetic operator)]
      return .int (combine operator left right) := by
  cases operator with
  | greater => exact absurd rfl kind
  | _ => rfl

theorem Segment.arithmetic {operator : BinaryOperator} {left right : Int32}
    (segment : watch.Segment home depth pc [.plain (Lowering.arithmetic operator)]) (fine : home.Fine pc memory) :
    watch.Run (Code.beats [.plain (Lowering.arithmetic operator)]) ⟨pc, right :: left :: stack, memory, output, depth⟩
      ⟨pc + 1, combine operator left right :: stack, memory, output, depth⟩ := by
  refine segment.straight fine ?_
  cases operator <;> rfl

/-- The end of a comparison, when both operands have been left on the stack. -/
theorem Segment.comparison {labels : LabelFamily} {left right : Int32}
    (segment : watch.Segment home depth pc (Lowering.decideCode labels)) (fine : home.Fine pc memory) :
    watch.Run (Opcode.code (BinaryOperator.decision (decide (0 < left - right)))).beats
      ⟨pc, right :: left :: stack, memory, output, depth⟩
      ⟨pc + 11, (if 0 < left - right then 1 else 0) :: stack, memory, output, depth⟩ := by
  refine steps_decide (fun {skipped op} here => segment.stands.decides here) fun point deep low high same => ?_
  exact segment.allowed point deep low high (same ▸ fine.later low)

section Enter

variable {place : Place} {index : Nat}

theorem address_cell (memory : Memory) (place : Place) (index : Nat) :
    Build.address memory (place.function.cell index) = Int32.ofNat (29 + 4 * index) := by
  apply word_injective
  have offset := word_ofInt (4 * index : Nat)
  have first : word 29 = 29 := rfl
  simp only [Build.address, Function.cell, word_add, word_ofNat, first]
  omega

/-- The cell of a function holds where its code starts, and the code goes on there. -/
theorem Segment.enter (here : watch.build.places[index]? = some place)
    (segment : watch.Segment home depth pc (Lowering.enterCode (place.function.cell index)))
    (fine : home.Fine pc memory) :
    watch.Run Timed.enter.beats ⟨pc, stack, memory, output, depth⟩
      ⟨place.start, Int32.ofNat (pc + 5) :: stack, memory, output, depth + 1⟩ := by
  have size := fine.intact.size
  have cell := cell_le here
  have data := watch.build.dataSize_le
  have code := watch.build.code_lt
  have read : memory.readInt (Int32.ofNat (29 + 4 * index)) = .ok (Int32.ofNat place.start) := by
    rw [Memory.readInt, Memory.locate_ofNat (by omega) (by omega), ← fine.intact.cells here]
    rfl
  have found : Op.rearrangeAll memory
      (((place.function.cell index).addressCode ++ [Instruction.plain .loadInt] : Code).map watch.build.op) stack =
        some (Int32.ofNat place.start :: stack) := by
    rw [List.map_append, Op.rearrangeAll_append, rearrangeAll_address fine.intact Base.noConfusion, address_cell]
    simp only [List.map_cons, List.map_nil, Build.op_loadInt, Op.rearrangeAll, Option.bind_some, rearrange_loadInt,
      read, Except.toOption, Option.map_some]
  have parts : watch.Segment home depth pc
      (((place.function.cell index).addressCode ++ [Instruction.plain .loadInt]) ++ [Instruction.plain .call]) := by
    rw [List.append_assoc]
    exact segment
  have load : watch.Run (Code.beats (Timed.find .global ++ [Instruction.plain .loadInt])) ⟨pc, stack, memory, output, depth⟩
      ⟨pc + 4, Int32.ofNat place.start :: stack, memory, output, depth⟩ := by
    have steps : watch.Run _ ⟨pc, stack, memory, output, depth⟩ _ := parts.left.straight fine found
    rw [Code.beats_append, Binding.beats_addressCode] at steps
    exact steps
  have last : watch.Segment home depth (pc + 4) [.plain .call] := parts.right
  have inside : place.start < watch.build.ops.size := by
    rw [Build.ops, List.size_toArray, List.length_map]
    have stands := (watch.build.at_epilogue (List.mem_of_getElem? here)).lt
    rw [Place.bodyStop, Place.bodyStart] at stands
    omega
  have short : watch.build.ops.size < 2 ^ 31 := by
    rw [Build.ops, List.size_toArray, List.length_map]
    exact code
  exact load.trans (last.quietStep (fine.later (by omega)) (advance_call last.stands.fetch inside short) rfl)

end Enter

/-- The store of a value sets no pointer. -/
theorem Segment.free {expr : Expr} {labeller : Labeller} {store : Instruction}
    (segment : watch.Segment home depth pc ((Lowering.value watch.build.analysis expr labeller).1 ++ [store])) :
    ¬ watch.build.code.SetsPointer (pc + (Lowering.value watch.build.analysis expr labeller).1.length) := by
  obtain ⟨last, ends, kind⟩ := Lowering.value_getLast watch.build.analysis expr labeller
  exact not_setsPointer_of_getLast segment.stands ends kind

section MakeRoom

variable {ty : Ty}

theorem Segment.spent {code : Code} (segment : watch.Segment home depth pc code) {skipped : Nat}
    (within : skipped ≤ code.length) (one : 1 ≤ Code.count (code.take skipped) .exchange) :
    home.pushes (pc + skipped) + 4 ≤ home.pushes pc := by
  have whole : watch.Segment home depth pc (code.take skipped ++ code.drop skipped) := by
    rwa [List.take_append_drop]
  have pushes := Build.Home.pushes_segment whole.left.stands whole.left.stop
  rw [List.length_take, Nat.min_eq_left within] at pushes
  omega

/-- Lowering the stack pointer, and pushing it as the address of the argument. -/
theorem Segment.makeRoom (segment : watch.Segment home depth pc (Lowering.roomCode ty)) (fine : home.Fine pc memory) :
    watch.Run (Lowering.roomCode .int).beats ⟨pc, stack, memory, output, depth⟩
      ⟨pc + 9, (Build.Home.lowered memory ty.size).intAt 21 :: stack, Build.Home.lowered memory ty.size, output,
        depth⟩ ∧ home.Fine (pc + 9) (Build.Home.lowered memory ty.size) := by
  have lower : home.Fine (pc + 7) (Build.Home.lowered memory ty.size) :=
    fine.lower (ty.size_le) (Nat.le_trans segment.start (Nat.le_add_right _ _))
      (segment.spent (show 7 ≤ 9 by decide) (Nat.le_refl 1))
  have points := watch.build.points_stack
  have below : watch.Run _ ⟨pc, stack, memory, output, depth⟩
      ⟨pc + 4, (memory.intAt 21 - Int32.ofNat ty.size) :: stack, memory, output, depth⟩ :=
    segment.left.left.below points fine
  have lowers : watch.Run _ ⟨pc + 4, (memory.intAt 21 - Int32.ofNat ty.size) :: stack, memory, output, depth⟩
      ⟨pc + 7, stack, Build.Home.lowered memory ty.size, output, depth⟩ :=
    segment.left.right.setPointer points (fine.later (Nat.le_add_right pc 4))
  have load : watch.Run _ ⟨pc + 7, stack, Build.Home.lowered memory ty.size, output, depth⟩ ⟨pc + 9, _, _, output, depth⟩ :=
    segment.right.loadPointer points lower
  exact ⟨below.trans (lowers.trans load), lower.later (Nat.le_add_right _ 2)⟩

end MakeRoom

end Watch

end Stackwright
