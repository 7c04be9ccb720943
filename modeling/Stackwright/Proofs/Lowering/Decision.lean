import Stackwright.Proofs.Machine.Advance
import Stackwright.Proofs.Machine.Loading
import Stackwright.Proofs.Timing

/-! The end of a comparison. Wherever it was loaded, it takes two values off the operand stack and leaves 1
or 0 for them, and the rest of the stack and the memory are as they were. -/

set_option autoImplicit false

namespace Stackwright

open Machine

namespace Lowering

/-- What the end of a comparison does when it stands at an index. -/
def decideOps (pc : Nat) : List Op :=
  [.skip, .subtract, .jumpPositive (pc + 4), .jump (pc + 7), .skip, .push 1, .jump (pc + 10), .skip, .push 0,
    .jump (pc + 10), .skip]

/-- The end of a comparison goes to its own labels, whatever it is loaded with. -/
theorem decideOps_of_load {before after : Code} {labels : LabelFamily} {memorySize skipped : Nat} {image : Image}
    {op : Op} (loaded : Image.load (before ++ (decideCode labels ++ after)) memorySize = .ok image)
    (here : (decideOps before.length)[skipped]? = some op) : image.code[before.length + skipped]? = some op := by
  obtain ⟨layout, does, jumps⟩ := Image.exists_segment loaded
  have whenTrue := jumps 4 _ rfl
  have whenFalse := jumps 7 _ rfl
  have join := jumps 10 _ rfl
  have same : (decideCode labels).map layout.op = decideOps before.length := by
    simp [decideCode, decideOps, Layout.op, Layout.resolve, Layout.targetOf, Instruction.withLabel,
      Instruction.withInt, Instruction.plain, Instruction.label?, Instruction.int?, whenTrue, whenFalse, join, Except.map]
  exact does skipped op (same ▸ here)

end Lowering

open Lowering in
/-- The steps of the end of a comparison, from points that may be visited. -/
theorem Machine.steps_decide {code : Array Op} {allowed : Point → Prop} {pc depth : Nat} {stack : List Int32}
    {memory : Memory} {output : String} {left right : Int32}
    (stands : ∀ {skipped op}, (decideOps pc)[skipped]? = some op → code[pc + skipped]? = some op)
    (may : ∀ point : Point, point.depth = depth → pc ≤ point.pc → point.pc < pc + 11 → point.memory = memory →
      allowed point) :
    Steps code allowed (Opcode.code (BinaryOperator.decision (decide (0 < left - right)))).beats
      ⟨pc, right :: left :: stack, memory, output, depth⟩
      ⟨pc + 11, (if 0 < left - right then 1 else 0) :: stack, memory, output, depth⟩ := by
  have step {skipped pc' : Nat} {operands operands' : List Int32} {growth : Int} (within : skipped < 11)
      (advances : advance code ⟨pc + skipped, operands, memory, output, depth⟩ =
        some ⟨pc', operands', memory, output, depth⟩)
      (grows : (operands'.length : Int) = operands.length + growth) :
      Steps code allowed [⟨growth, ""⟩] ⟨pc + skipped, operands, memory, output, depth⟩
        ⟨pc', operands', memory, output, depth⟩ :=
    .cons (may _ rfl (Nat.le_add_right pc skipped) (Nat.add_lt_add_left within pc) rfl) advances
      ⟨String.append_empty.symm, grows⟩ .refl
  have skip {skipped : Nat} {operands : List Int32} (within : skipped < 11)
      (here : (decideOps pc)[skipped]? = some .skip) :
      Steps code allowed [⟨0, ""⟩] ⟨pc + skipped, operands, memory, output, depth⟩
        ⟨pc + (skipped + 1), operands, memory, output, depth⟩ :=
    step within (advance_of_rearrange (stands here) rfl) (Int.add_zero _).symm
  have push {skipped : Nat} {value : Int32} (within : skipped < 11)
      (here : (decideOps pc)[skipped]? = some (.push value)) :
      Steps code allowed [⟨1, ""⟩] ⟨pc + skipped, stack, memory, output, depth⟩
        ⟨pc + (skipped + 1), value :: stack, memory, output, depth⟩ :=
    step within (advance_of_rearrange (stands here) rfl) rfl
  have jump {skipped target : Nat} {operands : List Int32} (within : skipped < 11)
      (here : (decideOps pc)[skipped]? = some (.jump target)) :
      Steps code allowed [⟨0, ""⟩] ⟨pc + skipped, operands, memory, output, depth⟩
        ⟨target, operands, memory, output, depth⟩ :=
    step within (advance_jump (stands here)) (Int.add_zero _).symm
  have start : Steps code allowed [⟨0, ""⟩] ⟨pc, right :: left :: stack, memory, output, depth⟩
      ⟨pc + 1, right :: left :: stack, memory, output, depth⟩ := skip (show 0 < 11 by decide) rfl
  have subtract : Steps code allowed [⟨-1, ""⟩] ⟨pc + 1, right :: left :: stack, memory, output, depth⟩
      ⟨pc + 2, (left - right) :: stack, memory, output, depth⟩ :=
    step (show 1 < 11 by decide) (advance_of_rearrange (stands rfl) rearrange_subtract) (by simp)
  have test : Steps code allowed [⟨-1, ""⟩] ⟨pc + 2, (left - right) :: stack, memory, output, depth⟩
      ⟨if 0 < left - right then pc + 4 else pc + 3, stack, memory, output, depth⟩ :=
    step (show 2 < 11 by decide) (advance_jumpPositive (stands rfl)) (by simp)
  -- The two outcomes take different ways from the third instruction on, to the same end.
  by_cases positive : 0 < left - right
  · rw [if_pos positive] at test ⊢
    rw [decide_eq_true positive]
    exact start.trans (subtract.trans (test.trans ((skip (show 4 < 11 by decide) rfl).trans
      ((push (show 5 < 11 by decide) rfl).trans
        ((jump (show 6 < 11 by decide) rfl).trans (skip (show 10 < 11 by decide) rfl))))))
  · rw [if_neg positive] at test ⊢
    rw [decide_eq_false positive]
    exact start.trans (subtract.trans (test.trans ((jump (show 3 < 11 by decide) rfl).trans
      ((skip (show 7 < 11 by decide) rfl).trans ((push (show 8 < 11 by decide) rfl).trans
        ((jump (show 9 < 11 by decide) rfl).trans (skip (show 10 < 11 by decide) rfl)))))))

end Stackwright
