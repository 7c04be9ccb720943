import Stackwright.Proofs.Simulation.Statement

/-! Functions. A call saves the frame pointer and the return address right below the arguments, runs the
body, and gives everything back: what it leaves behind is its result. -/

set_option autoImplicit false

namespace Stackwright

open Machine Checked

namespace Build

variable {build : Build} {place : Place} {back : Int32} {before after memory : Memory} {index : Nat} {ty : Ty}

/-- The frame of a function has been set up. -/
structure Entered (build : Build) (place : Place) (back : Int32) (before after : Memory) : Prop where
  size : after.size = before.size
  low : build.dataSize + 8 ≤ before.stackAt
  high : before.stackAt ≤ before.size
  small : before.stackAt < 2 ^ 31 + 4
  frame : after.intAt 25 = before.intAt 21
  stack : after.intAt 21 = before.intAt 21 - 8 - Int32.ofNat (place.frameSize build.analysis)
  saved : after.intAt (before.stackAt - 4) = before.intAt 25
  back : after.intAt (before.stackAt - 8) = back
  bytes : ∀ index, index < build.dataSize ∧ (index < 21 ∨ 29 ≤ index) ∨ before.stackAt ≤ index →
    after.byteAt index = before.byteAt index

section Store

variable {value : Int32} (above : build.dataSize ≤ index) (inside : index + 4 ≤ memory.size)

include above inside

/-- A store between the data and the stack pointer. -/
theorem Beneath.setInt (below : index + 4 ≤ memory.stackAt) : build.Beneath memory (memory.setInt index value) :=
  ⟨Memory.size_setInt _ _ _, fun _ outside => Memory.byteAt_setInt_of_outside value inside (by omega)⟩

theorem intAt_setInt_of_data {cell : Nat} (data : cell + 4 ≤ build.dataSize) :
    (memory.setInt index value).intAt cell = memory.intAt cell :=
  Memory.intAt_congr fun _ _ => Memory.byteAt_setInt_of_outside value inside (.inl (by omega))

end Store

theorem Entered.moveFrame (intact : build.Intact memory) (beneath : build.Beneath before memory)
    (pointer : memory.intAt 21 = before.intAt 21) (low : build.dataSize + 8 ≤ before.stackAt)
    (high : before.stackAt ≤ before.size) (small : before.stackAt < 2 ^ 31 + 4)
    (saved : memory.intAt (before.stackAt - 4) = before.intAt 25) (returns : memory.intAt (before.stackAt - 8) = back) :
    build.Entered place back before ((memory.setInt 25 (memory.intAt 21)).setInt 21
      (memory.intAt 21 - 8 - Int32.ofNat (place.frameSize build.analysis))) := by
  have data := build.dataSize_ge
  have intact' : build.Intact (memory.setInt 25 (memory.intAt 21)) := intact.setPointer (by decide) (by decide)
  have away {index : Nat} (outside : index < 21 ∨ 29 ≤ index) (value : Int32) :
      ((memory.setInt 25 (memory.intAt 21)).setInt 21 value).byteAt index = memory.byteAt index := by
    rw [byteAt_setPointer intact' (by decide) (by omega), byteAt_setPointer intact (by decide) (by omega)]
  refine ⟨?_, low, high, small, ?_, ?_, ?_, ?_, fun index outside => ?_⟩
  · rw [Memory.size_setInt, Memory.size_setInt, beneath.size]
  · rw [intAt_setPointer_of_outside intact' (by decide) (.inr (by decide)), intAt_setPointer intact (by decide), pointer]
  · rw [intAt_setPointer intact' (by decide), pointer]
  · rw [Memory.intAt_congr fun offset among => away (by omega) _, saved]
  · rw [Memory.intAt_congr fun offset among => away (by omega) _, returns]
  · rw [away (by omega)]
    exact beneath.bytes index (by omega)

/-- Giving up the frame after the body restores both pointers. -/
theorem Entered.restored {entry : Memory} {member : place ∈ build.places}
    (entered : build.Entered place back before entry) (intact : build.Intact memory)
    (stays : (build.bodyHome member).Stays entry memory) :
    memory.frameAt = before.stackAt ∧ memory.intAt (memory.frameAt - 8) = back ∧ build.Returned none before
      ((memory.setInt 21 (memory.intAt 25)).setInt 25 (memory.intAt (memory.frameAt - 4))) := by
  have data := build.dataSize_ge
  have low := entered.low
  have frame : entry.frameAt = before.stackAt := congrArg word entered.frame
  have pointer : memory.intAt 25 = before.intAt 21 := (stays.intAt (by decide)).trans entered.frame
  have here : memory.frameAt = before.stackAt := congrArg word pointer
  have above {index : Nat} (high : before.stackAt ≤ index + 8) : memory.byteAt index = entry.byteAt index :=
    stays.bytes index (.inr (by omega))
  have intact' : build.Intact (memory.setInt 21 (memory.intAt 25)) := intact.setPointer (by decide) (by decide)
  have away {index : Nat} (outside : index < 21 ∨ 29 ≤ index) (value : Int32) :
      ((memory.setInt 21 (memory.intAt 25)).setInt 25 value).byteAt index = memory.byteAt index := by
    rw [byteAt_setPointer intact' (by decide) (by omega), byteAt_setPointer intact (by decide) (by omega)]
  have saved : memory.intAt (memory.frameAt - 4) = before.intAt 25 := by
    rw [here, ← entered.saved]
    exact Memory.intAt_congr fun offset among => above (by omega)
  have returns : memory.intAt (memory.frameAt - 8) = back := by
    rw [here, ← entered.back]
    exact Memory.intAt_congr fun offset among => above (by omega)
  refine ⟨here, returns, ⟨?_, fun index outside => ?_⟩, ?_, nofun⟩
  · rw [Memory.size_setInt, Memory.size_setInt, stays.size, entered.size]
  · by_cases among : 25 ≤ index ∧ index < 29
    · obtain ⟨offset, rfl⟩ := Nat.exists_eq_add_of_le among.1
      refine Memory.byteAt_of_intAt_eq ?_ (by omega)
      rw [intAt_setPointer intact' (by decide), saved]
    · rw [away (by omega)]
      rcases outside with ⟨inside, _⟩ | high
      · rw [stays.bytes index (.inl inside)]
        exact entered.bytes index (.inl ⟨inside, by omega⟩)
      · rw [above (by omega)]
        exact entered.bytes index (.inr high)
  · have kept : ((memory.setInt 21 (memory.intAt 25)).setInt 25 (memory.intAt (memory.frameAt - 4))).intAt 21 =
        before.intAt 21 := by
      rw [intAt_setPointer_of_outside intact' (by decide) (.inl (by decide)), intAt_setPointer intact (by decide), pointer]
    rw [Option.elim_none, Nat.add_zero, Memory.stackAt, kept, Memory.stackAt]

/-- The result is pushed where the arguments begin. -/
theorem Returned.push {value : Value} (returned : build.Returned none before memory)
    (pushed : build.Pushed [value] memory after) (high : before.stackAt ≤ before.size)
    (small : after.stackAt < 2 ^ 31) : build.Returned (some value) before after := by
  have stackAt : memory.stackAt = before.stackAt := returned.stack
  have stack : after.stackAt + (value.ty.size + 0) = memory.stackAt := pushed.stack
  have beneath := returned.toBeneath.trans pushed.toBeneath (Nat.le_of_eq stackAt)
  refine ⟨beneath, stack.trans stackAt, fun other same => ?_⟩
  obtain rfl := Option.mem_some_iff.mp same
  have size := beneath.size
  exact ⟨pushed.held.1, small, by omega⟩

end Build

namespace Watch

variable {watch : Watch} {place : Place} {depth count : Nat} {stack : List Int32} {memory : Memory}
  {output : String} {α : Type} {run : Timed α} {goal : α → Point → Prop} {back : Int32}

/-- Saving the return address, which comes after saving the frame pointer. -/
theorem Deep.saveReturn (deep : watch.Deep depth) (member : place ∈ watch.build.places)
    (intact : watch.build.Intact memory)
    (room : watch.lossy ∨ watch.build.dataSize ≤ word (memory.intAt 21 - 8) ∧
      word (memory.intAt 21 - 8) + 4 ≤ memory.size ∧ word (memory.intAt 21 - 8) < 2 ^ 31)
    (next : watch.build.dataSize ≤ word (memory.intAt 21 - 8) → word (memory.intAt 21 - 8) + 4 ≤ memory.size →
      watch.Follows count ⟨place.start + 14, stack, memory.setInt (word (memory.intAt 21 - 8)) back, output, depth + 1⟩
        run goal) :
    watch.Follows count ⟨place.start + 8, back :: stack, memory, output, depth + 1⟩
      (do Timed.spend Lowering.saveReturnCode; run) goal := by
  have fine (pc : Nat) : (Build.prologueHome member).Fine pc memory := intact.fine_of_unowned rfl
  have parts : watch.Segment (Build.prologueHome member) (depth + 1) (place.start + 8)
      (Lowering.below Reserved.stackPointer 8 ++
        ([Instruction.plain .exchange] ++ ([Instruction.plain Ty.int.storeOpcode] ++ _))) :=
    (deep.prologue member).drop (show 8 ≤ 28 by decide)
  have below : watch.Run _ ⟨place.start + 8, back :: stack, memory, output, depth + 1⟩
      ⟨place.start + 12, (memory.intAt 21 - 8) :: back :: stack, memory, output, depth + 1⟩ :=
    parts.left.below watch.build.points_stack (fine _)
  have exchange : watch.Run _ ⟨place.start + 12, (memory.intAt 21 - 8) :: back :: stack, memory, output, depth + 1⟩
      ⟨place.start + 13, back :: (memory.intAt 21 - 8) :: stack, memory, output, depth + 1⟩ :=
    parts.right.left.straight (fine _) rfl
  have store : watch.Segment (Build.prologueHome member) (depth + 1) (place.start + 13) [.plain Ty.int.storeOpcode] :=
    parts.right.right.left
  refine Follows.joined (Follows.step (below.trans exchange)
    (store.push (fine _) rfl ?_ (.inl ?_) room fun above inside _ => next above inside)) rfl
  · have around : watch.build.At (place.start + 10)
        ([Instruction.withInt .pushInt 8] ++ [Instruction.plain .subtract, .plain .exchange] ++
          [Instruction.plain .storeInt] ++ _) :=
      ((deep.prologue member).drop (show 10 ≤ 28 by decide)).stands
    exact not_setsPointer_of_exchange around.left Opcode.noConfusion
  · have start := Build.haltAt_lt_start member
    omega

/-- Moving both pointers to the new frame. -/
theorem Deep.moveFrame (deep : watch.Deep depth) (member : place ∈ watch.build.places)
    (intact : watch.build.Intact memory) :
    watch.Run (Lowering.moveFrameCode 0).beats ⟨place.start + 14, stack, memory, output, depth + 1⟩ ⟨place.bodyStart, stack,
      (memory.setInt 25 (memory.intAt 21)).setInt 21
        (memory.intAt 21 - 8 - Int32.ofNat (place.frameSize watch.build.analysis)), output, depth + 1⟩ := by
  have fine (pc : Nat) : (Build.prologueHome member).Fine pc memory := intact.fine_of_unowned rfl
  have intact' : watch.build.Intact (memory.setInt 25 (memory.intAt 21)) := intact.setPointer (by decide) (by decide)
  have fine' (pc : Nat) : (Build.prologueHome member).Fine pc (memory.setInt 25 (memory.intAt 21)) :=
    intact'.fine_of_unowned rfl
  have parts : watch.Segment (Build.prologueHome member) (depth + 1) (place.start + 14)
      (Code.loadFrom Reserved.stackPointer ++ (Code.storeTo Reserved.framePointer ++
        (Lowering.below Reserved.stackPointer 8 ++
          ([Instruction.withInt .pushInt (Int32.ofNat (place.frameSize watch.build.analysis)), .plain .subtract] ++
            Code.storeTo Reserved.stackPointer)))) :=
    (deep.prologue member).drop (show 14 ≤ 28 by decide)
  have same : (memory.setInt 25 (memory.intAt 21)).intAt 21 = memory.intAt 21 :=
    Build.intAt_setPointer_of_outside intact (by decide) (.inl (by decide))
  have load : watch.Run _ ⟨place.start + 14, stack, memory, output, depth + 1⟩
      ⟨place.start + 16, memory.intAt 21 :: stack, memory, output, depth + 1⟩ :=
    parts.left.loadPointer watch.build.points_stack (fine _)
  have moves : watch.Run _ ⟨place.start + 16, memory.intAt 21 :: stack, memory, output, depth + 1⟩
      ⟨place.start + 19, stack, memory.setInt 25 (memory.intAt 21), output, depth + 1⟩ :=
    parts.right.left.setPointer watch.build.points_frame (fine _)
  have below : watch.Run (Lowering.below Reserved.stackPointer 8).beats
      ⟨place.start + 19, stack, memory.setInt 25 (memory.intAt 21), output, depth + 1⟩
      ⟨place.start + 23, (memory.intAt 21 - 8) :: stack, memory.setInt 25 (memory.intAt 21), output, depth + 1⟩ := by
    have run : watch.Run _ ⟨place.start + 19, stack, _, output, depth + 1⟩ _ :=
      parts.right.right.left.below watch.build.points_stack (fine' _)
    rwa [same] at run
  have lower : watch.Run _
      ⟨place.start + 23, (memory.intAt 21 - 8) :: stack, memory.setInt 25 (memory.intAt 21), output, depth + 1⟩
      ⟨place.start + 25, (memory.intAt 21 - 8 - Int32.ofNat (place.frameSize watch.build.analysis)) :: stack,
        memory.setInt 25 (memory.intAt 21), output, depth + 1⟩ :=
    parts.right.right.right.left.straight (fine' _) rfl
  exact load.trans (moves.trans (below.trans (lower.trans
    (parts.right.right.right.right.setPointer watch.build.points_stack (fine' _)))))

/-- Setting up the frame of a function, which takes some steps. -/
theorem Deep.enters (deep : watch.Deep depth) (member : place ∈ watch.build.places)
    (intact : watch.build.Intact memory)
    (room : watch.lossy ∨ watch.build.dataSize + 8 ≤ memory.stackAt ∧ memory.stackAt ≤ memory.size ∧
      memory.size < 2 ^ 31)
    (next : ∀ after, watch.build.Entered place back memory after → watch.build.Intact after →
      watch.Follows count ⟨place.bodyStart, stack, after, output, depth + 1⟩ run goal) :
    watch.Follows (count + 1) ⟨place.start, back :: stack, memory, output, depth + 1⟩ (do
      Timed.spend (Lowering.saveFrameCode "")
      Timed.spend Lowering.saveReturnCode
      Timed.spend (Lowering.moveFrameCode 0)
      run) goal := by
  have data := watch.build.dataSize_ge
  have wraps : memory.stackAt < 2 ^ 32 := word_lt _
  have four : word (memory.intAt 21 - 4) = (memory.stackAt + (2 ^ 32 - 4)) % 2 ^ 32 := word_sub _ _
  have eight : word (memory.intAt 21 - 8) = (memory.stackAt + (2 ^ 32 - 8)) % 2 ^ 32 := word_sub _ _
  refine deep.saveFrame member intact (room.imp_right fun _ => by omega) fun above inside small => ?_
  generalize first : memory.setInt (word (memory.intAt 21 - 4)) (memory.intAt 25) = saved
  have beneath : watch.build.Beneath memory saved := first ▸ .setInt above inside (by omega)
  have pointer : saved.intAt 21 = memory.intAt 21 := first ▸ Build.intAt_setInt_of_data above inside (by omega)
  have size : saved.size = memory.size := beneath.size
  refine deep.saveReturn member (beneath.intact intact) ?_ fun above' inside' => ?_
  · rw [pointer, size]
    exact room.imp_right fun _ => by omega
  rw [pointer] at above' inside' ⊢
  generalize second : saved.setInt (word (memory.intAt 21 - 8)) back = linked
  have same : saved.stackAt = memory.stackAt := congrArg word pointer
  have beneath' : watch.build.Beneath saved linked := second ▸ .setInt above' inside' (by omega)
  have pointer' : linked.intAt 21 = memory.intAt 21 :=
    pointer ▸ second ▸ Build.intAt_setInt_of_data above' inside' (by omega)
  have whole := beneath.trans beneath' (Nat.le_of_eq same)
  have intact' := whole.intact intact
  refine Follows.after (deep.moveFrame member intact') (next _ ?_ ?_) (Nat.add_comm 1 count ▸ Nat.add_le_add_right (by decide) count)
  · refine .moveFrame intact' whole pointer' (by omega) (by omega) (by omega) ?_ ?_
    · have kept : linked.intAt (memory.stackAt - 4) = saved.intAt (memory.stackAt - 4) :=
        second ▸ Memory.intAt_congr fun offset among => Memory.byteAt_setInt_of_outside back inside' (.inr (by omega))
      rw [kept, ← first, show memory.stackAt - 4 = word (memory.intAt 21 - 4) by omega]
      exact Memory.intAt_setInt _ inside
    · rw [← second, show memory.stackAt - 8 = word (memory.intAt 21 - 8) by omega]
      exact Memory.intAt_setInt back inside'
  · exact (intact'.setPointer (by decide) (by decide)).setPointer (by decide) (by decide)

/-- Loading one of the two words that a call saved below its arguments. -/
theorem Segment.loadSaved {home : watch.build.Home} {pc distance : Nat} {code : Code}
    (segment : watch.Segment home depth pc (Lowering.below Reserved.framePointer (Int32.ofNat distance) ++
      ([Instruction.plain .loadInt] ++ code)))
    (fine : home.Fine pc memory) (near : 4 ≤ distance ∧ distance ≤ 8) (low : 8 ≤ memory.frameAt)
    (high : memory.frameAt ≤ memory.size) (small : memory.frameAt < 2 ^ 31 + 4) :
    watch.Run (Code.beats (Lowering.below Reserved.framePointer 0 ++ [Instruction.plain .loadInt]))
      ⟨pc, stack, memory, output, depth⟩
      ⟨pc + 5, memory.intAt (memory.frameAt - distance) :: stack, memory, output, depth⟩ := by
  have address : word (memory.intAt 25 - Int32.ofNat distance) = memory.frameAt - distance := by
    rw [word_sub, word_ofNat]
    change (memory.frameAt + _) % _ = _
    omega
  have located : memory.locate (memory.intAt 25 - Int32.ofNat distance) Ty.int.size =
      .ok (memory.frameAt - distance) :=
    Memory.locate_eq_ok_iff.mpr ⟨by omega, by simp only [Ty.size]; omega, address.symm⟩
  have load : watch.Segment home depth (pc + 4) ([Instruction.plain .loadInt] ++ code) := segment.right
  have below : watch.Run _ ⟨pc, stack, memory, output, depth⟩
      ⟨pc + 4, (memory.intAt 25 - Int32.ofNat distance) :: stack, memory, output, depth⟩ :=
    segment.left.below watch.build.points_frame fine
  exact below.trans (load.quietStep (fine.later (Nat.le_add_right _ _))
    (advance_of_rearrange load.stands.fetch (rearrange_load _ (.inr ⟨rfl, rfl⟩) located)) (Int.add_zero _).symm)

/-- Giving up the frame of a function. -/
theorem Deep.restores (deep : watch.Deep depth) (member : place ∈ watch.build.places)
    (intact : watch.build.Intact memory) (low : watch.build.dataSize + 8 ≤ memory.frameAt)
    (high : memory.frameAt ≤ memory.size) (small : memory.frameAt < 2 ^ 31 + 4) :
    watch.Run (Lowering.restoreCode "").beats ⟨place.bodyStop watch.build.analysis, stack, memory, output, depth + 1⟩
      ⟨place.bodyStop watch.build.analysis + 19, memory.intAt (memory.frameAt - 8) :: stack,
        (memory.setInt 21 (memory.intAt 25)).setInt 25 (memory.intAt (memory.frameAt - 4)), output, depth + 1⟩ := by
  have data := watch.build.dataSize_ge
  have segment := deep.epilogue member
  have intact' : watch.build.Intact (memory.setInt 21 (memory.intAt 25)) := intact.setPointer (by decide) (by decide)
  have fine (pc : Nat) : (Build.epilogueHome member).Fine pc memory := intact.fine_of_unowned rfl
  have fine' (pc : Nat) : (Build.epilogueHome member).Fine pc (memory.setInt 21 (memory.intAt 25)) :=
    intact'.fine_of_unowned rfl
  have frame : (memory.setInt 21 (memory.intAt 25)).frameAt = memory.frameAt :=
    Build.frameAt_setStack intact
  rw [Lowering.epilogue_parts] at segment
  generalize place.bodyStop watch.build.analysis = stop at segment ⊢
  have parts := segment.left
  have skip : watch.Run _ ⟨stop, stack, memory, output, depth + 1⟩
      ⟨stop + 1, stack, memory, output, depth + 1⟩ := parts.skip (fine _)
  have load : watch.Run _ ⟨stop + 1, stack, memory, output, depth + 1⟩
      ⟨stop + 6, memory.intAt (memory.frameAt - 8) :: stack, memory, output, depth + 1⟩ :=
    parts.right.loadSaved (fine _) (by decide) (by omega) high small
  have push : watch.Run _
      ⟨stop + 6, memory.intAt (memory.frameAt - 8) :: stack, memory, output, depth + 1⟩
      ⟨stop + 8, memory.intAt 25 :: memory.intAt (memory.frameAt - 8) :: stack, memory,
        output, depth + 1⟩ :=
    parts.right.right.right.left.loadPointer watch.build.points_frame (fine _)
  have raises : watch.Run _
      ⟨stop + 8, memory.intAt 25 :: memory.intAt (memory.frameAt - 8) :: stack, memory,
        output, depth + 1⟩
      ⟨stop + 11, memory.intAt (memory.frameAt - 8) :: stack,
        memory.setInt 21 (memory.intAt 25), output, depth + 1⟩ :=
    parts.right.right.right.right.left.setPointer watch.build.points_stack (fine _)
  have loadSaved : watch.Run (Code.beats (Lowering.below Reserved.framePointer 0 ++ [Instruction.plain .loadInt]))
      ⟨stop + 11, memory.intAt (memory.frameAt - 8) :: stack,
        memory.setInt 21 (memory.intAt 25), output, depth + 1⟩
      ⟨stop + 16, memory.intAt (memory.frameAt - 4) ::
        memory.intAt (memory.frameAt - 8) :: stack, memory.setInt 21 (memory.intAt 25), output, depth + 1⟩ := by
    have run : watch.Run _ ⟨stop + 11, memory.intAt (memory.frameAt - 8) :: stack,
        memory.setInt 21 (memory.intAt 25), output, depth + 1⟩ _ :=
      parts.right.right.right.right.right.loadSaved (fine' _) (by decide) (by omega)
        (by rw [frame, Memory.size_setInt]; exact high) (by omega)
    rwa [frame, Build.intAt_setPointer_of_outside intact (by decide) (by omega)] at run
  exact skip.trans (load.trans (push.trans (raises.trans (loadSaved.trans
    (parts.right.right.right.right.right.right.right.setPointer watch.build.points_frame (fine' _))))))

theorem Segment.ret {home : watch.build.Home} {pc target : Nat}
    (segment : watch.Segment home (depth + 1) pc [.plain .ret]) (fine : home.Fine pc memory)
    (inside : target < watch.build.code.length) :
    watch.Run (Code.beats [.plain .ret]) ⟨pc, Int32.ofNat target :: stack, memory, output, depth + 1⟩
      ⟨target, stack, memory, output, depth⟩ := by
  have size : watch.build.ops.size = watch.build.code.length := by
    rw [Build.ops, List.size_toArray, List.length_map]
  exact segment.quietStep fine (advance_ret segment.stands.fetch (size ▸ inside) (size ▸ watch.build.code_lt))
    (Int.add_sub_cancel _ 1).symm

/-- Storing the result of a function where its caller picks it up. -/
theorem Segment.handOver {home : watch.build.Home} {pc : Nat} {value : Value} {operand : Int32} {before : Memory}
    (unowned : home.owner = none) (isWord : value.IsWord operand)
    (segment : watch.Segment home depth pc (Lowering.handOver value.ty)) (intact : watch.build.Intact memory)
    (returned : watch.build.Returned none before memory) (low : watch.build.dataSize + 8 ≤ before.stackAt)
    (high : before.stackAt ≤ before.size) (small : before.stackAt < 2 ^ 31 + 4)
    (room : watch.lossy ∨ before.size < 2 ^ 31)
    (next : ∀ after, watch.build.Returned (some value) before after →
      watch.Follows count ⟨pc + (Lowering.handOver value.ty).length, back :: stack, after, output, depth⟩ run goal) :
    watch.Follows count ⟨pc, back :: operand :: stack, memory, output, depth⟩
      (do Timed.spend (Lowering.handOver value.ty); run) goal := by
  have isValue := value.isValue_ty
  have few := value.ty.size_le
  have stackAt : memory.stackAt = before.stackAt := returned.stack
  have wraps : memory.stackAt < 2 ^ 32 := word_lt _
  have lowerAt := Build.Home.stackAt_lowered intact few
  rw [Lowering.handOver_eq isValue] at segment next ⊢
  have intact' : watch.build.Intact (Build.Home.lowered memory value.ty.size) :=
    intact.setPointer (by decide) (by decide)
  have fine (pc : Nat) : home.Fine pc memory := intact.fine_of_unowned unowned
  have fine' (pc : Nat) : home.Fine pc (Build.Home.lowered memory value.ty.size) := intact'.fine_of_unowned unowned
  have points := watch.build.points_stack
  have swap : watch.Run _ ⟨pc, back :: operand :: stack, memory, output, depth⟩
      ⟨pc + 1, operand :: back :: stack, memory, output, depth⟩ := segment.left.straight (fine _) rfl
  have below : watch.Run _ ⟨pc + 1, operand :: back :: stack, memory, output, depth⟩
      ⟨pc + 5, (memory.intAt 21 - Int32.ofNat value.ty.size) :: operand :: back :: stack, memory, output, depth⟩ :=
    segment.right.left.below points (fine _)
  have lowers : watch.Run _
      ⟨pc + 5, (memory.intAt 21 - Int32.ofNat value.ty.size) :: operand :: back :: stack, memory, output, depth⟩
      ⟨pc + 8, operand :: back :: stack, Build.Home.lowered memory value.ty.size, output, depth⟩ :=
    segment.right.right.left.setPointer points (fine _)
  have load : watch.Run _ ⟨pc + 8, operand :: back :: stack, Build.Home.lowered memory value.ty.size, output, depth⟩
      ⟨pc + 10, (Build.Home.lowered memory value.ty.size).intAt 21 :: operand :: back :: stack,
        Build.Home.lowered memory value.ty.size, output, depth⟩ :=
    segment.right.right.right.left.loadPointer points (fine' _)
  have swap' : watch.Run _
      ⟨pc + 10, (Build.Home.lowered memory value.ty.size).intAt 21 :: operand :: back :: stack,
        Build.Home.lowered memory value.ty.size, output, depth⟩
      ⟨pc + 11, operand :: (Build.Home.lowered memory value.ty.size).intAt 21 :: back :: stack,
        Build.Home.lowered memory value.ty.size, output, depth⟩ :=
    segment.right.right.right.right.left.straight (fine' _) rfl
  have store : watch.Segment home depth (pc + 11) [.plain value.ty.storeOpcode] :=
    segment.right.right.right.right.right
  refine Follows.joined (Follows.step (swap.trans (below.trans (lowers.trans (load.trans swap')))) ?_) rfl
  refine store.push (fine' _) isValue ?_ (.inr rfl) ?_ fun above inside small => next _ ?_
  · have around : watch.build.At (pc + 8) ([Instruction.withLabel .pushAddress Reserved.stackPointer] ++
        [Instruction.plain .loadInt, .plain .exchange] ++ [Instruction.plain value.ty.storeOpcode]) :=
      segment.right.right.right.stands
    exact not_setsPointer_of_exchange around Opcode.noConfusion
  · refine room.imp_right fun short => ?_
    rw [Build.Home.lowered, Memory.size_setInt, returned.size, ← Build.Home.lowered]
    change _ ≤ (Build.Home.lowered memory value.ty.size).stackAt ∧
      (Build.Home.lowered memory value.ty.size).stackAt + _ ≤ _ ∧ (Build.Home.lowered memory value.ty.size).stackAt < _
    omega
  · have clear : ¬ home.Doomed pc (Build.Home.lowered memory value.ty.size) := by
      rw [Build.Home.Doomed, Build.Home.Starved]
      omega
    have pushed := pushed_put intact clear segment.start (.refl _ _) isWord above inside
    have small : (Build.Home.lowered memory value.ty.size).stackAt < 2 ^ 31 := small
    have stack : _ + (value.ty.size + 0) = memory.stackAt := pushed.stack
    have whole := returned.push pushed high (by omega)
    exact whole

/-- The end of a function: whatever the body left is handed over to the caller. -/
theorem Deep.returns {target : Nat} {left : List Int32} {value : Option Value} {before entry : Memory}
    (deep : watch.Deep depth) (member : place ∈ watch.build.places)
    (entered : watch.build.Entered place (Int32.ofNat target) before entry) (intact : watch.build.Intact memory)
    (stays : (watch.build.bodyHome member).Stays entry memory) (leaves : Leaves value left)
    (typed : place.function.result.ty = value.elim .void Value.ty) (inside : target < watch.build.code.length)
    (sound : watch.build.Intact before)
    (room : watch.lossy ∨ before.size < 2 ^ 31) :
    watch.Follows count ⟨place.bodyStop watch.build.analysis, left ++ stack, memory, output, depth + 1⟩
      (do
        Timed.spend (Lowering.restoreCode "")
        Timed.spend (Lowering.handOver place.function.result.ty)
        Timed.spend [.plain .ret]
        return value) fun result last => last.pc = target ∧ last.stack = stack ∧ last.depth = depth ∧
        result.elim (place.function.result.ty = .void) (fun value => value.ty = place.function.result.ty) ∧
        watch.build.Returned result before last.memory := by
  obtain ⟨frame, back, returned⟩ := entered.restored intact stays
  have size : memory.size = before.size := stays.size.trans entered.size
  have low := entered.low
  have high := entered.high
  have small := entered.small
  refine Follows.step (deep.restores member intact (by omega) (by omega) (by omega)) ?_
  rw [back]
  have intact' := (intact.setPointer (by decide) (by decide) : watch.build.Intact (memory.setInt 21 (memory.intAt 25)))
  have intact'' : watch.build.Intact
      ((memory.setInt 21 (memory.intAt 25)).setInt 25 (memory.intAt (memory.frameAt - 4))) :=
    intact'.setPointer (by decide) (by decide)
  have segment := deep.epilogue member
  rw [Lowering.epilogue_parts] at segment
  have ends : watch.Segment (Build.epilogueHome member) (depth + 1) (place.bodyStop watch.build.analysis + 19)
      (Lowering.handOver place.function.result.ty ++ [Instruction.plain .ret]) := segment.right
  cases value with
  | none =>
    obtain rfl : left = [] := leaves
    rw [typed] at ends ⊢
    refine Follows.step .refl ?_
    exact (Follows.here ⟨rfl, rfl, rfl, rfl, returned⟩).step (ends.ret (intact''.fine_of_unowned rfl) inside)
  | some value =>
    obtain ⟨operand, rfl, isWord⟩ := leaves
    rw [typed] at ends ⊢
    refine ends.left.handOver rfl isWord intact'' returned low high small room fun after returned' => ?_
    refine (Follows.here ⟨rfl, rfl, rfl, rfl, returned'⟩).step (ends.right.ret ?_ inside)
    exact (returned'.toBeneath.intact sound).fine_of_unowned rfl

end Watch

end Stackwright
