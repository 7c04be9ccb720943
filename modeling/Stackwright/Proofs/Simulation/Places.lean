import Stackwright.Proofs.Simulation.Calls

/-! The parts of a function: its two ends, which set up and give up the frame, and the body between
them. No two functions share an instruction, so what holds in one of the parts says nothing about any
other. -/

set_option autoImplicit false

namespace Stackwright

open Machine Checked

namespace Build

variable {build : Build} {place other : Place} {pc : Nat} {memory : Memory}

/-- The index belongs to the code of the function. -/
def Covers (build : Build) (place : Place) (pc : Nat) : Prop :=
  place.start ≤ pc ∧ pc < place.start + (place.code build.analysis).length

theorem code_length_of_place (build : Build) (place : Place) : (place.code build.analysis).length =
    28 + (place.body build.analysis).length +
      (Lowering.epilogue place.function.name.text place.function.result.ty).length := by
  rw [place.code_eq, List.length_append, List.length_append, ← Nat.add_assoc]
  rfl

theorem eq_of_covers (member : place ∈ build.places) (member' : other ∈ build.places)
    (covers : build.Covers place pc) (covers' : build.Covers other pc) : place = other := by
  by_contra differs
  let Disjoint (one two : Place) : Prop :=
    one.start + (one.code build.analysis).length ≤ two.start ∨
      two.start + (two.code build.analysis).length ≤ one.start
  have symm : Std.Symm Disjoint := ⟨fun _ _ => Or.symm⟩
  have apart : build.places.Pairwise Disjoint := (Place.pairwise_sequence _ _ _).imp .inl
  have disjoint : Disjoint place other := apart.forall member member' differs
  obtain ⟨low, high⟩ := covers
  obtain ⟨low', high'⟩ := covers'
  omega

theorem Covers.of_body (low : place.bodyStart ≤ pc) (high : pc < place.bodyStop build.analysis) :
    build.Covers place pc := by
  have length := build.code_length_of_place place
  rw [Place.bodyStop, Place.bodyStart] at high
  rw [Place.bodyStart] at low
  exact ⟨by omega, by omega⟩

/-- Outside of the body it does not matter where the frame is. -/
theorem Good.of_covers (member : place ∈ build.places) (covers : build.Covers place pc)
    (outside : pc < place.bodyStart ∨ place.bodyStop build.analysis ≤ pc) (intact : build.Intact memory) :
    build.Good pc memory := by
  refine ⟨fun _ => intact, fun {other} member' low high => ?_⟩
  obtain rfl := eq_of_covers member member' covers (.of_body low high)
  omega

theorem Good.of_fine (member : place ∈ build.places) (low : place.bodyStart ≤ pc)
    (high : pc < place.bodyStop build.analysis) (fine : (build.bodyHome member).Fine pc memory) :
    build.Good pc memory := by
  refine ⟨fun _ => fine.intact, fun {other} member' low' high' => ?_⟩
  obtain rfl := eq_of_covers member member' (.of_body low high) (.of_body low' high')
  exact fine

theorem haltAt_lt_start (member : place ∈ build.places) : build.haltAt < place.start :=
  Place.start_ge_of_mem_sequence member

theorem count_prologue (name : String) (size : Nat) : Code.count (Lowering.prologue name size) .exchange = 3 := by
  simp [Code.count, Lowering.prologue, Lowering.below, Code.loadFrom, Code.storeTo, Instruction.withLabel,
    Instruction.withInt, Instruction.plain]

theorem prologue_fits (member : place ∈ build.places) :
    8 + 4 * Code.count (Lowering.prologue place.function.name.text (place.frameSize build.analysis)) .exchange ≤
      build.code.length := by
  have stands := (build.at_epilogue member).lt
  rw [Place.bodyStop, Place.bodyStart] at stands
  rw [count_prologue]
  omega

/-- The stretch of code that sets up the frame of a function. -/
def prologueHome (member : place ∈ build.places) : build.Home :=
  .ofSegment (build.at_prologue member) (prologue_fits member)

/-- The stretch of code that gives up the frame of a function. -/
def epilogueHome (member : place ∈ build.places) : build.Home :=
  .ofSegment (build.at_epilogue member) <| by
    have stands := (build.at_epilogue member).lt
    have few : Code.count (Lowering.epilogue place.function.name.text place.function.result.ty) .exchange ≤ 5 := by
      cases place.function.result.ty <;>
        simp [Code.count, Lowering.epilogue, Lowering.handOver, Ty.isValue, Ty.storeOpcode, Lowering.below,
          Code.loadFrom, Code.storeTo, Instruction.withLabel, Instruction.withInt, Instruction.plain]
    rw [Place.bodyStop, Place.bodyStart] at stands
    omega

theorem Intact.fine_of_unowned {home : build.Home} (intact : build.Intact memory) (unowned : home.owner = none) :
    home.Fine pc memory := by
  refine ⟨intact, fun place owns => ?_⟩
  rw [unowned] at owns
  cases owns

end Build

namespace Watch

variable {watch : Watch} {place : Place} {depth : Nat}

theorem Deep.prologue (deep : watch.Deep depth) (member : place ∈ watch.build.places) :
    watch.Segment (Build.prologueHome member) (depth + 1) place.start
      (Lowering.prologue place.function.name.text (place.frameSize watch.build.analysis)) := by
  refine ⟨watch.build.at_prologue member, Nat.le_refl _, Nat.le_refl _, fun point deeper low high fine => ?_⟩
  refine deep point (by omega) (.of_covers member ?_ (.inl high) fine.intact)
  have length := watch.build.code_length_of_place place
  have short : point.pc < place.start + 28 := high
  exact ⟨low, by omega⟩

theorem Deep.body (deep : watch.Deep depth) (member : place ∈ watch.build.places) :
    watch.Segment (watch.build.bodyHome member) (depth + 1) place.bodyStart (place.body watch.build.analysis) :=
  ⟨(watch.build.at_body member).left, Nat.le_refl _, Nat.le_refl _, fun point deeper low high fine =>
    deep point (by omega) (.of_fine member low high fine)⟩

theorem Deep.epilogue (deep : watch.Deep depth) (member : place ∈ watch.build.places) :
    watch.Segment (Build.epilogueHome member) (depth + 1) (place.bodyStop watch.build.analysis)
      (Lowering.epilogue place.function.name.text place.function.result.ty) := by
  refine ⟨watch.build.at_epilogue member, Nat.le_refl _, Nat.le_refl _, fun point deeper low high fine => ?_⟩
  refine deep point (by omega) (.of_covers member ?_ (.inr low) fine.intact)
  have length := watch.build.code_length_of_place place
  rw [Place.bodyStop, Place.bodyStart] at low high
  exact ⟨by omega, by omega⟩

section Entry

variable {count : Nat} {stack : List Int32} {memory : Memory} {output : String} {α : Type}
  {run : Timed α} {goal : α → Point → Prop}

/-- The first store of a call saves the frame pointer of the caller. -/
theorem Deep.saveFrame (deep : watch.Deep depth) (member : place ∈ watch.build.places)
    (intact : watch.build.Intact memory)
    (room : watch.lossy ∨ watch.build.dataSize ≤ word (memory.intAt 21 - 4) ∧
      word (memory.intAt 21 - 4) + 4 ≤ memory.size ∧ word (memory.intAt 21 - 4) < 2 ^ 31)
    (next : watch.build.dataSize ≤ word (memory.intAt 21 - 4) → word (memory.intAt 21 - 4) + 4 ≤ memory.size →
      word (memory.intAt 21 - 4) < 2 ^ 31 →
      watch.Follows count ⟨place.start + 8, stack,
        memory.setInt (word (memory.intAt 21 - 4)) (memory.intAt 25), output, depth + 1⟩ run goal) :
    watch.Follows count ⟨place.start, stack, memory, output, depth + 1⟩
      (do Timed.spend (Lowering.saveFrameCode ""); run) goal := by
  have fine (pc : Nat) : (Build.prologueHome member).Fine pc memory := intact.fine_of_unowned rfl
  have segment := deep.prologue member
  have parts : watch.Segment (Build.prologueHome member) (depth + 1) place.start
      ([(Instruction.withLabel .label place.function.name.text).annotate _] ++
        (Lowering.below Reserved.stackPointer 4 ++ (Code.loadFrom Reserved.framePointer ++
          ([Instruction.plain Ty.int.storeOpcode] ++ _)))) := segment
  have skip : watch.Run (Code.beats [.plain .label]) ⟨place.start, stack, memory, output, depth + 1⟩
      ⟨place.start + 1, stack, memory, output, depth + 1⟩ := by
    have steps : watch.Run _ ⟨place.start, stack, memory, output, depth + 1⟩ _ :=
      parts.left.straight (fine _) (by rw [List.map_cons, Build.op_annotate]; rfl)
    rwa [Code.beats, List.map_cons, Instruction.opcode_annotate] at steps
  have below : watch.Run _ ⟨place.start + 1, stack, memory, output, depth + 1⟩
      ⟨place.start + 5, (memory.intAt 21 - 4) :: stack, memory, output, depth + 1⟩ :=
    parts.right.left.below watch.build.points_stack (fine _)
  have load : watch.Run _ ⟨place.start + 5, (memory.intAt 21 - 4) :: stack, memory, output, depth + 1⟩
      ⟨place.start + 7, memory.intAt 25 :: (memory.intAt 21 - 4) :: stack, memory, output, depth + 1⟩ :=
    parts.right.right.left.loadPointer watch.build.points_frame (fine _)
  have store : watch.Segment (Build.prologueHome member) (depth + 1) (place.start + 7) [.plain Ty.int.storeOpcode] :=
    parts.right.right.right.left
  refine Follows.joined (Follows.step (skip.trans (below.trans load))
    (store.push (fine _) rfl ?_ (.inl ?_) room next)) rfl
  · have around : watch.build.At (place.start + 5)
        ([Instruction.withLabel .pushAddress Reserved.framePointer] ++ [Instruction.plain .loadInt] ++
          [Instruction.plain .storeInt] ++ _) :=
      (segment.drop (show 5 ≤ 28 by decide)).stands
    exact not_setsPointer_of_opcode around.left Opcode.noConfusion
  · have start := Build.haltAt_lt_start member
    omega

/-- A function that is entered with no room on the call stack is lost at its first store. -/
theorem Deep.starved (deep : watch.Deep depth) (member : place ∈ watch.build.places) (lossy : watch.lossy)
    (intact : watch.build.Intact memory)
    (starved : memory.stackAt < watch.build.dataSize ∨ 2 ^ 31 + 4 ≤ memory.stackAt) :
    watch.Lost ⟨place.start, stack, memory, output, depth + 1⟩ := by
  refine Follows.lost (deep.saveFrame member intact (.inl lossy) fun above _ small => ?_)
  have lower : word (memory.intAt 21 - 4) = (memory.stackAt + (2 ^ 32 - 4)) % 2 ^ 32 := word_sub _ _
  have data := watch.build.dataSize_ge
  have wraps : memory.stackAt < 2 ^ 32 := word_lt _
  omega

end Entry

end Watch

end Stackwright
