import Stackwright.Proofs.Build.Image
import Stackwright.Proofs.Simulation.Words

/-! Memory while a build runs. The environment at the bottom stays as it was loaded, except for the
two pointers. Everything from the stack pointer upward belongs to calls that are still open. -/

set_option autoImplicit false

namespace Stackwright

open Machine Checked

/-- The stack pointer, read as an address. -/
def Machine.Memory.stackAt (memory : Memory) : Nat := word (memory.intAt 21)

/-- The frame pointer, read as an address. -/
def Machine.Memory.frameAt (memory : Memory) : Nat := word (memory.intAt 25)

namespace Build

/-- A stretch of code: the main block, the body of a function, or something around them. -/
structure Home (build : Build) where
  start : Nat
  stop : Nat
  /-- The function whose body it is. -/
  owner : Option Place
  proper : owner.elim 0 (Place.frameSize build.analysis) + 8 +
    4 * Code.count ((build.code.take stop).drop start) .exchange ≤ build.code.length

variable (build : Build)

/-- The formats and texts are as they were loaded, and each function can be found. -/
structure Intact (memory : Memory) : Prop where
  size : build.dataSize ≤ memory.size
  texts : ∀ index < 21, memory.byteAt index = Environment.texts.getD index 0
  cells : ∀ {index : Nat} {place : Place}, build.places[index]? = some place →
    memory.intAt (29 + 4 * index) = Int32.ofNat place.start

variable {build}

namespace Home

variable (home : build.Home)

/-- The most bytes that arguments can take from an index to the end of the stretch. -/
def pushes (pc : Nat) : Nat := 4 * Code.count ((build.code.take home.stop).drop pc) .exchange

/-- The stack pointer has wrapped around: whatever the rest of the stretch stores on the call stack
lies outside of memory. -/
def Starved (pc : Nat) (memory : Memory) : Prop := 2 ^ 31 + 4 + home.pushes pc ≤ memory.stackAt

/-- No store on the call stack can pass any more. -/
def Doomed (pc : Nat) (memory : Memory) : Prop :=
  memory.stackAt < build.dataSize ∨ home.Starved pc memory

/-- What holds at every instruction of the stretch. In a body the local variables lie above the stack
pointer, unless nothing can be called from there. -/
structure Fine (pc : Nat) (memory : Memory) : Prop where
  intact : build.Intact memory
  frame : ∀ place ∈ home.owner, memory.frameAt + place.argumentSize < 2 ^ 32 ∧
    (memory.stackAt + 8 + place.frameSize build.analysis ≤ memory.frameAt ∨ home.Doomed pc memory)

/-- There is room below the stack pointer for what the stretch pushes and for calls that nest up to
`bound` deep. -/
structure Room (bound pc : Nat) (memory : Memory) : Prop where
  below : build.dataSize + bound * build.code.length + home.pushes pc ≤ memory.stackAt
  above : memory.stackAt ≤ memory.size
  small : memory.size < 2 ^ 31
  frame : ∀ place ∈ home.owner, memory.stackAt + 8 + place.frameSize build.analysis ≤ memory.frameAt ∧
    memory.frameAt + place.argumentSize ≤ memory.size

/-- What evaluating an expression leaves as it was: all data, and everything from the stack pointer
upward. -/
structure Keeps (pc : Nat) (before after : Memory) : Prop where
  size : after.size = before.size
  bytes : ∀ index, index < build.dataSize ∨ before.stackAt ≤ index ∨ home.Doomed pc before →
    after.byteAt index = before.byteAt index

variable {home} {pc pc' bound : Nat} {memory before between after : Memory}

theorem pushes_mono (later : pc ≤ pc') : home.pushes pc' ≤ home.pushes pc := by
  obtain ⟨more, rfl⟩ := Nat.exists_eq_add_of_le later
  rw [pushes, pushes, ← List.drop_drop]
  exact Nat.mul_le_mul_left 4 ((List.drop_sublist _ _).countP_le)

theorem pushes_segment {segment : Code} (stands : build.At pc segment) (inside : pc + segment.length ≤ home.stop) :
    home.pushes pc = 4 * segment.count .exchange + home.pushes (pc + segment.length) := by
  obtain ⟨rest, same⟩ := stands
  have split : (build.code.take home.stop).drop pc =
      segment ++ (build.code.take home.stop).drop (pc + segment.length) := by
    rw [List.drop_take, List.drop_take, ← List.drop_drop, ← same, List.take_append, List.drop_left,
      List.take_of_length_le (by omega), Nat.sub_sub]
  rw [pushes, pushes, split, Code.count_append, Nat.mul_add]

theorem Starved.later (starved : home.Starved pc memory) (later : pc ≤ pc') : home.Starved pc' memory :=
  Nat.le_trans (Nat.add_le_add_left (pushes_mono later) _) starved

theorem Doomed.later (doomed : home.Doomed pc memory) (later : pc ≤ pc') : home.Doomed pc' memory :=
  doomed.imp_right fun starved => starved.later later

theorem Fine.later (fine : home.Fine pc memory) (later : pc ≤ pc') : home.Fine pc' memory :=
  ⟨fine.intact, fun place owns =>
    ⟨(fine.frame place owns).1, (fine.frame place owns).2.imp_right fun doomed => doomed.later later⟩⟩

theorem Room.later (room : home.Room bound pc memory) (later : pc ≤ pc') : home.Room bound pc' memory :=
  ⟨Nat.le_trans (Nat.add_le_add_left (pushes_mono later) _) room.below, room.above, room.small, room.frame⟩

theorem Keeps.refl (pc : Nat) (memory : Memory) : home.Keeps pc memory memory := ⟨rfl, fun _ _ => rfl⟩

theorem Keeps.intAt (keeps : home.Keeps pc before after) {index : Nat} (inside : index + 4 ≤ build.dataSize) :
    after.intAt index = before.intAt index :=
  Memory.intAt_congr fun offset among => keeps.bytes _ (.inl (by omega))

theorem Keeps.stackAt (keeps : home.Keeps pc before after) : after.stackAt = before.stackAt :=
  congrArg word (keeps.intAt (Nat.le_trans (by decide) build.dataSize_ge))

theorem Keeps.frameAt (keeps : home.Keeps pc before after) : after.frameAt = before.frameAt :=
  congrArg word (keeps.intAt build.dataSize_ge)

theorem Keeps.doomed (keeps : home.Keeps pc before after) (doomed : home.Doomed pc' before) :
    home.Doomed pc' after := by
  rw [Doomed, Starved, keeps.stackAt]
  exact doomed

theorem Keeps.trans (one : home.Keeps pc before between) (two : home.Keeps pc' between after) (later : pc ≤ pc') :
    home.Keeps pc before after := by
  refine ⟨two.size.trans one.size, fun index outside => ?_⟩
  refine (two.bytes index ?_).trans (one.bytes index outside)
  rw [one.stackAt]
  rcases outside with data | above | doomed
  · exact .inl data
  · exact .inr (.inl above)
  · exact .inr (.inr (one.doomed (doomed.later later)))

theorem Keeps.earlier (keeps : home.Keeps pc' before after) (later : pc ≤ pc') : home.Keeps pc before after :=
  ⟨keeps.size, fun index outside => keeps.bytes index
    (outside.imp_right fun rest => rest.imp_right fun doomed => doomed.later later)⟩

theorem Keeps.intact (keeps : home.Keeps pc before after) (intact : build.Intact before) : build.Intact after := by
  have size := intact.size
  refine ⟨keeps.size ▸ size, fun index among => ?_, fun {index place} here => ?_⟩
  · have data := build.dataSize_ge
    rw [keeps.bytes index (.inl (by omega))]
    exact intact.texts index among
  · rw [keeps.intAt (cell_le here)]
    exact intact.cells here

theorem Keeps.fine (keeps : home.Keeps pc before after) (fine : home.Fine pc before) (later : pc ≤ pc') :
    home.Fine pc' after := by
  refine ⟨keeps.intact fine.intact, fun place owns => ?_⟩
  rw [keeps.frameAt, keeps.stackAt]
  obtain ⟨low, frame⟩ := fine.frame place owns
  exact ⟨low, frame.imp_right fun doomed => keeps.doomed (doomed.later later)⟩

theorem Keeps.room (keeps : home.Keeps pc before after) (room : home.Room bound pc before) (later : pc ≤ pc') :
    home.Room bound pc' after := by
  obtain ⟨below, above, small, frame⟩ := room.later later
  constructor
  case below => rwa [keeps.stackAt]
  case above => rwa [keeps.stackAt, keeps.size]
  case small => rwa [keeps.size]
  case frame =>
    intro place owns
    rw [keeps.stackAt, keeps.frameAt, keeps.size]
    exact frame place owns

end Home

section Pointers

variable {memory : Memory} {index : Nat} {value : Int32}

/-- Setting a pointer changes no other byte. -/
theorem byteAt_setPointer (intact : build.Intact memory) (inside : index + 4 ≤ 29) {byte : Nat}
    (outside : byte < index ∨ index + 4 ≤ byte) : (memory.setInt index value).byteAt byte = memory.byteAt byte := by
  have size := intact.size
  have data := build.dataSize_ge
  exact Memory.byteAt_setInt_of_outside value (by omega) outside

theorem intAt_setPointer (intact : build.Intact memory) (inside : index + 4 ≤ 29) :
    (memory.setInt index value).intAt index = value := by
  have size := intact.size
  have data := build.dataSize_ge
  exact Memory.intAt_setInt value (by omega)

theorem intAt_setPointer_of_outside (intact : build.Intact memory) (inside : index + 4 ≤ 29) {other : Nat}
    (outside : other + 4 ≤ index ∨ index + 4 ≤ other) :
    (memory.setInt index value).intAt other = memory.intAt other :=
  Memory.intAt_congr fun offset among => byteAt_setPointer intact inside (by omega)

theorem Intact.setPointer (intact : build.Intact memory) (low : 21 ≤ index) (inside : index + 4 ≤ 29) :
    build.Intact (memory.setInt index value) := by
  constructor
  · rw [Memory.size_setInt]
    exact intact.size
  · intro byte among
    rw [byteAt_setPointer intact inside (.inl (by omega))]
    exact intact.texts byte among
  · intro cell place here
    rw [intAt_setPointer_of_outside intact inside (.inr (by omega))]
    exact intact.cells here

theorem stackAt_setStack (intact : build.Intact memory) : (memory.setInt 21 value).stackAt = word value :=
  congrArg word (intAt_setPointer intact (by decide))

theorem frameAt_setStack (intact : build.Intact memory) : (memory.setInt 21 value).frameAt = memory.frameAt :=
  congrArg word (intAt_setPointer_of_outside intact (by decide) (.inr (by decide)))

end Pointers

namespace Home

variable {home : build.Home} {pc pc' bound size : Nat} {memory : Memory}

/-- The stack pointer after it was lowered by the size of an argument. -/
def lowered (memory : Memory) (size : Nat) : Memory := memory.setInt 21 (memory.intAt 21 - Int32.ofNat size)

theorem stackAt_lowered (intact : build.Intact memory) (small : size ≤ 4) :
    (lowered memory size).stackAt = (memory.stackAt + (2 ^ 32 - size)) % 2 ^ 32 := by
  rw [lowered, stackAt_setStack intact, word_sub, word_ofNat, Memory.stackAt]
  congr 3
  omega

theorem pushes_lt (inside : home.start ≤ pc) : home.pushes pc + 8 < 2 ^ 31 := by
  have proper := home.proper
  have mono : home.pushes pc ≤ home.pushes home.start := pushes_mono inside
  have code := build.code_lt
  rw [pushes, pushes] at mono
  rw [pushes]
  omega

theorem Doomed.lower (doomed : home.Doomed pc memory) (intact : build.Intact memory) (small : size ≤ 4)
    (inside : home.start ≤ pc') (spent : home.pushes pc' + 4 ≤ home.pushes pc) :
    home.Doomed pc' (lowered memory size) := by
  have few := pushes_lt inside
  have wraps := word_lt (memory.intAt 21)
  have data := build.dataSize_le
  have code := build.code_lt
  rw [Doomed, Starved, stackAt_lowered intact small]
  rw [Doomed, Starved] at doomed
  rw [Memory.stackAt] at doomed ⊢
  omega

/-- Unless the lower stack pointer makes every store fail, it has not wrapped around. -/
theorem stackAt_lowered_of_clear (intact : build.Intact memory) (small : size ≤ 4) (inside : home.start ≤ pc')
    (clear : ¬ home.Doomed pc' (lowered memory size)) :
    (lowered memory size).stackAt + size = memory.stackAt ∧ build.dataSize ≤ (lowered memory size).stackAt := by
  have few := pushes_lt inside
  have wraps := word_lt (memory.intAt 21)
  have stack := stackAt_lowered intact small
  rw [Doomed, Starved, stack] at clear
  rw [stack]
  rw [Memory.stackAt] at clear ⊢
  omega

theorem Fine.lower (fine : home.Fine pc memory) (small : size ≤ 4) (inside : home.start ≤ pc')
    (spent : home.pushes pc' + 4 ≤ home.pushes pc) : home.Fine pc' (lowered memory size) := by
  refine ⟨fine.intact.setPointer (by decide) (by decide), fun place owns => ?_⟩
  obtain ⟨low, frame⟩ := fine.frame place owns
  by_cases clear : home.Doomed pc' (lowered memory size)
  · rw [lowered, frameAt_setStack fine.intact, ← lowered]
    exact ⟨low, .inr clear⟩
  · obtain ⟨stack, _⟩ := stackAt_lowered_of_clear fine.intact small inside clear
    have frame := frame.resolve_right fun doomed => clear (doomed.lower fine.intact small inside spent)
    rw [lowered, frameAt_setStack fine.intact, ← lowered]
    exact ⟨low, .inl (by omega)⟩

theorem Room.clear (room : home.Room bound pc memory) : ¬ home.Doomed pc memory := by
  have below := room.below
  have above := room.above
  have small := room.small
  rw [Doomed, Starved]
  omega

theorem Room.lower (room : home.Room bound pc memory) (intact : build.Intact memory) (small : size ≤ 4)
    (spent : home.pushes pc' + 4 ≤ home.pushes pc) : home.Room bound pc' (lowered memory size) := by
  obtain ⟨below, above, short, frame⟩ := room
  have stack := stackAt_lowered intact small
  have wraps := word_lt (memory.intAt 21)
  have data := build.dataSize_ge
  have same : (lowered memory size).stackAt = memory.stackAt - size := by
    rw [stack]
    rw [Memory.stackAt] at below above ⊢
    omega
  constructor
  case below =>
    rw [same]
    omega
  case above =>
    rw [same, lowered, Memory.size_setInt]
    omega
  case small => rwa [lowered, Memory.size_setInt]
  case frame =>
    intro place owns
    have frame := frame place owns
    rw [same, lowered, frameAt_setStack intact, Memory.size_setInt]
    omega

end Home

end Build

end Stackwright
