import Stackwright.Proofs.Simulation.Access

/-! The calling convention as a contract. The caller pushes arguments and gives the return address;
the callee takes nothing below them for granted and leaves everything above them alone. -/

set_option autoImplicit false

namespace Stackwright

open Machine Checked

/-- The values lie one after the other in memory from an index on. -/
def ArgumentsAt (memory : Memory) : Nat → List Value → Prop
  | _, [] => True
  | index, value :: rest => value.Held memory index ∧ ArgumentsAt memory (index + value.ty.size) rest

theorem ArgumentsAt.congr {memory other : Memory} {index : Nat} {values : List Value}
    (held : ArgumentsAt memory index values) (same : ∀ byte, index ≤ byte → other.byteAt byte = memory.byteAt byte) :
    ArgumentsAt other index values := by
  induction values generalizing index with
  | nil => trivial
  | cons value rest ih =>
    refine ⟨held.1.congr fun byte low _ => same byte low, ih held.2 fun byte low => same byte ?_⟩
    omega

namespace Build

variable (build : Build)

/-- A stretch of code that belongs to no function. -/
def Home.ofSegment {build : Build} {pc : Nat} {segment : Code} (stands : build.At pc segment)
    (few : 8 + 4 * segment.count .exchange ≤ build.code.length) : build.Home where
  start := pc
  stop := pc + segment.length
  owner := none
  proper := by
    rw [stands.slice, Option.elim_none, Nat.zero_add]
    exact few

/-- The stretch of code between the two ends of a function. -/
def bodyHome {place : Place} (member : place ∈ build.places) : build.Home where
  start := place.bodyStart
  stop := place.bodyStop build.analysis
  owner := some place
  proper := by
    rw [Place.bodyStop, (build.at_body member).left.slice, Option.elim_some]
    exact build.frame_le member

/-- What holds at an index of the code whenever a run comes there. -/
def Good (pc : Nat) (memory : Memory) : Prop :=
  (build.mainAt ≤ pc → build.Intact memory) ∧ ∀ {place : Place} (member : place ∈ build.places),
    place.bodyStart ≤ pc → pc < place.bodyStop build.analysis → (build.bodyHome member).Fine pc memory

/-- Something happened below the stack pointer, which may be another one now: all other data and
everything above stays as it was. -/
structure Beneath (before after : Memory) : Prop where
  size : after.size = before.size
  bytes : ∀ index, index < build.dataSize ∧ (index < 21 ∨ 25 ≤ index) ∨ before.stackAt ≤ index →
    after.byteAt index = before.byteAt index

/-- What a call has changed when the callee returns: the result lies below the arguments. -/
structure Returned (result : Option Value) (before after : Memory) : Prop extends build.Beneath before after where
  stack : after.stackAt + (result.elim 0 fun value => value.ty.size) = before.stackAt
  held : ∀ value ∈ result, value.Held after after.stackAt ∧ after.stackAt < 2 ^ 31 ∧
    after.stackAt + value.ty.size ≤ after.size

/-- Arguments have been pushed. -/
structure Pushed (values : List Value) (before after : Memory) : Prop extends build.Beneath before after where
  stack : after.stackAt + Ty.totalSize (values.map Value.ty) = before.stackAt
  held : ArgumentsAt after after.stackAt values

section Beneath

variable {build} {before between after : Memory} {home : build.Home} {pc : Nat}

theorem Beneath.refl (memory : Memory) : build.Beneath memory memory := ⟨rfl, fun _ _ => rfl⟩

theorem Beneath.trans (one : build.Beneath before between) (two : build.Beneath between after)
    (lower : between.stackAt ≤ before.stackAt) : build.Beneath before after :=
  ⟨two.size.trans one.size, fun index outside =>
    (two.bytes index (outside.imp_right lower.trans)).trans (one.bytes index outside)⟩

theorem Beneath.intAt (beneath : build.Beneath before after) {index : Nat} (inside : index + 4 ≤ build.dataSize)
    (apart : index + 4 ≤ 21 ∨ 25 ≤ index) : after.intAt index = before.intAt index :=
  Memory.intAt_congr fun offset among => beneath.bytes _ (.inl ⟨by omega, by omega⟩)

theorem Beneath.frameAt (beneath : build.Beneath before after) : after.frameAt = before.frameAt :=
  congrArg word (beneath.intAt build.dataSize_ge (.inr (Nat.le_refl 25)))

theorem Beneath.intact (beneath : build.Beneath before after) (intact : build.Intact before) :
    build.Intact after := by
  have data := build.dataSize_ge
  constructor
  · rw [beneath.size]
    exact intact.size
  · intro index among
    rw [beneath.bytes index (.inl ⟨by omega, by omega⟩)]
    exact intact.texts index among
  · intro index place here
    rw [beneath.intAt (cell_le here) (.inr (by omega))]
    exact intact.cells here

theorem Beneath.fine (beneath : build.Beneath before after) (fine : home.Fine pc before)
    (clear : ¬ home.Doomed pc before) (lower : after.stackAt ≤ before.stackAt) {pc' : Nat} : home.Fine pc' after := by
  refine ⟨beneath.intact fine.intact, fun place owns => ?_⟩
  obtain ⟨low, frame⟩ := fine.frame place owns
  have above := frame.resolve_right clear
  rw [beneath.frameAt]
  exact ⟨low, .inl (by omega)⟩

theorem Beneath.room (beneath : build.Beneath before after) {bound pc' : Nat} (room : home.Room bound pc before)
    (lower : after.stackAt ≤ before.stackAt)
    (spent : before.stackAt + home.pushes pc' ≤ after.stackAt + home.pushes pc) : home.Room bound pc' after := by
  obtain ⟨below, above, small, frame⟩ := room
  refine ⟨by omega, by rw [beneath.size]; omega, by rwa [beneath.size], fun place owns => ?_⟩
  have frame := frame place owns
  rw [beneath.size, beneath.frameAt]
  omega

theorem Beneath.matches (beneath : build.Beneath before after) (fine : home.Fine pc before)
    (clear : ¬ home.Doomed pc before) {names : Nest Binding} (visible : home.Visible names)
    {meanings : Nest Meaning} (same : names.Matches (build.Stored before) meanings) :
    names.Matches (build.Stored after) meanings := by
  refine Home.matches_congr fine beneath.size (beneath.intAt build.dataSize_ge (.inr (Nat.le_refl 25))) ?_ visible same
  rintro index (⟨low, data⟩ | above | doomed)
  · exact beneath.bytes index (.inl ⟨data, .inr (by omega)⟩)
  · exact beneath.bytes index (.inr above)
  · exact absurd doomed clear

end Beneath

theorem Pushed.cons {build : Build} {before between after : Memory} {value : Value} {values : List Value}
    (one : build.Pushed [value] between after) (others : build.Pushed values before between) :
    build.Pushed (value :: values) before after := by
  have stack : after.stackAt + (value.ty.size + 0) = between.stackAt := one.stack
  have stack' := others.stack
  refine ⟨others.toBeneath.trans one.toBeneath (by omega), ?_, one.held.1, ?_⟩
  · rw [List.map_cons, Ty.totalSize]
    omega
  · rw [show after.stackAt + value.ty.size = between.stackAt from stack]
    exact others.held.congr fun byte low => one.bytes byte (.inr low)

end Build

namespace Watch

variable (watch : Watch)

/-- Every point of deeper calls may be visited as long as what holds there does. -/
def Deep (depth : Nat) : Prop :=
  ∀ point : Point, depth < point.depth → watch.build.Good point.pc point.memory → watch.allowed point

/-- The functions of the program can be called, with calls nested up to `bound` deep. -/
def Callable (bound : Nat) (invoke : Timed.Invoke) : Prop :=
  ∀ place ∈ watch.build.places, ∀ values : List Value, values.map Value.ty = place.function.signature.parameters →
    ∀ {depth back : Nat} {stack : List Int32} {memory : Memory} {output : String}, watch.Deep depth →
      watch.build.Intact memory → back < watch.build.code.length → ArgumentsAt memory memory.stackAt values →
      memory.stackAt + place.argumentSize < 2 ^ 32 →
      (watch.lossy ∨ watch.build.dataSize + bound * watch.build.code.length ≤ memory.stackAt ∧
        memory.stackAt + place.argumentSize ≤ memory.size ∧ memory.size < 2 ^ 31) →
      watch.Follows bound ⟨place.start, Int32.ofNat back :: stack, memory, output, depth + 1⟩
        (invoke place.function values) fun result last =>
          last.pc = back ∧ last.stack = stack ∧ last.depth = depth ∧
            result.elim (place.function.result.ty = .void) (fun value => value.ty = place.function.result.ty) ∧
            watch.build.Returned result memory last.memory

/-- The state in which a part of a stretch is executed: the names that are visible have their
meanings, and there is room for what is to come unless the run may be lost. -/
structure Ready (home : watch.build.Home) (bound : Nat) (names : Nest Binding) (meanings : Nest Meaning)
    (pc : Nat) (memory : Memory) : Prop where
  fine : home.Fine pc memory
  room : watch.lossy ∨ home.Room bound pc memory
  same : names.Matches (watch.build.Stored memory) meanings

variable {watch} {home : watch.build.Home} {bound pc pc' : Nat} {names : Nest Binding} {meanings : Nest Meaning}
  {memory before after : Memory} {values : List Value}

theorem Ready.keeps (ready : watch.Ready home bound names meanings pc before) (visible : home.Visible names)
    (keeps : home.Keeps pc before after) (later : pc ≤ pc') : watch.Ready home bound names meanings pc' after :=
  ⟨keeps.fine ready.fine later, ready.room.imp_right fun room => keeps.room room later,
    keeps.matches ready.fine visible ready.same⟩

theorem Ready.later (ready : watch.Ready home bound names meanings pc memory) (later : pc ≤ pc') :
    watch.Ready home bound names meanings pc' memory :=
  ⟨ready.fine.later later, ready.room.imp_right fun room => room.later later, ready.same⟩

end Watch

end Stackwright
