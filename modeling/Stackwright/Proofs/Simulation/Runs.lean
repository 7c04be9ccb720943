import Stackwright.Proofs.Simulation.Names
import Stackwright.Proofs.Timing

/-! Runs of a build, compared with what the program means. A run follows a computation if it shows the
same beats and comes to a point that holds the result. A run may also be lost: it fails, or it stores
something of the call stack over the data. -/

set_option autoImplicit false

namespace Stackwright

open Machine

/-- The instruction at an index sets one of the two pointers. -/
def Code.SetsPointer (code : Code) (pc : Nat) : Prop :=
  ∃ pointer ∈ [Reserved.stackPointer, Reserved.framePointer],
    Code.storeTo pointer <:+ Code.stripComments (code.take (pc + 1))

/-- The next instruction stores something of the call stack over the data. All code of functions
stores on the call stack only; the code before it does so at the stack pointer. -/
def Code.Spills (code : Code) (dataSize : Nat) (point : Point) : Prop :=
  ∃ instruction value address rest, code[point.pc]? = some instruction ∧
    (instruction.opcode = .storeInt ∨ instruction.opcode = .storeByte) ∧ ¬ code.SetsPointer point.pc ∧
    point.stack = value :: address :: rest ∧ word address < dataSize ∧
    ((∃ earlier ∈ code.take point.pc, earlier.opcode = .halt) ∨ address = point.memory.intAt 21)

section SetsPointer

variable {build : Build} {pc : Nat} {code : Code} {first second store : Instruction}

theorem Build.At.stripComments_take (stands : build.At pc (code ++ [store])) :
    Code.stripComments (build.code.take (pc + code.length + 1)) =
      Code.stripComments (build.code.take pc) ++ (Code.stripComments code ++ [store.stripComment]) := by
  have taken := stands.take
  rw [List.length_append, ← Nat.add_assoc] at taken
  change Code.stripComments (build.code.take (pc + code.length + [store].length)) = _
  rw [taken, Code.stripComments, List.map_append, List.map_append]
  rfl

/-- A store that does not come right after an exchange sets no pointer. -/
theorem not_setsPointer_of_opcode (stands : build.At pc (code ++ [first] ++ [store]))
    (kind : first.opcode ≠ .exchange) : ¬ build.code.SetsPointer (pc + (code ++ [first]).length) := by
  rintro ⟨pointer, _, before, same⟩
  rw [stands.stripComments_take, Code.stripComments, Code.stripComments, List.map_append] at same
  have ends : before ++ [Instruction.withLabel .pushAddress pointer] ++ [Instruction.plain .exchange, .plain .storeInt] =
      (build.code.take pc).map Instruction.stripComment ++ code.map Instruction.stripComment ++
        [first.stripComment, store.stripComment] := by
    simpa [Code.storeTo] using same
  have last := (List.append_inj' ends rfl).2
  injection last with exchange _
  exact kind (congrArg Instruction.opcode exchange).symm

theorem not_setsPointer_of_getLast {last : Instruction} (stands : build.At pc (code ++ [store]))
    (ends : code.getLast? = some last) (kind : last.opcode ≠ .exchange) :
    ¬ build.code.SetsPointer (pc + code.length) := by
  have whole := List.dropLast_append_getLast? last ends
  rw [← whole] at stands ⊢
  exact not_setsPointer_of_opcode stands kind

/-- Nor does a store after an exchange of something else than the address of a pointer. -/
theorem not_setsPointer_of_exchange (stands : build.At pc (code ++ [first, second] ++ [store]))
    (kind : first.opcode ≠ .pushAddress) : ¬ build.code.SetsPointer (pc + (code ++ [first, second]).length) := by
  rintro ⟨pointer, _, before, same⟩
  rw [stands.stripComments_take, Code.stripComments, Code.stripComments, List.map_append] at same
  have ends : before ++ [Instruction.withLabel .pushAddress pointer, .plain .exchange, .plain .storeInt] =
      (build.code.take pc).map Instruction.stripComment ++ code.map Instruction.stripComment ++
        [first.stripComment, second.stripComment, store.stripComment] := by
    simpa [Code.storeTo] using same
  have last := (List.append_inj' ends rfl).2
  injection last with push _
  exact kind (congrArg Instruction.opcode push).symm

end SetsPointer

theorem Machine.Op.length_of_rearrangeBinary {operation : Int32 → Int32 → Int32} {stack stack' : List Int32}
    (ran : Op.rearrangeBinary operation stack = some stack') : stack.length = stack'.length + 1 := by
  unfold Op.rearrangeBinary at ran
  split at ran
  · cases ran
    rfl
  · cases ran

theorem Machine.Op.length_of_rearrangeLoad {read : Int32 → Except Int Int32} {stack stack' : List Int32}
    (ran : Op.rearrangeLoad read stack = some stack') : stack'.length = stack.length := by
  unfold Op.rearrangeLoad at ran
  split at ran
  · obtain ⟨value, _, rfl⟩ := Option.map_eq_some_iff.mp ran
    rfl
  · cases ran

/-- By how much an instruction that only works on the operand stack makes it grow. -/
theorem Build.growth_of_rearrange (build : Build) {instruction : Instruction} (member : instruction ∈ build.code)
    {memory : Memory} {stack stack' : List Int32}
    (ran : (build.op instruction).rearrange memory stack = some stack') :
    (stack'.length : Int) = stack.length + instruction.opcode.growth := by
  obtain ⟨op, resolved⟩ := build.exists_resolve member
  have same : build.op instruction = op := by
    rw [Build.op, Layout.op, resolved]
  rw [same] at ran
  have mapped {value : Type} {make : value → Op} {found : Except Fault value} (ok : found.map make = .ok op) :
      ∃ operand, op = make operand := by
    cases found with
    | error fault => cases ok
    | ok operand => exact ⟨operand, (Except.ok.inj ok).symm⟩
  unfold Layout.resolve at resolved
  cases kind : instruction.opcode <;> simp only [kind] at resolved <;> simp only [Opcode.growth]
  case add | subtract | multiply =>
    cases resolved
    have shorter := Op.length_of_rearrangeBinary ran
    omega
  case loadInt | loadByte =>
    cases resolved
    have same := Op.length_of_rearrangeLoad ran
    omega
  case jump | jumpFalse | jumpTrue | jumpPositive =>
    obtain ⟨target, rfl⟩ := mapped resolved
    cases ran
  case pushAddress =>
    obtain ⟨value, rfl⟩ := mapped resolved
    cases ran
    rfl
  case pop | duplicate | negate =>
    cases resolved
    cases stack with
    | nil => cases ran
    | cons top rest =>
      cases ran
      simp only [List.length_cons]
      omega
  case exchange =>
    cases resolved
    cases stack with
    | nil => cases ran
    | cons top rest =>
      cases rest with
      | nil => cases ran
      | cons below rest =>
        cases ran
        rfl
  all_goals
    cases resolved
    cases ran
  all_goals simp

/-- Instructions that only work on the operand stack, from points that may be visited. -/
theorem Build.At.straight {build : Build} {allowed : Point → Prop} {pc depth : Nat} {code : Code} {memory : Memory}
    {output : String} {stack stack' : List Int32} (stands : build.At pc code)
    (may : ∀ point : Point, point.depth = depth → pc ≤ point.pc → point.pc < pc + code.length →
      point.memory = memory → allowed point)
    (ran : Op.rearrangeAll memory (code.map build.op) stack = some stack') :
    Steps build.ops allowed code.beats ⟨pc, stack, memory, output, depth⟩
      ⟨pc + code.length, stack', memory, output, depth⟩ := by
  induction code generalizing pc stack with
  | nil =>
    cases ran
    exact .refl
  | cons instruction rest ih =>
    obtain ⟨next, here, later⟩ := Option.bind_eq_some_iff.mp ran
    have advances : advance build.ops ⟨pc, stack, memory, output, depth⟩ = _ :=
      advance_of_rearrange stands.fetch here
    have grows := build.growth_of_rearrange (List.mem_of_getElem? stands.getElem?) here
    have tail : build.At (pc + 1) rest := Build.At.right (show build.At pc ([instruction] ++ rest) from stands)
    have others := ih tail (fun point deep low high => may point deep (by omega) (by rw [List.length_cons]; omega)) later
    rw [Nat.add_right_comm] at others
    refine .cons (may _ rfl (Nat.le_refl pc) (Nat.lt_add_of_pos_right (Nat.succ_pos _)) rfl) advances ?_ others
    exact ⟨String.append_empty.symm, grows⟩

/-- What is asked of the runs of a build: which points they may go through, and whether they may be
lost. -/
structure Watch where
  build : Build
  allowed : Point → Prop
  lossy : Prop

namespace Watch

variable (watch : Watch)

/-- Steps that show the beats, each of them from an allowed point. -/
abbrev Run (beats : List Beat) (first last : Point) : Prop := Steps watch.build.ops watch.allowed beats first last

/-- The run from a point comes to one that has the property. -/
def Reaches (point : Point) (goal : Point → Prop) : Prop := ∃ beats last, watch.Run beats point last ∧ goal last

/-- The run from a point fails or spills. -/
def Lost (point : Point) : Prop :=
  watch.lossy ∧ watch.Reaches point fun last => watch.allowed last ∧
    (advance watch.build.ops last = none ∨ watch.build.code.Spills watch.build.dataSize last)

/-- The run from a point comes to one that has the property, if it is not lost. -/
def Tends (point : Point) (goal : Point → Prop) : Prop := watch.Lost point ∨ watch.Reaches point goal

/-- The run from a point follows a computation. One that ran out of its bound takes at least `count`
steps. -/
def Follows {α : Type} (count : Nat) (point : Point) (run : Timed α) (goal : α → Point → Prop) : Prop :=
  watch.Lost point ∨
    match run.ending with
    | .ok value => ∃ last, watch.Run run.beats point last ∧ goal value last
    | .error .timeout => count ≤ run.beats.length ∧ ∃ last, watch.Run run.beats point last
    | .error .stuck => True

/-- A segment of a stretch of code, every point of which may be visited. -/
structure Segment (home : watch.build.Home) (depth pc : Nat) (code : Code) : Prop where
  stands : watch.build.At pc code
  start : home.start ≤ pc
  stop : pc + code.length ≤ home.stop
  allowed : ∀ point : Point, point.depth = depth → pc ≤ point.pc → point.pc < pc + code.length →
    home.Fine point.pc point.memory → watch.allowed point

variable {watch}

section Follows

variable {α β : Type} {count count' : Nat} {point between : Point} {beats : List Beat} {run : Timed α}
  {goal better : α → Point → Prop}

theorem Lost.after (steps : watch.Run beats point between) (lost : watch.Lost between) : watch.Lost point := by
  obtain ⟨lossy, beats', last, rest, ends⟩ := lost
  exact ⟨lossy, beats ++ beats', last, steps.trans rest, ends⟩

theorem Tends.here {goal : Point → Prop} (reached : goal point) : watch.Tends point goal :=
  .inr ⟨[], point, .refl, reached⟩

theorem Tends.next {goal goal' : Point → Prop} (one : watch.Tends point goal)
    (two : ∀ last, goal last → watch.Tends last goal') : watch.Tends point goal' := by
  rcases one with lost | ⟨beats, between, steps, reached⟩
  · exact .inl lost
  · rcases two between reached with lost | ⟨beats', last, rest, reached'⟩
    · exact .inl (lost.after steps)
    · exact .inr ⟨beats ++ beats', last, steps.trans rest, reached'⟩

theorem Tends.step {goal : Point → Prop} (steps : watch.Run beats point between) (tends : watch.Tends between goal) :
    watch.Tends point goal :=
  Tends.next (.inr ⟨beats, between, steps, rfl⟩) fun _ same => same ▸ tends

theorem Tends.lost {goal : Point → Prop} (tends : watch.Tends point goal) (lost : ∀ last, goal last → watch.Lost last) :
    watch.Lost point := by
  rcases tends with here | ⟨beats, last, steps, reached⟩
  · exact here
  · exact (lost last reached).after steps

/-- Steps that the computation has beats for. -/
theorem Follows.after {fewer : Nat} (steps : watch.Run beats point between)
    (follows : watch.Follows count between run goal) (le : fewer ≤ beats.length + count) :
    watch.Follows fewer point (Timed.emit beats >>= fun _ => run) goal := by
  obtain ⟨beats', ending⟩ := run
  rcases follows with lost | follows
  · exact .inl (lost.after steps)
  · match ending with
    | .ok value =>
      obtain ⟨last, rest, reached⟩ := follows
      exact .inr ⟨last, steps.trans rest, reached⟩
    | .error .timeout =>
      obtain ⟨long, last, rest⟩ := follows
      have long : count ≤ beats'.length := long
      have total : (beats ++ beats').length = beats.length + beats'.length := List.length_append
      exact .inr ⟨by change fewer ≤ (beats ++ beats').length; omega, last, steps.trans rest⟩
    | .error .stuck => exact .inr trivial

theorem Follows.step (steps : watch.Run beats point between) (follows : watch.Follows count between run goal) :
    watch.Follows count point (Timed.emit beats >>= fun _ => run) goal :=
  follows.after steps (Nat.le_add_left _ _)

/-- Steps whose beats come in two parts. -/
theorem Follows.joined {first second : List Beat}
    (follows : watch.Follows count point (do Timed.emit first; Timed.emit second; run) goal)
    (same : beats = first ++ second) : watch.Follows count point (do Timed.emit beats; run) goal := by
  rwa [same, Timed.emit_append]

theorem Follows.mono (follows : watch.Follows count point run goal)
    (implies : ∀ value last, goal value last → better value last) : watch.Follows count point run better := by
  unfold Follows at follows ⊢
  rcases follows with lost | follows
  · exact .inl lost
  · right
    match ended : run.ending with
    | .ok value =>
      rw [ended] at follows
      obtain ⟨last, steps, reached⟩ := follows
      exact ⟨last, steps, implies value last reached⟩
    | .error .timeout =>
      rw [ended] at follows
      exact follows
    | .error .stuck => trivial

/-- A computation that is at its end. -/
theorem Follows.here {value : α} (reached : goal value point) :
    watch.Follows count point (pure value) goal :=
  .inr ⟨point, .refl, reached⟩

/-- Steps to the end of a computation. -/
theorem Follows.emit {last : Point} {goal : Unit → Point → Prop} (steps : watch.Run beats point last)
    (reached : goal () last) : watch.Follows count point (Timed.emit beats) goal :=
  .inr ⟨last, steps, reached⟩

theorem Follows.stuck : watch.Follows count point (.stuck : Timed α) goal := .inr trivial

/-- One computation after the other. -/
theorem Follows.bind {follow : α → Timed β} {goal' : β → Point → Prop}
    (one : watch.Follows count point run goal)
    (two : ∀ value last, goal value last → watch.Follows count last (follow value) goal') :
    watch.Follows count point (run >>= follow) goal' := by
  obtain ⟨beats, ending⟩ := run
  rcases one with lost | one
  · exact .inl lost
  · match ending with
    | .ok value =>
      obtain ⟨between, steps, reached⟩ := one
      exact (two value between reached).step steps
    | .error .timeout => exact .inr one
    | .error .stuck => exact .inr trivial

/-- A run that is lost follows any computation. -/
theorem Lost.follows (lost : watch.Lost point) : watch.Follows count point run goal := .inl lost

/-- A run that follows a computation to an end that cannot be is lost. -/
theorem Follows.lost (follows : watch.Follows 0 point (do Timed.emit beats; return ()) fun _ _ => False) :
    watch.Lost point := by
  rcases follows with lost | ⟨_, _, impossible⟩
  · exact lost
  · exact impossible.elim

end Follows

section Segment

variable {home : watch.build.Home} {depth pc : Nat} {first second code : Code} {stack stack' : List Int32}
  {memory : Memory} {output : String}

theorem Segment.left (segment : watch.Segment home depth pc (first ++ second)) :
    watch.Segment home depth pc first := by
  have stop := segment.stop
  rw [List.length_append] at stop
  refine ⟨segment.stands.left, segment.start, by omega, fun point deep low high => ?_⟩
  exact segment.allowed point deep low (by rw [List.length_append]; omega)

theorem Segment.right (segment : watch.Segment home depth pc (first ++ second)) :
    watch.Segment home depth (pc + first.length) second := by
  have start := segment.start
  have stop := segment.stop
  rw [List.length_append] at stop
  refine ⟨segment.stands.right, by omega, by omega, fun point deep low high => ?_⟩
  exact segment.allowed point deep (by omega) (by rw [List.length_append]; omega)

theorem Segment.tail {instruction : Instruction} (segment : watch.Segment home depth pc (instruction :: code)) :
    watch.Segment home depth (pc + 1) code :=
  Segment.right (show watch.Segment home depth pc ([instruction] ++ code) from segment)

theorem Segment.drop (segment : watch.Segment home depth pc code) {skipped : Nat} (within : skipped ≤ code.length) :
    watch.Segment home depth (pc + skipped) (code.drop skipped) := by
  have whole : watch.Segment home depth pc (code.take skipped ++ code.drop skipped) := by
    rwa [List.take_append_drop]
  have rest := whole.right
  rwa [List.length_take, Nat.min_eq_left within] at rest

/-- The point at the first instruction of a segment may be visited. -/
theorem Segment.allowed_here {instruction : Instruction}
    (segment : watch.Segment home depth pc (instruction :: code)) (fine : home.Fine pc memory) :
    watch.allowed ⟨pc, stack, memory, output, depth⟩ :=
  segment.allowed _ rfl (Nat.le_refl pc) (Nat.lt_add_of_pos_right (Nat.succ_pos _)) fine

/-- One step, of the first instruction of a segment. -/
theorem Segment.step {instruction : Instruction} {last : Point} {beat : Beat}
    (segment : watch.Segment home depth pc (instruction :: code)) (fine : home.Fine pc memory)
    (advances : advance watch.build.ops ⟨pc, stack, memory, output, depth⟩ = some last)
    (fits : beat.Fits ⟨pc, stack, memory, output, depth⟩ last) :
    watch.Run [beat] ⟨pc, stack, memory, output, depth⟩ last :=
  .cons (segment.allowed_here fine) advances fits .refl

/-- One step that prints nothing. -/
theorem Segment.quietStep {instruction : Instruction} {pc' depth' : Nat} {memory' : Memory}
    (segment : watch.Segment home depth pc (instruction :: code)) (fine : home.Fine pc memory)
    (advances : advance watch.build.ops ⟨pc, stack, memory, output, depth⟩ =
      some ⟨pc', stack', memory', output, depth'⟩)
    (grows : (stack'.length : Int) = stack.length + instruction.opcode.growth) :
    watch.Run (Code.beats [instruction]) ⟨pc, stack, memory, output, depth⟩ ⟨pc', stack', memory', output, depth'⟩ :=
  segment.step fine advances ⟨String.append_empty.symm, grows⟩

/-- Instructions that only work on the operand stack. -/
theorem Segment.straight (segment : watch.Segment home depth pc code) (fine : home.Fine pc memory)
    (ran : Op.rearrangeAll memory (code.map watch.build.op) stack = some stack') :
    watch.Run code.beats ⟨pc, stack, memory, output, depth⟩
      ⟨pc + code.length, stack', memory, output, depth⟩ :=
  segment.stands.straight (fun point deep low high same => segment.allowed point deep low high (same ▸ fine.later low)) ran

end Segment

end Watch

end Stackwright
