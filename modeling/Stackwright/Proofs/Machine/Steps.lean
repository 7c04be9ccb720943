import Mathlib
import Stackwright.Machine.Run

/-! Runs of the machine, step by step. A step is a function of the point it starts from, so two runs
from one point agree as far as both of them go. -/

set_option autoImplicit false

namespace Stackwright.Machine

/-- Where a run is, apart from the number of instructions it took to get there. -/
structure Point where
  pc : Nat
  stack : List Int32
  memory : Memory
  output : String
  /-- How many calls are open, counted from somewhere earlier in the run. -/
  depth : Nat

def Point.state (point : Point) (steps : Nat) : State :=
  ⟨point.pc, point.stack, point.memory, point.output, steps⟩

/-- How many calls are open after an instruction. -/
def Op.depthAfter (op : Op) (depth : Nat) : Nat :=
  match op with
  | .call => depth + 1
  | .ret => depth - 1
  | _ => depth

/-- The point after the next instruction, unless the program ends with it or fails. -/
def advance (code : Array Op) (point : Point) : Option Point :=
  match code[point.pc]? with
  | none => none
  | some op =>
    match op.execute code.size (point.state 0) with
    | .running state => some ⟨state.pc, state.stack, state.memory, state.output, op.depthAfter point.depth⟩
    | .halted _ | .faulted _ _ => none

/-- What can be seen of a step: by how much the operand stack grows, and the text that is printed. -/
structure Beat where
  growth : Int
  text : String
  deriving DecidableEq, Repr

namespace Beat

/-- The step from one point to the next shows the beat. -/
def Fits (beat : Beat) (first second : Point) : Prop :=
  second.output = first.output ++ beat.text ∧ (second.stack.length : Int) = first.stack.length + beat.growth

/-- Everything that is printed. -/
def printed (beats : List Beat) : String := beats.foldr (fun beat rest => beat.text ++ rest) ""

/-- By how much the operand stack grows on the whole. -/
def grown (beats : List Beat) : Int := (beats.map growth).sum

end Beat

/-- Steps from one point to another, each of them from an allowed point, with what can be seen of them. -/
inductive Steps (code : Array Op) (allowed : Point → Prop) : List Beat → Point → Point → Prop where
  | refl {point : Point} : Steps code allowed [] point point
  | cons {beat : Beat} {beats : List Beat} {first second last : Point} :
      allowed first → advance code first = some second → beat.Fits first second →
      Steps code allowed beats second last → Steps code allowed (beat :: beats) first last

section Steps

variable {code : Array Op} {allowed allowed' : Point → Prop} {beats beats' : List Beat}
  {first second last other : Point}

theorem Steps.trans (one : Steps code allowed beats first second)
    (two : Steps code allowed beats' second last) : Steps code allowed (beats ++ beats') first last := by
  induction one with
  | refl => exact two
  | cons here step fits _ ih => exact .cons here step fits (ih two)

theorem Steps.mono (steps : Steps code allowed beats first last)
    (implies : ∀ point, allowed point → allowed' point) : Steps code allowed' beats first last := by
  induction steps with
  | refl => exact .refl
  | cons here step fits _ ih => exact .cons (implies _ here) step fits ih

/-- A longer run from the same point goes through the end of a shorter one. -/
theorem Steps.rest (short : Steps code allowed beats first second)
    (long : Steps code allowed' beats' first last) (le : beats.length ≤ beats'.length) :
    Steps code allowed' (beats'.drop beats.length) second last := by
  induction short generalizing beats' with
  | refl => exact long
  | @cons beat beats first next second _ step _ _ ih =>
    cases long with
    | refl => exact absurd le (Nat.not_succ_le_zero _)
    | cons _ step' _ others =>
      rw [step] at step'
      cases step'
      exact ih others (Nat.le_of_succ_le_succ le)

theorem Steps.allowed_of_pos (steps : Steps code allowed beats first last) (positive : 0 < beats.length) :
    allowed first := by
  cases steps with
  | refl => cases positive
  | cons here _ _ _ => exact here

theorem Steps.advance_of_pos (steps : Steps code allowed beats first last) (positive : 0 < beats.length) :
    advance code first ≠ none := by
  cases steps with
  | refl => cases positive
  | cons _ step _ _ =>
    rw [step]
    exact Option.some_ne_none _

/-- Two runs that both end at places they could not have started from are the same. -/
theorem Steps.unique (one : Steps code allowed beats first last) (two : Steps code allowed' beats' first other)
    (ended : ¬ allowed' last) (ended' : ¬ allowed other) : last = other := by
  rcases Nat.lt_trichotomy beats.length beats'.length with shorter | same | longer
  · refine absurd ((one.rest two (Nat.le_of_lt shorter)).allowed_of_pos ?_) ended
    rw [List.length_drop]
    omega
  · have none := one.rest two (Nat.le_of_eq same)
    rw [same, List.drop_length] at none
    cases none
    rfl
  · refine absurd ((two.rest one (Nat.le_of_lt longer)).allowed_of_pos ?_) ended'
    rw [List.length_drop]
    omega

/-- A run can be cut off after any number of steps. -/
theorem Steps.take (steps : Steps code allowed beats first last) (count : Nat) :
    ∃ between, Steps code allowed (beats.take count) first between := by
  induction steps generalizing count with
  | refl => exact ⟨_, by rw [List.take_nil]; exact .refl⟩
  | cons here step fits _ ih =>
    cases count with
    | zero => exact ⟨_, .refl⟩
    | succ count =>
      obtain ⟨between, rest⟩ := ih count
      exact ⟨between, .cons here step fits rest⟩

theorem Steps.output_eq (steps : Steps code allowed beats first last) :
    last.output = first.output ++ Beat.printed beats := by
  induction steps with
  | refl => rw [Beat.printed, List.foldr_nil, String.append_empty]
  | cons _ _ fits _ ih => rw [ih, fits.1, String.append_assoc, Beat.printed, Beat.printed, List.foldr_cons]

theorem Steps.height_eq (steps : Steps code allowed beats first last) :
    (last.stack.length : Int) = first.stack.length + Beat.grown beats := by
  induction steps with
  | refl => rw [Beat.grown, List.map_nil, List.sum_nil, Int.add_zero]
  | cons _ _ fits _ ih => rw [ih, fits.2, Int.add_assoc, Beat.grown, Beat.grown, List.map_cons, List.sum_cons]

end Steps

/-- The same outcome with another number of instructions. -/
def Outcome.counting (outcome : Outcome) (steps : Nat) : Outcome :=
  match outcome with
  | .running state => .running { state with steps := steps }
  | .halted state => .halted { state with steps := steps }
  | .faulted fault state => .faulted fault { state with steps := steps }

/-- What an instruction does has nothing to do with how many there were before. -/
theorem Op.execute_counting (op : Op) (codeSize steps : Nat) (state : State) :
    op.execute codeSize { state with steps := steps } = (op.execute codeSize state).counting steps := by
  cases op
  case print =>
    simp only [Op.execute, State.print]
    repeat' split
    all_goals simp_all [State.underflow, State.fail, State.next, Outcome.counting]
  all_goals
    simp only [Op.execute, State.binary, State.jumpIf, State.load, State.store, State.enter]
    repeat' split
    all_goals simp_all [State.underflow, State.fail, State.next, State.goto, Outcome.counting]

variable {code : Array Op} {allowed : Point → Prop} {beats : List Beat} {limit remaining steps : Nat} {first last : Point}

theorem execute_of_advance (step : advance code first = some last) :
    execute code limit (remaining + 1) (first.state steps) = execute code limit remaining (last.state (steps + 1)) := by
  unfold advance at step
  rw [execute]
  cases fetched : code[first.pc]? with
  | none => simp [fetched] at step
  | some op =>
    rw [fetched] at step
    dsimp only at step
    have fetched' : code[(first.state steps).pc]? = some op := fetched
    rw [fetched']
    dsimp only
    have same := Op.execute_counting op code.size (steps + 1) (first.state 0)
    rw [show { first.state steps with steps := (first.state steps).steps + 1 } =
      ({ first.state 0 with steps := steps + 1 } : State) from rfl, same]
    split at step
    next state ran =>
      cases step
      rw [ran]
      rfl
    all_goals cases step

/-- Executing a program follows its steps. -/
theorem execute_of_steps (run : Steps code allowed beats first last) :
    execute code limit (beats.length + remaining) (first.state steps) =
      execute code limit remaining (last.state (steps + beats.length)) := by
  induction run generalizing steps with
  | refl => rw [List.length_nil, Nat.zero_add, Nat.add_zero]
  | @cons beat beats first second last _ step _ _ ih =>
    rw [List.length_cons, Nat.add_right_comm, execute_of_advance step, ih, Nat.add_assoc, Nat.add_comm 1]

/-- An instruction over the limit is not executed. -/
theorem execute_of_fetch {op : Op} (fetched : code[first.pc]? = some op) :
    execute code limit 0 (first.state steps) = ⟨some (.stepLimitExceeded limit), first.state (steps + 1)⟩ := by
  rw [execute]
  have fetched' : code[(first.state steps).pc]? = some op := fetched
  rw [fetched']
  rfl

theorem fetch_of_advance (step : advance code first = some last) : ∃ op, code[first.pc]? = some op := by
  unfold advance at step
  cases fetched : code[first.pc]? with
  | none => simp [fetched] at step
  | some op => exact ⟨op, rfl⟩

theorem fetch_of_pos (run : Steps code allowed beats first last) (positive : 0 < beats.length) :
    ∃ op, code[first.pc]? = some op := by
  cases run with
  | refl => cases positive
  | cons _ step _ _ => exact fetch_of_advance step

/-- A run that could go on exceeds its limit; what was done until then is what can be seen of as many
steps. -/
theorem execute_of_long {count : Nat} (run : Steps code allowed beats first last) (long : count ≤ beats.length)
    (goesOn : count = beats.length → ∃ op, code[last.pc]? = some op) :
    ∃ between, execute code limit count (first.state steps) =
        ⟨some (.stepLimitExceeded limit), between.state (steps + count + 1)⟩ ∧
      Steps code allowed (beats.take count) first between := by
  obtain ⟨between, short⟩ := run.take count
  have few : (beats.take count).length = count := by
    rw [List.length_take, Nat.min_eq_left long]
  have rest := short.rest run (by omega)
  have more : ∃ op, code[between.pc]? = some op := by
    rw [few] at rest
    rcases Nat.eq_or_lt_of_le long with same | less
    · rw [same, List.drop_length] at rest
      cases rest
      exact goesOn same
    · refine fetch_of_pos rest ?_
      rw [List.length_drop]
      omega
  obtain ⟨op, fetched⟩ := more
  have executed : execute code limit ((beats.take count).length + 0) (first.state steps) =
      execute code limit 0 (between.state (steps + (beats.take count).length)) := execute_of_steps short
  rw [few, Nat.add_zero] at executed
  exact ⟨between, executed.trans (execute_of_fetch fetched), short⟩

/-- A run that comes to a halt within its limit ends well. -/
theorem execute_of_halt (run : Steps code allowed beats first last) (halts : code[last.pc]? = some .halt) :
    execute code limit (beats.length + (remaining + 1)) (first.state steps) =
      ⟨none, last.state (steps + beats.length + 1)⟩ := by
  rw [execute_of_steps run, execute]
  have halts' : code[(last.state (steps + beats.length)).pc]? = some .halt := halts
  rw [halts']
  rfl

end Stackwright.Machine
