import Stackwright.Proofs.Machine.Isolation
import Stackwright.Proofs.Machine.Steps

/-! The step limit only cuts runs short. A run that ends by itself takes a number of instructions that
belongs to the program and its memory. Any limit that allows so many shows the same run, and any smaller
one stops it on the way. -/

set_option autoImplicit false

namespace Stackwright

namespace Machine

/-- The state when the next instruction has been begun. -/
def State.counted (state : State) : State := { state with steps := state.steps + 1 }

/-- The state that an instruction leaves, however it ends. -/
def Outcome.state : Outcome → State
  | .running state | .halted state | .faulted _ state => state

theorem Op.steps_execute (op : Op) (codeSize : Nat) (state : State) :
    (op.execute codeSize state).state.steps = state.steps := by
  rw [show state = { state with steps := state.steps } from rfl, Op.execute_counting]
  cases op.execute codeSize state <;> rfl

/-- An instruction leaves what was printed before and only adds to it. -/
theorem Op.output_execute (op : Op) (codeSize : Nat) (state : State) :
    ∃ printed, (op.execute codeSize state).state.output = state.output ++ printed := by
  let fresh : State := { state with output := "" }
  have whole : fresh.after state.output = state := by
    rw [State.after, String.append_empty]
  have adds := op.execute_after codeSize fresh state.output
  rw [whole] at adds
  rw [adds]
  cases op.execute codeSize fresh <;> exact ⟨_, rfl⟩

/-- One instruction lies between the states: it is counted, and what it prints comes after what was printed
before. -/
structure State.Begins (state next : State) : Prop where
  steps : next.steps = state.steps + 1
  output : ∃ printed, next.output = state.output ++ printed

theorem State.begins_of_execute {op : Op} {codeSize : Nat} {state : State} {outcome : Outcome}
    (executed : op.execute codeSize state.counted = outcome) : state.Begins outcome.state :=
  executed ▸ ⟨op.steps_execute codeSize state.counted, op.output_execute codeSize state.counted⟩

/-- A run that ends by itself, after so many instructions were begun. -/
inductive Ends (code : Array Op) : (count : Nat) → State → Ending → Prop where
  | ranOff {state : State} : code[state.pc]? = none → Ends code 0 state ⟨some .ranOffEnd, state⟩
  | halts {state last : State} {op : Op} : code[state.pc]? = some op →
      op.execute code.size state.counted = .halted last → Ends code 1 state ⟨none, last⟩
  | faults {state last : State} {op : Op} {fault : Fault} : code[state.pc]? = some op →
      op.execute code.size state.counted = .faulted fault last → Ends code 1 state ⟨some fault, last⟩
  | step {count : Nat} {state next : State} {op : Op} {ending : Ending} : code[state.pc]? = some op →
      op.execute code.size state.counted = .running next → Ends code count next ending →
      Ends code (count + 1) state ending

variable {code : Array Op} {limit remaining count : Nat} {state : State} {ending : Ending}

theorem execute_of_running {next : State} {op : Op} (fetched : code[state.pc]? = some op)
    (executed : op.execute code.size state.counted = .running next) :
    execute code limit (remaining + 1) state = execute code limit remaining next := by
  rw [State.counted] at executed
  rw [execute, fetched]
  dsimp only
  rw [executed]

/-- A run that was not stopped by its limit has ended by itself, and within the limit. -/
theorem ends_of_execute (ended : ∀ limit', (execute code limit remaining state).fault ≠ some (.stepLimitExceeded limit')) :
    ∃ count ≤ remaining, Ends code count state (execute code limit remaining state) := by
  induction remaining generalizing state with
  | zero =>
    rw [execute] at ended ⊢
    cases fetched : code[state.pc]? with
    | none => exact ⟨0, Nat.le_refl 0, .ranOff fetched⟩
    | some op =>
      rw [fetched] at ended
      exact absurd rfl (ended limit)
  | succ remaining ih =>
    rw [execute] at ended ⊢
    cases fetched : code[state.pc]? with
    | none => exact ⟨0, Nat.zero_le _, .ranOff fetched⟩
    | some op =>
      rw [fetched] at ended
      dsimp only at ended ⊢
      cases executed : op.execute code.size { state with steps := state.steps + 1 } with
      | running next =>
        rw [executed] at ended
        obtain ⟨count, within, ends⟩ := ih ended
        exact ⟨count + 1, Nat.succ_le_succ within, .step fetched executed ends⟩
      | halted last => exact ⟨1, Nat.le_add_left .., .halts fetched executed⟩
      | faulted fault last => exact ⟨1, Nat.le_add_left .., .faults fetched executed⟩

namespace Ends

/-- Executing goes the way of the run if the limit allows it. -/
theorem execute_eq (ends : Ends code count state ending) (limit : Nat) (enough : count ≤ remaining) :
    execute code limit remaining state = ending := by
  induction ends generalizing remaining with
  | ranOff fetched => cases remaining <;> rw [execute, fetched]
  | halts fetched executed | faults fetched executed =>
    obtain ⟨remaining, rfl⟩ := Nat.exists_eq_succ_of_ne_zero (Nat.ne_of_gt enough)
    rw [execute, fetched]
    dsimp only
    rw [State.counted] at executed
    rw [executed]
  | step fetched executed _ ih =>
    obtain ⟨remaining, rfl⟩ := Nat.exists_eq_succ_of_ne_zero (Nat.ne_of_gt (Nat.lt_of_lt_of_le (Nat.succ_pos _) enough))
    rw [execute_of_running fetched executed]
    exact ih (Nat.le_of_succ_le_succ enough)

/-- Each instruction of the run is counted. -/
theorem steps_eq (ends : Ends code count state ending) : ending.state.steps = state.steps + count := by
  induction ends with
  | ranOff => rfl
  | halts _ executed | faults _ executed => exact (State.begins_of_execute executed).steps
  | @step count state next _ _ _ executed _ ih =>
    have begins : state.Begins next := State.begins_of_execute executed
    rw [ih, begins.steps, Nat.add_assoc, Nat.add_comm 1]

/-- The run leaves what was printed before it and only adds to it. -/
theorem output_eq (ends : Ends code count state ending) : ∃ printed, ending.state.output = state.output ++ printed := by
  induction ends with
  | ranOff => exact ⟨"", String.append_empty.symm⟩
  | halts _ executed | faults _ executed => exact (State.begins_of_execute executed).output
  | @step _ state next _ _ _ executed _ ih =>
    have begins : state.Begins next := State.begins_of_execute executed
    obtain ⟨printed, adds⟩ := begins.output
    obtain ⟨more, onward⟩ := ih
    exact ⟨printed ++ more, by rw [onward, adds, String.append_assoc]⟩

theorem fetched (ends : Ends code (count + 1) state ending) : ∃ op, code[state.pc]? = some op := by
  cases ends with
  | halts fetched _ | faults fetched _ | step fetched _ _ => exact ⟨_, fetched⟩

/-- A limit that comes before the end stops the run at the instruction that would exceed it, and what was
printed until then is what the whole run prints first. -/
theorem execute_of_lt (ends : Ends code count state ending) (limit : Nat) (few : remaining < count) :
    ∃ last printed rest, execute code limit remaining state = ⟨some (.stepLimitExceeded limit), last⟩ ∧
      last.steps = state.steps + remaining + 1 ∧ last.output = state.output ++ printed ∧
      ending.state.output = state.output ++ printed ++ rest := by
  induction remaining generalizing count state with
  | zero =>
    obtain ⟨rest, adds⟩ := ends.output_eq
    obtain ⟨more, rfl⟩ := Nat.exists_eq_succ_of_ne_zero (Nat.ne_of_gt few)
    obtain ⟨op, fetched⟩ := ends.fetched
    refine ⟨state.counted, "", rest, ?_, rfl, String.append_empty.symm, ?_⟩
    · rw [execute, fetched]
      rfl
    · rw [String.append_empty, adds]
  | succ remaining ih =>
    cases ends with
    | ranOff => exact absurd few (Nat.not_lt_zero _)
    | halts | faults => exact absurd few (by omega)
    | @step _ _ next _ _ fetched executed ends =>
      have begins : state.Begins next := State.begins_of_execute executed
      obtain ⟨first, adds⟩ := begins.output
      obtain ⟨last, printed, rest, stopped, steps, output, whole⟩ := ih ends (Nat.lt_of_succ_lt_succ few)
      refine ⟨last, first ++ printed, rest, ?_, ?_, ?_, ?_⟩
      · rw [execute_of_running fetched executed]
        exact stopped
      · rw [steps, begins.steps]
        omega
      · rw [output, adds, String.append_assoc]
      · rw [whole, adds]
        simp only [String.append_assoc]

end Ends

/-- The machine with another step limit. -/
def limited (machine : Machine) (limit : Nat) : Machine :=
  { machine with config := { machine.config with stepLimit := limit } }

/-- A run that is not stopped by its step limit is the same under every limit that allows its steps: it
gives the same result, and the machine is left with the same output, operand stack and step count. Every
smaller limit stops it: the instruction that exceeds the limit is counted, and what was printed is what
the whole run prints first. -/
theorem run_limited (machine : Machine) (code : Code)
    (ended : ∀ limit, (machine.run code).1 ≠ some (.stepLimitExceeded limit)) (limit : Nat) :
    ((machine.run code).2.steps ≤ limit →
      (machine.limited limit).run code = ((machine.run code).1, (machine.run code).2.limited limit)) ∧
    (limit < (machine.run code).2.steps →
      ((machine.limited limit).run code).1 = some (.stepLimitExceeded limit) ∧
      ((machine.limited limit).run code).2.steps = limit + 1 ∧
      ∃ printed rest, ((machine.limited limit).run code).2.output = machine.output ++ printed ∧
        (machine.run code).2.output = machine.output ++ printed ++ rest) := by
  cases loaded : Image.load code machine.config.memorySize with
  | error fault =>
    rw [run_of_error machine loaded, run_of_error (machine.limited limit) loaded]
    exact ⟨fun _ => rfl, fun few => absurd few (Nat.not_lt_zero _)⟩
  | ok image =>
    rw [run_of_ok machine loaded] at ended ⊢
    rw [run_of_ok (machine.limited limit) loaded]
    obtain ⟨count, -, ends⟩ := ends_of_execute ended
    have steps := ends.steps_eq.trans (Nat.zero_add count)
    refine ⟨fun enough => ?_, fun few => ?_⟩
    · have same := ends.execute_eq limit (steps.symm.trans_le enough)
      exact congrArg (fun ending => (ending.fault, (machine.limited limit).finish ending.state)) same
    · obtain ⟨last, printed, rest, stopped, counted, output, whole⟩ := ends.execute_of_lt limit (few.trans_eq steps)
      have cut : execute image.code (machine.limited limit).config.stepLimit (machine.limited limit).config.stepLimit
          (image.start (machine.limited limit).output) = _ := stopped
      rw [cut]
      have begun : (image.start machine.output).steps = 0 := rfl
      exact ⟨rfl, by rw [begun, Nat.zero_add] at counted; exact counted, printed, rest, output, whole⟩

/-- A program that prints and then takes more from the operand stack than there is. -/
def exhausted : Code :=
  [.withLabel .dataLabel "text", .withString .dataString "a", .withLabel .pushAddress "text", .plain .print,
    .plain .add, .plain .halt]

theorem run_limited_exhausted :
    ((starting ⟨2, 9⟩).run exhausted).1 = some (.stackUnderflow 4) ∧
    ((starting ⟨2, 9⟩).run exhausted).2.steps = 5 ∧
    (starting ⟨2, 5⟩).run exhausted =
      (some (.stackUnderflow 4), ((starting ⟨2, 9⟩).run exhausted).2.limited 5) ∧
    ((starting ⟨2, 4⟩).run exhausted).1 = some (.stepLimitExceeded 4) ∧
    ((starting ⟨2, 4⟩).run exhausted).2.steps = 5 ∧
    ∃ printed rest, ((starting ⟨2, 4⟩).run exhausted).2.output = "" ++ printed ∧ "a" = "" ++ printed ++ rest := by
  have fault : ((starting ⟨2, 9⟩).run exhausted).1 = some (.stackUnderflow 4) := by decide +kernel
  have steps : ((starting ⟨2, 9⟩).run exhausted).2.steps = 5 := by decide +kernel
  have output : ((starting ⟨2, 9⟩).run exhausted).2.output = "a" := by decide +kernel
  have ended : ∀ limit, ((starting ⟨2, 9⟩).run exhausted).1 ≠ some (.stepLimitExceeded limit) := by
    rw [fault]
    nofun
  have enough := (run_limited (starting ⟨2, 9⟩) exhausted ended 5).1 (by rw [steps])
  have few := (run_limited (starting ⟨2, 9⟩) exhausted ended 4).2 (by rw [steps]; decide)
  rw [fault] at enough
  rw [output] at few
  exact ⟨fault, steps, enough, few⟩

end Machine

end Stackwright
