import Stackwright.Machine.Run

/-! Runs on one machine have nothing to do with each other. What was printed before stays in front of
what a run prints and has no part in anything else, and everything else begins afresh. -/

set_option autoImplicit false

namespace Stackwright

namespace Machine

theorem Format.write_append (memory : Memory) (pc : Nat) (format before : String) (chars : List Char)
    (values : List Int32) (output : String) :
    Format.write memory pc format chars values (before ++ output) =
      (before ++ (Format.write memory pc format chars values output).1,
        (Format.write memory pc format chars values output).2) := by
  have push (c : Char) (output : String) : (before ++ output).push c = before ++ output.push c := by
    rw [String.push_eq_append, String.push_eq_append, String.append_assoc]
  fun_induction Format.write memory pc format chars values output with
  | case1 values output => rfl
  | case2 values output rest ih =>
    rw [Format.write, push]
    exact ih
  | case3 values output rest ih =>
    rw [Format.write, String.append_assoc]
    exact ih
  | case4 values output rest text read ih =>
    simp only [Format.write, read, String.append_assoc]
    exact ih
  | case5 values output rest failed read => simp only [Format.write, read]
  | case6 values output rest notEscape notInt notText => rw [Format.write] <;> assumption
  | case7 values output c rest plain ih =>
    rw [Format.write, push]
    · exact ih
    · assumption

/-- The same state with something printed before. -/
def State.after (state : State) (before : String) : State := { state with output := before ++ state.output }

/-- The same outcome with something printed before. -/
def Outcome.after (outcome : Outcome) (before : String) : Outcome :=
  match outcome with
  | .running state => .running (state.after before)
  | .halted state => .halted (state.after before)
  | .faulted fault state => .faulted fault (state.after before)

theorem State.print_after (state : State) (before : String) : (state.after before).print = state.print.after before := by
  obtain ⟨pc, stack, memory, output, steps⟩ := state
  cases stack with
  | nil => rfl
  | cons address rest =>
    simp only [State.print, State.after]
    cases memory.readText address with
    | error failed => rfl
    | ok format =>
      dsimp only
      split
      · rfl
      · rw [Format.write_append]
        cases (Format.write memory pc format format.toList
          ((rest.take (Format.conversions format.toList)).reverse) output).2 <;> rfl

/-- What was printed before stays in front of what an instruction prints. -/
theorem Op.execute_after (op : Op) (codeSize : Nat) (state : State) (before : String) :
    op.execute codeSize (state.after before) = (op.execute codeSize state).after before := by
  cases op
  case print => exact state.print_after before
  all_goals
    simp only [Op.execute, State.binary, State.jumpIf, State.load, State.store, State.enter, State.after]
    repeat' split
    all_goals rfl

/-- The same ending with something printed before. -/
def Ending.after (ending : Ending) (before : String) : Ending := ⟨ending.fault, ending.state.after before⟩

theorem execute_after (code : Array Op) (limit remaining : Nat) (state : State) (before : String) :
    execute code limit remaining (state.after before) = (execute code limit remaining state).after before := by
  induction remaining generalizing state with
  | zero =>
    have here : (state.after before).pc = state.pc := rfl
    rw [execute, execute, here]
    cases code[state.pc]? <;> rfl
  | succ remaining ih =>
    have here : (state.after before).pc = state.pc := rfl
    have counted : (⟨state.pc, (state.after before).stack, (state.after before).memory,
        (state.after before).output, (state.after before).steps + 1⟩ : State) =
      State.after { state with steps := state.steps + 1 } before := rfl
    rw [execute, execute, here, counted]
    cases code[state.pc]? with
    | none => rfl
    | some op =>
      dsimp only
      rw [op.execute_after code.size { state with steps := state.steps + 1 } before]
      cases op.execute code.size { state with steps := state.steps + 1 } with
      | running next => exact ih next
      | halted last => rfl
      | faulted fault last => rfl

variable (machine : Machine) {code : Code}

theorem run_of_error {fault : Fault} (loaded : Image.load code machine.config.memorySize = .error fault) :
    machine.run code =
      (some fault, { machine.reset with memory := Image.memoryAfter (.zeroed machine.config.memorySize) code }) := by
  have loaded : Image.loadInto machine.reset.memory code = .error fault := loaded
  rw [run]
  dsimp only
  rw [loaded]
  rfl

theorem run_of_ok {image : Image} (loaded : Image.load code machine.config.memorySize = .ok image) :
    machine.run code =
      ((execute image.code machine.config.stepLimit machine.config.stepLimit (image.start machine.output)).fault,
        machine.finish
          (execute image.code machine.config.stepLimit machine.config.stepLimit (image.start machine.output)).state) := by
  have loaded : Image.loadInto machine.reset.memory code = .ok image := loaded
  rw [run]
  dsimp only
  rw [loaded]
  rfl

end Machine

/-- A run does what it does on a new machine, and adds what is printed there to the output. -/
theorem Machine.run_eq_fresh (machine : Machine) (code : Code) :
    machine.run code = (((starting machine.config).run code).1,
      { ((starting machine.config).run code).2 with
        output := machine.output ++ ((starting machine.config).run code).2.output }) := by
  cases loaded : Image.load code machine.config.memorySize with
  | error fault =>
    have same : machine.output ++ "" = machine.output := String.append_empty
    rw [machine.run_of_error loaded, (starting machine.config).run_of_error loaded]
    simp only [starting, reset, same]
  | ok image =>
    have start : image.start machine.output = (image.start "").after machine.output := by
      simp only [Image.start, State.after, String.append_empty]
    rw [machine.run_of_ok loaded, (starting machine.config).run_of_ok loaded, start, execute_after]
    rfl

/-- What can be done with a machine. -/
inductive Machine.Use where
  | run (code : Code)
  | takeOutput

namespace Machine

/-- The machine after it was used, and the text that was taken from it. -/
def use (machine : Machine) : Use → Machine × String
  | .run code => ((machine.run code).2, "")
  | .takeOutput => (machine.takeOutput.2, machine.takeOutput.1)

/-- The machine after it was used many times, and all text that was taken from it. -/
def useAll (machine : Machine) : List Use → Machine × String
  | [] => (machine, "")
  | first :: rest =>
    let next := machine.use first
    let last := next.1.useAll rest
    (last.1, next.2 ++ last.2)

/-- What is printed if a machine is new. -/
def Use.freshOutput (config : Config) : Use → String
  | .run code => ((starting config).run code).2.output
  | .takeOutput => ""

theorem config_use (machine : Machine) (use : Use) : (machine.use use).1.config = machine.config := by
  cases use with
  | run code =>
    change (machine.run code).2.config = _
    rw [run_eq_fresh]
    cases loaded : Image.load code machine.config.memorySize with
    | error fault => rw [(starting machine.config).run_of_error loaded]; rfl
    | ok image => rw [(starting machine.config).run_of_ok loaded]; rfl
  | takeOutput => rfl

theorem config_useAll (machine : Machine) (uses : List Use) : (machine.useAll uses).1.config = machine.config := by
  induction uses generalizing machine with
  | nil => rfl
  | cons first rest ih => exact (ih _).trans (machine.config_use first)

/-- Nothing that is printed gets lost, and taking the output changes nothing else. -/
theorem output_use (machine : Machine) (use : Use) :
    (machine.use use).2 ++ (machine.use use).1.output = machine.output ++ use.freshOutput machine.config := by
  cases use with
  | run code =>
    change "" ++ (machine.run code).2.output = _
    rw [machine.run_eq_fresh, String.empty_append]
    rfl
  | takeOutput => rfl

theorem output_useAll (machine : Machine) (uses : List Use) :
    (machine.useAll uses).2 ++ (machine.useAll uses).1.output =
      machine.output ++ String.join (uses.map (Use.freshOutput machine.config)) := by
  induction uses generalizing machine with
  | nil => exact String.empty_append.trans String.append_empty.symm
  | cons first rest ih =>
    have later := ih (machine.use first).1
    rw [config_use] at later
    change (machine.use first).2 ++ ((machine.use first).1.useAll rest).2 ++ ((machine.use first).1.useAll rest).1.output = _
    rw [String.append_assoc, later, ← String.append_assoc, output_use, List.map_cons, String.append_assoc]
    simp [String.join_cons]

/-- However a machine was used, a further run ends like one on a new machine, with the same memory, operand
stack and number of steps, and what it prints comes after what was printed before. All that was taken,
and what is left, is what the runs print on new machines, one after the other. -/
theorem runs_isolated (config : Config) (uses : List Use) :
    (∀ code, (((starting config).useAll uses).1.run code).1 = ((starting config).run code).1 ∧
      (((starting config).useAll uses).1.run code).2.memory = ((starting config).run code).2.memory ∧
      (((starting config).useAll uses).1.run code).2.stack = ((starting config).run code).2.stack ∧
      (((starting config).useAll uses).1.run code).2.steps = ((starting config).run code).2.steps ∧
      (((starting config).useAll uses).1.run code).2.output =
        ((starting config).useAll uses).1.output ++ ((starting config).run code).2.output) ∧
    ((starting config).useAll uses).2 ++ ((starting config).useAll uses).1.output =
      String.join (uses.map (Use.freshOutput config)) := by
  constructor
  · intro code
    have same : ((starting config).useAll uses).1.config = config := config_useAll _ _
    rw [run_eq_fresh ((starting config).useAll uses).1, same]
    exact ⟨rfl, rfl, rfl, rfl, rfl⟩
  · rw [output_useAll]
    exact String.empty_append

end Machine

end Stackwright
