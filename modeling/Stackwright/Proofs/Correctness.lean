import Stackwright.Proofs.Build.Options
import Stackwright.Proofs.Simulation.Program

/-! Compiled programs run as their source says. A machine with enough memory prints what the meaning of
the program prints and ends with nothing on its operand stack; for as many steps as it is given, nothing
else can happen but that they are not enough. How much memory is enough is said outright: neither the data
nor a call takes more bytes than the code has instructions, so the length of the code will do for each level
of calls. -/

set_option autoImplicit false

namespace Stackwright

open Machine

variable {source : String} {options : CompileOptions} {code : Code}

/-- A source text that compiles gives a build, whose code is what was compiled. -/
theorem exists_build (accepted : compile source options = .ok code) (environment : options.emitEnvironment = true)
    (short : code.length < 2 ^ 31) :
    ∃ build : Build, Program.parse source = .ok build.program ∧ build.analysis = build.program.analyze ∧
      code = options.shown build.code := by
  obtain ⟨checked, parsed, analysis, lead, rfl⟩ := exists_compiles accepted
  have same : checked.program.generate checked.analysis options = options.shown checked.code := by
    rw [Checked.generate_eq_shown lead, environment]
    rfl
  rw [same, options.length_shown] at short
  exact ⟨⟨checked, short⟩, parsed, analysis, same⟩

/-- Annotations have no part in a run. -/
theorem Machine.run_shown (machine : Machine) (options : CompileOptions) (code : Code) :
    machine.run (options.shown code) = machine.run code :=
  (options.loadsLike_shown code).run_eq machine

namespace Build

variable (build : Build)

/-- The program of a build never gets stuck. -/
theorem perform_ne_stuck (bound : Nat) (output : String) : build.program.perform bound output ≠ .error .stuck := by
  have sound := build.placed.wellFormed.sound build.legible bound output
  intro stuck
  rw [stuck] at sound
  cases sound

theorem timed_ne_stuck (bound : Nat) : (build.program.timed bound).ending ≠ .error .stuck := by
  intro stuck
  refine build.perform_ne_stuck bound "" ?_
  rw [← Program.erase_timed, Timed.erase, stuck]

variable {build}

/-- What is printed is what can be seen of the steps. -/
theorem timed_of_perform {bound : Nat} {output : String} (ends : build.program.perform bound "" = .ok ((), output)) :
    (build.program.timed bound).ending = .ok () ∧ output = Beat.printed (build.program.timed bound).beats := by
  rw [← Program.erase_timed, Timed.erase] at ends
  cases ended : (build.program.timed bound).ending with
  | error stop =>
    rw [ended] at ends
    cases ends
  | ok value =>
    rw [ended] at ends
    refine ⟨rfl, ?_⟩
    rw [← (Prod.mk.inj (Except.ok.inj ends)).2, String.empty_append]

end Build

/-- The meaning of a source text that compiles never gets stuck, and if it comes to an end with calls nested
no deeper than some bound, then there is a number of steps that every machine takes for the code, if it has
memory for so many calls and may take the steps: it comes to its end, prints the same and leaves nothing on
the operand stack. -/
theorem compile_correct (accepted : compile source options = .ok code) (environment : options.emitEnvironment = true)
    (short : code.length < 2 ^ 31) :
    ∃ program, Program.parse source = .ok program ∧ (∀ bound, program.perform bound "" ≠ .error .stuck) ∧
      ∀ bound output, program.perform bound "" = .ok ((), output) → ∃ steps, ∀ config : Config,
        (bound + 2) * code.length ≤ config.memorySize → config.memorySize ≤ 2 ^ 31 - 1 → steps ≤ config.stepLimit →
          ((starting config).run code).1 = none ∧ ((starting config).run code).2.output = output ∧
            ((starting config).run code).2.stack = [] ∧ ((starting config).run code).2.steps = steps := by
  obtain ⟨build, parsed, _, rfl⟩ := exists_build accepted environment short
  refine ⟨build.program, parsed, fun bound => build.perform_ne_stuck bound "", fun bound output ends => ?_⟩
  obtain ⟨ended, rfl⟩ := Build.timed_of_perform ends
  refine ⟨(build.program.timed bound).beats.length + 1, ?_⟩
  rintro ⟨size, limit⟩ enough small long
  rw [options.length_shown] at enough
  have shown : (build.program.timed bound).Shown limit _ _ :=
    Build.shown_run enough (Nat.lt_of_le_pred (by decide) small) (build.timed_ne_stuck bound)
      (by rw [ended]; nofun)
  rw [Machine.run_shown]
  exact shown.ended ended long

/-- A way to see that a given source text compiles to code that is not too long, and what it prints. -/
theorem exists_short_of_any {most : Nat}
    (compiles : (compile source options).toOption.any (fun code => decide (code.length ≤ most)) = true) :
    ∃ code, compile source options = .ok code ∧ code.length ≤ most := by
  obtain ⟨code, accepted, short⟩ := exists_compile_of_any compiles
  exact ⟨code, accepted, of_decide_eq_true short⟩

theorem perform_of_any {program : Program} {bound : Nat} {output : String} (parsed : Program.parse source = .ok program)
    (ends : (Program.parse source).toOption.any (fun program =>
      (program.perform bound "").toOption.any fun result => result.2 == output) = true) :
    program.perform bound "" = .ok ((), output) := by
  rw [parsed] at ends
  cases ended : program.perform bound "" with
  | error stop =>
    have ends : (program.perform bound "").toOption.any _ = true := ends
    rw [ended] at ends
    cases ends
  | ok result =>
    have ends : (program.perform bound "").toOption.any _ = true := ends
    rw [ended] at ends
    exact congrArg (fun text => Except.ok ((), text)) (eq_of_beq ends)

/-- Calls of depth one, in a memory of a thousand bytes. -/
theorem compile_correct_nested_call : ∃ code,
    compile "func int less(int n) \x7b return n - 1; \x7d main \x7b print less(less(7)) > 4; \x7d" ⟨true, "", true⟩ =
        .ok code ∧
      ∃ steps, ∀ limit, steps ≤ limit → ((starting ⟨1000, limit⟩).run code).1 = none ∧
        ((starting ⟨1000, limit⟩).run code).2.output = "true" ∧ ((starting ⟨1000, limit⟩).run code).2.stack = [] ∧
          ((starting ⟨1000, limit⟩).run code).2.steps = steps := by
  obtain ⟨code, accepted, short⟩ := exists_short_of_any (by decide +kernel :
    (compile "func int less(int n) \x7b return n - 1; \x7d main \x7b print less(less(7)) > 4; \x7d"
      ⟨true, "", true⟩).toOption.any (fun code => decide (code.length ≤ 200)) = true)
  obtain ⟨program, parsed, _, runs⟩ := compile_correct accepted rfl (by omega)
  obtain ⟨steps, runs⟩ := runs 1 "true" (perform_of_any parsed (by decide +kernel))
  have enough : (1 + 2) * code.length ≤ 1000 := by omega
  exact ⟨code, accepted, steps, fun limit => runs ⟨1000, limit⟩ enough (show 1000 ≤ 2 ^ 31 - 1 by decide)⟩

/-- Whatever a source text that compiles does, and for as many steps as it may take, if there is memory for
a call in each of the steps then its run either comes to its end, with nothing on the operand stack, or takes
more steps than it may. -/
theorem compile_safe (accepted : compile source options = .ok code) (environment : options.emitEnvironment = true)
    (short : code.length < 2 ^ 31) (limit : Nat) :
    ∀ size, (limit + 3) * code.length ≤ size → size ≤ 2 ^ 31 - 1 →
      ((starting ⟨size, limit⟩).run code).1 = none ∧ ((starting ⟨size, limit⟩).run code).2.stack = [] ∨
        ((starting ⟨size, limit⟩).run code).1 = some (.stepLimitExceeded limit) := by
  obtain ⟨build, _, _, rfl⟩ := exists_build accepted environment short
  intro size enough small
  rw [options.length_shown] at enough
  have shown : (build.program.timed (limit + 1)).Shown limit _ _ :=
    Build.shown_run enough (Nat.lt_of_le_pred (by decide) small) (build.timed_ne_stuck _) fun _ => Nat.lt_succ_self limit
  rw [Machine.run_shown]
  by_cases ends : (build.program.timed (limit + 1)).ending = .ok () ∧ (build.program.timed (limit + 1)).beats.length < limit
  · obtain ⟨fault, _, stack, _⟩ := shown.ended ends.1 ends.2
    exact .inl ⟨fault, stack⟩
  · exact .inr (shown.exceeded fun ended => Nat.le_of_not_lt fun less => ends ⟨ended, less⟩).1

/-- A program that calls itself without end, in a memory of one megabyte. -/
theorem compile_safe_endless : ∃ code,
    compile "func int more(int n) \x7b return more(n + 1); \x7d main \x7b print more(0); \x7d" ⟨true, "", true⟩ =
        .ok code ∧
      (((starting ⟨0x100000, 5000⟩).run code).1 = none ∧ ((starting ⟨0x100000, 5000⟩).run code).2.stack = [] ∨
        ((starting ⟨0x100000, 5000⟩).run code).1 = some (.stepLimitExceeded 5000)) := by
  obtain ⟨code, accepted, short⟩ := exists_short_of_any (by decide +kernel :
    (compile "func int more(int n) \x7b return more(n + 1); \x7d main \x7b print more(0); \x7d"
      ⟨true, "", true⟩).toOption.any (fun code => decide (code.length ≤ 200)) = true)
  have enough : (5000 + 3) * code.length ≤ 0x100000 := by omega
  exact ⟨code, accepted, compile_safe accepted rfl (by omega) 5000 0x100000 enough (by decide)⟩

end Stackwright
