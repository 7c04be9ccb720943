import Stackwright.Session

/-! Sessions over any history of actions. A session keeps code only while it is the code of its
source, so what it runs is always what compiling the source anew would give. -/

set_option autoImplicit false

namespace Stackwright.Session

/-- What can be done to a session. -/
inductive Action where
  | setSource (name source : String)
  | updateSource (source : String)
  | build
  | run
  | clear
  | setConfig (config : Machine.Config)

/-- The session after an action, whatever the action answered. -/
def perform (session : Session) : Action → Session
  | .setSource name source => (session.setSource name source).2
  | .updateSource source => (session.updateSource source).2
  | .build => session.build.2
  | .run => session.run.2
  | .clear => session.clear
  | .setConfig config => session.setConfig config

def performAll (session : Session) (actions : List Action) : Session := actions.foldl perform session

/-- The session was made with the given options, and code that it keeps is the code of its source. -/
structure Current (options : CompileOptions) (session : Session) : Prop where
  made : session.options = options
  code : ∀ code, session.code = some code → ∃ source, session.source = some source ∧
    session.isPending = false ∧ session.diagnostics = [] ∧ compile source options = .ok code

variable {options : CompileOptions} {session : Session}

theorem Current.code_eq_none_of_source (current : session.Current options) (absent : session.source = none) :
    session.code = none := by
  cases kept : session.code with
  | none => rfl
  | some code =>
    obtain ⟨source, found, _⟩ := current.code code kept
    rw [absent] at found
    cases found

theorem Current.code_eq_none_of_isPending (current : session.Current options) (pending : session.isPending = true) :
    session.code = none := by
  cases kept : session.code with
  | none => rfl
  | some code =>
    obtain ⟨source, _, settled, _⟩ := current.code code kept
    rw [pending] at settled
    cases settled

/-- A session without code is current whatever else it holds. -/
theorem current_of_code_eq_none (made : session.options = options) (absent : session.code = none) :
    session.Current options := by
  refine ⟨made, fun code kept => ?_⟩
  rw [absent] at kept
  cases kept

section Build

theorem build_of_source_eq_none (absent : session.source = none) : session.build = (.error .noSource, session) := by
  rw [build, absent]

variable {source : String} (found : session.source = some source)

include found

/-- A build that succeeds keeps the code of the source. -/
theorem build_of_compile_eq_ok {code : Code} (compiles : compile source session.options = .ok code) :
    session.build = (.ok code, { session with code := some code, diagnostics := [], isPending := false }) := by
  rw [build, found]
  unfold compile at compiles
  cases parsed : Program.parse source with
  | error faults => simp [parsed] at compiles
  | ok program =>
    cases generated : program.compile session.options with
    | error diagnostics => simp [parsed, generated] at compiles
    | ok generatedCode =>
      simp only [parsed, generated, Except.ok.injEq] at compiles
      subst compiles
      simp only [parsed, generated]

/-- A build that fails keeps no code, whatever the source failed at. -/
theorem build_of_compile_eq_error {failure : Failure} (fails : compile source session.options = .error failure) :
    session.build.1 = .error (.failed failure) ∧ session.build.2.code = none ∧
      session.build.2.options = session.options := by
  rw [build, found]
  unfold compile at fails
  cases parsed : Program.parse source with
  | error faults =>
    simp only [parsed, Except.error.injEq] at fails
    subst fails
    simp only [parsed, and_self]
  | ok program =>
    cases generated : program.compile session.options with
    | ok code => simp [parsed, generated] at fails
    | error diagnostics =>
      simp only [parsed, generated, Except.error.injEq] at fails
      subst fails
      simp only [parsed, generated, and_self]

end Build

theorem build_fst_eq_ok_iff (made : session.options = options) (code : Code) :
    session.build.1 = .ok code ↔ ∃ source, session.source = some source ∧ compile source options = .ok code := by
  subst made
  cases found : session.source with
  | none => simp [build_of_source_eq_none found]
  | some source =>
    cases compiled : compile source session.options with
    | ok other => simp [build_of_compile_eq_ok found compiled, compiled]
    | error failure => simp [(build_of_compile_eq_error found compiled).1, compiled]

theorem Current.build (current : session.Current options) : session.build.2.Current options := by
  cases found : session.source with
  | none =>
    rw [build_of_source_eq_none found]
    exact current
  | some source =>
    cases compiled : compile source session.options with
    | ok code =>
      rw [build_of_compile_eq_ok found compiled]
      refine ⟨current.made, fun kept same => ?_⟩
      cases same
      exact ⟨source, found, rfl, rfl, current.made ▸ compiled⟩
    | error failure =>
      obtain ⟨_, absent, made⟩ := build_of_compile_eq_error found compiled
      exact current_of_code_eq_none (made.trans current.made) absent

/-- Either the session already holds code, or it is built now. -/
theorem ensureBuilt_eq (session : Session) :
    session.ensureBuilt =
      if session.isPending || session.code.isNone then (session.build.1.map fun _ => (), session.build.2)
      else (.ok (), session) := by
  unfold ensureBuilt
  split
  · rcases session.build with ⟨_ | _, _⟩ <;> rfl
  · rfl

/-- Once a session is built, it holds the code of its source. -/
theorem Current.ensureBuilt_of_compile (current : session.Current options) {source : String} {code : Code}
    (found : session.source = some source) (compiles : compile source options = .ok code) :
    session.ensureBuilt.1 = .ok () ∧ session.ensureBuilt.2.code = some code ∧
      session.ensureBuilt.2.config = session.config := by
  rw [ensureBuilt_eq]
  split
  · rw [build_of_compile_eq_ok found (current.made ▸ compiles)]
    exact ⟨rfl, rfl, rfl⟩
  · refine ⟨rfl, ?_, rfl⟩
    -- The code that is there is that of the same source.
    cases kept : session.code with
    | none => simp_all
    | some other =>
      obtain ⟨_, same, _, _, compiled⟩ := current.code other kept
      rw [found, Option.some.injEq] at same
      rw [← same, compiles, Except.ok.injEq] at compiled
      rw [compiled]

/-- A session whose source does not compile holds no code to fall back on. -/
theorem Current.ensureBuilt_of_not_compile (current : session.Current options)
    (fails : ∀ source code, session.source = some source → compile source options ≠ .ok code) :
    ∃ error, session.ensureBuilt.1 = .error error ∧ error ≠ .notBuilt := by
  have absent : session.code = none := by
    cases kept : session.code with
    | none => rfl
    | some code =>
      obtain ⟨source, found, _, _, compiled⟩ := current.code code kept
      exact absurd compiled (fails source code found)
  have builds : (session.isPending || session.code.isNone) = true := by simp [absent]
  rw [ensureBuilt_eq, if_pos builds]
  cases found : session.source with
  | none =>
    rw [build_of_source_eq_none found]
    exact ⟨.noSource, rfl, nofun⟩
  | some source =>
    cases compiled : compile source session.options with
    | ok code => exact absurd (current.made ▸ compiled) (fails source code found)
    | error failure =>
      rw [(build_of_compile_eq_error found compiled).1]
      exact ⟨.failed failure, rfl, nofun⟩

theorem Current.ensureBuilt (current : session.Current options) : session.ensureBuilt.2.Current options := by
  rw [ensureBuilt_eq]
  split
  · exact current.build
  · exact current

/-- A run changes nothing that building would not change. -/
theorem run_snd (session : Session) : session.run.2 = session.ensureBuilt.2 := by
  unfold run
  rcases session.ensureBuilt with ⟨_ | _, built⟩
  · rfl
  · dsimp only
    cases built.code with
    | none => rfl
    | some code =>
      dsimp only
      rcases (Machine.starting built.config).run code with ⟨_ | _, _⟩ <;> rfl

theorem Current.run_of_compile (current : session.Current options) {source : String} {code : Code}
    (found : session.source = some source) (compiles : compile source options = .ok code) :
    session.run.1 =
      match (Machine.starting session.config).run code with
      | (none, machine) => .ok machine.output
      | (some fault, _) => .error (.failed (.runtime fault)) := by
  obtain ⟨succeeds, kept, config⟩ := current.ensureBuilt_of_compile found compiles
  rw [run]
  rcases built : session.ensureBuilt with ⟨answer, after⟩
  rw [built] at succeeds kept config
  simp only at succeeds kept config
  rw [succeeds]
  simp only [kept, config]
  rcases (Machine.starting session.config).run code with ⟨_ | _, _⟩ <;> rfl

theorem Current.run_of_not_compile (current : session.Current options)
    (fails : ∀ source code, session.source = some source → compile source options ≠ .ok code) :
    ∃ error, session.run.1 = .error error ∧ error ≠ .notBuilt := by
  obtain ⟨error, stopped, other⟩ := current.ensureBuilt_of_not_compile fails
  refine ⟨error, ?_, other⟩
  rw [run]
  rcases built : session.ensureBuilt with ⟨answer, after⟩
  rw [built] at stopped
  simp only at stopped
  rw [stopped]

/-- The source compiles, or nothing that is the source does. -/
theorem compiles_or_not (session : Session) (options : CompileOptions) :
    (∃ source code, session.source = some source ∧ compile source options = .ok code) ∨
      ∀ source code, session.source = some source → compile source options ≠ .ok code := by
  by_cases compiles : ∃ source code, session.source = some source ∧ compile source options = .ok code
  · exact .inl compiles
  · exact .inr fun source code found compiled => compiles ⟨source, code, found, compiled⟩

theorem Current.run_fst_eq_ok_iff (current : session.Current options) (output : String) :
    session.run.1 = .ok output ↔ ∃ source code machine, session.source = some source ∧
      compile source options = .ok code ∧ (Machine.starting session.config).run code = (none, machine) ∧
      machine.output = output := by
  rcases session.compiles_or_not options with ⟨source, code, found, compiled⟩ | fails
  · rw [current.run_of_compile found compiled]
    rcases ran : (Machine.starting session.config).run code with ⟨_ | fault, machine⟩
    · simp [found, compiled, ran]
    · simp [found, compiled, ran]
  · obtain ⟨error, stopped, _⟩ := current.run_of_not_compile fails
    rw [stopped]
    constructor
    · intro same
      cases same
    · rintro ⟨source, code, _, found, compiled, _⟩
      exact absurd compiled (fails source code found)

theorem Current.run_fst_ne_notBuilt (current : session.Current options) : session.run.1 ≠ .error .notBuilt := by
  rcases session.compiles_or_not options with ⟨source, code, found, compiled⟩ | fails
  · rw [current.run_of_compile found compiled]
    rcases (Machine.starting session.config).run code with ⟨_ | fault, machine⟩ <;> simp
  · obtain ⟨error, stopped, other⟩ := current.run_of_not_compile fails
    rw [stopped]
    intro same
    cases same
    exact other rfl

theorem Current.setSource (current : session.Current options) (name source : String) :
    (session.setSource name source).2.Current options := by
  unfold Session.setSource
  cases found : session.source with
  | some _ => exact current
  | none => exact current_of_code_eq_none current.made (current.code_eq_none_of_source found)

theorem Current.updateSource (current : session.Current options) (source : String) :
    (session.updateSource source).2.Current options := by
  unfold Session.updateSource
  cases session.source with
  | none => exact current
  | some _ =>
    dsimp only
    split
    · exact current
    · exact current_of_code_eq_none current.made rfl

/-- No action leaves code behind that is not the code of the source. -/
theorem Current.perform (current : session.Current options) (action : Action) :
    (session.perform action).Current options := by
  cases action with
  | setSource name source => exact current.setSource name source
  | updateSource source => exact current.updateSource source
  | build => exact current.build
  | run =>
    change session.run.2.Current options
    rw [run_snd]
    exact current.ensureBuilt
  | clear => exact current_of_code_eq_none current.made rfl
  | setConfig config => exact ⟨current.made, current.code⟩

theorem Current.performAll (current : session.Current options) (actions : List Action) :
    (session.performAll actions).Current options := by
  induction actions generalizing session with
  | nil => exact current
  | cons action rest ih => exact ih (current.perform action)

theorem current_starting (options : CompileOptions) : (starting options).Current options :=
  current_of_code_eq_none rfl rfl

/-- After any history, the code of a session is the code of its source, building and running give what
compiling the source anew gives, and a run is never refused for want of code. -/
theorem performAll_current (options : CompileOptions) (actions : List Action) :
    let session := (starting options).performAll actions
    (∀ code, session.code = some code → ∃ source, session.source = some source ∧
      session.isPending = false ∧ session.diagnostics = [] ∧ compile source options = .ok code) ∧
    (session.isPending = true → session.code = none) ∧
    (∀ code, session.build.1 = .ok code ↔
      ∃ source, session.source = some source ∧ compile source options = .ok code) ∧
    (∀ code, session.build.1 = .ok code → session.build.2.code = some code) ∧
    (∀ output, session.run.1 = .ok output ↔ ∃ source code machine, session.source = some source ∧
      compile source options = .ok code ∧ (Machine.starting session.config).run code = (none, machine) ∧
      machine.output = output) ∧
    session.run.1 ≠ .error .notBuilt := by
  intro session
  have current : session.Current options := (current_starting options).performAll actions
  refine ⟨current.code, current.code_eq_none_of_isPending, build_fst_eq_ok_iff current.made, ?_,
    current.run_fst_eq_ok_iff, current.run_fst_ne_notBuilt⟩
  intro code succeeds
  obtain ⟨source, found, compiled⟩ := (build_fst_eq_ok_iff current.made code).mp succeeds
  rw [build_of_compile_eq_ok found (current.made ▸ compiled)]

end Stackwright.Session
