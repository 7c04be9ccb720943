import Stackwright.Proofs.Simulation.Start

/-! Whole programs. A run of a build follows the meaning of its program from the first instruction to
the one that ends it, as long as there is memory for calls that nest as deep as the bound. -/

set_option autoImplicit false

namespace Stackwright

open Machine Checked

namespace Build

variable (build : Build)

/-- The stretch of code of the main block. -/
def mainHome : build.Home :=
  .ofSegment build.at_main.left <| by
    have length := build.code_length
    have main := build.main_length
    omega

theorem mainAt_le_haltAt : build.mainAt ≤ build.haltAt := Nat.le_add_right _ _

variable {build} {pc : Nat} {memory : Memory}

/-- Before the functions it does not matter where a frame is. -/
theorem Good.of_le_haltAt (early : pc ≤ build.haltAt) (intact : build.mainAt ≤ pc → build.Intact memory) :
    build.Good pc memory := by
  refine ⟨intact, fun {place} member low _ => ?_⟩
  have start := haltAt_lt_start member
  rw [Place.bodyStart] at low
  omega

theorem visible_main : build.mainHome.Visible [(Function.cells build.program.functions).reverse] := by
  have flat : [(Function.cells build.program.functions).reverse].flatten =
      (Function.cells build.program.functions).reverse := by
    rw [List.flatten_cons, List.flatten_nil, List.append_nil]
  constructor
  · intro entry member
    rw [flat, List.mem_reverse] at member
    exact .inr (isCell_of_mem member)
  · rw [flat]
    exact List.pairwise_reverse.mpr ((cellsFrom_apart _).imp Binding.Apart.symm)
  · intro _ index place here
    have inProgram : build.program.functions[index]? = some place.function := by
      rw [← build.map_function_places, List.getElem?_map, here]
      rfl
    refine ⟨(place.function.name.text, place.function.cell index), ?_, rfl⟩
    rw [flat, List.mem_reverse, Function.cells_eq]
    obtain ⟨below, same⟩ := List.getElem?_eq_some_iff.mp inProgram
    exact List.mem_mapIdx.mpr ⟨index, below, by rw [same]⟩

theorem setting_main : build.mainHome.Setting (globalArea (build.analysis.sizeOf build.program.node.id)) none none :=
  ⟨rfl, nofun, nofun⟩

theorem pushes_main_le : build.dataSize + build.mainHome.pushes build.mainAt ≤ 2 * build.code.length := by
  have proper := build.mainHome.proper
  have data := build.dataSize_le
  have pushes : build.mainHome.pushes build.mainAt = 4 * Code.count ((build.code.take
    build.mainHome.stop).drop build.mainHome.start) .exchange := rfl
  rw [← pushes] at proper
  omega

end Build

namespace Watch

variable {watch : Watch} (may : ∀ point : Point, watch.build.Good point.pc point.memory → watch.allowed point)

include may

theorem deep_of_good (depth : Nat) : watch.Deep depth := fun point _ good => may point good

theorem segment_main : watch.Segment watch.build.mainHome 0 watch.build.mainAt watch.build.main :=
  ⟨watch.build.at_main.left, Nat.le_refl _, Nat.le_refl _, fun point _ _ high fine =>
    may point (.of_le_haltAt (Nat.le_of_lt high) fun _ => fine.intact)⟩

/-- A run follows the meaning of the program. -/
theorem follows_program {bound size : Nat} {output : String} (fits : watch.build.dataSize ≤ size)
    (room : watch.lossy ∨ (bound + 2) * watch.build.code.length ≤ size ∧ size < 2 ^ 31) :
    watch.Follows bound ⟨0, [], Build.memory size, output, 0⟩ (watch.build.program.timed bound) fun _ last =>
      last.pc = watch.build.haltAt ∧ last.stack = [] := by
  have early (point : Point) (before : point.pc < watch.build.mainAt) : watch.allowed point :=
    may point (.of_le_haltAt (Nat.le_trans (Nat.le_of_lt before) watch.build.mainAt_le_haltAt) fun late => by omega)
  obtain ⟨memory, steps, intact, memorySize, stackAt⟩ := Build.starts early fits
  have ready : watch.Ready watch.build.mainHome bound [(Function.cells watch.build.program.functions).reverse]
      [Function.meanings watch.build.program.functions] watch.build.mainAt memory := by
    refine ⟨intact.fine_of_unowned rfl, room.imp_right fun ⟨enough, small⟩ => ?_, .cons (watch.build.matches_cells memory) .nil⟩
    have pushes := watch.build.pushes_main_le
    rw [Nat.add_mul] at enough
    exact ⟨by omega, by omega, by omega, nofun⟩
  rw [Program.timed, ← Timed.emit_append]
  refine Follows.step steps (Follows.bind (watch.build.placed.main.follows (deep_of_good may 0) (watch.callable bound)
    Build.setting_main Build.visible_main (segment_main may) ready) ?_)
  rintro (meanings | value) _ ⟨after, output, _, reached⟩
  · obtain ⟨rfl, _⟩ := reached
    exact Follows.here ⟨rfl, rfl⟩
  · obtain ⟨_, _, impossible, _⟩ := reached
    cases impossible

end Watch

/-- What a machine shows of a run when it may take `limit` steps: all of it if the run comes to an end
before, and else what can be seen of the first steps. -/
structure Timed.Shown (run : Timed Unit) (limit : Nat) (fault : Option Fault) (machine : Machine) : Prop where
  ended : run.ending = .ok () → run.beats.length < limit →
    fault = none ∧ machine.output = Beat.printed run.beats ∧ machine.stack = [] ∧ machine.steps = run.beats.length + 1
  exceeded : (run.ending = .ok () → limit ≤ run.beats.length) →
    fault = some (.stepLimitExceeded limit) ∧ machine.output = Beat.printed (run.beats.take limit) ∧
      (machine.stack.length : Int) = Beat.grown (run.beats.take limit) ∧ machine.steps = limit + 1

namespace Build

variable {build : Build} {bound size limit : Nat} {allowed : Point → Prop} {beats : List Beat} {last : Point}

/-- Where a machine begins to run the build. -/
def startPoint (size : Nat) : Point := ⟨0, [], Build.memory size, "", 0⟩

theorem run_code (fits : build.dataSize ≤ size) : (Machine.starting ⟨size, limit⟩).run build.code =
    ((execute build.ops limit limit ((startPoint size).state 0)).fault,
      (Machine.starting ⟨size, limit⟩).finish (execute build.ops limit limit ((startPoint size).state 0)).state) := by
  have loaded : Image.load build.code (Machine.starting ⟨size, limit⟩).config.memorySize = _ := build.load_code fits
  rw [(Machine.starting ⟨size, limit⟩).run_of_ok loaded]
  rfl

/-- A run that takes more steps than it may. -/
theorem run_of_long (fits : build.dataSize ≤ size) (steps : Steps build.ops allowed beats (startPoint size) last)
    (long : limit ≤ beats.length) (goesOn : limit = beats.length → ∃ op, build.ops[last.pc]? = some op) :
    ((Machine.starting ⟨size, limit⟩).run build.code).1 = some (.stepLimitExceeded limit) ∧
      ((Machine.starting ⟨size, limit⟩).run build.code).2.output = Beat.printed (beats.take limit) ∧
      (((Machine.starting ⟨size, limit⟩).run build.code).2.stack.length : Int) = Beat.grown (beats.take limit) ∧
      ((Machine.starting ⟨size, limit⟩).run build.code).2.steps = limit + 1 := by
  obtain ⟨between, executed, prior⟩ := execute_of_long steps long goesOn
  rw [run_code fits, executed]
  refine ⟨rfl, prior.output_eq.trans String.empty_append, prior.height_eq.trans (Int.zero_add _), ?_⟩
  change 0 + limit + 1 = limit + 1
  omega

/-- A run that comes to the last instruction within its limit. -/
theorem run_of_halt (fits : build.dataSize ≤ size) (steps : Steps build.ops allowed beats (startPoint size) last)
    (less : beats.length < limit) (atHalt : last.pc = build.haltAt) :
    ((Machine.starting ⟨size, limit⟩).run build.code).1 = none ∧
      ((Machine.starting ⟨size, limit⟩).run build.code).2.output = Beat.printed beats ∧
      ((Machine.starting ⟨size, limit⟩).run build.code).2.stack = last.stack ∧
      ((Machine.starting ⟨size, limit⟩).run build.code).2.steps = beats.length + 1 := by
  have halts : build.ops[last.pc]? = some .halt := by
    rw [atHalt]
    exact build.at_main.right.fetch
  rw [run_code fits]
  obtain ⟨remaining, rfl⟩ := Nat.exists_eq_add_of_lt less
  rw [Nat.add_assoc, execute_of_halt steps halts]
  refine ⟨rfl, steps.output_eq.trans String.empty_append, rfl, ?_⟩
  change 0 + beats.length + 1 = beats.length + 1
  omega

/-- Every point is allowed, and no run may be lost. -/
def watching (build : Build) : Watch := ⟨build, fun _ => True, False⟩

/-- With enough memory, a machine shows what the meaning of the program says. -/
theorem shown_run (enough : (bound + 2) * build.code.length ≤ size) (small : size < 2 ^ 31)
    (known : (build.program.timed bound).ending ≠ .error .stuck)
    (long : (build.program.timed bound).ending = .error .timeout → limit < bound) :
    (build.program.timed bound).Shown limit ((Machine.starting ⟨size, limit⟩).run build.code).1
      ((Machine.starting ⟨size, limit⟩).run build.code).2 := by
  have data := build.dataSize_le
  have fits : build.dataSize ≤ size := by
    rw [Nat.add_mul] at enough
    omega
  have follows : build.watching.Follows bound (startPoint size) (build.program.timed bound) _ :=
    Watch.follows_program (fun _ _ => trivial) fits (.inr ⟨enough, small⟩)
  generalize build.program.timed bound = run at follows known long
  obtain ⟨beats, ending⟩ := run
  have follows := follows.resolve_left fun lost => lost.1
  match ending with
  | .error .stuck => exact absurd rfl known
  | .error .timeout =>
    obtain ⟨count, last, steps⟩ := follows
    have count : bound ≤ beats.length := count
    have more := long rfl
    exact ⟨nofun, fun _ => run_of_long fits steps (show limit ≤ beats.length by omega)
      fun same => absurd same (show limit ≠ beats.length by omega)⟩
  | .ok () =>
    obtain ⟨last, steps, atHalt, empty⟩ := follows
    refine ⟨fun _ less => ?_, fun least => run_of_long fits steps (least rfl) fun _ => ⟨.halt, ?_⟩⟩
    · have halts := run_of_halt fits steps less atHalt
      rw [empty] at halts
      exact halts
    · rw [atHalt]
      exact build.at_main.right.fetch

end Build

end Stackwright
