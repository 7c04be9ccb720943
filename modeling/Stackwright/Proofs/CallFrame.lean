import Stackwright.Proofs.Build.Sites
import Stackwright.Proofs.Correctness
import Stackwright.Proofs.Machine.Isolation

/-! A call leaves its caller alone. Whenever a run comes to the code of a call and past it, there is one
word more on the operand stack, and nothing else that the caller can see has changed. -/

set_option autoImplicit false

namespace Stackwright

open Machine Checked

/-- What a call leaves of the state that it began in. -/
structure Machine.Undisturbed (dataSize : Nat) (first last : Point) : Prop where
  stack : ∃ operand, last.stack = operand :: first.stack
  size : last.memory.size = first.memory.size
  stackPointer : last.memory.intAt 21 = first.memory.intAt 21
  framePointer : last.memory.intAt 25 = first.memory.intAt 25
  data : ∀ index < dataSize, last.memory.byteAt index = first.memory.byteAt index
  above : ∀ index, first.memory.stackAt ≤ index → last.memory.byteAt index = first.memory.byteAt index

namespace Build

variable {build : Build} {home : build.Home} {names : Nest Binding} {meanings : Nest Meaning} {memory : Memory}

/-- Whatever lies in memory, visible names stand for something. -/
theorem exists_meanings (visible : home.Visible names) (memory : Memory) :
    ∃ meanings, names.Matches (build.Stored memory) meanings := by
  refine Nest.exists_matches fun entry member => ?_
  rcases visible.placed entry member with ⟨isValue, _⟩ | ⟨index, place, here, same⟩
  · cases located : memory.locate (address memory entry.2) entry.2.ty.size with
    | error failed =>
      obtain ⟨value, typed, _⟩ := Value.exists_held isValue memory 0
      exact ⟨.value value, typed, fun index found => by rw [located] at found; cases found⟩
    | ok index =>
      obtain ⟨value, typed, held⟩ := Value.exists_held isValue memory index
      refine ⟨.value value, typed, fun other found => ?_⟩
      rw [located] at found
      cases found
      exact held
  · exact ⟨.function place.function, index, place, here, rfl, same⟩

/-- What lies in memory for a name has the type of the name. -/
theorem admits_of_stored {binding : Binding} {meaning : Meaning} (stored : build.Stored memory binding meaning) :
    binding.entry.Admits build.program.functions meaning := by
  cases meaning with
  | value value => exact stored.1
  | function function =>
    obtain ⟨index, place, here, rfl, rfl⟩ := stored
    exact ⟨build.function_mem (List.mem_of_getElem? here), rfl⟩

/-- A call in a program never gets stuck, whatever lies in memory. -/
theorem call_ne_stuck {callee : Name} {arguments : List Expr} {list node : Node} {ty : Ty}
    (same : names.Matches (build.Stored memory) meanings)
    (resolved : Resolved build.analysis names (.call callee arguments list node) ty) (bound : Nat) (base : Base) :
    (Timed.Invoke.named (Function.timed build.program.functions bound) meanings callee.text
      (Expr.timedAll (Function.timed build.program.functions bound) base meanings arguments)).ending ≠
        .error .stuck := by
  have admits : (names.map Binding.entry).Matches (Entry.Admits build.program.functions) meanings :=
    Nest.Matches.map (same.imp fun _ _ _ => admits_of_stored)
  have typed : HasType (names.map Binding.entry) (Call.expr ⟨callee, arguments, list, node⟩) ty := resolved.hasType
  have sound := typed.call_sound build.legible.functions
    (Function.invoke_sound build.legible.functions build.placed.wellFormed.functions bound) admits ""
  have calls := Function.erase_timed build.program.functions bound
  intro stuck
  rw [Call.perform, ← Expr.erase_timedAll calls, ← Invoke.erase_named calls, Exec.bind_apply, Timed.erase, stuck] at sound
  cases sound

/-- The site of an expression in the main block or in the body of a function. Its code stands there, and
whenever a run comes to it, what holds at every instruction of that stretch does. -/
def Settled (build : Build) (site : Site) : Prop :=
  ∃ (home : build.Home) (names : Nest Binding) (ty : Ty), home.Visible names ∧
    Resolved build.analysis names site.expr ty ∧ build.At site.start (site.code build.analysis) ∧
    home.start ≤ site.start ∧ site.stop build.analysis ≤ home.stop ∧
    ∀ memory, build.Good site.start memory → home.Fine site.start memory

/-- The code of a program has settled sites for all its expressions. -/
theorem sited (build : Build) : Sited build.analysis build.Settled build.program.exprs build.mainAt
    (build.main ++ [Instruction.plain .halt] ++ build.bodies) := by
  refine build.toChecked.sited ?_ fun place member => ?_
  · have lasting : Lasting build.analysis _ _ build.mainHome.Visible :=
      ⟨fun visible => visible.openBlock, fun placed visible => placed.visible setting_main visible⟩
    refine (build.placed.main.sited lasting visible_main build.at_main.left).imp ?_
    rintro site low high ⟨stands, names, ty, visible, resolved⟩
    exact ⟨build.mainHome, names, ty, visible, resolved, stands, low, high,
      fun memory good => (good.1 low).fine_of_unowned rfl⟩
  · have lasting : Lasting build.analysis _ _ (build.bodyHome member).Visible :=
      ⟨fun visible => visible.openBlock, fun placed visible => placed.visible (setting_body member) visible⟩
    refine ((build.place_placed member).sited lasting (visible_body member) (build.at_body member).left).imp ?_
    rintro site low high ⟨stands, names, ty, visible, resolved⟩
    exact ⟨build.bodyHome member, names, ty, visible, resolved, stands, low, high,
      fun memory good => good.2 member low (Nat.lt_of_lt_of_le (site.start_lt_stop build.analysis) high)⟩

end Build

namespace Watch

variable {watch : Watch} {α : Type} {run : Timed α} {goal : α → Point → Prop} {beats beats' : List Beat}
  {first between last : Point} {stays : Point → Prop}

/-- A run that goes on without being lost comes through points that may be visited. -/
theorem Follows.allowed_of_steps (follows : watch.Follows (beats.length + 1) first run goal)
    (known : run.ending ≠ .error .stuck) (ends : ∀ value last, goal value last → advance watch.build.ops last = none)
    (here : Steps watch.build.ops (fun point => ¬ watch.build.code.Spills watch.build.dataSize point) beats first between)
    (later : Steps watch.build.ops (fun point => ¬ watch.build.code.Spills watch.build.dataSize point) beats' between last)
    (more : 0 < beats'.length) : watch.allowed between := by
  -- Wherever the run may end or be lost, this one goes on from there.
  have goesOn {beats'' : List Beat} {point : Point} (steps : watch.Run beats'' first point)
      (early : beats''.length ≤ beats.length) : ¬ watch.build.code.Spills watch.build.dataSize point ∧
        advance watch.build.ops point ≠ none := by
    have rest := steps.rest (here.trans later) (by rw [List.length_append]; omega)
    have positive : 0 < ((beats ++ beats').drop beats''.length).length := by
      rw [List.length_drop, List.length_append]
      omega
    exact ⟨rest.allowed_of_pos positive, rest.advance_of_pos positive⟩
  have passes {beats'' : List Beat} {point : Point} (steps : watch.Run beats'' first point)
      (late : beats.length < beats''.length) : watch.allowed between := by
    refine (here.rest steps (Nat.le_of_lt late)).allowed_of_pos ?_
    rw [List.length_drop]
    omega
  rcases follows with ⟨_, beats'', point, steps, _, lost⟩ | follows
  · refine passes steps (Nat.lt_of_not_le fun early => ?_)
    obtain ⟨safe, goes⟩ := goesOn steps early
    exact lost.elim goes safe
  · match ended : run.ending with
    | .error .stuck => exact absurd ended known
    | .error .timeout =>
      rw [ended] at follows
      obtain ⟨long, point, steps⟩ := follows
      exact passes steps long
    | .ok value =>
      rw [ended] at follows
      obtain ⟨point, steps, reached⟩ := follows
      exact passes steps (Nat.lt_of_not_le fun early => (goesOn steps early).2 (ends value point reached))

/-- A run that comes to a point outside of those that may be visited, and is not lost before, has come to
the end of the computation. -/
theorem Follows.reaches_of_steps (follows : watch.Follows (beats.length + 1) first run goal)
    (known : run.ending ≠ .error .stuck) (ends : ∀ value last, goal value last → ¬ stays last)
    (steps : Steps watch.build.ops
      (fun point => ¬ watch.build.code.Spills watch.build.dataSize point ∧ stays point) beats first last)
    (left : ¬ watch.allowed last) : ∃ value, goal value last := by
  have short {beats'' : List Beat} {point : Point} (other : watch.Run beats'' first point) :
      beats''.length ≤ beats.length := by
    refine Nat.le_of_not_lt fun longer => left ((steps.rest other (Nat.le_of_lt longer)).allowed_of_pos ?_)
    rw [List.length_drop]
    omega
  rcases follows with ⟨_, beats'', point, other, may, lost⟩ | follows
  · have rest := other.rest steps (short other)
    rcases Nat.eq_or_lt_of_le (short other) with same | less
    · rw [same, List.drop_length] at rest
      cases rest
      exact absurd may left
    · have positive : 0 < (beats.drop beats''.length).length := by
        rw [List.length_drop]
        omega
      exact (lost.elim (rest.advance_of_pos positive) (rest.allowed_of_pos positive).1).elim
  · match ended : run.ending with
    | .error .stuck => exact absurd ended known
    | .error .timeout =>
      rw [ended] at follows
      obtain ⟨long, point, other⟩ := follows
      have := short other
      omega
    | .ok value =>
      rw [ended] at follows
      obtain ⟨point, other, reached⟩ := follows
      have same := other.unique steps (fun stays => ends value point reached stays.2) left
      exact ⟨value, same ▸ reached⟩

end Watch

namespace Build

variable {build : Build} {callee : Name} {arguments : List Expr} {list node : Node}

theorem advance_halt {point : Point} (atHalt : point.pc = build.haltAt) : advance build.ops point = none := by
  have fetched : build.ops[point.pc]? = some .halt := by
    rw [atHalt]
    exact build.at_main.right.fetch
  rw [advance, fetched]
  rfl

/-- At every instruction that a run comes to and goes on from, unless something of the call stack was
stored over the data, what holds there does. -/
theorem good_of_steps {size : Nat} {output : String} {beats beats' : List Beat} {first last : Point}
    (fits : build.dataSize ≤ size)
    (here : Steps build.ops (fun point => ¬ build.code.Spills build.dataSize point) beats
      ⟨0, [], memory size, output, 0⟩ first)
    (later : Steps build.ops (fun point => ¬ build.code.Spills build.dataSize point) beats' first last)
    (more : 0 < beats'.length) : build.Good first.pc first.memory := by
  let watch : Watch := ⟨build, fun point => build.Good point.pc point.memory, True⟩
  have follows : watch.Follows (beats.length + 1) ⟨0, [], memory size, output, 0⟩ _ _ :=
    Watch.follows_program (fun _ good => good) fits (.inl trivial)
  exact follows.allowed_of_steps (build.timed_ne_stuck _) (fun _ _ halts => advance_halt halts.1) here later more

/-- Code of a call that a run comes to and past of leaves the caller alone. -/
theorem call_undisturbed {site : Site} (settled : build.Settled site)
    (isCall : site.expr = .call callee arguments list node) {size : Nat} {output : String} {beats beats' : List Beat}
    {first last : Point} (fits : build.dataSize ≤ size)
    (here : Steps build.ops (fun point => ¬ build.code.Spills build.dataSize point) beats
      ⟨0, [], memory size, output, 0⟩ first) (begins : first.pc = site.start)
    (steps : Steps build.ops (fun point => ¬ build.code.Spills build.dataSize point ∧
      ¬ (point.pc = site.stop build.analysis ∧ point.depth = first.depth)) beats' first last)
    (ends : last.pc = site.stop build.analysis) (same : last.depth = first.depth) :
    Undisturbed build.dataSize first last := by
  obtain ⟨home, names, ty, visible, resolved, stands, low, high, fine⟩ := settled
  obtain ⟨expr, labeller, start⟩ := site
  dsimp only at isCall
  subst isCall
  dsimp only [Site.stop, Site.code] at begins steps ends resolved stands low high fine
  have whole := resolved
  cases resolved with
  | @call _ _ _ _ binding parameters result found callable noted resolvedAll typed =>
    have some := Lowering.value_length_pos build.analysis (.call callee arguments list node) labeller
    have more : 0 < beats'.length := by
      cases steps with
      | refl => omega
      | cons => exact Nat.succ_pos _
    have good := good_of_steps fits here (steps.mono fun _ safe => safe.1) more
    -- The call stays inside of its code and of what it calls.
    let watch : Watch := ⟨build, fun point => first.depth < point.depth ∨ point.depth = first.depth ∧
      start ≤ point.pc ∧ point.pc < start + (Lowering.value build.analysis (.call callee arguments list node)
        labeller).1.length, True⟩
    obtain ⟨meanings, stored⟩ := exists_meanings visible first.memory
    have deep : watch.Deep first.depth := fun point deeper _ => .inl deeper
    have segment : watch.Segment home first.depth start
        (Lowering.value build.analysis (.call callee arguments list node) labeller).1 :=
      ⟨stands, low, high, fun point level after before _ => .inr ⟨level, after, before⟩⟩
    have ready : watch.Ready home (beats'.length + 1) names meanings start first.memory :=
      ⟨fine _ (begins ▸ good), .inl trivial, stored⟩
    have calls := watch.callable (beats'.length + 1)
    have follows : watch.Follows (beats'.length + 1) ⟨start, first.stack, first.memory, first.output, first.depth⟩ _ _ :=
      segment.call deep calls visible found callable noted resolvedAll
        (fun areValues pushes clear => resolvedAll.follows deep calls visible areValues pushes ready clear) ready
    have start_eq : (⟨start, first.stack, first.memory, first.output, first.depth⟩ : Point) = first := by
      rw [← begins]
    rw [start_eq] at follows
    have left : ¬ watch.allowed last := by
      rintro (deeper | ⟨_, _, before⟩)
      · exact absurd deeper (by omega)
      · exact absurd before (by omega)
    obtain ⟨value, operand, after, output, rfl, _, keeps⟩ := follows.reaches_of_steps
      (call_ne_stuck stored whole _ _) (fun _ _ ⟨_, _, _, reached, _⟩ stays => stays (by rw [reached]; exact ⟨rfl, rfl⟩))
      steps left
    have data := build.dataSize_ge
    exact ⟨⟨operand, rfl⟩, keeps.size, keeps.intAt (Nat.le_trans (by decide) data), keeps.intAt data,
      fun index inside => keeps.bytes index (.inl inside), fun index above => keeps.bytes index (.inr (.inl above))⟩

/-- The size of all data is what the directives of the code ask for. -/
theorem dataSize_code (build : Build) : build.code.dataSize = build.dataSize := by
  have linked := build.linked_codeWith true
  have same := Code.marks_eq_definedLabels linked.named
  have placed := build.placeAll_code (Nat.le_refl build.dataSize)
  rcases Layout.placeAll_of_fresh 0 (same ▸ linked.nodup)
      (fun label _ => (rfl : (Layout.starting build.dataSize).isDefined label = false)) with
    ⟨next, placed', adds⟩ | ⟨required, failed, _⟩
  · have equal := placed'.symm.trans placed
    cases equal
    exact (adds.dataSize.trans (Nat.zero_add _)).symm
  · have impossible := failed.symm.trans placed
    cases impossible

end Build

section Annotations

variable (code : Code)

theorem Code.dataSize_stripComments : code.stripComments.dataSize = code.dataSize := by
  rw [Code.dataSize, Code.dataSize, Code.stripComments, List.map_map]
  rfl

/-- Annotations have no part in what a store is. -/
theorem Code.spills_stripComments {dataSize : Nat} {point : Point} :
    code.stripComments.Spills dataSize point ↔ code.Spills dataSize point := by
  have taken (count : Nat) : code.stripComments.take count = stripComments (code.take count) := List.map_take.symm
  have once (code : Code) : code.stripComments.stripComments = code.stripComments := by
    rw [stripComments, stripComments, List.map_map]
    rfl
  have halts (code : Code) : (∃ earlier ∈ code.stripComments, earlier.opcode = .halt) ↔
      ∃ earlier ∈ code, earlier.opcode = .halt := by
    simp [stripComments, Instruction.stripComment]
  unfold Spills SetsPointer
  rw [taken, taken, once, halts]
  constructor
  · rintro ⟨instruction, value, address, rest, here, others⟩
    rw [stripComments, List.getElem?_map, Option.map_eq_some_iff] at here
    obtain ⟨original, here, rfl⟩ := here
    exact ⟨original, value, address, rest, here, others⟩
  · rintro ⟨instruction, value, address, rest, here, others⟩
    refine ⟨instruction.stripComment, value, address, rest, ?_, others⟩
    rw [stripComments, List.getElem?_map, here, Option.map_some]

theorem CompileOptions.dataSize_shown (options : CompileOptions) : (options.shown code).dataSize = code.dataSize := by
  unfold shown
  split
  · rfl
  · exact code.dataSize_stripComments

theorem CompileOptions.spills_shown (options : CompileOptions) {dataSize : Nat} {point : Point} :
    (options.shown code).Spills dataSize point ↔ code.Spills dataSize point := by
  unfold shown
  split
  · rfl
  · exact code.spills_stripComments

end Annotations

/-- Code that was loaded holds its data, and what is loaded is known. -/
theorem Build.eq_of_load {build : Build} {memorySize : Nat} {image : Image}
    (loaded : Image.load build.code memorySize = .ok image) :
    build.dataSize ≤ memorySize ∧ image = ⟨build.ops, memory memorySize⟩ := by
  have fits : build.dataSize ≤ memorySize := by
    rw [← build.dataSize_code]
    exact ((build.linked_codeWith true).load memorySize).1.mp ⟨image, loaded⟩
  exact ⟨fits, Except.ok.inj (loaded.symm.trans (build.load_code fits))⟩

/-- Calls in a program that compiles disturb nothing of their callers; each has code of its own. Whenever a run
comes to the first instruction of that and then past the last one, and nothing of the call stack was stored
over the data until then, there is one word more on the operand stack, both pointers are as before, and so are
all data and everything from the stack pointer upward. -/
theorem compile_call_undisturbed {source : String} {options : CompileOptions} {code : Code} {program : Program}
    (accepted : compile source options = .ok code) (environment : options.emitEnvironment = true)
    (short : code.length < 2 ^ 31) (parsed : Program.parse source = .ok program) :
    ∃ sites, code.Houses program.analyze options program.exprs sites ∧
      ∀ site ∈ sites, ∀ callee arguments list node, site.expr = .call callee arguments list node →
        ∀ memorySize image, Image.load code memorySize = .ok image →
          ∀ output beats beats' first last,
            Steps image.code (fun point => ¬ code.Spills code.dataSize point) beats
              ⟨0, [], image.memory, output, 0⟩ first →
            first.pc = site.start →
            Steps image.code (fun point => ¬ code.Spills code.dataSize point ∧
              ¬ (point.pc = site.stop program.analyze ∧ point.depth = first.depth)) beats' first last →
            last.pc = site.stop program.analyze → last.depth = first.depth → Undisturbed code.dataSize first last := by
  obtain ⟨build, parsed', analysis, rfl⟩ := exists_build accepted environment short
  rw [parsed, Except.ok.injEq] at parsed'
  subst parsed'
  rw [← analysis]
  obtain ⟨sites, houses, settled⟩ := build.sited.exists_houses fun site ⟨_, _, _, _, _, stands, _⟩ => stands
  refine ⟨sites, houses, ?_⟩
  intro site member callee arguments list node isCall memorySize image loaded output beats beats' first last here
    begins steps ends level
  rw [Image.load_shown] at loaded
  obtain ⟨fits, rfl⟩ := Build.eq_of_load loaded
  rw [options.dataSize_shown, build.dataSize_code] at here steps ⊢
  refine Build.call_undisturbed (settled site member) isCall fits (here.mono fun _ safe => ?_) begins
    (steps.mono fun _ safe => ?_) ends level
  · rwa [options.spills_shown] at safe
  · rwa [options.spills_shown] at safe

section Following

namespace Machine

theorem exists_beat {code : Array Op} {first second : Point} (step : advance code first = some second) :
    ∃ beat : Beat, beat.Fits first second := by
  unfold advance at step
  split at step
  · cases step
  next op _ =>
    have same : first.state 0 = State.after ⟨first.pc, first.stack, first.memory, "", 0⟩ first.output := by
      rw [State.after, String.append_empty]
      rfl
    rw [same, Op.execute_after] at step
    cases ran : op.execute code.size ⟨first.pc, first.stack, first.memory, "", 0⟩ with
    | halted state | faulted fault state =>
      rw [ran] at step
      cases step
    | running state =>
      rw [ran] at step
      cases step
      exact ⟨⟨state.stack.length - first.stack.length, state.output⟩, rfl, by dsimp only [State.after]; omega⟩

/-- Take a number of steps, each of them from a point that passes a test. -/
def follow (code : Array Op) (may : Point → Bool) : Nat → Point → Option Point
  | 0, point => some point
  | count + 1, point => if may point then (advance code point).bind (follow code may count) else none

theorem steps_of_follow {code : Array Op} {may : Point → Bool} {count : Nat} {first last : Point}
    (ran : follow code may count first = some last) : ∃ beats, Steps code (fun point => may point = true) beats first last := by
  induction count generalizing first with
  | zero =>
    cases ran
    exact ⟨[], .refl⟩
  | succ count ih =>
    rw [follow] at ran
    split at ran
    next here =>
      obtain ⟨second, step, later⟩ := Option.bind_eq_some_iff.mp ran
      obtain ⟨beats, others⟩ := ih later
      obtain ⟨beat, fits⟩ := exists_beat step
      exact ⟨beat :: beats, .cons here step fits others⟩
    next => cases ran

end Machine

instance (code : Code) (pc : Nat) : Decidable (code.SetsPointer pc) :=
  inferInstanceAs (Decidable (∃ pointer ∈ [Reserved.stackPointer, Reserved.framePointer],
    Code.storeTo pointer <:+ Code.stripComments (code.take (pc + 1))))

/-- Whether the next instruction stores something of the call stack over the data. -/
def Code.spills (code : Code) (dataSize : Nat) (point : Point) : Bool :=
  match code[point.pc]?, point.stack with
  | some instruction, _ :: address :: _ =>
    (instruction.opcode = .storeInt ∨ instruction.opcode = .storeByte) ∧ word address < dataSize ∧
      ¬ code.SetsPointer point.pc ∧
      ((∃ earlier ∈ code.take point.pc, earlier.opcode = .halt) ∨ address = point.memory.intAt 21)
  | _, _ => false

theorem Code.spills_iff {code : Code} {dataSize : Nat} {point : Point} :
    code.spills dataSize point = true ↔ code.Spills dataSize point := by
  unfold spills Spills
  split
  next instruction value address rest here shape =>
    rw [decide_eq_true_eq]
    constructor
    · rintro ⟨kind, low, free, local_⟩
      exact ⟨instruction, value, address, rest, here, kind, free, shape, low, local_⟩
    · rintro ⟨instruction', value', address', rest', here', kind, free, shape', low, local_⟩
      rw [here] at here'
      rw [shape] at shape'
      cases here'
      cases shape'
      exact ⟨kind, low, free, local_⟩
  next other =>
    refine ⟨nofun, ?_⟩
    rintro ⟨instruction, value, address, rest, here, _, _, shape, _⟩
    exact (other instruction value address rest here shape).elim

/-- Whether a run comes after some steps to the only place where a segment of the code stands, and after
some more steps past it. -/
def Code.passes (code segment : Code) (memorySize count count' : Nat) : Bool :=
  match Image.load code memorySize with
  | .error _ => false
  | .ok image =>
    match follow image.code (fun point => !code.spills code.dataSize point) count ⟨0, [], image.memory, "", 0⟩ with
    | none => false
    | some first =>
      (List.range code.length).filter (fun index => segment.isPrefixOf (code.drop index)) == [first.pc] &&
      match follow image.code (fun point => !code.spills code.dataSize point &&
          !(point.pc == first.pc + segment.length && point.depth == first.depth)) count' first with
      | none => false
      | some last => last.pc == first.pc + segment.length && last.depth == first.depth

theorem Code.exists_of_passes {code segment : Code} {memorySize count count' : Nat}
    (passes : code.passes segment memorySize count count' = true) :
    ∃ image first last beats beats', Image.load code memorySize = .ok image ∧
      (∀ before after, 0 < segment.length → code = before ++ (segment ++ after) → before.length = first.pc) ∧
      Steps image.code (fun point => ¬ code.Spills code.dataSize point) beats ⟨0, [], image.memory, "", 0⟩ first ∧
      Steps image.code (fun point => ¬ code.Spills code.dataSize point ∧
        ¬ (point.pc = first.pc + segment.length ∧ point.depth = first.depth)) beats' first last ∧
      last.pc = first.pc + segment.length ∧ last.depth = first.depth := by
  unfold Code.passes at passes
  split at passes
  next => cases passes
  next image loaded =>
    split at passes
    next => cases passes
    next first here =>
      obtain ⟨only, passes⟩ := (Bool.and_eq_true_iff).mp passes
      split at passes
      next => cases passes
      next last later =>
        obtain ⟨beats, steps⟩ := steps_of_follow here
        obtain ⟨beats', steps'⟩ := steps_of_follow later
        rw [Bool.and_eq_true, beq_iff_eq, beq_iff_eq] at passes
        refine ⟨image, first, last, beats, beats', loaded, ?_, steps.mono ?_, steps'.mono ?_, passes⟩
        · rintro before after some rfl
          have among : before.length ∈ (List.range (before ++ (segment ++ after)).length).filter
              (fun index => segment.isPrefixOf ((before ++ (segment ++ after)).drop index)) := by
            simp [some]
          rw [eq_of_beq only] at among
          exact List.mem_singleton.mp among
        · intro point safe spills
          rw [Code.spills_iff.mpr spills] at safe
          cases safe
        · intro point safe
          rw [Bool.and_eq_true] at safe
          refine ⟨fun spills => ?_, fun left => ?_⟩
          · rw [Code.spills_iff.mpr spills] at safe
            cases safe.1
          · simp [left.1, left.2] at safe

end Following

/-- A call inside of an expression, of a function that calls another one with arguments of both sizes. -/
def nestedCall : String :=
  "func int f(int n, bool b) \x7b return n; \x7d func int g() \x7b return f(7, true); \x7d main \x7b print 1 + g(); \x7d"

/-- A call without arguments. -/
def Expr.isBareCall : Expr → Bool
  | .call _ [] _ _ => true
  | _ => false

theorem compile_call_undisturbed_nested : ∃ code image first last,
    compile nestedCall ⟨true, "", false⟩ = .ok code ∧ Image.load code 80 = .ok image ∧
      (∃ beats, Steps image.code (fun point => ¬ code.Spills code.dataSize point) beats
        ⟨0, [], image.memory, "", 0⟩ first) ∧
      (∃ beats, Steps image.code (fun point => ¬ code.Spills code.dataSize point) beats first last) ∧
      first.pc < last.pc ∧ Undisturbed code.dataSize first last := by
  have read : ∃ program, Program.parse nestedCall = .ok program ∧ program.exprs.any (fun expr =>
      expr.isBareCall && (compile nestedCall ⟨true, "", false⟩).toOption.any fun code =>
        decide (code.length < 2 ^ 31) && code.passes (CompileOptions.shown ⟨true, "", false⟩
          (Lowering.value program.analyze expr (.starting "")).1) 80 21 179) = true :=
    Program.exists_parse_of_map (by decide +kernel)
  obtain ⟨program, parsed, found⟩ := read
  obtain ⟨expr, inside, tested⟩ := List.any_eq_true.mp found
  obtain ⟨shape, passing⟩ := (Bool.and_eq_true_iff).mp tested
  unfold Expr.isBareCall at shape
  split at shape
  next callee list node =>
    obtain ⟨code, accepted, test⟩ := exists_compile_of_any passing
    obtain ⟨short, passes⟩ := (Bool.and_eq_true_iff).mp test
    obtain ⟨image, first, last, beats, beats', loaded, only, steps, steps', ends, level⟩ := Code.exists_of_passes passes
    obtain ⟨sites, houses, undisturbed⟩ :=
      compile_call_undisturbed accepted rfl (of_decide_eq_true short) parsed
    obtain ⟨site, member, isCall⟩ := houses.exists_site inside
    obtain ⟨before, after, same, begins⟩ := houses.exists_eq member
    have bare : site.code program.analyze =
        (Lowering.value program.analyze (.call callee [] list node) (.starting "")).1 := by
      rw [Site.code, isCall]
      simp only [Lowering.value, Lowering.bind_apply, Lowering.expression]
      cases (program.analyze.bindingOf callee.node.id).ty.signature? with
      | none => rfl
      | some signature =>
        simp only [Lowering.pushArguments]
        rfl
    have some := Lowering.value_length_pos program.analyze (.call callee [] list node) (.starting "")
    rw [bare] at same
    rw [← CompileOptions.length_shown ⟨true, "", false⟩] at some
    have start : site.start = first.pc := begins.symm.trans (only before after some same)
    have stop : site.stop program.analyze = first.pc + (CompileOptions.shown ⟨true, "", false⟩
        (Lowering.value program.analyze (.call callee [] list node) (.starting "")).1).length := by
      rw [Site.stop, bare, start, CompileOptions.length_shown]
    rw [← stop] at ends steps'
    have whole := undisturbed site member callee [] list node isCall 80 image loaded "" beats beats' first last
      steps start.symm steps' ends level
    have late := site.start_lt_stop program.analyze
    exact ⟨code, image, first, last, accepted, loaded, ⟨beats, steps⟩, ⟨beats', steps'.mono fun _ safe => safe.1⟩,
      by omega, whole⟩
  next => cases shape

end Stackwright
