import Stackwright.Proofs.Correctness
import Stackwright.Proofs.Reordering.Length
import Stackwright.Proofs.Reordering.Source
import Stackwright.Proofs.Reordering.Timing

/-! Compiled programs whose function definitions stand in another order. Such programs are accepted
together, and a machine cannot tell them apart by how their runs end, by what they print or by how many
steps they take. A run that is cut off may hold the offset of a function in the global block, or an
address in the code, and these do depend on the order. -/

set_option autoImplicit false

namespace Stackwright

open Machine

/-- Two runs that look the same. What lies on the operand stack can be told apart only if the runs were
cut off. -/
structure Machine.LookSame (one other : Option Fault × Machine) : Prop where
  fault : one.1 = other.1
  output : one.2.output = other.2.output
  steps : one.2.steps = other.2.steps
  height : one.2.stack.length = other.2.stack.length
  stack : one.1 = none → one.2.stack = other.2.stack

/-- Machines that show the same run look the same. -/
theorem Timed.Shown.lookSame {run : Timed Unit} {limit : Nat} {one other : Option Fault × Machine}
    (shown : run.Shown limit one.1 one.2) (shown' : run.Shown limit other.1 other.2) : LookSame one other := by
  -- Either the run is over within the limit and leaves nothing on the operand stack, or both machines were
  -- cut off after the same beats.
  by_cases ends : run.ending = .ok () ∧ run.beats.length < limit
  · obtain ⟨fault, output, stack, steps⟩ := shown.ended ends.1 ends.2
    obtain ⟨fault', output', stack', steps'⟩ := shown'.ended ends.1 ends.2
    have same : one.2.stack = other.2.stack := stack.trans stack'.symm
    exact ⟨fault.trans fault'.symm, output.trans output'.symm, steps.trans steps'.symm, congrArg _ same, fun _ => same⟩
  · have long (ended : run.ending = .ok ()) : limit ≤ run.beats.length :=
      Nat.le_of_not_lt fun less => ends ⟨ended, less⟩
    obtain ⟨fault, output, height, steps⟩ := shown.exceeded long
    obtain ⟨fault', output', height', steps'⟩ := shown'.exceeded long
    refine ⟨fault.trans fault'.symm, output.trans output'.symm, steps.trans steps'.symm,
      Int.ofNat_inj.mp (height.trans height'.symm), fun none => ?_⟩
    rw [fault] at none
    cases none

variable {source other : String} {options : CompileOptions} {code : Code}

/-- A text with its definitions in another order compiles as well. -/
theorem Rearranges.exists_compile (rearranges : Rearranges source other) (accepted : compile source options = .ok code) :
    ∃ code', compile other options = .ok code' := by
  obtain ⟨program, parsed, silent, _⟩ := compile_eq_ok_iff.mp accepted
  obtain ⟨program', parsed', reorders⟩ := rearranges.parse parsed
  obtain ⟨legible, ids⟩ := Program.legible_and_ids_of_parse parsed
  have wellFormed := (Checker.placed_of_analyze legible (ids ▸ List.nodup_range) silent).wellFormed
  obtain ⟨legible', _⟩ := Program.legible_and_ids_of_parse parsed'
  -- The static rules do not see the order, and the check accepts whatever obeys them.
  exact ⟨_, compile_eq_ok_iff.mpr
    ⟨program', parsed', Checker.analyze_of_wellFormed legible' (reorders.wellFormed wellFormed), rfl⟩⟩

/-- Builds of programs that differ in the order of their functions run alike. -/
theorem Build.lookSame_of_reorders {build build' : Build} (reorders : build.program.Reorders build'.program)
    {limit size : Nat} (enough : (limit + 3) * build.code.length ≤ size) (small : size < 2 ^ 31) :
    LookSame ((starting ⟨size, limit⟩).run build.code) ((starting ⟨size, limit⟩).run build'.code) := by
  have length : build.code.length = build'.code.length := Checked.length_eq_of_reorders reorders
  have enough' : (limit + 1 + 2) * build'.code.length ≤ size := length ▸ enough
  -- Calls cannot nest deeper than there are steps, so the bound on nesting never ends a run before its limit.
  have shown : (build.program.timed (limit + 1)).Shown limit _ _ :=
    Build.shown_run enough small (build.timed_ne_stuck _) fun _ => Nat.lt_succ_self limit
  have shown' : (build'.program.timed (limit + 1)).Shown limit _ _ :=
    Build.shown_run enough' small (build'.timed_ne_stuck _) fun _ => Nat.lt_succ_self limit
  rw [← reorders.timed_eq build.placed.names] at shown'
  exact shown.lookSame shown'

/-- The order of function definitions does not matter: a text with its definitions in another order
compiles as well, and with enough memory for the steps that they may take, the two run alike. -/
theorem compile_rearranged (accepted : compile source options = .ok code) (rearranges : Rearranges source other) :
    ∃ code', compile other options = .ok code' ∧
      (options.emitEnvironment = true → code.length < 2 ^ 31 → ∀ limit size,
        (limit + 3) * code.length ≤ size → size ≤ 2 ^ 31 - 1 →
          LookSame ((starting ⟨size, limit⟩).run code) ((starting ⟨size, limit⟩).run code')) := by
  obtain ⟨code', accepted'⟩ := rearranges.exists_compile accepted
  refine ⟨code', accepted', fun environment short limit size enough small => ?_⟩
  obtain ⟨build, parsed, _, rfl⟩ := exists_build accepted environment short
  obtain ⟨program', parsed', reorders⟩ := rearranges.parse parsed
  obtain ⟨checked', read', _, lead', same'⟩ := exists_compiles accepted'
  obtain rfl : program' = checked'.program := Except.ok.inj (parsed'.symm.trans read')
  -- Code of the same length asks for the same memory, so the bound of the one text serves for both.
  have length : build.code.length = checked'.code.length := Checked.length_eq_of_reorders reorders
  have shown' : code' = options.shown checked'.code := by
    rw [same', Checked.generate_eq_shown lead', environment]
    rfl
  rw [shown', Machine.run_shown, Machine.run_shown]
  rw [options.length_shown] at enough
  let build' : Build := ⟨checked', length ▸ build.code_lt⟩
  have reorders : build.program.Reorders build'.program := reorders
  exact Build.lookSame_of_reorders reorders enough (Nat.lt_of_le_pred (by decide) small)

section CutOff

variable {build : Build} {size : Nat}

/-- What is on the operand stack when a run is cut off. -/
theorem Build.stack_of_steps {allowed : Point → Prop} {beats : List Beat} {last : Point} (fits : build.dataSize ≤ size)
    (steps : Steps build.ops allowed beats (startPoint size) last) :
    ((starting ⟨size, beats.length⟩).run build.code).2.stack = last.stack := by
  have executed : execute build.ops beats.length (beats.length + 0) ((startPoint size).state 0) =
    execute build.ops beats.length 0 (last.state (0 + beats.length)) := execute_of_steps steps
  rw [Nat.add_zero] at executed
  rw [run_code fits, executed, execute]
  split <;> rfl

/-- A run that is cut off while the main block looks for a function to call holds the address of the
global block and the offset of the function in it. -/
theorem Build.stack_of_cut {comment : String} {offset : Int32} (fits : build.dataSize ≤ size)
    (stands : build.At build.mainAt
      [(Instruction.withLabel .pushAddress Reserved.globalBlock).annotate comment, .withInt .pushInt offset]) :
    ((starting ⟨size, 12 + 5 * build.program.functions.length⟩).run build.code).2.stack = [offset, 29] := by
  have anywhere (point : Point) (_ : point.pc < build.mainAt) : True := trivial
  obtain ⟨memory, started, _⟩ := Build.starts anywhere fits
  have pushed : Op.rearrangeAll memory (([(Instruction.withLabel .pushAddress Reserved.globalBlock).annotate comment,
      .withInt .pushInt offset] : Code).map build.op) [] = some [offset, 29] := by
    rw [List.map_cons, op_annotate]
    rfl
  have steps : Steps build.ops (fun _ => True) _ (startPoint size) ⟨build.mainAt + 2, [offset, 29], memory, "", 0⟩ :=
    started.trans (stands.straight (fun _ _ _ _ _ => trivial) pushed)
  have cut := stack_of_steps fits steps
  have cells : (build.program.functions.flatMap fun _ =>
      Timed.find .global ++ Opcode.code [.pushAddress, .storeInt]).length = 5 * build.program.functions.length := by
    rw [List.length_flatMap, List.map_const', List.sum_replicate, Nat.mul_comm]
    rfl
  rw [List.length_append, List.length_append, Code.length_beats, Code.length_beats, Code.length_beats, cells] at cut
  have count : (Opcode.code [.jump, .label] ++ Environment.stackStart).length = 10 := rfl
  rw [count, Nat.add_right_comm] at cut
  exact cut

end CutOff

section Swapped

/-- Two functions that do nothing, and a call of one of them. -/
def callOfTwo : String := "func void f() \x7b \x7d func void g() \x7b \x7d main \x7b call g(); \x7d"

/-- The same with the functions in the other order. -/
def callOfTwoSwapped : String := "func void g() \x7b \x7d func void f() \x7b \x7d main \x7b call g(); \x7d"

theorem Grammar.exists_function_of_kinds {tokens : List Token}
    (kinds : tokens.map Token.kind = [.keyword .funcWord, .keyword .voidWord, .identifier, .mark .leftParen,
      .mark .rightParen, .mark .leftBrace, .mark .rightBrace]) : ∃ function, Grammar.Function tokens function := by
  simp only [List.map_eq_cons_iff, List.map_eq_nil_iff] at kinds
  obtain ⟨_, _, rfl, word, _, _, rfl, type, _, _, rfl, name, _, _, rfl, opening, _, _, rfl, closing, _, _, rfl, left,
    _, _, rfl, right, rfl⟩ := kinds
  have type : _ = Kind.keyword (Grammar.typeWord .void) := type
  exact ⟨_, .mk word type name (.none opening closing) (.braces left .nil right)⟩

theorem Grammar.exists_main_of_kinds {tokens : List Token}
    (kinds : tokens.map Token.kind = [.keyword .mainWord, .mark .leftBrace, .keyword .callWord, .identifier,
      .mark .leftParen, .mark .rightParen, .mark .semicolon, .mark .rightBrace]) :
    ∃ body, Grammar.Program tokens ⟨[], body, .blank, 0⟩ := by
  simp only [List.map_eq_cons_iff, List.map_eq_nil_iff] at kinds
  obtain ⟨_, _, rfl, word, _, _, rfl, left, _, _, rfl, call, _, _, rfl, name, _, _, rfl, opening, _, _, rfl, closing,
    _, _, rfl, semicolon, _, _, rfl, right, rfl⟩ := kinds
  exact ⟨_, .mk .nil word (.braces left (.cons (.call call name (.none opening closing) semicolon) .nil) right)⟩

theorem rearranges_callOfTwo : Rearranges callOfTwo callOfTwoSwapped := by
  let tokens := (Scan.ofText callOfTwo).tokens
  refine ⟨[tokens.take 7, (tokens.drop 7).take 7], [(tokens.drop 7).take 7, tokens.take 7], tokens.drop 14,
    ⟨by decide +kernel, by decide +kernel, ?_, Grammar.exists_main_of_kinds (by decide +kernel)⟩, .swap _ _ _,
    by decide +kernel, by decide +kernel⟩
  simp only [List.forall_mem_cons, List.not_mem_nil, false_implies, implies_true, and_true]
  exact ⟨Grammar.exists_function_of_kinds (by decide +kernel), Grammar.exists_function_of_kinds (by decide +kernel)⟩

/-- A run of a program with two functions, cut off while its main block looks for the function to call. -/
theorem exists_stack_of_cut (source comment : String) (offset : Int32)
    (compiles : (compile source ⟨true, "", true⟩).toOption.any (fun code => decide (code.length < 2 ^ 31 ∧
      [(Instruction.withLabel .pushAddress Reserved.globalBlock).annotate comment, .withInt .pushInt offset] <+:
        code.drop 38)) = true)
    (two : (Program.parse source).toOption.map (fun program => program.functions.length) = some 2) :
    ∃ code, compile source ⟨true, "", true⟩ = .ok code ∧ code.length < 2 ^ 31 ∧
      ∀ size, code.length ≤ size → ((starting ⟨size, 22⟩).run code).2.stack = [offset, 29] := by
  obtain ⟨code, accepted, tested⟩ := exists_compile_of_any compiles
  obtain ⟨short, stands⟩ := of_decide_eq_true tested
  refine ⟨code, accepted, short, fun size fits => ?_⟩
  obtain ⟨build, parsed, _, rfl⟩ := exists_build accepted rfl short
  rw [parsed] at two
  have count : build.program.functions.length = 2 := Option.some.inj two
  have mainAt : build.mainAt = 38 := by
    rw [Checked.mainAt, Checked.front_length, Checked.start_length, count]
  have cut := Build.stack_of_cut (Nat.le_trans build.dataSize_le fits) (mainAt ▸ stands)
  rw [count] at cut
  exact cut

/-- What is looked for shows in the operand stack of a run that is cut off, whatever the memory is. -/
theorem cut_run_tells_order : Rearranges callOfTwo callOfTwoSwapped ∧ ∃ code code',
    compile callOfTwo ⟨true, "", true⟩ = .ok code ∧ compile callOfTwoSwapped ⟨true, "", true⟩ = .ok code' ∧
      code.length < 2 ^ 31 ∧ code'.length < 2 ^ 31 ∧ ∀ size, code.length ≤ size → code'.length ≤ size →
        ((starting ⟨size, 22⟩).run code).2.stack = [4, 29] ∧ ((starting ⟨size, 22⟩).run code').2.stack = [0, 29] := by
  obtain ⟨code, accepted, short, cut⟩ :=
    exists_stack_of_cut callOfTwo "%% g" 4 (by decide +kernel) (by decide +kernel)
  obtain ⟨code', accepted', short', cut'⟩ :=
    exists_stack_of_cut callOfTwoSwapped "%% g" 0 (by decide +kernel) (by decide +kernel)
  exact ⟨rearranges_callOfTwo, code, code', accepted, accepted', short, short',
    fun size fits fits' => ⟨cut size fits, cut' size fits'⟩⟩

theorem compile_rearranged_callOfTwo : ∃ code code', compile callOfTwo ⟨true, "", true⟩ = .ok code ∧
    compile callOfTwoSwapped ⟨true, "", true⟩ = .ok code' ∧
      LookSame ((starting ⟨2 ^ 20, 1000⟩).run code) ((starting ⟨2 ^ 20, 1000⟩).run code') := by
  obtain ⟨code, accepted, tested⟩ := exists_compile_of_any (by decide +kernel :
    (compile callOfTwo ⟨true, "", true⟩).toOption.any (fun code => decide (code.length ≤ 1000)) = true)
  have short : code.length ≤ 1000 := of_decide_eq_true tested
  obtain ⟨code', accepted', same⟩ := compile_rearranged accepted rearranges_callOfTwo
  exact ⟨code, code', accepted, accepted', same rfl (by omega) 1000 (2 ^ 20) (by omega) (by decide)⟩

end Swapped

end Stackwright
