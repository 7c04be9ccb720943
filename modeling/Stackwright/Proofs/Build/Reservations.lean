import Stackwright.Proofs.Build.Accepted
import Stackwright.Proofs.Checking.Frames

/-! The storage that compiled code reserves. The prologue of each function and the directive of the global
block carry exactly the sizes that the declarations need at once, as long as those sizes can be written as
operands. -/

set_option autoImplicit false

namespace Stackwright

mutual

/-- The bytes of all variables that a statement declares, those of its blocks included. -/
def Stmt.declaredSize (analysis : Analysis) : Stmt → Nat
  | .declare _ _ value _ => (analysis.typeOf value.id).size
  | .branch _ thenBlock none _ => thenBlock.declaredSize analysis
  | .branch _ thenBlock (some elseBlock) _ => thenBlock.declaredSize analysis + elseBlock.declaredSize analysis
  | .nested body => body.declaredSize analysis
  | .assign _ _ _ | .ret _ _ | .call _ _ | .print _ _ | .invalid _ => 0

def Block.declaredSize (analysis : Analysis) : Block → Nat
  | .mk statements _ => Stmt.declaredSizeAll analysis statements

def Stmt.declaredSizeAll (analysis : Analysis) : List Stmt → Nat
  | [] => 0
  | first :: rest => first.declaredSize analysis + Stmt.declaredSizeAll analysis rest

end

/-- The bytes of all functions and variables that a program declares, as if each had storage of its own. -/
def Program.declaredSize (analysis : Analysis) (program : Program) : Nat :=
  4 * program.functions.length + (program.functions.map fun function => function.body.declaredSize analysis).sum +
    program.main.declaredSize analysis

section Declared

variable (analysis : Analysis)

theorem Stmt.room_le_declaredSize (stmt : Stmt) : stmt.room analysis ≤ stmt.declaredSize analysis := by
  cases stmt with
  | declare => rw [Stmt.room, Stmt.declaredSize]
  | assign | branch | ret | call | print | nested | invalid =>
    rw [Stmt.room]
    exact Nat.zero_le _

mutual

theorem Stmt.peak_le_declaredSize : ∀ stmt : Stmt, stmt.peak analysis ≤ stmt.declaredSize analysis
  | .declare _ _ _ _ => by rw [Stmt.peak, Stmt.declaredSize]
  | .branch _ thenBlock none _ => by
    rw [Stmt.peak, Stmt.declaredSize]
    exact thenBlock.peak_le_declaredSize
  | .branch _ thenBlock (some elseBlock) _ => by
    rw [Stmt.peak, Stmt.declaredSize]
    have first := thenBlock.peak_le_declaredSize
    have second := elseBlock.peak_le_declaredSize
    omega
  | .nested body => by
    rw [Stmt.peak, Stmt.declaredSize]
    exact body.peak_le_declaredSize
  | .assign _ _ _ | .ret _ _ | .call _ _ | .print _ _ | .invalid _ => by
    rw [Stmt.peak]
    exact Nat.zero_le _

theorem Block.peak_le_declaredSize : ∀ block : Block, block.peak analysis ≤ block.declaredSize analysis
  | .mk statements _ => by
    rw [Block.peak, Block.declaredSize]
    exact Stmt.peakAll_le_declaredSizeAll statements

theorem Stmt.peakAll_le_declaredSizeAll : ∀ statements : List Stmt,
    Stmt.peakAll analysis 0 statements ≤ Stmt.declaredSizeAll analysis statements
  | [] => by
    rw [Stmt.peakAll]
    exact Nat.zero_le _
  | first :: rest => by
    rw [Stmt.peakAll_cons, Stmt.declaredSizeAll]
    have here := first.peak_le_declaredSize
    have room := first.room_le_declaredSize analysis
    have later := Stmt.peakAll_le_declaredSizeAll rest
    omega

end

theorem Program.frame_le_declaredSize {program : Program} {function : Function} (member : function ∈ program.functions) :
    function.body.peak analysis ≤ program.declaredSize analysis := by
  have among : function.body.declaredSize analysis ≤
      (program.functions.map fun function => function.body.declaredSize analysis).sum :=
    List.le_sum_of_mem (List.mem_map.mpr ⟨function, member, rfl⟩)
  have peak := function.body.peak_le_declaredSize analysis
  unfold Program.declaredSize
  omega

theorem Program.global_le_declaredSize (program : Program) :
    4 * program.functions.length + program.main.peak analysis ≤ program.declaredSize analysis := by
  have peak := program.main.peak_le_declaredSize analysis
  unfold Program.declaredSize
  omega

end Declared

/-- The code of a function that reserves as much as its variables need at once, with the code of its body. -/
def Function.framed (analysis : Analysis) (function : Function) (body : Code) : Code :=
  Lowering.prologue function.name.text (function.body.peak analysis) ++ body ++
    Lowering.epilogue function.name.text function.result.ty

theorem Lowering.functions_framed {analysis : Analysis} (functions : List Function) (labeller : Labeller)
    (sized : ∀ function ∈ functions, analysis.sizeOf function.body.id = function.body.peak analysis) :
    ∃ bodies, bodies.length = functions.length ∧
      (Lowering.functions analysis functions labeller).1 =
        (List.zipWith (Function.framed analysis) functions bodies).flatten := by
  induction functions generalizing labeller with
  | nil => exact ⟨[], rfl, rfl⟩
  | cons first rest ih =>
    obtain ⟨here, others⟩ := List.forall_mem_cons.mp sized
    obtain ⟨bodies, length, same⟩ := ih (Lowering.function analysis first labeller).2 others
    let body := (Lowering.block analysis (some (Lowering.epilogueLabel first.name.text)) first.body labeller).1
    refine ⟨body :: bodies, by rw [List.length_cons, List.length_cons, length], ?_⟩
    rw [List.zipWith_cons_cons, List.flatten_cons, ← same, Function.framed, ← here]
    rfl

/-- Compiled code reserves exactly what the declarations need at once: the prologue of each function the
peak of its body, and the global block the cells of the functions and the peak of the main block. The
sizes fit into operands if the program declares fewer than `2 ^ 31 - 8` bytes in all. -/
theorem compile_reserves_peak {source : String} {options : CompileOptions} {code : Code}
    (accepted : compile source options = .ok code) :
    ∃ program, Program.parse source = .ok program ∧
      ∃ (main : Code) (bodies : List Code), bodies.length = program.functions.length ∧
        code = options.shown ((if options.emitEnvironment then Environment.data else []) ++
          [.withLabel .dataLabel Reserved.globalBlock, .withInt .dataZero
            (Int32.ofNat (4 * program.functions.length + program.main.peak program.analyze))] ++
          ([.withLabel .label Reserved.mainLabel] ++ main ++ [.plain .halt] ++
            (List.zipWith (Function.framed program.analyze) program.functions bodies).flatten)) ∧
        (program.declaredSize program.analyze < 2 ^ 31 - 8 →
          (Int32.ofNat (4 * program.functions.length + program.main.peak program.analyze)).toInt =
            4 * program.functions.length + program.main.peak program.analyze ∧
          ∀ function ∈ program.functions, (Int32.ofNat (function.body.peak program.analyze)).toInt =
            function.body.peak program.analyze) := by
  obtain ⟨program, parsed, silent, rfl⟩ := compile_eq_ok_iff.mp accepted
  obtain ⟨legible, ids⟩ := Program.legible_and_ids_of_parse parsed
  have distinct : program.ids.Nodup := ids ▸ List.nodup_range
  have frames := Program.frame_peak legible distinct silent
  have global := Program.global_peak legible distinct silent
  let labeller := (Lowering.block program.analyze none program.main (.starting options.labelLead)).2
  obtain ⟨bodies, length, functions⟩ := Lowering.functions_framed program.functions labeller frames
  refine ⟨program, parsed, (if options.emitEnvironment then Environment.stackStart else []) ++
    program.functions.flatMap (Lowering.storeAddress program.analyze) ++
    (Lowering.block program.analyze none program.main (.starting options.labelLead)).1, bodies, length, ?_, ?_⟩
  · -- What stands between the start label and `halt` sets up the environment and the cells of the
    -- functions before it comes to the main block.
    rw [← functions, ← global, Program.generate]
    simp only [Lowering.program, Lowering.globals, Lowering.bind_apply, Lowering.pure_apply, CompileOptions.shown,
      List.append_assoc]
    rfl
  · intro small
    constructor
    · have bound := program.global_le_declaredSize program.analyze
      rw [Int32.toInt_ofNat_of_lt (by omega)]
      push_cast
      rfl
    · intro function member
      have bound := Program.frame_le_declaredSize program.analyze member
      exact Int32.toInt_ofNat_of_lt (by omega)

/-- A function in which two branches use the same storage, after a variable that both see. -/
def branchingText : String :=
  "func int f(int n) \x7b imm a := n; if (a > 1) \x7b imm b := true; imm c := a; return c; \x7d " ++
    "else \x7b imm d := 2; \x7d return a; \x7d main \x7b imm x := 1; \x7b imm y := true; \x7d print f(x); \x7d"

theorem compile_reserves_peak_branching :
    ∃ code program, compile branchingText {} = .ok code ∧ Program.parse branchingText = .ok program ∧
      program.functions.map (fun function => function.body.peak program.analyze) = [9] ∧
      (Int32.ofNat (4 * program.functions.length + program.main.peak program.analyze)).toInt = 9 ∧
      ∀ function ∈ program.functions, (Int32.ofNat (function.body.peak program.analyze)).toInt =
        function.body.peak program.analyze := by
  have read : ∃ program, Program.parse branchingText = .ok program ∧
      (program.analyze.diagnostics, program.functions.map (fun function => function.body.peak program.analyze),
        program.functions.length, program.main.peak program.analyze, program.declaredSize program.analyze) =
        ([], [9], 1, 5, 22) := Program.exists_parse_of_map (by decide +kernel)
  obtain ⟨program, parsed, found⟩ := read
  simp only [Prod.mk.injEq] at found
  obtain ⟨silent, frames, count, main, declared⟩ := found
  have accepted : compile branchingText {} = .ok _ := compile_eq_ok_iff.mpr ⟨program, parsed, silent, rfl⟩
  obtain ⟨other, parsed', _, _, _, _, fits⟩ := compile_reserves_peak accepted
  cases parsed.symm.trans parsed'
  obtain ⟨global, each⟩ := fits (by rw [declared]; decide)
  refine ⟨_, program, accepted, parsed, frames, ?_, each⟩
  rw [global, count, main]
  rfl

end Stackwright
