import Stackwright.Proofs.Build.Sites
import Stackwright.Proofs.Lowering.Decision

/-! Comparisons in code that was compiled. The code of a comparison leaves 1 if the difference of its
operands is positive and 0 otherwise. Differences are taken in words of 32 bits, so that this is the order
of the operands as long as their difference is a word. -/

set_option autoImplicit false

namespace Stackwright

open Machine

namespace Machine

/-- The code from one index to another leaves a value on the operand stack and keeps what is below it. -/
structure Leaves (code : Array Op) (start stop : Nat) (value : Int32) (first last : Point) : Prop where
  begins : first.pc = start
  steps : ∃ beats, Steps code (fun _ => True) beats first last
  ends : last.pc = stop
  stack : last.stack = value :: first.stack
  depth : last.depth = first.depth

/-- The difference of two words is a word. -/
def Near (left right : Int32) : Prop := -2 ^ 31 ≤ left.toInt - right.toInt ∧ left.toInt - right.toInt < 2 ^ 31

/-- The sign of a difference tells the order of two words exactly if the difference does not wrap around. -/
theorem sub_pos_iff (left right : Int32) : 0 < left - right ↔ (right < left ↔ Near left right) := by
  have lowLeft := left.le_toInt
  have highLeft := left.toInt_lt
  have lowRight := right.le_toInt
  have highRight := right.toInt_lt
  have zero : (0 : Int32).toInt = 0 := rfl
  rw [Int32.lt_iff_toInt_lt, Int32.lt_iff_toInt_lt, Int32.toInt_sub, Near, zero, Int.bmod_def]
  split <;> omega

end Machine

namespace CompileOptions

variable (options : CompileOptions)

theorem shown_comparison (labels : LabelFamily) (left right : Code) :
    options.shown (Lowering.comparison labels left right) =
      Lowering.comparison labels (options.shown left) (options.shown right) := by
  have plain (code : Code) (bare : code.stripComments = code) : options.shown code = code := by
    rw [shown, bare, ite_self]
  rw [Lowering.comparison_eq, Lowering.comparison_eq]
  simp only [shown_append]
  rw [plain [_] rfl, plain [_] rfl, plain (Lowering.decideCode labels) rfl]

end CompileOptions

theorem Lowering.length_comparison (labels : LabelFamily) (left right : Code) :
    (comparison labels left right).length = left.length + right.length + 13 := by
  rw [comparison_eq]
  simp only [List.length_append, decideCode, List.length_cons, List.length_nil]
  omega

section Leaves

variable {before after : Code} {memorySize : Nat} {image : Image}

/-- A label in code that was loaded is stepped over. -/
theorem Machine.Image.skips {label : String}
    (loaded : Image.load (before ++ (.withLabel .label label :: after)) memorySize = .ok image) (point : Point) :
    Steps image.code (fun _ => True) [⟨0, ""⟩] { point with pc := before.length }
      { point with pc := before.length + 1 } := by
  have loaded : Image.load (before ++ ([Instruction.withLabel .label label] ++ after)) memorySize = .ok image := loaded
  obtain ⟨layout, found, -⟩ := Image.exists_segment loaded
  exact .cons trivial (advance_of_rearrange (found 0 .skip rfl) rfl)
    ⟨String.append_empty.symm, (Int.add_zero _).symm⟩ .refl

/-- Instructions that only work on the operand stack. -/
theorem Machine.steps_straight {code : Array Op} {ops : List Op} {pc depth : Nat} {stack stack' : List Int32}
    {memory : Memory} {output : String} (stands : ∀ skipped op, ops[skipped]? = some op → code[pc + skipped]? = some op)
    (ran : Op.rearrangeAll memory ops stack = some stack') :
    ∃ beats, Steps code (fun _ => True) beats ⟨pc, stack, memory, output, depth⟩
      ⟨pc + ops.length, stack', memory, output, depth⟩ := by
  induction ops generalizing pc stack with
  | nil =>
    cases ran
    exact ⟨[], .refl⟩
  | cons op rest ih =>
    obtain ⟨next, here, later⟩ := Option.bind_eq_some_iff.mp ran
    have tail (skipped : Nat) (op : Op) (found : rest[skipped]? = some op) : code[pc + 1 + skipped]? = some op := by
      rw [Nat.add_assoc, Nat.add_comm 1]
      exact stands (skipped + 1) op found
    obtain ⟨beats, others⟩ := ih tail later
    rw [Nat.add_assoc, Nat.add_comm 1] at others
    have fits : Beat.Fits ⟨next.length - stack.length, ""⟩ ⟨pc, stack, memory, output, depth⟩
        ⟨pc + 1, next, memory, output, depth⟩ :=
      ⟨String.append_empty.symm, by dsimp only; omega⟩
    exact ⟨_, .cons trivial (advance_of_rearrange (stands 0 op rfl) here) fits others⟩

/-- Instructions of code that was loaded, if they leave a value and refer to no label. -/
theorem Machine.Image.leaves_straight {code segment : Code} {value : Int32} {start depth : Nat} {stack : List Int32}
    {memory : Memory} {output : String} (loaded : Image.load code memorySize = .ok image)
    (stands : code = before ++ (segment ++ after)) (here : start = before.length)
    (ran : ∀ layout : Layout, Op.rearrangeAll memory (segment.map layout.op) stack = some (value :: stack)) :
    Leaves image.code start (start + segment.length) value ⟨start, stack, memory, output, depth⟩
      ⟨start + segment.length, value :: stack, memory, output, depth⟩ := by
  subst stands here
  obtain ⟨layout, found, -⟩ := Image.exists_segment loaded
  have steps : ∃ beats, Steps image.code (fun _ => True) beats ⟨before.length, stack, memory, output, depth⟩ _ :=
    steps_straight found (ran layout)
  rw [List.length_map] at steps
  exact ⟨rfl, steps, rfl, rfl, rfl⟩

/-- The code of a comparison leaves 1 or 0 for the values that the codes of its operands leave. -/
theorem Lowering.comparison_leaves {labels : LabelFamily} {leftCode rightCode : Code}
    (loaded : Image.load (before ++ (comparison labels leftCode rightCode ++ after)) memorySize = .ok image)
    {start : Nat} (here : start = before.length) {first second third : Point} {left right : Int32}
    (leavesLeft : Leaves image.code (start + 1) (start + 1 + leftCode.length) left first second)
    (leavesRight : Leaves image.code (start + 1 + leftCode.length + 1)
      (start + 1 + leftCode.length + 1 + rightCode.length) right
      { second with pc := start + 1 + leftCode.length + 1 } third) :
    ∃ last, Leaves image.code start (start + (comparison labels leftCode rightCode).length)
        (if 0 < left - right then 1 else 0) { first with pc := start } last ∧
      last.memory = third.memory ∧ last.output = third.output := by
  subst here
  obtain ⟨begins, ⟨beats, steps⟩, ends, leftStack, leftDepth⟩ := leavesLeft
  obtain ⟨-, ⟨beats', steps'⟩, ends', rightStack, rightDepth⟩ := leavesRight
  obtain ⟨_, stack, memory, output, _⟩ := first
  obtain ⟨_, _, memory', output', _⟩ := second
  obtain ⟨_, _, memory'', output'', depth⟩ := third
  dsimp only at begins ends leftStack leftDepth ends' rightStack rightDepth
  subst begins ends leftStack leftDepth ends' rightStack rightDepth
  -- The two labels before the operands, and where the end of the comparison stands.
  have atFirst : before ++ (comparison labels leftCode rightCode ++ after) =
      before ++ (.withLabel .label (labels.label "arg1") :: (leftCode ++
        ([Instruction.withLabel .label (labels.label "arg2")] ++ (rightCode ++ (decideCode labels ++ after))))) := by
    simp only [comparison_eq, List.append_assoc, List.cons_append, List.nil_append]
  have atSecond : before ++ (comparison labels leftCode rightCode ++ after) =
      (before ++ [Instruction.withLabel .label (labels.label "arg1")] ++ leftCode) ++
        (.withLabel .label (labels.label "arg2") :: (rightCode ++ (decideCode labels ++ after))) := by
    simp only [comparison_eq, List.append_assoc, List.cons_append, List.nil_append]
  have atEnd : before ++ (comparison labels leftCode rightCode ++ after) =
      (before ++ [Instruction.withLabel .label (labels.label "arg1")] ++ leftCode ++
        [Instruction.withLabel .label (labels.label "arg2")] ++ rightCode) ++ (decideCode labels ++ after) := by
    simp only [comparison_eq, List.append_assoc]
  have enter := Image.skips (atFirst ▸ loaded) ⟨0, stack, memory, output, depth⟩
  have cross := Image.skips (atSecond ▸ loaded) ⟨0, left :: stack, memory', output', depth⟩
  have decides : Steps image.code (fun _ => True) _
      ⟨_, right :: left :: stack, memory'', output'', depth⟩ _ :=
    steps_decide (fun {skipped op} => decideOps_of_load (atEnd ▸ loaded)) fun _ _ _ _ _ => trivial
  simp only [List.length_append, List.length_singleton] at cross decides
  refine ⟨_, ⟨rfl, ⟨_, enter.trans (steps.trans (cross.trans (steps'.trans decides)))⟩, ?_, rfl, rfl⟩, rfl, rfl⟩
  rw [length_comparison]
  dsimp only
  omega

end Leaves

/-- Comparisons in a program that compiles; each has code of its own. Wherever the program is loaded and
whatever it is loaded with, if the codes of the operands leave two values one after the other, the code of the
comparison leaves one value in their place, and the memory and the rest of the stack as they are then. The
value is 1 if the difference of the two is positive and 0 otherwise, which is their order unless the
difference wraps around. -/
theorem compile_greater {source : String} {options : CompileOptions} {code : Code} {program : Program}
    (accepted : compile source options = .ok code) (parsed : Program.parse source = .ok program) :
    ∃ sites, code.Houses program.analyze options program.exprs sites ∧
      ∀ site ∈ sites, ∀ left right node, site.expr = .binary .greater left right node →
        ∃ labels labeller labeller',
          let leftCode := options.shown (Lowering.value program.analyze left labeller).1
          let rightCode := options.shown (Lowering.value program.analyze right labeller').1
          options.shown (site.code program.analyze) = Lowering.comparison labels leftCode rightCode ∧
          ∀ front back memorySize image, Image.load (front ++ (code ++ back)) memorySize = .ok image →
            let start := front.length + site.start
            let between := start + 1 + leftCode.length
            let stop := start + (Lowering.comparison labels leftCode rightCode).length
            ∀ first second third a b, Leaves image.code (start + 1) between a first second →
              Leaves image.code (between + 1) (between + 1 + rightCode.length) b { second with pc := between + 1 } third →
              ∃ last result, Leaves image.code start stop result { first with pc := start } last ∧
                last.memory = third.memory ∧ last.output = third.output ∧
                (result = 1 ∧ 0 < a - b ∨ result = 0 ∧ ¬ 0 < a - b) ∧ (0 < a - b ↔ (b < a ↔ Near a b)) := by
  obtain ⟨checked, parsed', analysis, lead, rfl⟩ := exists_compiles accepted
  rw [parsed, Except.ok.injEq] at parsed'
  subst parsed'
  rw [← analysis]
  obtain ⟨index, sited⟩ := checked.exists_sited options.emitEnvironment
  obtain ⟨sites, houses, -⟩ := sited.exists_houses fun _ stands => stands.1
  rw [← Checked.generate_eq_shown lead] at houses
  refine ⟨sites, houses, ?_⟩
  rintro ⟨_, labeller, place⟩ member left right node rfl
  obtain ⟨labels, labeller', labeller'', split⟩ := Lowering.value_greater checked.analysis left right node labeller
  have shown : options.shown (Lowering.value checked.analysis (.binary .greater left right node) labeller).1 = _ :=
    (congrArg options.shown split).trans (options.shown_comparison _ _ _)
  refine ⟨labels, labeller', labeller'', shown, ?_⟩
  obtain ⟨before, after, same, begins⟩ := houses.exists_eq member
  intro front back memorySize image loaded start between stop first second third a b leavesLeft leavesRight
  have here : start = (front ++ before).length := by rw [List.length_append, begins]
  have inside : front ++ (checked.program.generate checked.analysis options ++ back) = (front ++ before) ++
      (Lowering.comparison labels (options.shown (Lowering.value checked.analysis left labeller').1)
        (options.shown (Lowering.value checked.analysis right labeller'').1) ++ (after ++ back)) := by
    rw [same, Site.code, shown]
    simp only [List.append_assoc]
  rw [inside] at loaded
  obtain ⟨last, leaves, memory, output⟩ := Lowering.comparison_leaves loaded here leavesLeft leavesRight
  refine ⟨last, _, leaves, memory, output, ?_, sub_pos_iff a b⟩
  by_cases positive : 0 < a - b
  · exact .inl ⟨if_pos positive, positive⟩
  · exact .inr ⟨if_neg positive, positive⟩

/-- A comparison whose greater operand comes first, and which does not hold. -/
theorem greater_not_order : (-1 : Int32) < 2147483647 ∧
    ∃ code, compile "main \x7b print 2147483647 > -1; \x7d" ⟨true, "", true⟩ = .ok code ∧
      ((starting ⟨100, 50⟩).run code).1 = none ∧ ((starting ⟨100, 50⟩).run code).2.output = "false" := by
  obtain ⟨code, accepted, ran⟩ := exists_compile_of_any (by decide +kernel :
    (compile "main \x7b print 2147483647 > -1; \x7d" ⟨true, "", true⟩).toOption.any (fun code =>
      ((starting ⟨100, 50⟩).run code).1 = none ∧ ((starting ⟨100, 50⟩).run code).2.output = "false") = true)
  exact ⟨by decide, code, accepted, of_decide_eq_true ran⟩

/-- A comparison of words whose difference is not a word. -/
def Expr.comparesFarApart : Expr → Bool
  | .binary .greater (.literal (.int 2147483647) _) (.unary .negate (.literal (.int 1) _) _) _ => true
  | _ => false

/-- The code of that comparison leaves 0. -/
theorem compile_greater_wraps : ∃ code image start stop first last,
    compile "main \x7b print 2147483647 > -1; \x7d" ⟨true, "", false⟩ = .ok code ∧
      Image.load code 100 = .ok image ∧ Leaves image.code start stop 0 first last := by
  obtain ⟨code, accepted, loads⟩ := exists_compile_of_any (by decide +kernel :
    (compile "main \x7b print 2147483647 > -1; \x7d" ⟨true, "", false⟩).toOption.any (fun code =>
      (Image.load code 100).toOption.isSome) = true)
  have read : ∃ program, Program.parse "main \x7b print 2147483647 > -1; \x7d" = .ok program ∧
      program.exprs.any Expr.comparesFarApart = true := Program.exists_parse_of_map (by decide +kernel)
  obtain ⟨program, parsed, found⟩ := read
  obtain ⟨expr, inside, shape⟩ := List.any_eq_true.mp found
  unfold Expr.comparesFarApart at shape
  split at shape
  next =>
    obtain ⟨sites, houses, greater⟩ := compile_greater accepted parsed
    obtain ⟨site, member, here⟩ := houses.exists_site inside
    obtain ⟨labels, labeller, labeller', shown, leaves⟩ := greater site member _ _ _ here
    obtain ⟨before, after, same, begins⟩ := houses.exists_eq member
    rw [shown] at same
    have left (node : Node) : CompileOptions.shown ⟨true, "", false⟩ (Lowering.value program.analyze
        (.literal (.int 2147483647) node) labeller).1 = [.withInt .pushInt 2147483647] := by
      rw [Lowering.value_literal]
      rfl
    have right (node inner : Node) : CompileOptions.shown ⟨true, "", false⟩ (Lowering.value program.analyze
        (.unary .negate (.literal (.int 1) inner) node) labeller').1 = [.withInt .pushInt 1, .plain .negate] := by
      rw [Lowering.value_negate, Lowering.value_literal]
      rfl
    rw [left, right] at same leaves
    obtain ⟨image, loaded⟩ := Option.isSome_iff_exists.mp loads
    replace loaded : Image.load code 100 = .ok image := by
      cases ends : Image.load code 100 <;> rw [ends] at loaded <;> cases loaded
      rfl
    rw [Lowering.comparison_eq] at same
    have atLeft : code = (before ++ [.withLabel .label (labels.label "arg1")]) ++ ([.withInt .pushInt 2147483647] ++
        ([.withLabel .label (labels.label "arg2")] ++ ([.withInt .pushInt 1, .plain .negate] ++
          Lowering.decideCode labels) ++ after)) := by simpa using same
    have atRight : code = (before ++ [.withLabel .label (labels.label "arg1"), .withInt .pushInt 2147483647,
        .withLabel .label (labels.label "arg2")]) ++ ([.withInt .pushInt 1, .plain .negate] ++
          (Lowering.decideCode labels ++ after)) := by simpa using same
    have first : Leaves image.code (before.length + 1) _ 2147483647
        ⟨before.length + 1, [], image.memory, "", 0⟩ ⟨before.length + 2, [2147483647], image.memory, "", 0⟩ :=
      Image.leaves_straight loaded atLeft (by simp) fun _ => rfl
    have second : Leaves image.code (before.length + 3) _ (-1)
        ⟨before.length + 3, [2147483647], image.memory, "", 0⟩
        ⟨before.length + 5, [-1, 2147483647], image.memory, "", 0⟩ :=
      Image.leaves_straight loaded atRight (by simp) fun _ => rfl
    have placed := leaves [] [] 100 image (by rwa [List.nil_append, List.append_nil])
    rw [List.length_nil, Nat.zero_add, ← begins] at placed
    obtain ⟨last, result, whole, -, -, ⟨-, positive⟩ | ⟨rfl, -⟩, -⟩ := placed _ _ _ 2147483647 (-1) first second
    · exact absurd positive (by decide)
    · exact ⟨code, image, _, _, _, last, accepted, loaded, whole⟩
  next => cases shape

end Stackwright
