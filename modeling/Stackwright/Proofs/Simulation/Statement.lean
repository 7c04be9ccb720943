import Stackwright.Proofs.Simulation.Printing
import Stackwright.Proofs.Simulation.Scopes

/-! Statements. The code of a statement leaves the operand stack as it found it and comes to its end,
unless the statement leaves the function: then the code goes to the end of the stretch, and the
result is on the operand stack. -/

set_option autoImplicit false

namespace Stackwright

open Machine Checked

namespace Watch

variable {watch : Watch} {home : watch.build.Home} {depth pc bound : Nat} {stack : List Int32} {memory : Memory}
  {output : String} {names after : Nest Binding} {meanings : Nest Meaning} {invoke : Timed.Invoke} {binding : Binding}
  {area : Allocator} {result : Option Ty} {exit : Option String} {labeller : Labeller}

/-- What a function leaves on the operand stack for its end. -/
def Leaves (result : Option Value) (left : List Int32) : Prop :=
  result.elim (left = []) fun value => ∃ operand, left = [operand] ∧ value.IsWord operand

/-- Where a run is when a statement led somewhere. -/
def Leads (watch : Watch) (home : watch.build.Home) (bound : Nat) (result : Option Ty) (names : Nest Binding)
    (depth stop : Nat) (stack : List Int32) (memory : Memory) (flow : Flow) (last : Point) : Prop :=
  ∃ after output, home.Stays memory after ∧
    match flow with
    | .next meanings => last = ⟨stop, stack, after, output, depth⟩ ∧ watch.Ready home bound names meanings stop after
    | .returned value => ∃ left, last = ⟨home.stop, left ++ stack, after, output, depth⟩ ∧
        result = some (value.elim .void Value.ty) ∧ Leaves value left

theorem Ready.stays {after : Memory} (ready : watch.Ready home bound names meanings pc memory)
    (stays : home.Stays memory after) {names' : Nest Binding} {meanings' : Nest Meaning}
    (same : names'.Matches (watch.build.Stored after) meanings') :
    watch.Ready home bound names' meanings' pc after :=
  ⟨stays.fine ready.fine, ready.room.imp_right stays.room, same⟩

/-- A statement that comes to its end may be followed by steps that change nothing. -/
theorem Follows.leadsTo {point : Point} {run : Timed Flow} {opcodes : List Opcode} {stop stop' : Nat} {before : Memory}
    (follows : watch.Follows bound point run (watch.Leads home bound result names depth stop stack memory))
    (stays : home.Stays before memory) (later : stop ≤ stop')
    (goes : ∀ {after : Memory} {output : String}, home.Fine stop after →
      watch.Run (Opcode.code opcodes).beats ⟨stop, stack, after, output, depth⟩ ⟨stop', stack, after, output, depth⟩) :
    watch.Follows bound point (do (← run).timed opcodes)
      (watch.Leads home bound result names depth stop' stack before) := by
  refine Follows.bind follows ?_
  rintro (meanings | value) _ ⟨after, output, stays', reached⟩
  · obtain ⟨rfl, ready⟩ := reached
    exact (Follows.here ⟨_, _, stays.trans stays', rfl, ready.later later⟩).step (goes ready.fine)
  · obtain ⟨left, rfl, expected, leaves⟩ := reached
    exact Follows.here ⟨_, _, stays.trans stays', left, rfl, expected, leaves⟩

/-- A jump for a condition that does not hold. -/
theorem Segment.test {truth : Bool} {operand : Int32} {label : String} {target : Nat}
    (segment : watch.Segment home depth pc [.withLabel .jumpFalse label])
    (found : watch.build.layout.target? label = some target) (isWord : (Value.bool truth).IsWord operand)
    (fine : home.Fine pc memory) :
    watch.Run (Opcode.code [.jumpFalse]).beats ⟨pc, operand :: stack, memory, output, depth⟩
      ⟨if truth then pc + 1 else target, stack, memory, output, depth⟩ := by
  have jumps : watch.Run _ ⟨pc, operand :: stack, memory, output, depth⟩
      ⟨if operand = 0 then target else pc + 1, stack, memory, output, depth⟩ := segment.jumpFalse fine found
  cases truth with
  | true => rwa [if_neg (isWord.1.mpr rfl)] at jumps
  | false => rwa [if_pos (Decidable.not_not.mp fun differs => Bool.noConfusion (isWord.1.mp differs))] at jumps

theorem Segment.skip {label : String} {code : Code}
    (segment : watch.Segment home depth pc (.withLabel .label label :: code)) (fine : home.Fine pc memory) :
    watch.Run (Opcode.code [.label]).beats ⟨pc, stack, memory, output, depth⟩ ⟨pc + 1, stack, memory, output, depth⟩ :=
  segment.quietStep fine (advance_of_rearrange segment.stands.fetch rfl) (Int.add_zero _).symm

/-- A store in a variable of the stretch. -/
theorem Segment.assign {count : Nat} {α : Type} {run : Timed α} {goal : α → Point → Prop}
    {operand : Int32} (setting : home.Setting area result exit) (located : home.Located binding)
    (isValue : binding.ty.isValue = true)
    (own : home.owner.isSome → binding.location.offset + binding.ty.size ≤ -8)
    (segment : watch.Segment home depth pc [.plain binding.ty.storeOpcode])
    (free : ¬ watch.build.code.SetsPointer pc) (ready : watch.Ready home bound names meanings pc memory)
    (next : ∀ index, memory.locate (Build.address memory binding) binding.ty.size = .ok index → 29 ≤ index →
      home.Stays memory (memory.put binding.ty index operand) →
      watch.Follows count ⟨pc + 1, stack, memory.put binding.ty index operand, output, depth⟩ run goal) :
    watch.Follows count ⟨pc, operand :: Build.address memory binding :: stack, memory, output, depth⟩
      (do Timed.spend [.plain binding.ty.storeOpcode]; run) goal := by
  have data := watch.build.dataSize_ge
  -- The variables of the main block lie in the data, those of a function in its frame.
  cases owner : home.owner with
  | none =>
    have reading : (word (Build.address memory binding) : Int) = _ := Build.Home.word_address located
    have size := ready.fine.intact.size
    have code := watch.build.code_lt
    have small := watch.build.dataSize_le
    have inside := located
    unfold Build.Home.Located at inside
    unfold Build.Home.base at reading
    simp only [owner] at inside reading
    rw [dataSize] at size small
    have found : memory.locate (Build.address memory binding) binding.ty.size = .ok (word (Build.address memory binding)) :=
      Memory.locate_eq_ok_iff.mpr ⟨by omega, by omega, rfl⟩
    have ownerless : ¬ home.owner.isSome = true := by rw [owner]; exact Bool.false_ne_true
    have stays := Build.Home.stays_put ready.fine located isValue (fun owned => absurd owned ownerless) found operand
    exact (next _ found (by omega) stays).step (segment.store ready.fine isValue found)
  | some place =>
    have owned : home.owner.isSome = true := by rw [owner]; rfl
    have late := setting.late owned
    have start := segment.start
    refine segment.push ready.fine isValue free (.inl (by omega)) ?_ fun above inside small => ?_
    · refine ready.room.imp_right fun room => ?_
      obtain ⟨index, found⟩ := Build.Home.exists_locate ready.fine room located
      have position := Build.Home.index_eq ready.fine located found
      obtain ⟨small, inside, start⟩ := Memory.locate_eq_ok_iff.mp found
      have below := room.below
      have frame := room.frame place owner
      unfold Build.Home.Located at located
      unfold Build.Home.base at position
      simp only [owner] at located position
      omega
    · have found : memory.locate (Build.address memory binding) binding.ty.size = .ok (word (Build.address memory binding)) :=
        Memory.locate_eq_ok_iff.mpr ⟨small, inside, rfl⟩
      exact next _ found (by omega)
        (Build.Home.stays_put ready.fine located isValue (fun _ => ⟨own owned, above⟩) found operand)

end Watch

/-- A statement declares names in the innermost block only. -/
theorem Stmt.PlacedAll.outer {analysis : Analysis} {area : Allocator} {result : Option Ty}
    {block : List (String × Binding)} {outer after : Nest Binding} {stmts : List Stmt}
    (placed : Stmt.PlacedAll analysis area result (block :: outer) stmts after) : ∃ block', after = block' :: outer := by
  induction stmts generalizing block with
  | nil =>
    cases placed
    exact ⟨block, rfl⟩
  | cons first rest ih =>
    cases placed with
    | cons here others =>
      cases here with
      | declare _ _ _ _ _ _ _ => exact ih others
      | _ => exact ih others

theorem Value.eq_bool {value : Value} (typed : value.ty = .bool) : ∃ truth, value = .bool truth := by
  cases value with
  | int _ => cases typed
  | bool truth => exact ⟨truth, rfl⟩

section Follows

open Watch

variable {watch : Watch} {home : watch.build.Home} {depth bound : Nat} {invoke : Timed.Invoke} {area : Allocator}
  {result : Option Ty} {exit : Option String} (deep : watch.Deep depth) (calls : watch.Callable bound invoke)
  (setting : home.Setting area result exit)

include deep calls

/-- The value of an expression comes to lie in a variable. -/
theorem Resolved.assigns {names : Nest Binding} {meanings : Nest Meaning} {target : Name} {binding : Binding}
    {source : Expr} {labeller : Labeller} {pc : Nat} {stack : List Int32} {memory : Memory} {output : String}
    (setting : home.Setting area result exit) (visible : home.Visible names)
    (resolved : Resolved watch.build.analysis names source binding.ty) (isValue : binding.ty.isValue = true)
    (located : home.Located binding) (own : home.owner.isSome → binding.location.offset + binding.ty.size ≤ -8)
    (noted : watch.build.analysis.bindingOf target.node.id = binding)
    (segment : watch.Segment home depth pc (Lowering.store watch.build.analysis target source labeller).1)
    (ready : watch.Ready home bound names meanings pc memory) :
    watch.Follows bound ⟨pc, stack, memory, output, depth⟩ (source.timedStore invoke home.ground meanings) fun value last =>
      ∃ between index operand output, last = ⟨pc + (Lowering.store watch.build.analysis target source labeller).1.length,
          stack, Memory.put between binding.ty index operand, output, depth⟩ ∧
        value.ty = binding.ty ∧ value.IsWord operand ∧ 29 ≤ index ∧
        between.locate (Build.address between binding) binding.ty.size = .ok index ∧
        home.Stays memory (between.put binding.ty index operand) ∧
        home.Stays between (between.put binding.ty index operand) ∧
        watch.Ready home bound names meanings
          (pc + (Lowering.store watch.build.analysis target source labeller).1.length) between := by
  rw [Lowering.store_eq _ noted] at segment ⊢
  simp only [List.length_append, List.length_singleton, ← Nat.add_assoc]
  have base : binding.location.base ≠ .null := by
    unfold Build.Home.Located at located
    split at located
    all_goals
      rw [located.1]
      exact Base.noConfusion
  have address : watch.Run _ ⟨pc, stack, memory, output, depth⟩ _ := segment.left.address ready.fine base
  rw [located.base_eq] at address
  have ready' := ready.later (Nat.le_add_right pc binding.addressCode.length)
  refine Follows.step address (Follows.bind (resolved.follows deep calls visible isValue segment.right.left ready') ?_)
  rintro value _ ⟨operand, between, output, rfl, ⟨typed, isWord⟩, keeps⟩
  have ready'' := ready'.keeps visible keeps (Nat.le_add_right _ (Lowering.value watch.build.analysis source labeller).1.length)
  rw [← Build.Home.address_congr (keeps.intAt watch.build.dataSize_ge), typed]
  refine segment.right.right.assign setting located isValue own segment.right.free ready'' ?_
  intro index found above stays
  exact Follows.here ⟨between, index, operand, _, rfl, typed, isWord, above, found,
    (keeps.stays ready'.fine).trans stays, stays, ready''.later (Nat.le_add_right _ 1)⟩

/-- A call for its effect leaves some word, which is dropped. -/
theorem Resolved.performs {names : Nest Binding} {meanings : Nest Meaning} {call : Call} {ty : Ty}
    {labeller : Labeller} {pc : Nat} {stack : List Int32} {memory : Memory} {output : String}
    (visible : home.Visible names) (resolved : Resolved watch.build.analysis names call.expr ty)
    (segment : watch.Segment home depth pc
      ((Lowering.value watch.build.analysis call.expr labeller).1 ++ [Instruction.plain .pop]))
    (ready : watch.Ready home bound names meanings pc memory) :
    watch.Follows bound ⟨pc, stack, memory, output, depth⟩ (call.timed invoke home.ground meanings) fun _ last =>
      ∃ after output, last = ⟨pc + (Lowering.value watch.build.analysis call.expr labeller).1.length + 1,
        stack, after, output, depth⟩ ∧ home.Keeps pc memory after := by
  cases resolved with
  | call found callable noted arguments _ =>
    refine Follows.bind (segment.left.call deep calls visible found callable noted arguments
      (fun areValues pushes clear => arguments.follows deep calls visible areValues pushes ready clear) ready) ?_
    rintro _ _ ⟨operand, after, output, rfl, _, keeps⟩
    have fine := keeps.fine ready.fine (Nat.le_add_right pc (Lowering.value watch.build.analysis call.expr labeller).1.length)
    exact Follows.emit (segment.right.straight fine rfl) ⟨_, _, rfl, keeps⟩

/-- A condition is evaluated, and the jump behind it is taken if the condition does not hold. -/
theorem Resolved.tests {names : Nest Binding} {meanings : Nest Meaning} {condition : Expr} {labeller : Labeller}
    {pc target : Nat} {stack : List Int32} {memory : Memory} {output label : String} {code : Code}
    (visible : home.Visible names) (resolved : Resolved watch.build.analysis names condition .bool)
    (segment : watch.Segment home depth pc ((Lowering.value watch.build.analysis condition labeller).1 ++
      ([Instruction.withLabel .jumpFalse label] ++ code)))
    (found : watch.build.layout.target? label = some target)
    (ready : watch.Ready home bound names meanings pc memory) :
    watch.Follows bound ⟨pc, stack, memory, output, depth⟩ (condition.timed invoke home.ground meanings)
      fun value last => ∃ truth after output, value = .bool truth ∧
        watch.Run (Opcode.code [.jumpFalse]).beats last
          ⟨if truth then pc + (Lowering.value watch.build.analysis condition labeller).1.length + 1 else target,
            stack, after, output, depth⟩ ∧
        home.Stays memory after ∧ watch.Ready home bound names meanings pc after := by
  refine (resolved.follows deep calls visible rfl segment.left ready).mono ?_
  rintro value _ ⟨operand, after, output, rfl, ⟨typed, isWord⟩, keeps⟩
  obtain ⟨truth, rfl⟩ := Value.eq_bool typed
  have ready' := ready.keeps visible keeps (Nat.le_refl pc)
  refine ⟨truth, after, output, rfl, ?_, keeps.stays ready.fine, ready'⟩
  exact segment.right.left.test found isWord (ready'.fine.later (Nat.le_add_right _ _))

include setting

-- The members of a family share its hypotheses, also those that a member only hands on to the others.
set_option linter.unusedSectionVars false in
mutual

theorem Stmt.Placed.follows {names after : Nest Binding} {meanings : Nest Meaning} {stmt : Stmt}
    {labeller : Labeller} {pc : Nat} {stack : List Int32} {memory : Memory} {output : String} :
    Stmt.Placed watch.build.analysis area result names stmt after → home.Visible names →
    watch.Segment home depth pc (Lowering.statement watch.build.analysis exit stmt labeller).1 →
    watch.Ready home bound names meanings pc memory →
    watch.Follows bound ⟨pc, stack, memory, output, depth⟩ (stmt.timed invoke home.ground meanings)
      (watch.Leads home bound result after depth
        (pc + (Lowering.statement watch.build.analysis exit stmt labeller).1.length) stack memory)
  | .declare typed isValue _ _ noted covers apart, visible, segment, ready => by
    have located := Build.Home.located_of_covers setting visible isValue covers apart
    rw [Lowering.statement] at segment ⊢
    rw [Stmt.timed]
    refine Follows.bind (typed.assigns deep calls setting visible isValue located
      (Build.Home.own_of_covers setting covers) noted segment ready) ?_
    rintro value _ ⟨between, index, operand, output, rfl, kind, isWord, above, found, stays, here, ready'⟩
    exact Follows.here ⟨_, _, stays, rfl, ready'.stays here
      (Build.Home.matches_declare ready'.fine visible located above found kind isWord ready'.same apart)⟩
  | .assign nearest isMutable noted typed, visible, segment, ready => by
    obtain ⟨isValue, located, own⟩ := visible.mutable nearest isMutable
    rw [Lowering.statement] at segment ⊢
    rw [Stmt.timed]
    refine Follows.bind (typed.assigns deep calls setting visible isValue located own noted segment ready) ?_
    rintro value _ ⟨between, index, operand, output, rfl, kind, isWord, above, found, stays, here, ready'⟩
    obtain ⟨meaning, nearest', stored⟩ := ready'.same.find nearest
    cases meaning with
    | function function =>
      obtain ⟨_, _, _, _, rfl⟩ := stored
      cases isValue
    | value old =>
      rw [nearest']
      simp only [if_pos (kind.trans stored.1.symm)]
      exact Follows.here ⟨_, _, stays, rfl, ready'.stays here
        (Build.Home.matches_assign ready'.fine visible located above found kind isWord ready'.same nearest)⟩
  | @Stmt.Placed.branch _ _ _ _ conditionExpr body node condition thenBlock, visible, segment, ready => by
    obtain ⟨labels, first, second, same⟩ :=
      Lowering.statement_branch watch.build.analysis exit conditionExpr body node labeller
    rw [same] at segment ⊢
    simp only [List.length_append, List.length_cons, List.length_nil, ← Nat.add_assoc, Stmt.timed]
    have ends : watch.Segment home depth _ [.withLabel .label (labels.label "end")] := segment.right.right.right.tail
    have target := ends.stands.target? rfl rfl
    refine Follows.bind (condition.tests deep calls visible segment target ready) ?_
    rintro _ _ ⟨truth, between, output, rfl, test, stays, ready'⟩
    cases truth with
    | true =>
      refine Follows.step test ((thenBlock.follows visible segment.right.right.left (ready'.later (by omega))).leadsTo
        stays (by simp only [List.length_cons, List.length_nil]; omega) fun fine => ?_)
      exact (segment.right.right.right.jump fine target).trans (ends.skip (fine.later (by omega)))
    | false =>
      refine Follows.step (test.trans (ends.skip (ready'.fine.later (by omega)))) ?_
      exact Follows.here ⟨_, _, stays, rfl, ready'.later (by omega)⟩
  | @Stmt.Placed.branchElse _ _ _ _ conditionExpr body other node condition thenBlock elseBlock, visible, segment,
      ready => by
    obtain ⟨labels, first, second, third, same⟩ :=
      Lowering.statement_branchElse watch.build.analysis exit conditionExpr body other node labeller
    rw [same] at segment ⊢
    simp only [List.length_append, List.length_cons, List.length_nil, ← Nat.add_assoc, Stmt.timed]
    have orElse : watch.Segment home depth _ [.withLabel .label (labels.label "else")] :=
      segment.right.right.right.left.tail
    have ends : watch.Segment home depth _ [.withLabel .label (labels.label "end")] :=
      segment.right.right.right.right.right
    have target := orElse.stands.target? rfl rfl
    have target' := ends.stands.target? rfl rfl
    refine Follows.bind (condition.tests deep calls visible segment target ready) ?_
    rintro _ _ ⟨truth, between, output, rfl, test, stays, ready'⟩
    cases truth with
    | true =>
      refine Follows.step test ((thenBlock.follows visible segment.right.right.left (ready'.later (by omega))).leadsTo
        stays (by simp only [List.length_cons, List.length_nil]; omega) fun fine => ?_)
      exact (segment.right.right.right.left.jump fine target').trans (ends.skip (fine.later (by omega)))
    | false =>
      refine Follows.step (test.trans (orElse.skip (ready'.fine.later (by omega)))) ?_
      refine (elseBlock.follows visible segment.right.right.right.right.left (ready'.later (by omega))).leadsTo
        stays (by simp only [List.length_cons, List.length_nil]; omega) fun fine => ?_
      exact ends.skip fine
  | .ret expected, visible, segment, ready => by
    obtain ⟨label, rfl, target⟩ := setting.leaves (by rw [expected]; rfl)
    rw [Lowering.statement_ret] at segment
    rw [Stmt.timed]
    refine Follows.step (segment.jump ready.fine target) ?_
    exact Follows.here ⟨_, _, .refl _, [], rfl, expected, rfl⟩
  | .retValue typed isValue expected, visible, segment, ready => by
    obtain ⟨label, rfl, target⟩ := setting.leaves (by rw [expected]; rfl)
    rw [Lowering.statement_retValue] at segment
    rw [Stmt.timed]
    refine Follows.bind (typed.follows deep calls visible isValue segment.left ready) ?_
    rintro value _ ⟨operand, after, output, rfl, ⟨rfl, isWord⟩, keeps⟩
    have fine := keeps.fine ready.fine (Nat.le_refl pc)
    refine Follows.step (segment.right.jump (fine.later (Nat.le_add_right _ _)) target) ?_
    exact Follows.here ⟨_, _, keeps.stays ready.fine, [operand], rfl, expected, operand, rfl, isWord⟩
  | .call typed, visible, segment, ready => by
    rw [Lowering.statement_call] at segment ⊢
    rw [List.length_append, List.length_singleton, ← Nat.add_assoc, Stmt.timed]
    refine Follows.bind (typed.performs deep calls visible segment ready) ?_
    rintro _ _ ⟨after, output, rfl, keeps⟩
    exact Follows.here ⟨_, _, keeps.stays ready.fine, rfl, ready.keeps visible keeps (by omega)⟩
  | .print items, visible, segment, ready => by
    rw [Lowering.statement] at segment ⊢
    rw [Stmt.timed]
    refine Follows.bind (PrintItem.follows_all deep calls visible items segment ready) ?_
    rintro _ _ ⟨after, output, rfl, keeps⟩
    exact Follows.here ⟨_, _, keeps.stays ready.fine, rfl, ready.keeps visible keeps (Nat.le_add_right _ _)⟩
  | .nested body, visible, segment, ready => by
    rw [Lowering.statement] at segment ⊢
    rw [Stmt.timed]
    exact body.follows visible segment ready

theorem Block.Placed.follows {names : Nest Binding} {meanings : Nest Meaning} {block : Block}
    {labeller : Labeller} {pc : Nat} {stack : List Int32} {memory : Memory} {output : String} :
    Block.Placed watch.build.analysis area result names block → home.Visible names →
    watch.Segment home depth pc (Lowering.block watch.build.analysis exit block labeller).1 →
    watch.Ready home bound names meanings pc memory →
    watch.Follows bound ⟨pc, stack, memory, output, depth⟩ (block.timed invoke home.ground meanings)
      (watch.Leads home bound result names depth
        (pc + (Lowering.block watch.build.analysis exit block labeller).1.length) stack memory)
  | .mk statements, visible, segment, ready => by
    rw [Lowering.block] at segment ⊢
    rw [Block.timed]
    refine Follows.bind (statements.follows visible.openBlock segment
      ⟨ready.fine, ready.room, ready.same.openBlock⟩) ?_
    rintro (meanings | value) _ ⟨after, output, stays, reached⟩
    · obtain ⟨rfl, ready'⟩ := reached
      obtain ⟨block, rfl⟩ := statements.outer
      exact Follows.here ⟨_, _, stays, rfl, ready'.fine, ready'.room, ready'.same.leaveBlock⟩
    · obtain ⟨left, rfl, expected, leaves⟩ := reached
      exact Follows.here ⟨_, _, stays, left, rfl, expected, leaves⟩

theorem Stmt.PlacedAll.follows {names after : Nest Binding} {meanings : Nest Meaning} {stmts : List Stmt}
    {labeller : Labeller} {pc : Nat} {stack : List Int32} {memory : Memory} {output : String} :
    Stmt.PlacedAll watch.build.analysis area result names stmts after → home.Visible names →
    watch.Segment home depth pc (Lowering.statements watch.build.analysis exit stmts labeller).1 →
    watch.Ready home bound names meanings pc memory →
    watch.Follows bound ⟨pc, stack, memory, output, depth⟩ (Stmt.timedAll invoke home.ground meanings stmts)
      (watch.Leads home bound result after depth
        (pc + (Lowering.statements watch.build.analysis exit stmts labeller).1.length) stack memory)
  | .nil, visible, segment, ready => by
    rw [Stmt.timedAll]
    exact Follows.here ⟨_, _, .refl _, rfl, ready⟩
  | .cons first rest, visible, segment, ready => by
    rw [Lowering.statements_cons] at segment ⊢
    rw [List.length_append, ← Nat.add_assoc, Stmt.timedAll]
    refine Follows.bind (first.follows visible segment.left ready) ?_
    rintro (meanings | value) _ ⟨between, output, stays, reached⟩
    · obtain ⟨rfl, ready'⟩ := reached
      refine (rest.follows (first.visible setting visible) segment.right ready').mono ?_
      rintro flow last ⟨after, output, stays', reached⟩
      exact ⟨_, _, stays.trans stays', reached⟩
    · obtain ⟨left, rfl, expected, leaves⟩ := reached
      exact Follows.here ⟨_, _, stays, left, rfl, expected, leaves⟩

end

end Follows

end Stackwright
