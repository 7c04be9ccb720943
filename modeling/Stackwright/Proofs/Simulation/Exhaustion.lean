import Stackwright.Proofs.Simulation.Expression
import Stackwright.Proofs.Soundness

/-! Expressions when the call stack has no room left. Nothing is stored then but on the call stack, and
no such store can pass: the run leaves memory alone, whatever values it works with, until it is lost at
the first argument or the first call. -/

set_option autoImplicit false

namespace Stackwright

open Machine Checked

namespace Watch

variable {watch : Watch} {home : watch.build.Home} {depth pc : Nat} {stack : List Int32}
  {memory : Memory} {output : String} {names : Nest Binding} {binding : Binding}

theorem callee_of_visible (visible : home.Visible names) {name : String} {parameters : List Ty} {result : Ty}
    (found : names.find? name = some binding) (callable : binding.ty = .function parameters result) :
    ∃ (index : Nat) (place : Place), watch.build.places[index]? = some place ∧ binding = place.function.cell index ∧
      place.function.signature = ⟨parameters, result⟩ := by
  obtain ⟨block, outer, member⟩ := Nest.mem_of_find? found
  rcases visible.placed _ (List.mem_flatten.mpr ⟨block, outer, member⟩) with ⟨isValue, _⟩ | ⟨index, place, here, same⟩
  · change binding.ty.isValue = true at isValue
    rw [callable] at isValue
    cases isValue
  · change binding = _ at same
    refine ⟨index, place, here, same, ?_⟩
    rw [same] at callable
    injection callable with parameters result
    rw [← parameters, ← result]

theorem isValue_of_place {place : Place} (member : place ∈ watch.build.places) :
    ∀ ty ∈ place.function.signature.parameters, ty.isValue = true :=
  (watch.build.legible.functions _ (watch.build.function_mem member)).isValue

theorem located_of_visible (visible : home.Visible names) {name : String}
    (found : names.find? name = some binding) (isValue : binding.ty.isValue = true) : home.Located binding := by
  obtain ⟨block, outer, member⟩ := Nest.mem_of_find? found
  rcases visible.placed _ (List.mem_flatten.mpr ⟨block, outer, member⟩) with ⟨_, located⟩ | ⟨index, place, _, same⟩
  · exact located
  · change binding = _ at same
    rw [same] at isValue
    cases isValue

theorem stored_of_visible (visible : home.Visible names) {name : String}
    (found : names.find? name = some binding) : binding.location.base ≠ .null := by
  obtain ⟨block, outer, member⟩ := Nest.mem_of_find? found
  rcases visible.placed _ (List.mem_flatten.mpr ⟨block, outer, member⟩) with ⟨_, located⟩ | ⟨index, place, _, same⟩
  · unfold Build.Home.Located at located
    split at located
    · rw [located.1]
      exact Base.noConfusion
    · rw [located.1]
      exact Base.noConfusion
  · change binding = _ at same
    rw [same]
    exact Base.noConfusion

/-- A load that may fail. -/
theorem Segment.load_tends {ty : Ty} {address : Int32} (segment : watch.Segment home depth pc [.plain ty.loadOpcode])
    (fine : home.Fine pc memory) (isValue : ty.isValue = true) (lossy : watch.lossy) :
    watch.Tends ⟨pc, address :: stack, memory, output, depth⟩ fun last =>
      ∃ operand, last = ⟨pc + 1, operand :: stack, memory, output, depth⟩ := by
  have loads : watch.Follows 0 ⟨pc, address :: stack, memory, output, depth⟩
      (do Timed.spend [.plain ty.loadOpcode]; return ()) fun _ last =>
        ∃ operand, last = ⟨pc + 1, operand :: stack, memory, output, depth⟩ :=
    segment.load fine isValue (.inl lossy) fun _ _ => Follows.here ⟨_, rfl⟩
  rcases loads with lost | ⟨last, steps, reached⟩
  · exact .inl lost
  · exact .inr ⟨_, last, steps, reached⟩

/-- An argument that there is no room for cannot be stored. -/
theorem Segment.push_lost {ty : Ty} {value : Int32} {pc' : Nat}
    (segment : watch.Segment home depth pc [.plain ty.storeOpcode])
    (fine : home.Fine pc memory) (isValue : ty.isValue = true) (free : ¬ watch.build.code.SetsPointer pc)
    (lossy : watch.lossy) (doomed : home.Doomed pc' memory) :
    watch.Lost ⟨pc, value :: memory.intAt 21 :: stack, memory, output, depth⟩ := by
  refine Follows.lost (segment.push fine isValue free (.inr rfl) (.inl lossy) fun above _ small => ?_)
  have starved : _ ≤ word (memory.intAt 21) := doomed.resolve_left (Nat.not_lt.mpr above)
  omega

/-- A call is lost before it comes to its end, if it was so while its arguments were pushed. -/
theorem Segment.invocation_lost (deep : watch.Deep depth) (lossy : watch.lossy) {place : Place} {index : Nat}
    {arguments : Code} {signature : Signature} (here : watch.build.places[index]? = some place)
    (segment : watch.Segment home depth pc (Lowering.invocation (place.function.cell index) signature arguments))
    (fine : home.Fine pc memory) (doomed : home.Doomed pc memory)
    (pushed : arguments = [] ∨ watch.Lost ⟨pc, stack, memory, output, depth⟩) :
    watch.Lost ⟨pc, stack, memory, output, depth⟩ := by
  rcases pushed with rfl | lost
  · rw [Lowering.invocation_eq, List.nil_append] at segment
    refine Lost.after (segment.left.enter here fine) (deep.starved (List.mem_of_getElem? here) lossy fine.intact ?_)
    exact doomed.imp_right fun starved => Nat.le_trans (Nat.le_add_right _ _) starved
  · exact lost

end Watch

section Doomed

open Watch

variable {watch : Watch} {home : watch.build.Home} {depth : Nat} {output : String} {names : Nest Binding}
  (deep : watch.Deep depth) (lossy : watch.lossy) (visible : home.Visible names)

include deep lossy visible

-- The members of a family share its hypotheses, also those that a member only hands on to the others.
set_option linter.unusedSectionVars false in
mutual

/-- The code of an expression leaves some word, unless the run is lost. -/
theorem Resolved.quiet {expr : Expr} {ty : Ty} {labeller : Labeller} {pc : Nat} {stack : List Int32}
    {memory : Memory} :
    Resolved watch.build.analysis names expr ty → ty.isValue = true →
    watch.Segment home depth pc (Lowering.value watch.build.analysis expr labeller).1 →
    home.Fine pc memory → home.Doomed pc memory →
    watch.Tends ⟨pc, stack, memory, output, depth⟩ fun last =>
      ∃ operand, last = ⟨pc + (Lowering.value watch.build.analysis expr labeller).1.length, operand :: stack,
        memory, output, depth⟩
  | .int _, _, segment, fine, _ | .bool _, _, segment, fine, _ => by
    rw [Lowering.value_literal] at segment ⊢
    exact (Tends.here ⟨_, rfl⟩).step (segment.straight fine rfl)
  | .named found noted typed, isValue, segment, fine, _ => by
    rw [Lowering.value_named, noted, typed] at segment ⊢
    rw [List.length_append, ← Nat.add_assoc]
    refine Tends.step (segment.left.address fine (stored_of_visible visible found)) ?_
    exact segment.right.load_tends (fine.later (Nat.le_add_right _ _)) isValue lossy
  | @Resolved.arithmetic _ _ operator leftExpr rightExpr node kind left right _, _, segment, fine, doomed => by
    obtain ⟨first, second, same⟩ := Lowering.value_arithmetic watch.build.analysis kind leftExpr rightExpr node labeller
    rw [same] at segment ⊢
    rw [List.length_append, List.length_append, ← Nat.add_assoc, ← Nat.add_assoc]
    refine (left.quiet rfl segment.left fine doomed).next ?_
    rintro _ ⟨operand, rfl⟩
    refine (right.quiet rfl segment.right.left (fine.later (Nat.le_add_right _ _))
      (doomed.later (Nat.le_add_right _ _))).next ?_
    rintro _ ⟨operand', rfl⟩
    exact (Tends.here ⟨_, rfl⟩).step (segment.right.right.arithmetic (fine.later (by omega)))
  | @Resolved.greater _ _ leftExpr rightExpr node left right _, _, segment, fine, doomed => by
    obtain ⟨labels, first, second, same⟩ :=
      Lowering.value_greater watch.build.analysis leftExpr rightExpr node labeller
    rw [same, Lowering.comparison_eq] at segment ⊢
    simp only [List.length_append, ← Nat.add_assoc]
    refine Tends.step (segment.left.straight fine rfl) ?_
    refine (left.quiet rfl segment.right.left (fine.later (by omega)) (doomed.later (by omega))).next ?_
    rintro _ ⟨operand, rfl⟩
    refine Tends.step (segment.right.right.left.straight (fine.later (by omega)) rfl) ?_
    refine (right.quiet rfl segment.right.right.right.left (fine.later (by omega)) (doomed.later (by omega))).next ?_
    rintro _ ⟨operand', rfl⟩
    exact (Tends.here ⟨_, rfl⟩).step (segment.right.right.right.right.comparison (fine.later (by omega)))
  | .negate operand _, _, segment, fine, doomed => by
    rw [Lowering.value_negate] at segment ⊢
    rw [List.length_append, ← Nat.add_assoc]
    refine (operand.quiet rfl segment.left fine doomed).next ?_
    rintro _ ⟨operand', rfl⟩
    exact (Tends.here ⟨_, rfl⟩).step (segment.right.straight (fine.later (Nat.le_add_right _ _)) rfl)
  | .call found callable noted arguments _, _, segment, fine, doomed => by
    obtain ⟨index, place, here, rfl, signature⟩ := callee_of_visible visible found callable
    rw [Lowering.value_call _ noted callable] at segment
    have areValues := isValue_of_place (List.mem_of_getElem? here)
    rw [signature] at areValues
    -- With no memory left a call does not come back with a value, so the run is lost here.
    refine .inl (segment.invocation_lost deep lossy here fine doomed ?_)
    rw [Lowering.invocation_eq] at segment
    exact arguments.lost areValues segment.left fine doomed

/-- Nothing can be passed to a function. -/
theorem ResolvedAll.lost {arguments : List Expr} {types : List Ty} {labeller : Labeller} {pc : Nat}
    {stack : List Int32} {memory : Memory} :
    ResolvedAll watch.build.analysis names arguments types → (∀ ty ∈ types, ty.isValue = true) →
    watch.Segment home depth pc (Lowering.pushArguments watch.build.analysis arguments types labeller).1 →
    home.Fine pc memory → home.Doomed pc memory →
    (Lowering.pushArguments watch.build.analysis arguments types labeller).1 = [] ∨
      watch.Lost ⟨pc, stack, memory, output, depth⟩
  | .nil, _, _, _, _ => .inl rfl
  | @ResolvedAll.cons _ _ argument arguments ty types first rest, areValues, segment, fine, doomed => by
    obtain ⟨isValue, areValues⟩ := List.forall_mem_cons.mp areValues
    obtain ⟨next, same⟩ := Lowering.pushArguments_cons watch.build.analysis argument arguments ty types labeller
    rw [same, Lowering.pushArgument_eq] at segment
    right
    rcases rest.lost areValues segment.left fine doomed with none | lost
    · rw [none, List.nil_append] at segment
      obtain ⟨makes, lower⟩ := segment.left.makeRoom fine
      have start : home.start ≤ pc + 9 := Nat.le_trans segment.start (Nat.le_add_right pc 9)
      have still : home.Doomed (pc + 9) (Build.Home.lowered memory ty.size) :=
        doomed.lower fine.intact ty.size_le start (segment.left.spent (Nat.le_refl 9) (Nat.le_refl 1))
      have value : watch.Segment home depth (pc + 9) _ := segment.right
      refine Lost.after makes ((first.quiet isValue value.left lower still).lost ?_)
      rintro _ ⟨operand, rfl⟩
      exact value.right.push_lost (lower.later (Nat.le_add_right _ _)) isValue value.free lossy still
    · exact lost

end

end Doomed

end Stackwright
