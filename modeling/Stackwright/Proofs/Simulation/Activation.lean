import Stackwright.Proofs.Simulation.Function

/-! Activations. The body of a function finds its arguments right above the saved pointers, and the
functions of the program in their cells. By induction on how deep calls may nest, every function can be
called from everywhere. -/

set_option autoImplicit false

namespace Stackwright

open Machine Checked

namespace Build

variable {build : Build} {place : Place} {memory before after : Memory} {back : Int32}

theorem isCell_of_mem {entry : String × Binding} (member : entry ∈ Function.cells build.program.functions) :
    build.IsCell entry.2 := by
  rw [Function.cells_eq] at member
  obtain ⟨index, below, rfl⟩ := List.mem_mapIdx.mp member
  obtain ⟨place, here, same⟩ := build.exists_place (List.getElem?_eq_getElem below)
  exact ⟨index, place, here, by rw [same]⟩

/-- The names of the functions stand for them. -/
theorem matches_cells (build : Build) (memory : Memory) :
    Nest.MatchesBlock (build.Stored memory) (Function.cells build.program.functions).reverse
      (Function.meanings build.program.functions) := by
  refine List.rel_reverse ?_
  rw [Function.cells_eq, List.forall₂_map_right_iff, List.forall₂_iff_get]
  refine ⟨List.length_mapIdx, fun index below below' => ?_⟩
  obtain ⟨place, here, same⟩ := build.exists_place (List.getElem?_eq_getElem below')
  refine ⟨by simp, index, place, here, same, by simp⟩

/-- The parameters of a function stand for the arguments above the frame pointer. -/
theorem matches_parameters {parameters : List Parameter} {values : List Value} {offset : Nat}
    (typed : values.map Value.ty = parameters.map fun parameter => parameter.type.ty)
    (held : ArgumentsAt memory (memory.frameAt + offset) values)
    (inside : memory.frameAt + offset + Ty.totalSize (values.map Value.ty) < 2 ^ 32) :
    Nest.MatchesBlock (build.Stored memory)
      (cellsFrom .frame offset (parameters.map fun parameter => (parameter.name.text, parameter.type.ty)))
      (parameters.zipWith (fun parameter value => (parameter.name.text, .value value)) values) := by
  induction parameters generalizing values offset with
  | nil => exact .nil
  | cons parameter rest ih =>
    cases values with
    | nil => cases typed
    | cons value values =>
      obtain ⟨first, others⟩ := List.cons.inj typed
      have first : value.ty = parameter.type.ty := first
      rw [List.map_cons, Ty.totalSize] at inside
      have next : ArgumentsAt memory (memory.frameAt + (offset + value.ty.size)) values := by
        rw [← Nat.add_assoc]
        exact held.2
      rw [first] at next inside
      refine .cons ⟨rfl, first, fun index located => ?_⟩ (ih others next (by omega))
      obtain ⟨_, _, rfl⟩ := Memory.locate_eq_ok_iff.mp located
      have distance := word_ofInt offset
      have start : word (address memory ⟨parameter.type.ty, ⟨.frame, offset⟩, parameter.name.text, false⟩) =
          memory.frameAt + offset := by
        simp only [address, word_add]
        change (memory.frameAt + _) % 2 ^ 32 = _
        omega
      rw [start]
      exact held.1

section Body

variable (member : place ∈ build.places)

theorem argumentSize_eq (place : Place) : place.argumentSize =
    Ty.totalSize (place.function.parameters.map fun parameter => parameter.type.ty) := rfl

/-- What the body of a function sees from outside. -/
theorem visible_body : (build.bodyHome member).Visible (place.function.visible build.program.functions) := by
  have legible := build.legible.functions _ (build.function_mem member)
  have flat : (place.function.visible build.program.functions).flatten =
      (Parameter.cells place.function.parameters).reverse ++ (Function.cells build.program.functions).reverse := by
    simp only [Function.visible, List.flatten_cons, List.flatten_nil, List.append_nil]
  refine ⟨fun entry inside => ?_, ?_, fun ownerless => ?_⟩
  · rw [flat, List.mem_append, List.mem_reverse, List.mem_reverse] at inside
    rcases inside with parameter | function
    · obtain ⟨base, low, high, declared⟩ := mem_cellsFrom parameter
      have constant := isMutable_of_mem_cellsFrom parameter
      obtain ⟨parameter, among, same⟩ := List.mem_map.mp declared
      have types := List.map_map (f := fun parameter : Parameter => (parameter.name.text, parameter.type.ty))
        (g := Prod.snd) (l := place.function.parameters)
      refine .inl ⟨?_, base, by omega, ?_, fun isMutable => ?_⟩
      · rw [← (Prod.mk.inj same).2]
        exact legible.isValue _ (List.mem_map_of_mem among)
      · rw [argumentSize_eq]
        rw [types] at high
        exact Int.le_trans high (Int.le_of_eq (Int.zero_add _))
      · rw [constant] at isMutable
        cases isMutable
    · exact .inr (isCell_of_mem function)
  · rw [flat]
    refine List.pairwise_append.mpr ⟨?_, ?_, fun one inside two inside' => .inl ?_⟩
    · exact List.pairwise_reverse.mpr ((cellsFrom_apart _).imp Binding.Apart.symm)
    · exact List.pairwise_reverse.mpr ((cellsFrom_apart _).imp Binding.Apart.symm)
    · rw [(mem_cellsFrom (List.mem_reverse.mp inside)).1, (mem_cellsFrom (List.mem_reverse.mp inside')).1]
      exact Base.noConfusion
  · cases ownerless

theorem setting_body : (build.bodyHome member).Setting (frameArea (place.frameSize build.analysis))
    (some place.function.result.ty) (some (Lowering.epilogueLabel place.function.name.text)) := by
  refine ⟨rfl, fun _ => ?_, fun _ => ⟨_, rfl, ?_⟩⟩
  · exact Nat.lt_of_lt_of_le (haltAt_lt_start member) (Nat.le_add_right _ _)
  · have stands := build.at_epilogue member
    rw [Lowering.epilogue_parts] at stands
    exact stands.target? rfl rfl

variable {member}

/-- The frame pointer of an activation is the stack pointer of its caller. -/
theorem Entered.frameAt (entered : build.Entered place back before after) : after.frameAt = before.stackAt :=
  congrArg word entered.frame

theorem Entered.stackAt (entered : build.Entered place back before after) : after.stackAt =
    (before.stackAt + (2 ^ 32 - 8) + (2 ^ 32 - place.frameSize build.analysis % 2 ^ 32)) % 2 ^ 32 := by
  have eight : word 8 = 8 := rfl
  rw [Memory.stackAt, entered.stack, word_sub, word_sub, word_ofNat, eight, Memory.stackAt]
  omega

/-- The local variables lie below the saved pointers, unless there is no room for anything more. -/
theorem Entered.fine (entered : build.Entered place back before after) (intact : build.Intact after)
    (low : before.stackAt + place.argumentSize < 2 ^ 32) :
    (build.bodyHome member).Fine place.bodyStart after := by
  refine ⟨intact, fun other owns => ?_⟩
  obtain rfl : place = other := Option.some.inj owns
  have proper := (build.bodyHome member).proper
  have code := build.code_lt
  have data := build.dataSize_ge
  have room := entered.low
  have stackAt := entered.stackAt
  have pushes : (build.bodyHome member).pushes place.bodyStart = 4 * Code.count ((build.code.take
    (build.bodyHome member).stop).drop (build.bodyHome member).start) .exchange := rfl
  have size : (build.bodyHome member).owner.elim 0 (Place.frameSize build.analysis) = place.frameSize build.analysis := rfl
  rw [← pushes, size] at proper
  rw [entered.frameAt, Home.Doomed, Home.Starved]
  refine ⟨low, ?_⟩
  by_cases deep : place.frameSize build.analysis + 8 ≤ before.stackAt
  · exact .inl (by omega)
  · exact .inr (.inr (by omega))

theorem Entered.room {bound : Nat} (entered : build.Entered place back before after)
    (below : build.dataSize + (bound + 1) * build.code.length ≤ before.stackAt)
    (above : before.stackAt + place.argumentSize ≤ before.size) (small : before.size < 2 ^ 31) :
    (build.bodyHome member).Room bound place.bodyStart after := by
  have proper := (build.bodyHome member).proper
  have stackAt := entered.stackAt
  have size := entered.size
  have pushes : (build.bodyHome member).pushes place.bodyStart = 4 * Code.count ((build.code.take
    (build.bodyHome member).stop).drop (build.bodyHome member).start) .exchange := rfl
  have frame : (build.bodyHome member).owner.elim 0 (Place.frameSize build.analysis) = place.frameSize build.analysis := rfl
  rw [← pushes, frame] at proper
  rw [Nat.add_mul, Nat.one_mul] at below
  refine ⟨by omega, by omega, by omega, fun other owns => ?_⟩
  obtain rfl : place = other := Option.some.inj owns
  rw [entered.frameAt]
  exact ⟨by omega, by omega⟩

theorem Entered.matches {values : List Value} (entered : build.Entered place back before after)
    (typed : values.map Value.ty = place.function.signature.parameters)
    (held : ArgumentsAt before before.stackAt values) (low : before.stackAt + place.argumentSize < 2 ^ 32) :
    (place.function.visible build.program.functions).Matches (build.Stored after)
      [Parameter.meanings place.function.parameters values, Function.meanings build.program.functions] := by
  have held : ArgumentsAt after (after.frameAt + 0) values := by
    rw [entered.frameAt]
    exact held.congr fun byte high => entered.bytes byte (.inr high)
  refine .cons (List.rel_reverse (matches_parameters typed held ?_)) (.cons (build.matches_cells after) .nil)
  rw [typed, entered.frameAt]
  exact low

end Body

end Build

namespace Watch

theorem Deep.deeper {watch : Watch} {depth : Nat} (deep : watch.Deep depth) : watch.Deep (depth + 1) :=
  fun point deeper good => deep point (by omega) good

/-- Every function of the program can be called. -/
theorem callable (watch : Watch) (bound : Nat) :
    watch.Callable bound (Function.timed watch.build.program.functions bound) := by
  induction bound with
  | zero =>
    intro place member values typed depth back stack memory output deep intact inside held low room
    exact .inr ⟨Nat.zero_le _, _, .refl⟩
  | succ bound ih =>
    intro place member values typed depth back stack memory output deep intact inside held low room
    rw [Function.timed]
    dsimp only
    rw [if_pos typed]
    have frame := watch.build.frame_le member
    have enough : watch.lossy ∨ watch.build.dataSize + 8 ≤ memory.stackAt ∧ memory.stackAt ≤ memory.size ∧
        memory.size < 2 ^ 31 := by
      refine room.imp_right ?_
      rintro ⟨below, above, small⟩
      rw [Nat.add_mul, Nat.one_mul] at below
      omega
    refine deep.enters member intact enough ?_
    intro after entered intact'
    have ready : watch.Ready (watch.build.bodyHome member) bound (place.function.visible watch.build.program.functions)
        [Parameter.meanings place.function.parameters values, Function.meanings watch.build.program.functions]
        place.bodyStart after :=
      ⟨entered.fine intact' low, room.imp_right fun ⟨below, above, small⟩ => entered.room below above small,
        entered.matches typed held low⟩
    refine Follows.bind ((watch.build.place_placed member).follows deep.deeper ih (Build.setting_body member)
      (Build.visible_body member) (deep.body member) ready) ?_
    have short : watch.lossy ∨ memory.size < 2 ^ 31 := room.imp_right fun room => room.2.2
    rintro (meanings | value) _ ⟨left, output, stays, reached⟩
    · obtain ⟨rfl, _⟩ := reached
      simp only [Function.timedEnd]
      split
      next void =>
        have leaves : Leaves none [] := rfl
        exact deep.returns member entered (stays.intact intact') stays leaves void inside intact short
      next => exact Follows.stuck
    · obtain ⟨words, rfl, expected, leaves⟩ := reached
      have expected := Option.some.inj expected
      cases value with
      | none =>
        simp only [Function.timedEnd, if_pos (show place.function.result.ty = .void from expected)]
        exact deep.returns member entered (stays.intact intact') stays leaves expected inside intact short
      | some value =>
        simp only [Function.timedEnd, if_pos (show value.ty = place.function.result.ty from expected.symm)]
        exact deep.returns member entered (stays.intact intact') stays leaves expected inside intact short

end Watch

end Stackwright
