import Stackwright.Proofs.Simulation.Exhaustion

/-! Expressions. The code of an expression follows its evaluation: it leaves one word on the operand
stack, and calls inside of it disturb nothing that is in use. -/

set_option autoImplicit false

namespace Stackwright

open Machine Checked

namespace Watch

variable {watch : Watch} {home : watch.build.Home} {depth pc bound : Nat} {stack : List Int32}
  {memory : Memory} {output : String} {names : Nest Binding} {meanings : Nest Meaning} {invoke : Timed.Invoke}

/-- A run has pushed arguments and there is room for more. -/
def Passes (watch : Watch) (home : watch.build.Home) (bound : Nat) (names : Nest Binding) (meanings : Nest Meaning)
    (depth stop : Nat) (stack : List Int32) (memory : Memory) (types : List Ty) (values : List Value)
    (last : Point) : Prop :=
  ∃ after output, last = ⟨stop, stack, after, output, depth⟩ ∧ values.map Value.ty = types ∧
    watch.build.Pushed values memory after ∧ watch.Ready home bound names meanings stop after ∧
    ¬ home.Doomed stop after

/-- What a visible name that can be called stands for. -/
theorem callee_of_matches {name : String} {binding : Binding} {parameters : List Ty} {result : Ty}
    (same : names.Matches (watch.build.Stored memory) meanings) (found : names.find? name = some binding)
    (callable : binding.ty = .function parameters result) :
    ∃ (index : Nat) (place : Place), watch.build.places[index]? = some place ∧
      binding = place.function.cell index ∧ place.function.signature = ⟨parameters, result⟩ ∧
      meanings.find? name = some (.function place.function) := by
  obtain ⟨meaning, found', stored⟩ := same.find found
  cases meaning with
  | value value =>
    have isValue := value.isValue_ty
    rw [stored.1, callable] at isValue
    cases isValue
  | function function =>
    obtain ⟨index, place, here, rfl, rfl⟩ := stored
    refine ⟨index, place, here, rfl, ?_, found'⟩
    injection callable with parameters result
    rw [← parameters, ← result]

section Invocation

variable {place : Place} {index : Nat} {parameters : List Ty} {result : Ty} {arguments : Code}
  {before between after : Memory}

/-- Giving up the storage of a call restores the stack pointer, and with it everything that the caller
can see. -/
theorem keeps_of_returned {value : Option Value} {values : List Value} (clear : ¬ home.Doomed pc before)
    (pushed : watch.build.Pushed values before between) (returned : watch.build.Returned value between after)
    (intact : watch.build.Intact after) {size : Nat}
    (total : size = value.elim 0 (fun value => value.ty.size) + Ty.totalSize (values.map Value.ty)) :
    home.Keeps pc before (after.setInt 21 (after.intAt 21 + Int32.ofNat size)) := by
  have lower : between.stackAt ≤ before.stackAt := by
    rw [← pushed.stack]
    exact Nat.le_add_right _ _
  have beneath := pushed.toBeneath.trans returned.toBeneath lower
  have restored : after.intAt 21 + Int32.ofNat size = before.intAt 21 := by
    apply word_injective
    have wraps : before.stackAt < 2 ^ 32 := word_lt _
    have stack := pushed.stack
    have stack' := returned.stack
    change _ = before.stackAt
    rw [word_add, word_ofNat]
    change (after.stackAt + size % 2 ^ 32) % 2 ^ 32 = _
    omega
  refine ⟨(Memory.size_setInt _ _ _).trans beneath.size, fun index outside => ?_⟩
  by_cases pointer : 21 ≤ index ∧ index < 25
  · obtain ⟨offset, rfl⟩ := Nat.exists_eq_add_of_le pointer.1
    refine Memory.byteAt_of_intAt_eq ?_ (by omega)
    rw [Build.intAt_setPointer intact (by decide), restored]
  · rw [Build.byteAt_setPointer intact (by decide) (by omega)]
    refine beneath.bytes index ?_
    rcases outside with data | above | doomed
    · exact .inl ⟨data, by omega⟩
    · exact .inr above
    · exact absurd doomed clear

/-- Picking up the result of a call. -/
theorem Segment.pickUp {value : Option Value} {count : Nat} {α : Type} {run : Timed α}
    {goal : α → Point → Prop} (returned : watch.build.Returned value before memory)
    (typed : value.elim (result = .void) fun value => value.ty = result)
    (segment : watch.Segment home depth pc (Lowering.pickUpResult result)) (fine : home.Fine pc memory)
    (next : ∀ operand, value.elim (result = .void) (fun value => value.ty = result ∧ value.IsWord operand) →
      watch.Follows count ⟨pc + (Lowering.pickUpResult result).length, operand :: stack, memory, output, depth⟩
        run goal) :
    watch.Follows count ⟨pc, stack, memory, output, depth⟩ (do Timed.spend (Lowering.pickUpResult result); run) goal := by
  cases value with
  | none =>
    cases typed
    exact (next 0 rfl).step (segment.straight fine rfl)
  | some value =>
    cases typed
    obtain ⟨held, small, inside⟩ := returned.held value rfl
    have code : Lowering.pickUpResult value.ty =
        Code.loadFrom Reserved.stackPointer ++ [Instruction.plain value.ty.loadOpcode] := if_pos value.isValue_ty
    rw [code] at segment next ⊢
    have located : memory.locate (memory.intAt 21) value.ty.size = .ok memory.stackAt :=
      Memory.locate_eq_ok_iff.mpr ⟨small, inside, rfl⟩
    refine Follows.joined (Follows.step (segment.left.loadPointer watch.build.points_stack fine) ?_) (Code.beats_append _ _)
    refine segment.right.load (fine.later (Nat.le_add_right _ _)) value.isValue_ty (.inr ⟨_, located⟩) ?_
    intro index found
    rw [located] at found
    cases found
    exact next _ ⟨rfl, held.get⟩

theorem Segment.release {signature : Signature} {operand : Int32}
    (segment : watch.Segment home depth pc (Lowering.releaseCode signature)) (fine : home.Fine pc memory) :
    watch.Run (Lowering.releaseCode signature).beats ⟨pc, operand :: stack, memory, output, depth⟩
      ⟨pc + 7, operand :: stack, memory.setInt 21
        (memory.intAt 21 + Int32.ofNat (signature.result.size + signature.argumentSize)), output, depth⟩ := by
  have points := watch.build.points_stack
  have raised : watch.Run (Code.beats (Code.loadFrom Reserved.stackPointer ++ [Instruction.plain .pushInt, .plain .add]))
      ⟨pc, operand :: stack, memory, output, depth⟩
      ⟨pc + 4, (memory.intAt 21 + Int32.ofNat (signature.result.size + signature.argumentSize)) :: operand :: stack,
        memory, output, depth⟩ := by
    refine segment.left.straight fine ?_
    simp only [Code.loadFrom, List.cons_append, List.nil_append, List.map_cons, List.map_nil, points.op,
      Build.op_loadInt, Build.op_pushInt, Build.op_add, Op.rearrangeAll, rearrange_push, Option.bind_some,
      rearrange_loadInt, fine.intact.readInt points.high, Except.toOption, Option.map_some, rearrange_add]
  exact raised.trans (segment.right.setPointer points (fine.later (Nat.le_add_right pc 4)))

/-- A call, given how its arguments are pushed. -/
theorem Segment.invocation {run : Timed (List Value)} (deep : watch.Deep depth) (calls : watch.Callable bound invoke)
    (here : watch.build.places[index]? = some place) (signature : place.function.signature = ⟨parameters, result⟩)
    (segment : watch.Segment home depth pc
      (Lowering.invocation (place.function.cell index) ⟨parameters, result⟩ arguments))
    (ready : watch.Ready home bound names meanings pc memory) (clear : ¬ home.Doomed pc memory)
    (pushes : watch.Follows bound ⟨pc, stack, memory, output, depth⟩ run
      (watch.Passes home bound names meanings depth (pc + arguments.length) stack memory parameters)) :
    watch.Follows bound ⟨pc, stack, memory, output, depth⟩ (do
        let values ← run
        Timed.spend Timed.enter
        let value ← invoke place.function values
        Timed.spend (Lowering.pickUpResult place.function.result.ty)
        Timed.spend (Lowering.releaseCode place.function.signature)
        return value)
      (watch.Yields home depth pc (pc + (Lowering.invocation (place.function.cell index) ⟨parameters, result⟩
        arguments).length) stack memory result) := by
  have member := List.mem_of_getElem? here
  have kind : place.function.result.ty = result := congrArg Signature.result signature
  rw [Lowering.invocation_eq] at segment ⊢
  simp only [List.length_append, ← Nat.add_assoc]
  refine Follows.bind pushes ?_
  rintro values _ ⟨between, output, rfl, typed, pushed, ready', clear'⟩
  have argumentSize : place.argumentSize = Ty.totalSize (values.map Value.ty) := by
    rw [Place.argumentSize, signature, typed]
    rfl
  have stackAt := pushed.stack
  have wraps : memory.stackAt < 2 ^ 32 := word_lt _
  have back : pc + arguments.length + 5 < watch.build.code.length := by
    refine segment.right.right.stands.lt_of_pos ?_
    rw [List.length_append]
    exact Nat.lt_of_lt_of_le (by decide : 0 < 7) (Nat.le_add_left _ _)
  have room : watch.lossy ∨ watch.build.dataSize + bound * watch.build.code.length ≤ between.stackAt ∧
      between.stackAt + place.argumentSize ≤ between.size ∧ between.size < 2 ^ 31 := by
    rcases ready.room with lossy | room
    · exact .inl lossy
    rcases ready'.room with lossy | room'
    · exact .inl lossy
    refine .inr ⟨Nat.le_trans (Nat.le_add_right _ _) room'.below, ?_, room'.small⟩
    rw [argumentSize, stackAt, pushed.size]
    exact room.above
  -- The callee starts with its arguments at the stack pointer and the address behind the call on top.
  have called : watch.Follows bound
      ⟨place.start, Int32.ofNat (pc + arguments.length + 5) :: stack, between, output, depth + 1⟩
      (invoke place.function values) _ :=
    calls place member values (by rw [typed, signature]) deep ready'.fine.intact back pushed.held (by omega) room
  refine Follows.step (segment.right.left.enter here ready'.fine) (Follows.bind called ?_)
  rintro value ⟨_, _, after, output, _⟩ ⟨rfl, rfl, rfl, typed', returned⟩
  have lower : after.stackAt ≤ between.stackAt := by
    rw [← returned.stack]
    exact Nat.le_add_right _ _
  have fine (pc' : Nat) : home.Fine pc' after := returned.toBeneath.fine ready'.fine clear' lower
  -- Behind the call the result is picked up, then it and the arguments are given up.
  rw [kind] at typed' ⊢
  rw [signature]
  refine segment.right.right.left.pickUp returned typed' (fine _) fun operand left => ?_
  refine (Follows.here ?_).step (segment.right.right.right.release (fine _))
  refine ⟨operand, _, _, rfl, left, keeps_of_returned clear pushed returned (fine pc).intact ?_⟩
  have total : Signature.argumentSize ⟨parameters, result⟩ = Ty.totalSize (values.map Value.ty) := by
    rw [typed]
    rfl
  rw [total]
  cases value with
  | none | some =>
    cases typed'
    rfl

end Invocation

section Argument

variable {ty : Ty} {expr : Expr} {labeller : Labeller} {before between after : Memory}

/-- Storing an argument at the stack pointer. -/
theorem pushed_put {value : Value} {operand : Int32} (intact : watch.build.Intact memory)
    (clear : ¬ home.Doomed pc (Build.Home.lowered memory value.ty.size)) (start : home.start ≤ pc)
    (keeps : home.Keeps pc (Build.Home.lowered memory value.ty.size) after) (isWord : value.IsWord operand)
    (above : watch.build.dataSize ≤ after.stackAt) (inside : after.stackAt + value.ty.size ≤ after.size) :
    watch.build.Pushed [value] memory (after.put value.ty after.stackAt operand) := by
  obtain ⟨stack, low⟩ := Build.Home.stackAt_lowered_of_clear intact value.ty.size_le start clear
  have data := watch.build.dataSize_ge
  rw [← keeps.stackAt] at stack low
  have outside {index : Nat} (away : index < after.stackAt ∨ after.stackAt + value.ty.size ≤ index) :
      (after.put value.ty after.stackAt operand).byteAt index = after.byteAt index :=
    Memory.byteAt_put_of_outside operand value.isValue_ty inside away
  have same : (after.put value.ty after.stackAt operand).stackAt = after.stackAt :=
    congrArg word (Memory.intAt_congr fun offset among => outside (.inl (by omega)))
  constructor
  · refine ⟨by rw [Memory.size_put, keeps.size, Build.Home.lowered, Memory.size_setInt], fun index away => ?_⟩
    rw [outside (by omega), keeps.bytes index (by rw [← keeps.stackAt]; omega), Build.Home.lowered]
    exact Build.byteAt_setPointer intact (by decide) (by omega)
  · rw [same]
    exact stack
  · rw [same]
    exact ⟨isWord.put inside, trivial⟩

/-- Pushing one argument, given how its value is found; if there is no room for it, the run comes to
the store with whatever value and is lost there. -/
theorem Segment.pushArgument {run : Timed Value} {values : List Value} (visible : home.Visible names) (isValue : ty.isValue = true)
    (segment : watch.Segment home depth pc (Lowering.roomCode ty ++
      ((Lowering.value watch.build.analysis expr labeller).1 ++ [Instruction.plain ty.storeOpcode])))
    (ready : watch.Ready home bound names meanings pc memory) (clear : ¬ home.Doomed pc memory)
    (starves : watch.lossy → ∀ {pc : Nat} {stack : List Int32} {memory : Memory},
      watch.Segment home depth pc (Lowering.value watch.build.analysis expr labeller).1 →
      home.Fine pc memory → home.Doomed pc memory →
      watch.Tends ⟨pc, stack, memory, output, depth⟩ fun last => ∃ operand,
        last = ⟨pc + (Lowering.value watch.build.analysis expr labeller).1.length, operand :: stack, memory, output, depth⟩)
    (evaluates : ∀ {pc : Nat} {stack : List Int32} {memory : Memory},
      watch.Segment home depth pc (Lowering.value watch.build.analysis expr labeller).1 →
      watch.Ready home bound names meanings pc memory →
      watch.Follows bound ⟨pc, stack, memory, output, depth⟩ run fun value =>
        watch.Yields home depth pc (pc + (Lowering.value watch.build.analysis expr labeller).1.length) stack memory
          ty (some value)) :
    watch.Follows bound ⟨pc, stack, memory, output, depth⟩ (do
        Timed.spend (Lowering.roomCode .int)
        let value ← run
        Timed.spend [.plain value.ty.storeOpcode]
        return value :: values) fun all last =>
      ∃ value, all = value :: values ∧ watch.Passes home bound names meanings depth (pc + (Lowering.roomCode ty ++
        ((Lowering.value watch.build.analysis expr labeller).1 ++ [Instruction.plain ty.storeOpcode]) : Code).length) stack
        memory [ty] [value] last := by
  have nine : (Lowering.roomCode ty).length = 9 := rfl
  simp only [List.length_append, List.length_singleton, ← Nat.add_assoc, nine]
  obtain ⟨makes, lower⟩ := segment.left.makeRoom ready.fine
  have spent : home.pushes (pc + 9) + 4 ≤ home.pushes pc := segment.left.spent (Nat.le_refl 9) (Nat.le_refl 1)
  have start : home.start ≤ pc + 9 := Nat.le_trans segment.start (Nat.le_add_right pc 9)
  have value : watch.Segment home depth (pc + 9) _ := segment.right
  -- Lowering the stack pointer may leave no room for the argument. Only a run that may be lost gets there.
  by_cases doomed : home.Doomed (pc + 9) (Build.Home.lowered memory ty.size)
  · have lossy : watch.lossy := ready.room.resolve_right fun room =>
      (room.lower ready.fine.intact ty.size_le spent).clear doomed
    refine Lost.follows (Lost.after makes ((starves lossy value.left lower doomed).lost ?_))
    rintro _ ⟨operand, rfl⟩
    exact value.right.push_lost (lower.later (Nat.le_add_right _ _)) isValue value.free lossy doomed
  · obtain ⟨stackAt, low⟩ := Build.Home.stackAt_lowered_of_clear ready.fine.intact ty.size_le start doomed
    have data := watch.build.dataSize_ge
    have beneath : watch.build.Beneath memory (Build.Home.lowered memory ty.size) :=
      ⟨Memory.size_setInt _ _ _, fun index away =>
        Build.byteAt_setPointer ready.fine.intact (by decide) (by omega)⟩
    have ready' : watch.Ready home bound names meanings (pc + 9) (Build.Home.lowered memory ty.size) :=
      ⟨lower, ready.room.imp_right fun room => room.lower ready.fine.intact ty.size_le spent,
        beneath.matches ready.fine clear visible ready.same⟩
    refine Follows.step makes (Follows.bind (evaluates value.left ready') ?_)
    rintro value' _ ⟨operand, after, output, rfl, ⟨rfl, isWord⟩, keeps⟩
    have ready'' := ready'.keeps visible keeps (Nat.le_add_right _ (Lowering.value watch.build.analysis expr labeller).1.length)
    have pointer : (Build.Home.lowered memory value'.ty.size).intAt 21 = after.intAt 21 :=
      (keeps.intAt (Nat.le_trans (by decide) watch.build.dataSize_ge)).symm
    rw [pointer]
    refine value.right.push ready''.fine isValue value.free (.inr rfl) ?_ fun above inside small => Follows.here ?_
    · refine ready.room.imp_right fun room => ?_
      have above := room.above
      have small := room.small
      have size : after.size = memory.size := keeps.size.trans beneath.size
      change _ ≤ after.stackAt ∧ after.stackAt + _ ≤ _ ∧ after.stackAt < _
      rw [keeps.stackAt]
      omega
    · have pushed := pushed_put ready.fine.intact doomed start keeps isWord above inside
      have stack : _ + (value'.ty.size + 0) = memory.stackAt := pushed.stack
      have few := value'.ty.size_le
      have rest : home.pushes (pc + 9 + (Lowering.value watch.build.analysis expr labeller).1.length + 1) ≤
          home.pushes (pc + 9) := Build.Home.pushes_mono (by omega)
      refine ⟨value', rfl, _, _, rfl, rfl, pushed, ⟨?_, ?_, ?_⟩, ?_⟩
      · exact pushed.toBeneath.fine ready.fine clear (by omega)
      · exact ready.room.imp_right fun room => pushed.toBeneath.room room (by omega) (by omega)
      · exact pushed.toBeneath.matches ready.fine clear visible ready.same
      · have same := keeps.stackAt
        have small : after.stackAt < 2 ^ 31 := small
        have above : watch.build.dataSize ≤ after.stackAt := above
        have still (pc : Nat) : ¬ home.Doomed pc (after.put value'.ty after.stackAt operand) := by
          rw [Build.Home.Doomed, Build.Home.Starved]
          omega
        exact still _

end Argument

/-- A call, with or without a result, given how its arguments are pushed. -/
theorem Segment.call {callee : Name} {arguments : List Expr} {list node : Node} {labeller : Labeller} {binding : Binding}
    {parameters : List Ty} {result : Ty} (deep : watch.Deep depth) (calls : watch.Callable bound invoke)
    (visible : home.Visible names) (found : names.find? callee.text = some binding)
    (callable : binding.ty = .function parameters result)
    (noted : watch.build.analysis.bindingOf callee.node.id = binding)
    (resolved : ResolvedAll watch.build.analysis names arguments parameters)
    (pushes : (∀ ty ∈ parameters, ty.isValue = true) →
      watch.Segment home depth pc (Lowering.pushArguments watch.build.analysis arguments parameters labeller).1 →
      ¬ home.Doomed pc memory →
      watch.Follows bound ⟨pc, stack, memory, output, depth⟩ (Expr.timedAll invoke home.ground meanings arguments)
        (watch.Passes home bound names meanings depth (pc +
          (Lowering.pushArguments watch.build.analysis arguments parameters labeller).1.length) stack memory parameters))
    (segment : watch.Segment home depth pc
      (Lowering.value watch.build.analysis (.call callee arguments list node) labeller).1)
    (ready : watch.Ready home bound names meanings pc memory) :
    watch.Follows bound ⟨pc, stack, memory, output, depth⟩
      (invoke.named meanings callee.text (Expr.timedAll invoke home.ground meanings arguments))
      (watch.Yields home depth pc (pc +
        (Lowering.value watch.build.analysis (.call callee arguments list node) labeller).1.length) stack memory result) := by
  rw [Lowering.value_call _ noted callable] at segment ⊢
  obtain ⟨index, place, here, rfl, signature, found'⟩ := callee_of_matches ready.same found callable
  have areValues := isValue_of_place (List.mem_of_getElem? here)
  rw [signature] at areValues
  have parts := segment
  rw [Lowering.invocation_eq] at parts
  by_cases doomed : home.Doomed pc memory
  · have lossy : watch.lossy := ready.room.resolve_right fun room => room.clear doomed
    exact (segment.invocation_lost deep lossy here ready.fine doomed
      (resolved.lost deep lossy visible areValues parts.left ready.fine doomed)).follows
  · rw [Timed.Invoke.named, found']
    exact segment.invocation deep calls here signature ready doomed (pushes areValues parts.left doomed)

/-- The word of a number is the number itself. -/
theorem Yields.int {value : Value} {stop : Nat} {last : Point}
    (yields : watch.Yields home depth pc stop stack memory .int (some value) last) :
    ∃ number after output, value = .int number ∧ last = ⟨stop, number :: stack, after, output, depth⟩ ∧
      home.Keeps pc memory after := by
  obtain ⟨operand, after, output, reached, ⟨typed, isWord⟩, keeps⟩ := yields
  cases value with
  | int number =>
    obtain rfl : operand = number := isWord
    exact ⟨operand, after, output, rfl, reached, keeps⟩
  | bool _ => cases typed

end Watch

section Follows

open Watch

variable {watch : Watch} {home : watch.build.Home} {depth bound : Nat} {names : Nest Binding}
  {meanings : Nest Meaning} {invoke : Timed.Invoke} (deep : watch.Deep depth) (calls : watch.Callable bound invoke)
  (visible : home.Visible names)

include deep calls visible

-- The members of a family share its hypotheses, also those that a member only hands on to the others.
set_option linter.unusedSectionVars false in
mutual

theorem Resolved.follows {expr : Expr} {ty : Ty} {labeller : Labeller} {pc : Nat} {stack : List Int32}
    {memory : Memory} {output : String} :
    Resolved watch.build.analysis names expr ty → ty.isValue = true →
    watch.Segment home depth pc (Lowering.value watch.build.analysis expr labeller).1 →
    watch.Ready home bound names meanings pc memory →
    watch.Follows bound ⟨pc, stack, memory, output, depth⟩ (expr.timed invoke home.ground meanings) fun value =>
      watch.Yields home depth pc (pc + (Lowering.value watch.build.analysis expr labeller).1.length) stack memory ty
        (some value)
  | @Resolved.int _ _ value _ _, _, segment, ready => by
    rw [Lowering.value_literal] at segment ⊢
    rw [Expr.timed]
    exact (Follows.here ⟨_, _, _, rfl, ⟨rfl, rfl⟩, .refl _ _⟩).step (segment.straight ready.fine rfl)
  | @Resolved.bool _ _ value _ _, _, segment, ready => by
    rw [Lowering.value_literal] at segment ⊢
    rw [Expr.timed]
    exact (Follows.here ⟨_, _, _, rfl, ⟨rfl, Value.isWord_bool value⟩, .refl _ _⟩).step (segment.straight ready.fine rfl)
  | @Resolved.named _ _ name binding found noted typed, isValue, segment, ready => by
    rw [Lowering.value_named, noted, typed] at segment ⊢
    rw [List.length_append, ← Nat.add_assoc, Expr.timed]
    have located := located_of_visible visible found isValue
    have address : watch.Run _ ⟨pc, stack, memory, output, depth⟩ _ :=
      segment.left.address ready.fine (stored_of_visible visible found)
    rw [located.base_eq] at address
    obtain ⟨meaning, found', stored⟩ := ready.same.find found
    have fine := ready.fine.later (Nat.le_add_right pc binding.addressCode.length)
    cases meaning with
    | function function =>
      obtain ⟨_, _, _, _, rfl⟩ := stored
      cases isValue
    | value value =>
      obtain ⟨typed', held⟩ := stored
      rw [found']
      dsimp only
      rw [typed']
      refine Follows.step address (segment.right.load fine isValue ?_ fun index located =>
        Follows.here ⟨_, _, _, rfl, ⟨typed', typed' ▸ (held index located).get⟩, .refl _ _⟩)
      exact ready.room.imp_right fun room => Build.Home.exists_locate ready.fine room located
  | @Resolved.arithmetic _ _ operator leftExpr rightExpr node kind left right _, _, segment, ready => by
    obtain ⟨first, second, same⟩ := Lowering.value_arithmetic watch.build.analysis kind leftExpr rightExpr node labeller
    rw [same] at segment ⊢
    rw [List.length_append, List.length_append, ← Nat.add_assoc, ← Nat.add_assoc, Expr.timed]
    have unmarked : operator.mark = [] := by
      cases operator with
      | greater => exact absurd rfl kind
      | _ => rfl
    rw [unmarked]
    refine Follows.step .refl (Follows.bind (left.follows rfl segment.left ready) fun _ _ yields => ?_)
    obtain ⟨number, between, output, rfl, rfl, keeps⟩ := yields.int
    have ready' := ready.keeps visible keeps (Nat.le_refl pc)
    refine Follows.step .refl (Follows.bind
      (right.follows rfl segment.right.left (ready'.later (Nat.le_add_right _ _))) fun _ _ yields => ?_)
    obtain ⟨number', after, output, rfl, rfl, keeps'⟩ := yields.int
    have ready'' := (ready'.later (Nat.le_add_right pc _)).keeps visible keeps' (Nat.le_refl _)
    rw [timed_arithmetic kind]
    refine (Follows.here ⟨_, _, _, rfl, ⟨rfl, rfl⟩, ?_⟩).step (segment.right.right.arithmetic (ready''.fine.later (Nat.le_add_right _ _)))
    exact keeps.trans keeps' (Nat.le_add_right _ _)
  | @Resolved.greater _ _ leftExpr rightExpr node left right _, _, segment, ready => by
    obtain ⟨labels, first, second, same⟩ :=
      Lowering.value_greater watch.build.analysis leftExpr rightExpr node labeller
    rw [same, Lowering.comparison_eq] at segment ⊢
    simp only [List.length_append, ← Nat.add_assoc, Expr.timed]
    refine Follows.step (segment.left.straight ready.fine rfl) ?_
    refine Follows.bind (left.follows rfl segment.right.left (ready.later (by omega))) fun _ _ yields => ?_
    obtain ⟨number, between, output, rfl, rfl, keeps⟩ := yields.int
    have ready' := (ready.later (Nat.le_add_right pc _)).keeps visible keeps (Nat.le_refl _)
    refine Follows.step (segment.right.right.left.straight (ready'.fine.later (Nat.le_add_right _ _)) rfl) ?_
    refine Follows.bind (right.follows rfl segment.right.right.right.left (ready'.later (by omega))) fun _ _ yields => ?_
    obtain ⟨number', after, output, rfl, rfl, keeps'⟩ := yields.int
    have ready'' := (ready'.later (by omega)).keeps visible keeps' (Nat.le_refl _)
    refine (Follows.here ⟨_, _, _, rfl, ⟨rfl, ?_⟩, ?_⟩).step
      (segment.right.right.right.right.comparison (ready''.fine.later (Nat.le_add_right _ _)))
    · simpa using Value.isWord_bool (decide (0 < number - number'))
    · exact (keeps.trans keeps' (by omega)).earlier (by omega)
  | .negate operand _, _, segment, ready => by
    rw [Lowering.value_negate] at segment ⊢
    rw [List.length_append, ← Nat.add_assoc, Expr.timed]
    refine Follows.bind (operand.follows rfl segment.left ready) fun _ _ yields => ?_
    obtain ⟨number, after, output, rfl, rfl, keeps⟩ := yields.int
    have fine := keeps.fine ready.fine (Nat.le_refl pc)
    exact (Follows.here ⟨_, _, _, rfl, ⟨rfl, rfl⟩, keeps⟩).step
      (segment.right.straight (fine.later (Nat.le_add_right _ _)) rfl)
  | .call found callable noted arguments _, isValue, segment, ready => by
    rw [Expr.timed]
    refine Follows.bind (segment.call deep calls visible found callable noted arguments
      (fun areValues pushes clear => arguments.follows areValues pushes ready clear) ready) ?_
    rintro (_ | value) _ ⟨operand, after, output, rfl, left, keeps⟩
    · exact Follows.stuck
    · exact Follows.here ⟨_, _, _, rfl, left, keeps⟩

theorem ResolvedAll.follows {arguments : List Expr} {types : List Ty} {labeller : Labeller} {pc : Nat}
    {stack : List Int32} {memory : Memory} {output : String} :
    ResolvedAll watch.build.analysis names arguments types → (∀ ty ∈ types, ty.isValue = true) →
    watch.Segment home depth pc (Lowering.pushArguments watch.build.analysis arguments types labeller).1 →
    watch.Ready home bound names meanings pc memory → ¬ home.Doomed pc memory →
    watch.Follows bound ⟨pc, stack, memory, output, depth⟩ (Expr.timedAll invoke home.ground meanings arguments)
      (watch.Passes home bound names meanings depth
        (pc + (Lowering.pushArguments watch.build.analysis arguments types labeller).1.length) stack memory types)
  | .nil, _, _, ready, clear => by
    rw [Expr.timedAll]
    exact Follows.here ⟨_, _, rfl, rfl, ⟨.refl _, rfl, trivial⟩, ready, clear⟩
  | @ResolvedAll.cons _ _ argument arguments ty types first rest, areValues, segment, ready, clear => by
    obtain ⟨isValue, areValues⟩ := List.forall_mem_cons.mp areValues
    obtain ⟨next, same⟩ := Lowering.pushArguments_cons watch.build.analysis argument arguments ty types labeller
    rw [same, Lowering.pushArgument_eq] at segment ⊢
    rw [List.length_append, ← Nat.add_assoc, Expr.timedAll]
    refine Follows.bind (rest.follows areValues segment.left ready clear) ?_
    rintro values _ ⟨between, output, rfl, rfl, pushed, ready', clear'⟩
    refine (segment.right.pushArgument visible isValue ready' clear'
      (fun lossy _ _ _ value fine doomed => first.quiet deep lossy visible isValue value fine doomed)
      fun value ready => first.follows isValue value ready).mono ?_
    rintro _ _ ⟨value, rfl, after, output, rfl, typed, pushed', ready'', clear''⟩
    refine ⟨_, _, rfl, ?_, pushed'.cons pushed, ready'', clear''⟩
    rw [List.map_cons, (List.cons.inj typed).1]

end

end Follows

end Stackwright
