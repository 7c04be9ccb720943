import Stackwright.Proofs.Simulation.Evaluation

/-! Print statements. The formats and texts stay in memory as they were loaded, so that each item of a
print statement writes what the value says. -/

set_option autoImplicit false

namespace Stackwright

open Machine Checked

theorem Environment.texts_eq : Environment.texts =
    [37, 100, 0, 37, 115, 0, 10, 0, 32, 0, 116, 114, 117, 101, 0, 102, 97, 108, 115, 101, 0] := by
  decide +kernel

namespace Build

/-- A text of the environment can be read. -/
theorem Intact.readText {build : Build} {memory : Memory} (intact : build.Intact memory) {index : Nat}
    {bytes : List UInt8} (stands : bytes ++ [0] <+: Environment.texts.drop index) (nonzero : ∀ byte ∈ bytes, byte ≠ 0) :
    memory.readText (Int32.ofNat index) = .ok (Text.Utf8.lossy bytes) := by
  have size := intact.size
  have data := build.dataSize_ge
  have length := stands.length_le
  have whole : Environment.texts.length = 21 := by decide
  rw [List.length_append, List.length_singleton, List.length_drop, whole] at length
  have here : ∀ offset < bytes.length + 1, memory.byteAt (index + offset) = (bytes ++ [0]).getD offset 0 := by
    intro offset among
    obtain ⟨rest, same⟩ := stands
    rw [intact.texts _ (by omega), List.getD_eq_getElem?_getD, ← List.getElem?_drop, ← same,
      List.getElem?_append_left (by rw [List.length_append, List.length_singleton]; exact among),
      List.getD_eq_getElem?_getD]
  rw [Memory.readText, Memory.locate_ofNat (by omega) (by omega)]
  simp only [Memory.bytesToZero_eq here nonzero (by omega : bytes.length < memory.size - index)]

end Build

namespace Watch

variable {watch : Watch} {home : watch.build.Home} {depth pc bound : Nat} {stack : List Int32}
  {memory : Memory} {output : String} {names : Nest Binding} {meanings : Nest Meaning} {invoke : Timed.Invoke}
  {operand : Int32}

theorem Segment.pushFormat {format : String} {index : Nat} {code : Code}
    (known : watch.build.op (.withLabel .pushAddress format) = .push (Int32.ofNat index))
    (segment : watch.Segment home depth pc (.withLabel .pushAddress format :: code)) (fine : home.Fine pc memory) :
    watch.Run (Opcode.code [.pushAddress]).beats ⟨pc, stack, memory, output, depth⟩
      ⟨pc + 1, Int32.ofNat index :: stack, memory, output, depth⟩ :=
  segment.quietStep fine (advance_of_rearrange segment.stands.fetch (by rw [known]; rfl)) rfl

theorem Segment.printInt (segment : watch.Segment home depth pc (Lowering.printFormat Reserved.integerFormat))
    (fine : home.Fine pc memory) :
    watch.Run (Timed.print (Value.int operand).text 1).beats ⟨pc, operand :: stack, memory, output, depth⟩
      ⟨pc + 2, stack, memory, output ++ (Value.int operand).text, depth⟩ := by
  have format : memory.readText (Int32.ofNat 0) = .ok "%d" :=
    fine.intact.readText (show [37, 100] ++ [0] <+: _ by rw [Environment.texts_eq]; decide) (by simp)
  have pushed : watch.Run _ ⟨pc, operand :: stack, memory, output, depth⟩
      ⟨pc + 1, Int32.ofNat 0 :: operand :: stack, memory, output, depth⟩ := segment.pushFormat rfl fine
  have last : watch.Segment home depth (pc + 1) [.plain .print] := segment.tail
  refine pushed.trans (last.step (fine.later (Nat.le_add_right _ _)) (advance_printInt last.stands.fetch format) ⟨rfl, ?_⟩)
  simp only [List.length_cons]
  omega

/-- Printing a format of one character. -/
theorem Segment.printChar {format : String} {index : Nat} {c : Char} {byte : UInt8}
    (known : watch.build.op (.withLabel .pushAddress format) = .push (Int32.ofNat index)) (plain : c ≠ '%')
    (stands : [byte] ++ [0] <+: Environment.texts.drop index) (nonzero : byte ≠ 0)
    (read : Text.Utf8.lossy [byte] = String.singleton c)
    (segment : watch.Segment home depth pc (Lowering.printFormat format)) (fine : home.Fine pc memory) :
    watch.Run (Timed.print (String.singleton c) 0).beats ⟨pc, stack, memory, output, depth⟩
      ⟨pc + 2, stack, memory, output ++ String.singleton c, depth⟩ := by
  have text : memory.readText (Int32.ofNat index) = .ok (String.singleton c) := by
    rw [fine.intact.readText stands (by simpa using nonzero), read]
  have pushed : watch.Run _ ⟨pc, stack, memory, output, depth⟩
      ⟨pc + 1, Int32.ofNat index :: stack, memory, output, depth⟩ := segment.pushFormat known fine
  have last : watch.Segment home depth (pc + 1) [.plain .print] := segment.tail
  refine pushed.trans
    (last.step (fine.later (Nat.le_add_right _ _)) (advance_printChar last.stands.fetch text plain) ⟨rfl, ?_⟩)
  simp only [List.length_cons]
  omega

/-- The text for a truth value. -/
theorem Segment.selectText {labels : LabelFamily}
    (segment : watch.Segment home depth pc (Lowering.selectText labels)) (fine : home.Fine pc memory) :
    watch.Run (Opcode.code (Value.selection (decide (operand ≠ 0)))).beats ⟨pc, operand :: stack, memory, output, depth⟩
      ⟨pc + 6, Int32.ofNat (if operand = 0 then 15 else 10) :: stack, memory, output, depth⟩ := by
  have later (skipped : Nat) : home.Fine (pc + skipped) memory := fine.later (Nat.le_add_right _ _)
  have whenTrue := (segment.drop (by decide : 3 ≤ 6)).stands.target? rfl rfl
  have join := (segment.drop (by decide : 5 ≤ 6)).stands.target? rfl rfl
  have test : watch.Run _ ⟨pc, operand :: stack, memory, output, depth⟩
      ⟨if operand = 0 then pc + 1 else pc + 3, stack, memory, output, depth⟩ := segment.jumpTrue fine whenTrue
  have finish (place : Nat) : watch.Run _ ⟨pc + 5, Int32.ofNat place :: stack, memory, output, depth⟩
      ⟨pc + 6, Int32.ofNat place :: stack, memory, output, depth⟩ :=
    (segment.drop (by decide : 5 ≤ 6)).straight (later 5) rfl
  by_cases zero : operand = 0
  · rw [if_pos zero] at test ⊢
    rw [decide_eq_false (not_not_intro zero)]
    have push : watch.Run _ ⟨pc + 1, stack, memory, output, depth⟩
        ⟨pc + 2, Int32.ofNat 15 :: stack, memory, output, depth⟩ :=
      (segment.drop (by decide : 1 ≤ 6)).pushFormat rfl (later 1)
    have leave : watch.Run _ ⟨pc + 2, Int32.ofNat 15 :: stack, memory, output, depth⟩
        ⟨pc + 5, Int32.ofNat 15 :: stack, memory, output, depth⟩ :=
      (segment.drop (by decide : 2 ≤ 6)).jump (later 2) join
    exact test.trans (push.trans (leave.trans (finish 15)))
  · rw [if_neg zero] at test ⊢
    rw [decide_eq_true zero]
    have skip : watch.Run _ ⟨pc + 3, stack, memory, output, depth⟩ ⟨pc + 4, stack, memory, output, depth⟩ :=
      (segment.drop (by decide : 3 ≤ 6)).quietStep (later 3)
        (advance_of_rearrange (segment.drop (by decide : 3 ≤ 6)).stands.fetch rfl) (Int.add_zero _).symm
    have push : watch.Run _ ⟨pc + 4, stack, memory, output, depth⟩
        ⟨pc + 5, Int32.ofNat 10 :: stack, memory, output, depth⟩ :=
      (segment.drop (by decide : 4 ≤ 6)).pushFormat rfl (later 4)
    exact test.trans (skip.trans (push.trans (finish 10)))

theorem Segment.printBool {truth : Bool} {labels : LabelFamily} (isWord : (Value.bool truth).IsWord operand)
    (segment : watch.Segment home depth pc (Lowering.selectText labels ++ Lowering.printFormat Reserved.booleanFormat))
    (fine : home.Fine pc memory) :
    watch.Run ((Opcode.code (Value.selection truth)).beats ++ (Timed.print (Value.bool truth).text 1).beats)
      ⟨pc, operand :: stack, memory, output, depth⟩
      ⟨pc + 8, stack, memory, output ++ (Value.bool truth).text, depth⟩ := by
  have select : watch.Run _ ⟨pc, operand :: stack, memory, output, depth⟩ _ := segment.left.selectText fine
  rw [show decide (operand ≠ 0) = truth from Bool.eq_iff_iff.mpr (decide_eq_true_iff.trans isWord.1)] at select
  have format : memory.readText (Int32.ofNat 3) = .ok "%s" :=
    fine.intact.readText (show [37, 115] ++ [0] <+: _ by rw [Environment.texts_eq]; decide) (by simp)
  have text : memory.readText (Int32.ofNat (if operand = 0 then 15 else 10)) = .ok (Value.bool truth).text := by
    have truth' := isWord.1
    cases truth with
    | true =>
      rw [if_neg (truth'.mpr rfl)]
      exact fine.intact.readText (show [116, 114, 117, 101] ++ [0] <+: _ by rw [Environment.texts_eq]; decide) (by simp)
    | false =>
      rw [if_pos (Decidable.not_not.mp fun differs => Bool.noConfusion (truth'.mp differs))]
      exact fine.intact.readText (show [102, 97, 108, 115, 101] ++ [0] <+: _ by rw [Environment.texts_eq]; decide) (by simp)
  have push : watch.Run _ ⟨pc + 6, Int32.ofNat (if operand = 0 then 15 else 10) :: stack, memory, output, depth⟩
      ⟨pc + 7, Int32.ofNat 3 :: Int32.ofNat (if operand = 0 then 15 else 10) :: stack, memory, output, depth⟩ :=
    segment.right.pushFormat rfl (fine.later (Nat.le_add_right _ _))
  have last : watch.Segment home depth (pc + 7) [.plain .print] := segment.right.tail
  refine select.trans (push.trans
    (last.step (fine.later (Nat.le_add_right _ _)) (advance_printText last.stands.fetch format text) ⟨rfl, ?_⟩))
  simp only [List.length_cons]
  omega

end Watch

section Items

open Watch

variable {watch : Watch} {home : watch.build.Home} {depth bound pc : Nat} {names : Nest Binding}
  {meanings : Nest Meaning} {invoke : Timed.Invoke} {stack : List Int32} {memory : Memory} {output : String}
  {labeller : Labeller} (deep : watch.Deep depth) (calls : watch.Callable bound invoke) (visible : home.Visible names)

include deep calls visible

theorem PrintItem.Resolved.follows {item : PrintItem} (resolved : item.Resolved watch.build.analysis names)
    (segment : watch.Segment home depth pc (Lowering.printItem watch.build.analysis item labeller).1)
    (ready : watch.Ready home bound names meanings pc memory) :
    watch.Follows bound ⟨pc, stack, memory, output, depth⟩ (item.timed invoke home.ground meanings) fun _ last =>
      ∃ after output, last = ⟨pc + (Lowering.printItem watch.build.analysis item labeller).1.length, stack, after,
        output, depth⟩ ∧ home.Keeps pc memory after := by
  cases item with
  | space span =>
    have prints : watch.Run _ ⟨pc, stack, memory, output, depth⟩ ⟨pc + 2, stack, memory, output ++ " ", depth⟩ :=
      segment.printChar (c := ' ') rfl (by decide) (show [32] ++ [0] <+: _ by rw [Environment.texts_eq]; decide)
        (by decide) rfl ready.fine
    exact Follows.emit prints ⟨_, _, rfl, .refl _ _⟩
  | newline span =>
    have prints : watch.Run _ ⟨pc, stack, memory, output, depth⟩ ⟨pc + 2, stack, memory, output ++ "\n", depth⟩ :=
      segment.printChar (c := '\n') rfl (by decide) (show [10] ++ [0] <+: _ by rw [Environment.texts_eq]; decide)
        (by decide) rfl ready.fine
    exact Follows.emit prints ⟨_, _, rfl, .refl _ _⟩
  | value expr =>
    obtain ⟨ty, resolved, isValue⟩ := resolved
    rw [PrintItem.timed]
    by_cases typed : watch.build.analysis.typeOf expr.id = .bool
    · obtain ⟨labels, same⟩ := Lowering.printValue_bool watch.build.analysis typed labeller
      rw [Lowering.printItem, same] at segment ⊢
      rw [List.length_append, ← Nat.add_assoc]
      refine Follows.bind (resolved.follows deep calls visible isValue segment.left ready) ?_
      rintro value _ ⟨operand, after, output, rfl, ⟨kind, isWord⟩, keeps⟩
      have fine := keeps.fine ready.fine (Nat.le_refl pc)
      cases value with
      | int number =>
        rw [resolved.typeOf_eq.symm.trans typed] at kind
        cases kind
      | bool truth =>
        exact Follows.emit (segment.right.printBool isWord (fine.later (Nat.le_add_right _ _))) ⟨_, _, rfl, keeps⟩
    · rw [Lowering.printItem, Lowering.printValue_int _ typed] at segment ⊢
      rw [List.length_append, ← Nat.add_assoc]
      refine Follows.bind (resolved.follows deep calls visible isValue segment.left ready) ?_
      rintro value _ ⟨operand, after, output, rfl, ⟨kind, isWord⟩, keeps⟩
      have fine := keeps.fine ready.fine (Nat.le_refl pc)
      cases value with
      | bool truth => exact absurd (resolved.typeOf_eq.trans kind.symm) typed
      | int number =>
        obtain rfl : operand = number := isWord
        exact Follows.emit (segment.right.printInt (fine.later (Nat.le_add_right _ _))) ⟨_, _, rfl, keeps⟩

theorem PrintItem.follows_all {items : List PrintItem}
    (resolved : ∀ item ∈ items, item.Resolved watch.build.analysis names)
    (segment : watch.Segment home depth pc (Lowering.printItems watch.build.analysis items labeller).1)
    (ready : watch.Ready home bound names meanings pc memory) :
    watch.Follows bound ⟨pc, stack, memory, output, depth⟩ (PrintItem.timedAll invoke home.ground meanings items)
      fun _ last => ∃ after output, last = ⟨pc + (Lowering.printItems watch.build.analysis items labeller).1.length,
        stack, after, output, depth⟩ ∧ home.Keeps pc memory after := by
  induction items generalizing pc memory output labeller with
  | nil =>
    rw [PrintItem.timedAll]
    exact Follows.here ⟨_, _, rfl, .refl _ _⟩
  | cons item rest ih =>
    obtain ⟨first, others⟩ := List.forall_mem_cons.mp resolved
    rw [Lowering.printItems_cons] at segment ⊢
    rw [PrintItem.timedAll, List.length_append, ← Nat.add_assoc]
    refine Follows.bind (first.follows deep calls visible segment.left ready) ?_
    rintro _ _ ⟨between, output, rfl, keeps⟩
    refine (ih others segment.right (ready.keeps visible keeps (Nat.le_add_right _ _))).mono ?_
    rintro _ _ ⟨after, output, rfl, keeps'⟩
    exact ⟨_, _, rfl, keeps.trans keeps' (Nat.le_add_right _ _)⟩

end Items

end Stackwright
