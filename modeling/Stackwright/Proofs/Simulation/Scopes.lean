import Stackwright.Proofs.Simulation.Names

/-! Variables that are declared while a stretch of code runs, and what the statements of the stretch
leave as it was: in a body everything but the local variables, and in the main block everything but
the global variables. -/

set_option autoImplicit false

namespace Stackwright

open Machine Checked

theorem Ty.size_pos {ty : Ty} (isValue : ty.isValue = true) : 0 < ty.size := by
  cases ty with
  | int | bool => decide
  | _ => cases isValue

namespace Build

variable {build : Build}

theorem cells_le (build : Build) : 29 + 4 * build.places.length ≤ build.dataSize := by
  cases count : build.places.length with
  | zero => exact build.dataSize_ge
  | succ last =>
    have inside : last < build.places.length := by omega
    have cell := cell_le (List.getElem?_eq_getElem inside)
    omega

namespace Home

/-- What a stretch of code is to its statements: where their variables lie, and where a `return` goes. -/
structure Setting (home : build.Home) (area : Allocator) (result : Option Ty) (exit : Option String) : Prop where
  area : area = home.owner.elim (globalArea (build.analysis.sizeOf build.program.node.id)) fun place =>
    frameArea (place.frameSize build.analysis)
  late : home.owner.isSome → build.haltAt < home.start
  leaves : result.isSome → ∃ label, exit = some label ∧ build.layout.target? label = some home.stop

/-- The bytes that no statement of the stretch changes. -/
def Fixed (home : build.Home) (memory : Memory) (index : Nat) : Prop :=
  match home.owner with
  | none => index < 29 + 4 * build.places.length
  | some _ => index < build.dataSize ∨ memory.frameAt ≤ index + 8

/-- What statements leave as it was. -/
structure Stays (home : build.Home) (before after : Memory) : Prop where
  size : after.size = before.size
  bytes : ∀ index, home.Fixed before index → after.byteAt index = before.byteAt index

variable {home : build.Home} {pc pc' bound index : Nat} {memory before between after : Memory} {binding : Binding}
  {names : Nest Binding} {name : String} {area : Allocator} {result : Option Ty} {exit : Option String}

theorem Visible.openBlock (visible : home.Visible names) : home.Visible ([] :: names) :=
  ⟨visible.placed, visible.apart, visible.cells⟩

theorem Visible.declare (visible : home.Visible names) (isValue : binding.ty.isValue = true)
    (located : home.Located binding) (apart : ∀ entry ∈ names.flatten, entry.2.Apart binding) :
    home.Visible (names.declare name binding) := by
  constructor
  · intro entry member
    rcases Nest.mem_flatten_declare.mp member with rfl | member
    · exact .inl ⟨isValue, located⟩
    · exact visible.placed entry member
  · rw [Nest.flatten_declare]
    exact .cons (fun entry member => (apart entry member).symm) visible.apart
  · intro owner index place here
    obtain ⟨entry, member, same⟩ := visible.cells owner here
    exact ⟨entry, Nest.mem_flatten_declare.mpr (.inr member), same⟩

/-- A declared variable lies where those of the stretch do. -/
theorem located_of_covers (setting : home.Setting area result exit) (visible : home.Visible names)
    (isValue : binding.ty.isValue = true) (covers : area.Covers binding)
    (apart : ∀ entry ∈ names.flatten, entry.2.Apart binding) : home.Located binding := by
  have kind := setting.area
  unfold Located
  cases owner : home.owner with
  | none =>
    rw [owner] at kind
    subst kind
    obtain ⟨base, low, high⟩ := covers
    have low : 0 ≤ binding.location.offset := low
    have high : binding.location.offset + binding.ty.size ≤ 0 + (build.analysis.sizeOf build.program.node.id : Int) := high
    refine ⟨base, ?_, by omega⟩
    -- The cells of the functions come first, and the variable overlaps none of them.
    by_contra early
    have among : binding.location.offset.toNat / 4 < build.places.length := by omega
    obtain ⟨entry, member, same⟩ := visible.cells owner (List.getElem?_eq_getElem among)
    have positive := Ty.size_pos isValue
    rcases apart entry member with differs | before | after
    · rw [same, base] at differs
      exact differs rfl
    · rw [same] at before
      have before : ((4 * (binding.location.offset.toNat / 4) : Nat) : Int) + (4 : Nat) ≤ binding.location.offset := before
      omega
    · rw [same] at after
      have after : binding.location.offset + binding.ty.size ≤ ((4 * (binding.location.offset.toNat / 4) : Nat) : Int) := after
      omega
  | some place =>
    rw [owner] at kind
    subst kind
    obtain ⟨base, low, high⟩ := covers
    have low : (-8 : Int) - (place.frameSize build.analysis : Int) ≤ binding.location.offset := low
    have high : binding.location.offset + binding.ty.size ≤ (-8 : Int) := high
    exact ⟨base, by omega, by omega, fun _ => high⟩

theorem own_of_covers (setting : home.Setting area result exit) (covers : area.Covers binding)
    (owned : home.owner.isSome) : binding.location.offset + binding.ty.size ≤ -8 := by
  have kind := setting.area
  obtain ⟨place, owner⟩ := Option.isSome_iff_exists.mp owned
  rw [owner] at kind
  subst kind
  exact covers.bounds.2

/-- What can be assigned to is a variable of the stretch and no parameter. -/
theorem Visible.mutable (visible : home.Visible names) (found : names.find? name = some binding)
    (isMutable : binding.isMutable = true) : binding.ty.isValue = true ∧ home.Located binding ∧
      (home.owner.isSome → binding.location.offset + binding.ty.size ≤ -8) := by
  obtain ⟨block, outer, member⟩ := Nest.mem_of_find? found
  rcases visible.placed _ (List.mem_flatten.mpr ⟨block, outer, member⟩) with ⟨isValue, located⟩ | ⟨index, place, _, same⟩
  · refine ⟨isValue, located, fun owned => ?_⟩
    obtain ⟨place, owner⟩ := Option.isSome_iff_exists.mp owned
    unfold Located at located
    simp only [owner] at located
    exact located.2.2.2 isMutable
  · change binding = _ at same
    rw [same] at isMutable
    cases isMutable

theorem Fixed.pointer (home : build.Home) (memory : Memory) (low : index < 29) : home.Fixed memory index := by
  unfold Fixed
  split
  · omega
  · have data := build.dataSize_ge
    exact .inl (by omega)

theorem Stays.refl (memory : Memory) : home.Stays memory memory := ⟨rfl, fun _ _ => rfl⟩

theorem Stays.intAt (stays : home.Stays before after) (low : index + 4 ≤ 29) :
    after.intAt index = before.intAt index :=
  Memory.intAt_congr fun offset among => stays.bytes _ (.pointer home before (by omega))

theorem Stays.stackAt (stays : home.Stays before after) : after.stackAt = before.stackAt :=
  congrArg word (stays.intAt (by decide))

theorem Stays.frameAt (stays : home.Stays before after) : after.frameAt = before.frameAt :=
  congrArg word (stays.intAt (by decide))

theorem Stays.trans (one : home.Stays before between) (two : home.Stays between after) : home.Stays before after := by
  refine ⟨two.size.trans one.size, fun index fixed => (two.bytes index ?_).trans (one.bytes index fixed)⟩
  unfold Fixed at fixed ⊢
  rwa [one.frameAt]

theorem Stays.intact (stays : home.Stays before after) (intact : build.Intact before) : build.Intact after := by
  have fixed {index : Nat} (low : index < 29 + 4 * build.places.length) : home.Fixed before index := by
    have cells := build.cells_le
    unfold Fixed
    split
    · exact low
    · exact .inl (by omega)
  constructor
  · rw [stays.size]
    exact intact.size
  · intro index among
    rw [stays.bytes index (fixed (by omega))]
    exact intact.texts index among
  · intro index place here
    rw [← intact.cells here]
    have below := (List.getElem?_eq_some_iff.mp here).1
    exact Memory.intAt_congr fun offset among => stays.bytes _ (fixed (by omega))

theorem Stays.fine (stays : home.Stays before after) (fine : home.Fine pc before) : home.Fine pc after := by
  refine ⟨stays.intact fine.intact, fun place owns => ?_⟩
  rw [stays.frameAt, stays.stackAt, Doomed, Starved, stays.stackAt]
  exact fine.frame place owns

theorem Stays.room (stays : home.Stays before after) (room : home.Room bound pc before) : home.Room bound pc after := by
  obtain ⟨below, above, small, frame⟩ := room
  constructor
  case below => rwa [stays.stackAt]
  case above => rwa [stays.stackAt, stays.size]
  case small => rwa [stays.size]
  case frame =>
    intro place owns
    rw [stays.stackAt, stays.frameAt, stays.size]
    exact frame place owns

theorem Keeps.stays (keeps : home.Keeps pc before after) (fine : home.Fine pc before) : home.Stays before after := by
  refine ⟨keeps.size, fun index fixed => keeps.bytes index ?_⟩
  have cells := build.cells_le
  unfold Fixed at fixed
  cases owner : home.owner with
  | none =>
    simp only [owner] at fixed
    exact .inl (by omega)
  | some place =>
    simp only [owner] at fixed
    rcases fixed with data | above
    · exact .inl data
    · rcases (fine.frame place owner).2 with clear | doomed
      · exact .inr (.inl (by omega))
      · exact .inr (.inr doomed)

/-- A store in a variable of the stretch changes nothing else. -/
theorem stays_put (fine : home.Fine pc memory) (located : home.Located binding) (isValue : binding.ty.isValue = true)
    (own : home.owner.isSome → binding.location.offset + binding.ty.size ≤ -8 ∧ build.dataSize ≤ index)
    (found : memory.locate (address memory binding) binding.ty.size = .ok index) (operand : Int32) :
    home.Stays memory (memory.put binding.ty index operand) := by
  have position := index_eq fine located found
  obtain ⟨_, inside, start⟩ := Memory.locate_eq_ok_iff.mp found
  refine ⟨Memory.size_put _ _ _ _, fun byte fixed => ?_⟩
  refine Memory.byteAt_put_of_outside operand isValue (start ▸ inside) ?_
  unfold Located at located
  unfold Fixed at fixed
  unfold base at position
  cases owner : home.owner with
  | none =>
    simp only [owner] at located fixed position
    exact .inl (by omega)
  | some place =>
    simp only [owner] at located fixed position
    obtain ⟨low, data⟩ := own (by rw [owner]; rfl)
    omega

end Home

end Build

/-- After a statement as before it, the visible names are variables of the stretch or functions. -/
theorem Stmt.Placed.visible {build : Build} {home : build.Home} {area : Allocator} {result : Option Ty}
    {exit : Option String} {names after : Nest Binding} {stmt : Stmt}
    (placed : Stmt.Placed build.analysis area result names stmt after) (setting : home.Setting area result exit)
    (visible : home.Visible names) : home.Visible after := by
  cases placed with
  | declare _ isValue _ _ _ covers apart =>
    exact visible.declare isValue (Build.Home.located_of_covers setting visible isValue covers apart) apart
  | _ => exact visible

end Stackwright
