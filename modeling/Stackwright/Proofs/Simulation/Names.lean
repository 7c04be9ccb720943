import Stackwright.Proofs.Simulation.Storage

/-! Names and what lies in memory for them. Which bytes a visible name occupies is known from its
binding and the frame pointer; as long as those bytes stay, the name keeps its value. -/

set_option autoImplicit false

namespace Stackwright

open Machine Checked

namespace Build

variable {build : Build}

/-- The binding is that of the name of a function. -/
def IsCell (build : Build) (binding : Binding) : Prop :=
  ∃ (index : Nat) (place : Place), build.places[index]? = some place ∧ binding = place.function.cell index

/-- The address that the code computes for a variable. -/
def address (memory : Memory) (binding : Binding) : Int32 :=
  match binding.location.base with
  | .frame => memory.intAt 25 + Int32.ofInt binding.location.offset
  | _ => 29 + Int32.ofInt binding.location.offset

/-- What a name stands for is what lies in memory for it. -/
def Stored (build : Build) (memory : Memory) (binding : Binding) : Meaning → Prop
  | .value value => value.ty = binding.ty ∧
    ∀ index, memory.locate (address memory binding) binding.ty.size = .ok index → value.Held memory index
  | .function function => ∃ (index : Nat) (place : Place), build.places[index]? = some place ∧
    place.function = function ∧ binding = function.cell index

namespace Home

variable (home : build.Home)

/-- What the offsets of variables count from. -/
def base (memory : Memory) : Int :=
  match home.owner with
  | none => 29
  | some _ => memory.frameAt

/-- A variable of the stretch: a global one after the cells of the functions, or an argument or a
local one on either side of the saved pointers. -/
def Located (binding : Binding) : Prop :=
  match home.owner with
  | none => binding.location.base = .global ∧ 4 * (build.places.length : Int) ≤ binding.location.offset ∧
      binding.location.offset + binding.ty.size ≤ build.analysis.sizeOf build.program.node.id
  | some place => binding.location.base = .frame ∧
      -(8 + place.frameSize build.analysis : Int) ≤ binding.location.offset ∧
      binding.location.offset + binding.ty.size ≤ place.argumentSize ∧
      (binding.isMutable = true → binding.location.offset + binding.ty.size ≤ -8)

/-- What the variables of the stretch are found from. -/
def ground : Base := home.owner.elim .global fun _ => .frame

/-- The names that are visible somewhere in the stretch. -/
structure Visible (names : Nest Binding) : Prop where
  placed : ∀ entry ∈ names.flatten, entry.2.ty.isValue = true ∧ home.Located entry.2 ∨ build.IsCell entry.2
  apart : names.flatten.Pairwise fun one two => one.2.Apart two.2
  /-- The cells of the functions are among the global variables. -/
  cells : home.owner = none → ∀ {index : Nat} {place : Place}, build.places[index]? = some place →
    ∃ entry ∈ names.flatten, entry.2 = place.function.cell index

variable {home} {pc index : Nat} {memory before after : Memory} {binding : Binding} {names : Nest Binding}

theorem Located.base_eq (located : home.Located binding) : binding.location.base = home.ground := by
  unfold Located at located
  unfold ground
  cases owner : home.owner with
  | none =>
    simp only [owner] at located
    exact located.1
  | some place =>
    simp only [owner] at located
    exact located.1

theorem word_address (located : home.Located binding) :
    (word (address memory binding) : Int) = (home.base memory + binding.location.offset) % 2 ^ 32 := by
  unfold Located at located
  unfold base
  cases owner : home.owner with
  | none =>
    simp only [owner] at located ⊢
    simp only [address, located.1, word_add]
    have offset := word_ofInt binding.location.offset
    have first : word 29 = 29 := rfl
    rw [first]
    omega
  | some place =>
    simp only [owner] at located ⊢
    simp only [address, located.1, word_add, Memory.frameAt]
    have offset := word_ofInt binding.location.offset
    omega

/-- Where a variable lies if its address is inside the memory. -/
theorem index_eq (fine : home.Fine pc memory) (located : home.Located binding)
    (found : memory.locate (address memory binding) binding.ty.size = .ok index) :
    (index : Int) = home.base memory + binding.location.offset := by
  obtain ⟨low, inside, rfl⟩ := Memory.locate_eq_ok_iff.mp found
  have reading : (word (address memory binding) : Int) = _ := word_address located
  have code := build.code_lt
  have data := build.dataSize_le
  unfold Located at located
  unfold base at reading ⊢
  cases owner : home.owner with
  | none =>
    simp only [owner] at located reading ⊢
    rw [dataSize] at data
    omega
  | some place =>
    simp only [owner] at located reading ⊢
    have frame := (fine.frame place owner).1
    have proper := home.proper
    simp only [owner, Option.elim_some] at proper
    omega

/-- If there is room for calls, every variable lies inside the memory. -/
theorem exists_locate {bound : Nat} (fine : home.Fine pc memory) (room : home.Room bound pc memory)
    (located : home.Located binding) :
    ∃ index, memory.locate (address memory binding) binding.ty.size = .ok index := by
  have reading : (word (address memory binding) : Int) = _ := word_address located
  have size := fine.intact.size
  have small := room.small
  have data := build.dataSize_ge
  refine ⟨word (address memory binding), Memory.locate_eq_ok_iff.mpr ?_⟩
  unfold Located at located
  unfold base at reading
  cases owner : home.owner with
  | none =>
    simp only [owner] at located reading
    rw [dataSize] at size
    omega
  | some place =>
    simp only [owner] at located reading
    have frame := room.frame place owner
    omega

theorem address_congr (same : after.intAt 25 = before.intAt 25) : address after binding = address before binding := by
  unfold address
  cases binding.location.base <;> simp only [same]

section Congr

variable (fine : home.Fine pc before) (size : after.size = before.size) (pointer : after.intAt 25 = before.intAt 25)
  (bytes : ∀ index, 29 ≤ index ∧ index < build.dataSize ∨ before.stackAt ≤ index ∨ home.Doomed pc before →
    after.byteAt index = before.byteAt index)

include fine size pointer bytes

/-- A variable keeps its value as long as the global variables and everything from the stack pointer
upward stay. -/
theorem stored_congr (placed : binding.ty.isValue = true ∧ home.Located binding ∨ build.IsCell binding)
    {meaning : Meaning} (stored : build.Stored before binding meaning) : build.Stored after binding meaning := by
  cases meaning with
  | function function => exact stored
  | value value =>
    obtain ⟨typed, held⟩ := stored
    rcases placed with ⟨isValue, located⟩ | ⟨index, place, _, rfl⟩
    · refine ⟨typed, fun index found => ?_⟩
      rw [address_congr pointer] at found
      have found : before.locate (address before binding) binding.ty.size = .ok index := by
        rwa [Memory.locate_eq_ok_iff, ← size, ← Memory.locate_eq_ok_iff]
      have position := index_eq fine located found
      refine (held index found).congr fun byte low high => bytes byte ?_
      unfold Located at located
      unfold base at position
      cases owner : home.owner with
      | none =>
        simp only [owner] at located position
        refine .inl ?_
        rw [typed] at high
        rw [dataSize]
        omega
      | some place =>
        simp only [owner] at located position
        rcases (fine.frame place owner).2 with above | doomed
        · exact .inr (.inl (by omega))
        · exact .inr (.inr doomed)
    · have isValue := value.isValue_ty
      rw [typed] at isValue
      cases isValue

theorem matches_congr (visible : home.Visible names) {meanings : Nest Meaning}
    (same : names.Matches (build.Stored before) meanings) : names.Matches (build.Stored after) meanings :=
  same.imp fun entry member _ stored => stored_congr fine size pointer bytes (visible.placed entry member) stored

end Congr

/-- The names of the stretch keep their meanings while an expression is evaluated. -/
theorem Keeps.matches (keeps : home.Keeps pc before after) (fine : home.Fine pc before)
    (visible : home.Visible names) {meanings : Nest Meaning}
    (same : names.Matches (build.Stored before) meanings) : names.Matches (build.Stored after) meanings :=
  matches_congr fine keeps.size (keeps.intAt build.dataSize_ge)
    (fun index outside => keeps.bytes index (outside.imp_left And.right)) visible same

section Put

variable {target : Binding} {value : Value} {operand : Int32}

/-- The bytes of a variable after a value was stored in it. -/
theorem stored_put (typed : value.ty = target.ty) (isWord : value.IsWord operand) (above : 29 ≤ index)
    (found : memory.locate (address memory target) target.ty.size = .ok index) :
    build.Stored (memory.put target.ty index operand) target (.value value) := by
  obtain ⟨_, inside, start⟩ := Memory.locate_eq_ok_iff.mp found
  have isValue : target.ty.isValue = true := typed ▸ value.isValue_ty
  have pointer : (memory.put target.ty index operand).intAt 25 = memory.intAt 25 :=
    Memory.intAt_congr fun offset among =>
      Memory.byteAt_put_of_outside operand isValue (start ▸ inside) (.inl (by omega))
  refine ⟨typed, fun other found' => ?_⟩
  rw [address_congr pointer, Memory.locate_eq_ok_iff, Memory.size_put, ← Memory.locate_eq_ok_iff, found] at found'
  cases found'
  rw [← typed]
  exact isWord.put (by rw [typed, start]; exact inside)

theorem stored_put_of_apart (fine : home.Fine pc memory) (located : home.Located target)
    (isValue : target.ty.isValue = true) (above : 29 ≤ index)
    (found : memory.locate (address memory target) target.ty.size = .ok index) {meaning : Meaning}
    (placed : binding.ty.isValue = true ∧ home.Located binding ∨ build.IsCell binding)
    (apart : binding.Apart target) (stored : build.Stored memory binding meaning) :
    build.Stored (memory.put target.ty index operand) binding meaning := by
  cases meaning with
  | function function => exact stored
  | value other =>
    obtain ⟨_, inside, start⟩ := Memory.locate_eq_ok_iff.mp found
    have outside {byte : Nat} (away : byte < index ∨ index + target.ty.size ≤ byte) :
        (memory.put target.ty index operand).byteAt byte = memory.byteAt byte :=
      Memory.byteAt_put_of_outside operand isValue (start ▸ inside) away
    have pointer : (memory.put target.ty index operand).intAt 25 = memory.intAt 25 :=
      Memory.intAt_congr fun offset among => outside (.inl (by omega))
    obtain ⟨typed, held⟩ := stored
    rcases placed with ⟨_, located'⟩ | ⟨index, place, _, rfl⟩
    · refine ⟨typed, fun index' found' => ?_⟩
      rw [address_congr pointer, Memory.locate_eq_ok_iff, Memory.size_put, ← Memory.locate_eq_ok_iff] at found'
      have here := index_eq fine located found
      have there := index_eq fine located' found'
      refine (held index' found').congr fun byte low high => outside ?_
      rw [typed] at high
      rcases apart with differs | before | after
      · unfold Located at located located'
        cases owner : home.owner with
        | none =>
          simp only [owner] at located located'
          exact absurd (located'.1.trans located.1.symm) differs
        | some place =>
          simp only [owner] at located located'
          exact absurd (located'.1.trans located.1.symm) differs
      · exact .inl (by omega)
      · exact .inr (by omega)
    · have isValue := other.isValue_ty
      rw [typed] at isValue
      cases isValue

variable (fine : home.Fine pc memory) (visible : home.Visible names) (located : home.Located target)
  (above : 29 ≤ index) (found : memory.locate (address memory target) target.ty.size = .ok index)
  (typed : value.ty = target.ty) (isWord : value.IsWord operand) {name : String} {meanings : Nest Meaning}
  (same : names.Matches (build.Stored memory) meanings)

include fine visible located above found typed isWord same

theorem matches_declare (apart : ∀ entry ∈ names.flatten, entry.2.Apart target) :
    (names.declare name target).Matches (build.Stored (memory.put target.ty index operand))
      (meanings.declare name (.value value)) := by
  refine Nest.Matches.declare (same.imp fun entry member _ stored => ?_) (stored_put typed isWord above found)
  exact stored_put_of_apart fine located (typed ▸ value.isValue_ty) above found (visible.placed entry member)
    (apart entry member) stored

theorem matches_assign (nearest : names.find? name = some target) :
    names.Matches (build.Stored (memory.put target.ty index operand)) (meanings.assign name (.value value)) := by
  have placed : names.Matches (fun binding meaning =>
      (binding.ty.isValue = true ∧ home.Located binding ∨ build.IsCell binding) ∧
        build.Stored memory binding meaning) meanings :=
    same.imp fun entry member _ stored => ⟨visible.placed entry member, stored⟩
  refine Nest.Matches.assign Binding.Apart (fun _ _ apart => apart.symm) (fun binding meaning apart known => ?_)
    (stored_put typed isWord above found) placed visible.apart nearest
  exact stored_put_of_apart fine located (typed ▸ value.isValue_ty) above found known.1 apart known.2

end Put

end Home

end Build

end Stackwright
