import Stackwright.Assembly.Fragment
import Stackwright.Proofs.Machine.Advance
import Stackwright.Proofs.Semantics

/-! Values as the machine sees them: on the operand stack each is one word, and in memory it takes as
many bytes as its type says. A truth value counts as true unless it is zero. -/

set_option autoImplicit false

namespace Stackwright

open Machine

namespace Machine.Memory

/-- Store a word as a value of the type. -/
def put (memory : Memory) (ty : Ty) (index : Nat) (value : Int32) : Memory :=
  match ty with
  | .bool => memory.setByte index (UInt8.ofNat (word value))
  | _ => memory.setInt index value

/-- Load a value of the type as a word. -/
def get (memory : Memory) (ty : Ty) (index : Nat) : Int32 :=
  match ty with
  | .bool => Int32.ofNat (memory.byteAt index).toNat
  | _ => memory.intAt index

variable {memory other : Memory} {ty : Ty} {index byte : Nat}

@[simp] theorem size_put (memory : Memory) (ty : Ty) (index : Nat) (value : Int32) :
    (memory.put ty index value).size = memory.size := by
  cases ty <;> simp [put]

theorem byteAt_put_of_outside (value : Int32) (isValue : ty.isValue = true) (inside : index + ty.size ≤ memory.size)
    (outside : byte < index ∨ index + ty.size ≤ byte) :
    (memory.put ty index value).byteAt byte = memory.byteAt byte := by
  cases ty with
  | int => exact byteAt_setInt_of_outside value inside outside
  | bool =>
    simp only [Ty.size] at inside outside
    rw [put, byteAt_setByte _ _ inside, if_neg (by omega)]
  | _ => cases isValue

/-- Two integers in memory are the same only if their bytes are. -/
theorem byteAt_of_intAt_eq (same : other.intAt index = memory.intAt index) {offset : Nat} (among : offset < 4) :
    other.byteAt (index + offset) = memory.byteAt (index + offset) := by
  have words := congrArg word same
  have small (memory : Memory) (offset : Nat) : (memory.byteAt (index + offset)).toNat < 256 :=
    UInt8.toNat_lt _
  have bounds := small memory
  have bounds' := small other
  simp only [intAt, word_ofNat] at words
  have := bounds 0; have := bounds 1; have := bounds 2; have := bounds 3
  have := bounds' 0; have := bounds' 1; have := bounds' 2; have := bounds' 3
  rw [← UInt8.toNat_inj]
  rcases (by omega : offset = 0 ∨ offset = 1 ∨ offset = 2 ∨ offset = 3) with rfl | rfl | rfl | rfl <;> omega

end Machine.Memory

namespace Value

/-- The word that the value is on the operand stack. -/
def IsWord : Value → Int32 → Prop
  | .int value, operand => operand = value
  | .bool value, operand => (operand ≠ 0 ↔ value = true) ∧ word operand < 256

/-- The value lies in memory at an index. -/
def Held (memory : Memory) (index : Nat) : Value → Prop
  | .int value => memory.intAt index = value
  | .bool value => memory.byteAt index ≠ 0 ↔ value = true

variable {value : Value} {operand : Int32} {memory other : Memory} {index : Nat}

theorem IsWord.put (isWord : value.IsWord operand) (inside : index + value.ty.size ≤ memory.size) :
    value.Held (memory.put value.ty index operand) index := by
  cases value with
  | int value =>
    cases isWord
    exact Memory.intAt_setInt operand inside
  | bool value =>
    obtain ⟨truth, small⟩ := isWord
    have stored : (memory.put .bool index operand).byteAt index = UInt8.ofNat (word operand) := by
      rw [Memory.put, Memory.byteAt_setByte _ _ inside, if_pos rfl]
    have zero : UInt8.ofNat (word operand) = 0 ↔ operand = 0 := by
      constructor
      · intro isZero
        have reduced := congrArg UInt8.toNat isZero
        rw [UInt8.toNat_ofNat', Nat.mod_eq_of_lt small] at reduced
        exact word_injective reduced
      · rintro rfl
        rfl
    change (memory.put .bool index operand).byteAt index ≠ 0 ↔ value = true
    rw [stored, ← truth, Ne, Ne, zero]

theorem Held.get (held : value.Held memory index) : value.IsWord (memory.get value.ty index) := by
  cases value with
  | int value => exact held
  | bool value =>
    have small := UInt8.toNat_lt (memory.byteAt index)
    have reading : word (Int32.ofNat (memory.byteAt index).toNat) = (memory.byteAt index).toNat := by
      rw [word_ofNat]
      omega
    refine ⟨Iff.trans (not_congr ?_) held, by rw [ty, Memory.get, reading]; exact small⟩
    rw [ty, Memory.get]
    constructor
    · intro isZero
      have zero := congrArg word isZero
      rw [reading] at zero
      exact UInt8.toNat_inj.mp zero
    · intro isZero
      rw [isZero]
      rfl

theorem Held.congr (held : value.Held memory index)
    (same : ∀ byte, index ≤ byte → byte < index + value.ty.size → other.byteAt byte = memory.byteAt byte) :
    value.Held other index := by
  cases value with
  | int value =>
    refine Eq.trans (Memory.intAt_congr fun offset among => ?_) held
    exact same _ (by omega) (by simp only [ty, Ty.size]; omega)
  | bool value =>
    rw [Held, same index (Nat.le_refl _) (by simp only [ty, Ty.size]; omega)]
    exact held

theorem isWord_bool (truth : Bool) : (Value.bool truth).IsWord (if truth then 1 else 0) := by
  cases truth <;> exact ⟨by decide, by decide⟩

/-- Whatever lies at an index is a value of the type. -/
theorem exists_held {ty : Ty} (isValue : ty.isValue = true) (memory : Memory) (index : Nat) :
    ∃ value : Value, value.ty = ty ∧ value.Held memory index := by
  cases ty with
  | int => exact ⟨.int (memory.intAt index), rfl, rfl⟩
  | bool => exact ⟨.bool (decide (memory.byteAt index ≠ 0)), rfl, by simp [Held]⟩
  | _ => cases isValue

end Value

section Access

variable {code : Array Op} {pc depth index : Nat} {stack : List Int32} {memory : Memory} {output : String} {ty : Ty}

theorem rearrange_load {op : Op} (address : Int32) (isLoad : op = .loadByte ∧ ty = .bool ∨ op = .loadInt ∧ ty = .int)
    (located : memory.locate address ty.size = .ok index) :
    op.rearrange memory (address :: stack) = some (memory.get ty index :: stack) := by
  rcases isLoad with ⟨rfl, rfl⟩ | ⟨rfl, rfl⟩
  · have located : memory.locate address 1 = .ok index := located
    simp [Memory.readByte, located, Except.map, Except.toOption, Memory.get]
  · have located : memory.locate address 4 = .ok index := located
    simp [Memory.readInt, located, Except.map, Except.toOption, Memory.get]

theorem advance_store {op : Op} {value address : Int32} (fetched : code[pc]? = some op)
    (isStore : op = .storeByte ∧ ty = .bool ∨ op = .storeInt ∧ ty = .int)
    (located : memory.locate address ty.size = .ok index) :
    advance code ⟨pc, value :: address :: stack, memory, output, depth⟩ =
      some ⟨pc + 1, stack, memory.put ty index value, output, depth⟩ := by
  rcases isStore with ⟨rfl, rfl⟩ | ⟨rfl, rfl⟩
  · exact advance_storeByte fetched located
  · exact advance_storeInt fetched located

end Access

end Stackwright
