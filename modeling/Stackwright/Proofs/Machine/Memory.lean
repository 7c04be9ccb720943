import Mathlib
import Stackwright.Machine.Memory

/-! Laws of memory. An access inside the memory is at the unsigned reading of its address, a store
is read back, and every byte outside of it stays as it was. -/

set_option autoImplicit false

namespace Stackwright.Machine

/-- The unsigned reading of an integer, which is what it counts as an address. -/
def word (value : Int32) : Nat := value.toUInt32.toNat

theorem word_lt (value : Int32) : word value < 2 ^ 32 := value.toUInt32.toNat_lt

theorem word_injective {one other : Int32} (same : word one = word other) : one = other :=
  Int32.toBitVec_inj.mp (BitVec.eq_of_toNat_eq same)

theorem word_add (left right : Int32) : word (left + right) = (word left + word right) % 2 ^ 32 := by
  simp [word]

theorem word_sub (left right : Int32) :
    word (left - right) = (word left + (2 ^ 32 - word right)) % 2 ^ 32 := by
  simp [word, UInt32.toNat_sub, Nat.add_comm]

theorem word_ofNat (value : Nat) : word (Int32.ofNat value) = value % 2 ^ 32 := by
  simp [word]

theorem word_ofInt (value : Int) : (word (Int32.ofInt value) : Int) = value % 2 ^ 32 := by
  change (((BitVec.ofInt 32 value).toNat : Nat) : Int) = _
  rw [BitVec.toNat_ofInt]
  omega

theorem toInt_eq_word (value : Int32) :
    value.toInt = if word value < 2 ^ 31 then (word value : Int) else word value - 2 ^ 32 := by
  change value.toBitVec.toInt = if value.toBitVec.toNat < 2 ^ 31 then _ else (value.toBitVec.toNat : Int) - _
  rw [BitVec.toInt]
  split <;> split <;> first | rfl | omega

namespace Memory

variable {memory other : Memory} {index byte : Nat}

theorem locate_eq_ok_iff {address : Int32} {length : Nat} :
    memory.locate address length = .ok index ↔
      word address < 2 ^ 31 ∧ word address + length ≤ memory.size ∧ index = word address := by
  have below := word_lt address
  rw [locate, toInt_eq_word]
  by_cases low : word address < 2 ^ 31
  · rw [if_pos low, Int.toNat_natCast]
    by_cases inside : word address + length ≤ memory.size
    · rw [if_pos (by omega), Except.ok.injEq]
      exact ⟨fun same => ⟨low, inside, same.symm⟩, fun same => same.2.2.symm⟩
    · rw [if_neg (by omega)]
      exact ⟨nofun, fun fits => absurd fits.2.1 inside⟩
  · rw [if_neg low, if_neg (by omega)]
    exact ⟨nofun, fun fits => absurd fits.1 low⟩

@[simp] theorem size_setByte (memory : Memory) (index : Nat) (byte : UInt8) :
    (memory.setByte index byte).size = memory.size := by
  simp [setByte, size]

@[simp] theorem size_setBytes (memory : Memory) (index : Nat) (bytes : List UInt8) :
    (memory.setBytes index bytes).size = memory.size := by
  induction bytes generalizing memory index with
  | nil => rfl
  | cons first rest ih => rw [setBytes, ih, size_setByte]

@[simp] theorem size_setInt (memory : Memory) (index : Nat) (value : Int32) :
    (memory.setInt index value).size = memory.size :=
  size_setBytes memory index _

theorem byteAt_setByte (memory : Memory) (value : UInt8) (inside : index < memory.size) :
    (memory.setByte index value).byteAt byte = if byte = index then value else memory.byteAt byte := by
  have bound : index < memory.bytes.size := inside
  simp only [byteAt, setByte, Array.getElem?_setIfInBounds, bound, if_true]
  by_cases same : index = byte
  · rw [if_pos same, if_pos same.symm, Option.getD_some]
  · rw [if_neg same, if_neg (Ne.symm same)]

theorem byteAt_setBytes (memory : Memory) {bytes : List UInt8} (inside : index + bytes.length ≤ memory.size) :
    (memory.setBytes index bytes).byteAt byte =
      if index ≤ byte ∧ byte < index + bytes.length then bytes.getD (byte - index) 0
      else memory.byteAt byte := by
  induction bytes generalizing memory index with
  | nil =>
    rw [setBytes, if_neg]
    simp only [List.length_nil]
    omega
  | cons first rest ih =>
    rw [List.length_cons] at inside ⊢
    rw [setBytes, ih _ (by rw [size_setByte]; omega), byteAt_setByte _ _ (by omega)]
    by_cases here : byte = index
    · subst here
      rw [if_neg (by omega), if_pos rfl, if_pos (by omega), Nat.sub_self, List.getD_cons_zero]
    · rw [if_neg here]
      by_cases among : index ≤ byte ∧ byte < index + (rest.length + 1)
      · rw [if_pos (by omega), if_pos among]
        obtain ⟨offset, rfl⟩ : ∃ offset, byte = index + 1 + offset := ⟨byte - index - 1, by omega⟩
        rw [show index + 1 + offset - (index + 1) = offset by omega,
          show index + 1 + offset - index = offset + 1 by omega, List.getD_cons_succ]
      · rw [if_neg (by omega), if_neg among]

theorem intAt_congr (same : ∀ offset < 4, other.byteAt (index + offset) = memory.byteAt (index + offset)) :
    other.intAt index = memory.intAt index := by
  simp only [intAt, same 0 (by omega), same 1 (by omega), same 2 (by omega), same 3 (by omega)]

theorem byteAt_setInt_of_outside (value : Int32) (inside : index + 4 ≤ memory.size)
    (outside : byte < index ∨ index + 4 ≤ byte) :
    (memory.setInt index value).byteAt byte = memory.byteAt byte := by
  rw [setInt, byteAt_setBytes _ inside, if_neg]
  simp only [intBytes, List.length_cons, List.length_nil]
  omega

/-- What was stored is read back. -/
theorem intAt_setInt (value : Int32) (inside : index + 4 ≤ memory.size) :
    (memory.setInt index value).intAt index = value := by
  have bytes (offset : Nat) (among : offset < 4) :
      (memory.setInt index value).byteAt (index + offset) = (intBytes value).getD offset 0 := by
    rw [setInt, byteAt_setBytes _ inside, if_pos ⟨by omega, by simp [intBytes]; omega⟩,
      Nat.add_sub_cancel_left]
  have below := word_lt value
  apply word_injective
  simp only [intAt, bytes 0 (by omega), bytes 1 (by omega), bytes 2 (by omega), bytes 3 (by omega),
    word_ofNat, intBytes, List.getD_cons_zero, List.getD_cons_succ, UInt8.toNat_ofNat']
  rw [word] at below ⊢
  omega

/-- Bytes that lie before a zero byte are the text there. -/
theorem bytesToZero_eq {bytes : List UInt8} {budget : Nat}
    (here : ∀ offset < bytes.length + 1, memory.byteAt (index + offset) = (bytes ++ [0]).getD offset 0)
    (nonzero : ∀ byte ∈ bytes, byte ≠ 0) (enough : bytes.length < budget) :
    memory.bytesToZero budget index = some bytes := by
  induction bytes generalizing index budget with
  | nil =>
    obtain ⟨budget, rfl⟩ := Nat.exists_eq_add_of_lt enough
    have zero : memory.byteAt index = 0 := here 0 (by decide)
    rw [bytesToZero, if_pos zero]
  | cons byte rest ih =>
    obtain ⟨budget, rfl⟩ := Nat.exists_eq_add_of_lt enough
    obtain ⟨first, others⟩ := List.forall_mem_cons.mp nonzero
    have same : memory.byteAt index = byte := here 0 (Nat.succ_pos _)
    have later : memory.bytesToZero (rest.length + 1 + budget) (index + 1) = some rest := by
      refine ih (fun offset among => ?_) others (by omega)
      rw [Nat.add_assoc, Nat.add_comm 1]
      exact here (offset + 1) (Nat.succ_lt_succ among)
    rw [bytesToZero, if_neg (by rwa [same]), same, List.length_cons, later]
    rfl

end Memory

end Stackwright.Machine
