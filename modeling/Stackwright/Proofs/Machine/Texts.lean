import Stackwright.Proofs.Machine.Memory
import Stackwright.Proofs.Token.Tiling

/-! Texts in memory. Reading the bytes of a text gives the text, so a text that was placed in memory is
read back up to its first zero character, which is the only one whose bytes hold a zero byte. -/

set_option autoImplicit false

namespace Stackwright

namespace Text.Utf8

variable {bits low high byte : Nat} {rest : List UInt8}

theorem toNat_ofNat (small : byte < 0x100) : (UInt8.ofNat byte).toNat = byte := by
  rw [UInt8.toNat_ofNat']
  exact Nat.mod_eq_of_lt small

/-- The byte that completes a character. -/
theorem read_last (small : byte < 0x100) (within : low ≤ byte ∧ byte ≤ high) :
    read (some ⟨bits, [(low, high)]⟩) (UInt8.ofNat byte :: rest) =
      some (Char.ofNat (bits * 64 + (byte - 0x80))) :: read none rest := by
  rw [read]
  simp only [toNat_ofNat small, if_pos within, List.isEmpty_nil, if_true]

theorem read_more {range : Nat × Nat} {more : List (Nat × Nat)} (small : byte < 0x100)
    (within : low ≤ byte ∧ byte ≤ high) :
    read (some ⟨bits, (low, high) :: range :: more⟩) (UInt8.ofNat byte :: rest) =
      read (some ⟨bits * 64 + (byte - 0x80), range :: more⟩) rest := by
  rw [read]
  simp only [toNat_ofNat small, if_pos within, List.isEmpty_cons, Bool.false_eq_true, if_false]

theorem opening_one (small : byte < 0x80) : opening byte = .whole (Char.ofNat byte) := by
  rw [opening, if_pos small]

theorem opening_two (atLeast : 0xC2 ≤ byte) (below : byte < 0xE0) :
    opening byte = .first ⟨byte - 0xC0, [continuation]⟩ := by
  rw [opening, if_neg (by omega), if_neg (by omega), if_pos below]

/-- The second of three bytes is restricted where the character would be overlong or a surrogate. -/
theorem opening_three (atLeast : 0xE0 ≤ byte) (below : byte < 0xF0) :
    ∃ low high, opening byte = .first ⟨byte - 0xE0, [(low, high), continuation]⟩ ∧
      ∀ second, 0x80 ≤ second → second ≤ 0xBF → (byte = 0xE0 → 0xA0 ≤ second) → (byte = 0xED → second ≤ 0x9F) →
        low ≤ second ∧ second ≤ high := by
  rw [opening, if_neg (by omega), if_neg (by omega), if_neg (by omega)]
  by_cases overlong : byte = 0xE0
  · subst overlong
    exact ⟨0xA0, 0xBF, rfl, fun second _ most more _ => ⟨more rfl, most⟩⟩
  by_cases surrogate : byte = 0xED
  · subst surrogate
    exact ⟨0x80, 0x9F, rfl, fun second least _ _ less => ⟨least, less rfl⟩⟩
  rw [if_neg overlong, if_neg surrogate, if_pos below]
  exact ⟨0x80, 0xBF, rfl, fun second least most _ _ => ⟨least, most⟩⟩

/-- The second of four bytes is restricted where the character would be overlong or too large. -/
theorem opening_four (atLeast : 0xF0 ≤ byte) (below : byte < 0xF5) :
    ∃ low high, opening byte = .first ⟨byte - 0xF0, [(low, high), continuation, continuation]⟩ ∧
      ∀ second, 0x80 ≤ second → second ≤ 0xBF → (byte = 0xF0 → 0x90 ≤ second) → (byte = 0xF4 → second ≤ 0x8F) →
        low ≤ second ∧ second ≤ high := by
  rw [opening, if_neg (by omega), if_neg (by omega), if_neg (by omega), if_neg (by omega), if_neg (by omega),
    if_neg (by omega)]
  by_cases overlong : byte = 0xF0
  · subst overlong
    exact ⟨0x90, 0xBF, rfl, fun second _ most more _ => ⟨more rfl, most⟩⟩
  by_cases large : byte = 0xF4
  · subst large
    exact ⟨0x80, 0x8F, rfl, fun second least _ _ less => ⟨least, less rfl⟩⟩
  rw [if_neg overlong, if_pos (by omega)]
  exact ⟨0x80, 0xBF, rfl, fun second least most _ _ => ⟨least, most⟩⟩

theorem read_whole {char : Char} (small : byte < 0x100) (opens : opening byte = .whole char) :
    read none (UInt8.ofNat byte :: rest) = some char :: read none rest := by
  rw [read, toNat_ofNat small, opens]

theorem read_first {pending : Pending} (small : byte < 0x100) (opens : opening byte = .first pending) :
    read none (UInt8.ofNat byte :: rest) = read (some pending) rest := by
  rw [read, toNat_ofNat small, opens]

theorem utf8EncodeChar_eq (char : Char) :
    String.utf8EncodeChar char =
      if char.toNat ≤ 0x7F then [UInt8.ofNat char.toNat]
      else if char.toNat ≤ 0x7FF then [UInt8.ofNat (char.toNat / 64 % 32 + 0xC0), UInt8.ofNat (char.toNat % 64 + 0x80)]
      else if char.toNat ≤ 0xFFFF then
        [UInt8.ofNat (char.toNat / 4096 % 16 + 0xE0), UInt8.ofNat (char.toNat / 64 % 64 + 0x80),
          UInt8.ofNat (char.toNat % 64 + 0x80)]
      else
        [UInt8.ofNat (char.toNat / 262144 % 8 + 0xF0), UInt8.ofNat (char.toNat / 4096 % 64 + 0x80),
          UInt8.ofNat (char.toNat / 64 % 64 + 0x80), UInt8.ofNat (char.toNat % 64 + 0x80)] :=
  rfl

/-- The bytes of a character are read as the character. The cases are its numbers of bytes. -/
theorem read_encodeChar (char : Char) (rest : List UInt8) :
    read none (String.utf8EncodeChar char ++ rest) = some char :: read none rest := by
  have valid : char.toNat < 0xD800 ∨ 0xDFFF < char.toNat ∧ char.toNat < 0x110000 := char.valid
  have whole := char.ofNat_toNat
  rw [utf8EncodeChar_eq]
  generalize char.toNat = code at valid whole
  have continues (part : Nat) : 0x80 ≤ part % 64 + 0x80 ∧ part % 64 + 0x80 ≤ 0xBF := by omega
  by_cases one : code ≤ 0x7F
  · rw [if_pos one, List.cons_append, List.nil_append, read_whole (by omega) (opening_one (by omega)), whole]
  rw [if_neg one]
  by_cases two : code ≤ 0x7FF
  · rw [if_pos two]
    simp only [List.cons_append, List.nil_append]
    rw [read_first (by omega) (opening_two (by omega) (by omega)), continuation, read_last (by omega) (continues _),
      show (code / 64 % 32 + 0xC0 - 0xC0) * 64 + (code % 64 + 0x80 - 0x80) = code by omega, whole]
  rw [if_neg two]
  by_cases three : code ≤ 0xFFFF
  · rw [if_pos three]
    simp only [List.cons_append, List.nil_append]
    obtain ⟨low, high, opens, within⟩ := opening_three (by omega : 0xE0 ≤ code / 4096 % 16 + 0xE0) (by omega)
    rw [read_first (by omega) opens, continuation,
      read_more (by omega) (within _ (by omega) (by omega) (by omega) (by omega)), read_last (by omega) (continues _),
      show ((code / 4096 % 16 + 0xE0 - 0xE0) * 64 + (code / 64 % 64 + 0x80 - 0x80)) * 64 + (code % 64 + 0x80 - 0x80) =
        code by omega, whole]
  · rw [if_neg three]
    simp only [List.cons_append, List.nil_append]
    obtain ⟨low, high, opens, within⟩ := opening_four (by omega : 0xF0 ≤ code / 262144 % 8 + 0xF0) (by omega)
    rw [read_first (by omega) opens, continuation,
      read_more (by omega) (within _ (by omega) (by omega) (by omega) (by omega)),
      read_more (by omega) (continues _), read_last (by omega) (continues _),
      show (((code / 262144 % 8 + 0xF0 - 0xF0) * 64 + (code / 4096 % 64 + 0x80 - 0x80)) * 64 +
        (code / 64 % 64 + 0x80 - 0x80)) * 64 + (code % 64 + 0x80 - 0x80) = code by omega, whole]

theorem read_encode (chars : List Char) : read none (encode chars) = chars.map some := by
  induction chars with
  | nil => rfl
  | cons char rest ih => rw [encode, List.flatMap_cons, read_encodeChar, ← encode, ih, List.map_cons]

/-- Decoding gives back what was encoded. -/
theorem lossy_encode (chars : List Char) : lossy (encode chars) = String.ofList chars := by
  rw [lossy, read_encode, List.map_map]
  exact congrArg String.ofList (List.map_id chars)

theorem ofNat_ne_zero (positive : 0 < byte) (small : byte < 0x100) : UInt8.ofNat byte ≠ 0 := by
  intro zero
  have none := toNat_ofNat small
  rw [zero] at none
  exact absurd none (Nat.ne_of_lt positive)

/-- Only the zero character has a zero byte. -/
theorem ne_zero_of_mem_encodeChar {char : Char} (nonzero : char ≠ '\x00') :
    ∀ byte ∈ String.utf8EncodeChar char, byte ≠ 0 := by
  have positive : 0 < char.toNat := Nat.pos_of_ne_zero fun zero => nonzero (Char.toNat_inj.mp zero)
  have continues (part : Nat) : UInt8.ofNat (part % 64 + 0x80) ≠ 0 := ofNat_ne_zero (by omega) (by omega)
  rw [utf8EncodeChar_eq]
  generalize char.toNat = code at positive
  split_ifs with one two three
  · rw [List.forall_mem_singleton]
    exact ofNat_ne_zero positive (by omega)
  · rw [List.forall_mem_cons, List.forall_mem_singleton]
    exact ⟨ofNat_ne_zero (by omega) (by omega), continues _⟩
  · rw [List.forall_mem_cons, List.forall_mem_cons, List.forall_mem_singleton]
    exact ⟨ofNat_ne_zero (by omega) (by omega), continues _, continues _⟩
  · rw [List.forall_mem_cons, List.forall_mem_cons, List.forall_mem_cons, List.forall_mem_singleton]
    exact ⟨ofNat_ne_zero (by omega) (by omega), continues _, continues _, continues _⟩

theorem ne_zero_of_mem_encode {chars : List Char} (nonzero : ∀ char ∈ chars, char ≠ '\x00') :
    ∀ byte ∈ encode chars, byte ≠ 0 := by
  intro byte among
  obtain ⟨char, present, part⟩ := List.mem_flatMap.mp among
  exact ne_zero_of_mem_encodeChar (nonzero char present) byte part

end Text.Utf8

namespace Machine.Memory

open Text

/-- The characters of a text before its first zero character. -/
def beforeZero (text : String) : List Char := text.toList.takeWhile fun char => decide (char ≠ '\x00')

/-- The bytes of a text up to the first zero byte are those of its characters before the first zero character. -/
theorem textBytes_eq (text : String) :
    (∀ byte ∈ Utf8.encode (beforeZero text), byte ≠ 0) ∧
    ∃ more, textBytes text = Utf8.encode (beforeZero text) ++ 0 :: more := by
  refine ⟨Utf8.ne_zero_of_mem_encode fun char among => ?_, ?_⟩
  · exact of_decide_eq_true (List.mem_takeWhile_imp (p := fun char => decide (char ≠ '\x00')) among)
  have whole := List.takeWhile_append_dropWhile (p := fun char => decide (char ≠ '\x00')) (l := text.toList)
  cases rest : text.toList.dropWhile fun char => decide (char ≠ '\x00') with
  | nil =>
    rw [rest, List.append_nil] at whole
    exact ⟨[], by rw [textBytes, beforeZero, whole]⟩
  | cons char after =>
    have zero : char = '\x00' := by
      have stops := List.head_dropWhile_not (fun char => decide (char ≠ '\x00'))
        (l := text.toList) (by rw [rest]; nofun)
      simpa only [rest, List.head_cons, decide_eq_false_iff_not, not_not] using stops
    rw [rest, zero] at whole
    refine ⟨Utf8.encode after ++ [0], ?_⟩
    rw [textBytes, ← whole, beforeZero, Utf8.encode_append, List.append_assoc]
    rfl

variable {memory : Memory} {address : Int32} {index length : Nat}

theorem locate_eq_ok_iff_toInt :
    memory.locate address length = .ok index ↔ address.toInt = index ∧ index + length ≤ memory.size := by
  rw [locate]
  split
  · rw [Except.ok.injEq]
    omega
  · exact iff_of_false (by simp) (by omega)

theorem writeText_eq_ok_iff {next : Memory} {text : String} :
    memory.writeText index text = .ok next ↔
      index + (textBytes text).length ≤ memory.size ∧ next = memory.setBytes index (textBytes text) := by
  rw [writeText]
  by_cases inside : index + (textBytes text).length ≤ memory.size
  · rw [if_pos inside, Except.ok.injEq]
    exact ⟨fun same => ⟨inside, same.symm⟩, fun placed => placed.2.symm⟩
  · rw [if_neg inside]
    exact ⟨nofun, fun placed => absurd placed.1 inside⟩

/-- A text that was placed is read back up to its first zero character. -/
theorem readText_setBytes {text : String} (here : address.toInt = index)
    (inside : index + (textBytes text).length ≤ memory.size) :
    (memory.setBytes index (textBytes text)).readText address = .ok (String.ofList (beforeZero text)) := by
  obtain ⟨nonzero, more, bytes⟩ := textBytes_eq text
  have length := congrArg List.length bytes
  rw [List.length_append, List.length_cons] at length
  have stands : ∀ offset < (Utf8.encode (beforeZero text)).length + 1,
      (memory.setBytes index (textBytes text)).byteAt (index + offset) =
        (Utf8.encode (beforeZero text) ++ [0]).getD offset 0 := by
    intro offset among
    rw [byteAt_setBytes _ inside, if_pos (by omega), Nat.add_sub_cancel_left, bytes, List.append_cons,
      List.getD_append _ _ _ _ (by rw [List.length_append]; exact among)]
  rw [readText, locate_eq_ok_iff_toInt.mpr ⟨here, by rw [size_setBytes]; omega⟩]
  dsimp only
  rw [bytesToZero_eq stands nonzero (by rw [size_setBytes]; omega)]
  dsimp only
  rw [Utf8.lossy_encode]

end Machine.Memory
end Stackwright
