import Stackwright.Proofs.Machine.Texts
import Stackwright.Proofs.Machine.Limits

/-! The laws of loads and stores. A store succeeds where its bytes lie inside the memory. It is read back, in
one piece and byte by byte, and a read that does not look at its bytes gives what it gave before. A store
that fails changes nothing. -/

set_option autoImplicit false

namespace Stackwright.Machine

namespace Memory

variable {memory next : Memory} {address : Int32} {index : Nat}

theorem ext_bytes (size : next.size = memory.size) (same : ∀ place, next.byteAt place = memory.byteAt place) :
    next = memory := by
  obtain ⟨bytes⟩ := next
  obtain ⟨bytes'⟩ := memory
  refine congrArg Memory.mk (Array.ext size fun place inside inside' => ?_)
  simpa only [byteAt, Array.getElem?_eq_getElem inside, Array.getElem?_eq_getElem inside', Option.getD_some]
    using same place

/-- The byte at a place of an integer in two's complement, least significant first. -/
def byteOf (value : Int32) (place : Nat) : UInt8 := UInt8.ofNat (value.toInt / 256 ^ place % 256).toNat

theorem intBytes_eq (value : Int32) : intBytes value = (List.range 4).map (byteOf value) := by
  have below := word_lt value
  have part (place : Nat) (few : place < 4) : UInt8.ofNat (word value / 256 ^ place) = byteOf value place := by
    apply UInt8.toNat_inj.mp
    rw [byteOf, UInt8.toNat_ofNat', UInt8.toNat_ofNat', toInt_eq_word]
    interval_cases place <;> split <;> omega
  change [_, _, _, _] = [_, _, _, _]
  rw [← part 0 (by decide), ← part 1 (by decide), ← part 2 (by decide), ← part 3 (by decide), word]
  simp only [Nat.pow_zero, Nat.div_one, Nat.reducePow]

theorem byteAt_setInt (value : Int32) (inside : index + 4 ≤ memory.size) (place : Nat) :
    (memory.setInt index value).byteAt place =
      if index ≤ place ∧ place < index + 4 then byteOf value (place - index) else memory.byteAt place := by
  rw [setInt, intBytes_eq, byteAt_setBytes _ (by rwa [List.length_map, List.length_range]), List.length_map,
    List.length_range]
  split
  next among =>
    rw [List.getD_eq_getElem?_getD, List.getElem?_map, List.getElem?_range (by omega)]
    rfl
  next => rfl

theorem map_locate_eq_ok_iff {length : Nat} (change : Nat → Memory) :
    (memory.locate address length).map change = .ok next ↔
      ∃ index : Nat, address.toInt = index ∧ index + length ≤ memory.size ∧ next = change index := by
  cases found : memory.locate address length with
  | error =>
    refine ⟨nofun, fun ⟨index, here, inside, _⟩ => ?_⟩
    rw [locate_eq_ok_iff_toInt.mpr ⟨here, inside⟩] at found
    cases found
  | ok index =>
    obtain ⟨here, inside⟩ := locate_eq_ok_iff_toInt.mp found
    rw [Except.map, Except.ok.injEq]
    refine ⟨fun same => ⟨index, here, inside, same.symm⟩, fun ⟨index', here', _, same⟩ => ?_⟩
    rw [same, show index = index' by omega]

theorem writeInt_eq_ok_iff {value : Int32} :
    memory.writeInt address value = .ok next ↔
      ∃ index : Nat, address.toInt = index ∧ index + 4 ≤ memory.size ∧ next = memory.setInt index value := by
  rw [← map_locate_eq_ok_iff fun index => memory.setInt index value, writeInt]
  cases memory.locate address 4 <;> rfl

theorem writeByte_eq_ok_iff {byte : UInt8} :
    memory.writeByte address byte = .ok next ↔
      ∃ index : Nat, address.toInt = index ∧ index + 1 ≤ memory.size ∧ next = memory.setByte index byte := by
  rw [← map_locate_eq_ok_iff fun index => memory.setByte index byte, writeByte]
  cases memory.locate address 1 <;> rfl

theorem readByte_of_toInt (here : address.toInt = index) (inside : index + 1 ≤ memory.size) :
    memory.readByte address = .ok (memory.byteAt index) := by
  rw [readByte, locate_eq_ok_iff_toInt.mpr ⟨here, inside⟩]
  rfl

theorem readInt_of_toInt (here : address.toInt = index) (inside : index + 4 ≤ memory.size) :
    memory.readInt address = .ok (memory.intAt index) := by
  rw [readInt, locate_eq_ok_iff_toInt.mpr ⟨here, inside⟩]
  rfl

/-- A text that is read at the address is read as far as this byte: none before it is zero. -/
def Shows (memory : Memory) (address : Int32) (place : Nat) : Prop :=
  address.toInt ≤ place ∧ place < memory.size ∧
    ∀ earlier : Nat, address.toInt ≤ earlier → earlier < place → memory.byteAt earlier ≠ 0

/-- Nothing outside of these bytes is changed, and no read that looks at none of them shows the difference. -/
structure Spares (memory next : Memory) (start stop : Int) : Prop where
  size : next.size = memory.size
  byteAt : ∀ place : Nat, place < start ∨ stop ≤ place → next.byteAt place = memory.byteAt place
  readInt : ∀ address : Int32, address.toInt + 4 ≤ start ∨ stop ≤ address.toInt →
    next.readInt address = memory.readInt address
  readByte : ∀ address : Int32, address.toInt + 1 ≤ start ∨ stop ≤ address.toInt →
    next.readByte address = memory.readByte address
  readText : ∀ address : Int32, (∀ place : Nat, memory.Shows address place → place < start ∨ stop ≤ place) →
    next.readText address = memory.readText address

theorem locate_congr (size : next.size = memory.size) (address : Int32) (length : Nat) :
    next.locate address length = memory.locate address length := by
  rw [locate, locate, size]

/-- Looking for the zero byte only depends on the bytes that are looked at. -/
theorem bytesToZero_congr {budget : Nat}
    (same : ∀ place, index ≤ place → place < index + budget →
      (∀ earlier, index ≤ earlier → earlier < place → memory.byteAt earlier ≠ 0) →
      next.byteAt place = memory.byteAt place) :
    next.bytesToZero budget index = memory.bytesToZero budget index := by
  induction budget generalizing index with
  | zero => rfl
  | succ budget ih =>
    have first := same index (Nat.le_refl _) (by omega) fun earlier _ _ => by omega
    rw [bytesToZero, bytesToZero, first]
    by_cases zero : memory.byteAt index = 0
    · rw [if_pos zero, if_pos zero]
    · rw [if_neg zero, if_neg zero]
      refine congrArg (Option.map _) (ih fun place after within nonzero => same place (by omega) (by omega) ?_)
      intro earlier begun before
      by_cases here : earlier = index
      · rwa [here]
      · exact nonzero earlier (by omega) before

theorem Spares.of_bytes {start stop : Int} (size : next.size = memory.size)
    (same : ∀ place : Nat, place < start ∨ stop ≤ place → next.byteAt place = memory.byteAt place) :
    memory.Spares next start stop where
  size := size
  byteAt := same
  readInt := by
    intro address apart
    rw [Memory.readInt, Memory.readInt, locate_congr size]
    cases found : memory.locate address 4 with
    | error => rfl
    | ok index =>
      obtain ⟨here, inside⟩ := locate_eq_ok_iff_toInt.mp found
      exact congrArg Except.ok (intAt_congr fun offset among => same _ (by omega))
  readByte := by
    intro address apart
    rw [Memory.readByte, Memory.readByte, locate_congr size]
    cases found : memory.locate address 1 with
    | error => rfl
    | ok index =>
      obtain ⟨here, inside⟩ := locate_eq_ok_iff_toInt.mp found
      exact congrArg Except.ok (same _ (by omega))
  readText := by
    intro address apart
    rw [Memory.readText, Memory.readText, locate_congr size, size]
    cases found : memory.locate address 1 with
    | error => rfl
    | ok index =>
      obtain ⟨here, inside⟩ := locate_eq_ok_iff_toInt.mp found
      have text : next.bytesToZero (memory.size - index) index = memory.bytesToZero (memory.size - index) index := by
        refine bytesToZero_congr fun place after within nonzero => same place (apart place ⟨by omega, by omega, ?_⟩)
        intro earlier begun before
        exact nonzero earlier (by omega) before
      dsimp only
      rw [text]

/-- Storing bytes one by one, in whatever order, where each goes to its place. -/
theorem foldlM_writeByte (places : Nat → Int32) (bytes : Nat → UInt8) (order : List Nat)
    (here : ∀ offset ∈ order, (places offset).toInt = index + offset)
    (inside : ∀ offset ∈ order, index + offset < memory.size) :
    ∃ next, order.foldlM (fun memory offset => memory.writeByte (places offset) (bytes offset)) memory = .ok next ∧
      next.size = memory.size ∧
      ∀ place, next.byteAt place =
        if index ≤ place ∧ place - index ∈ order then bytes (place - index) else memory.byteAt place := by
  induction order generalizing memory with
  | nil => exact ⟨memory, rfl, rfl, fun place => by rw [if_neg (by simp)]⟩
  | cons offset rest ih =>
    obtain ⟨here, heres⟩ := List.forall_mem_cons.mp here
    obtain ⟨fits, others⟩ := List.forall_mem_cons.mp inside
    have written : memory.writeByte (places offset) (bytes offset) =
        .ok (memory.setByte (index + offset) (bytes offset)) :=
      writeByte_eq_ok_iff.mpr ⟨index + offset, here, fits, rfl⟩
    have insides : ∀ later ∈ rest, index + later < (memory.setByte (index + offset) (bytes offset)).size := by
      rwa [size_setByte]
    obtain ⟨next, folded, size, same⟩ := ih heres insides
    refine ⟨next, ?_, size.trans (size_setByte ..), fun place => ?_⟩
    · rw [List.foldlM_cons, written]
      exact folded
    · rw [same, byteAt_setByte _ _ fits]
      by_cases later : index ≤ place ∧ place - index ∈ rest
      · rw [if_pos later, if_pos ⟨later.1, List.mem_cons_of_mem _ later.2⟩]
      · rw [if_neg later]
        by_cases now : place = index + offset
        · have offset_eq : place - index = offset := by omega
          rw [if_pos now, if_pos ⟨by omega, offset_eq ▸ List.mem_cons_self⟩, offset_eq]
        · rw [if_neg now, if_neg]
          intro among
          rcases List.mem_cons.mp among.2 with first | others
          · omega
          · exact later ⟨among.1, others⟩

/-- What a successful store of an integer leaves. -/
theorem stores_setInt (value : Int32) (here : address.toInt = index) (inside : index + 4 ≤ memory.size) :
    (memory.setInt index value).readInt address = .ok value ∧
    (∀ (place : Int32) (offset : Nat), offset < 4 → place.toInt = address.toInt + offset →
      (memory.setInt index value).readByte place = .ok (byteOf value offset)) ∧
    memory.Spares (memory.setInt index value) address.toInt (address.toInt + 4) := by
  refine ⟨?_, fun place offset few beside => ?_, .of_bytes (size_setInt ..) fun place apart => ?_⟩
  · rw [readInt_of_toInt here (by rwa [size_setInt]), intAt_setInt _ inside]
  · have there : place.toInt = (index + offset : Nat) := by omega
    rw [readByte_of_toInt there (by rw [size_setInt]; omega), byteAt_setInt _ inside, if_pos (by omega), Nat.add_sub_cancel_left]
  · rw [byteAt_setInt _ inside, if_neg (by omega)]

/-- The bytes of an integer may as well be stored one by one, in whatever order. -/
theorem foldlM_byteOf (value : Int32) (here : address.toInt = index) (inside : index + 4 ≤ memory.size)
    {places : Nat → Int32} {order : List Nat} (beside : ∀ offset < 4, (places offset).toInt = address.toInt + offset)
    (each : ∀ offset, offset ∈ order ↔ offset < 4) :
    order.foldlM (fun memory offset => memory.writeByte (places offset) (byteOf value offset)) memory =
      .ok (memory.setInt index value) := by
  have placed : ∀ offset ∈ order, (places offset).toInt = index + offset := fun offset among => by
    rw [beside offset ((each offset).mp among), here]
  have fits : ∀ offset ∈ order, index + offset < memory.size := fun offset among => by
    have few := (each offset).mp among
    omega
  obtain ⟨next, folded, size, same⟩ := foldlM_writeByte places (byteOf value) order placed fits
  rw [folded, ext_bytes (size.trans (size_setInt ..).symm) fun place => ?_]
  rw [same, byteAt_setInt _ inside]
  refine if_congr ?_ rfl rfl
  rw [each]
  omega

theorem stores_setByte (byte : UInt8) (here : address.toInt = index) (inside : index + 1 ≤ memory.size) :
    (memory.setByte index byte).readByte address = .ok byte ∧
    memory.Spares (memory.setByte index byte) address.toInt (address.toInt + 1) := by
  refine ⟨?_, .of_bytes (size_setByte ..) fun place apart => ?_⟩
  · rw [readByte_of_toInt here (by rwa [size_setByte]), byteAt_setByte _ _ inside, if_pos rfl]
  · rw [byteAt_setByte _ _ inside, if_neg (by omega)]

theorem stores_textBytes {text : String} (here : address.toInt = index)
    (inside : index + (textBytes text).length ≤ memory.size) :
    (memory.setBytes index (textBytes text)).readText address = .ok (String.ofList (beforeZero text)) ∧
    memory.Spares (memory.setBytes index (textBytes text)) address.toInt
      (address.toInt + Text.Utf8.size text.toList + 1) := by
  have length : (textBytes text).length = Text.Utf8.size text.toList + 1 := by
    rw [textBytes, List.length_append, Text.Utf8.length_encode, List.length_singleton]
  refine ⟨readText_setBytes here inside, .of_bytes (size_setBytes ..) fun place apart => ?_⟩
  rw [byteAt_setBytes _ inside, if_neg (by omega)]

/-- The memory after a store instruction is what the store gives, or what it was if the store fails. -/
theorem memory_store (state : State) (rest : List Int32) (value : Int32) {length : Nat}
    {change : Memory → Nat → Int32 → Memory} :
    (State.store { state with memory := memory, stack := value :: address :: rest } length change).state.memory =
      ((memory.locate address length).map fun index => change memory index value).toOption.getD memory := by
  rw [State.store]
  dsimp only
  cases memory.locate address length <;> rfl

theorem byteOf_zero (value : Int32) : UInt8.ofNat value.toUInt32.toNat = byteOf value 0 :=
  List.head_eq_of_cons_eq (intBytes_eq value)

/-- The laws of loads and stores, for memory of any size and every address, signed as it is. -/
theorem store_laws (memory : Memory) (address value : Int32) (byte : UInt8) (text : String) :
    ((∃ next, memory.writeInt address value = .ok next) ↔ 0 ≤ address.toInt ∧ address.toInt + 4 ≤ memory.size) ∧
    ((∃ next, memory.writeByte address byte = .ok next) ↔ 0 ≤ address.toInt ∧ address.toInt < memory.size) ∧
    (∀ (codeSize : Nat) (state : State) (rest : List Int32),
      (Op.storeInt.execute codeSize { state with memory := memory, stack := value :: address :: rest }).state.memory =
        (memory.writeInt address value).toOption.getD memory ∧
      (Op.storeByte.execute codeSize { state with memory := memory, stack := value :: address :: rest }).state.memory =
        (memory.writeByte address (byteOf value 0)).toOption.getD memory) ∧
    (∀ next, memory.writeInt address value = .ok next →
      next.readInt address = .ok value ∧
      (∀ (place : Int32) (offset : Nat), offset < 4 → place.toInt = address.toInt + offset →
        next.readByte place = .ok (byteOf value offset)) ∧
      memory.Spares next address.toInt (address.toInt + 4) ∧
      ∀ (places : Nat → Int32) (order : List Nat), (∀ offset < 4, (places offset).toInt = address.toInt + offset) →
        (∀ offset, offset ∈ order ↔ offset < 4) →
        order.foldlM (fun memory offset => memory.writeByte (places offset) (byteOf value offset)) memory = .ok next) ∧
    (∀ next, memory.writeByte address byte = .ok next →
      next.readByte address = .ok byte ∧ memory.Spares next address.toInt (address.toInt + 1)) ∧
    (∀ next (index : Nat), address.toInt = index → memory.writeText index text = .ok next →
      next.readText address = .ok (String.ofList (beforeZero text)) ∧
      memory.Spares next address.toInt (address.toInt + Text.Utf8.size text.toList + 1)) := by
  refine ⟨?_, ?_, fun codeSize state rest => ⟨?_, ?_⟩, fun next written => ?_, fun next written => ?_,
    fun next index here written => ?_⟩
  · simp only [writeInt_eq_ok_iff]
    exact ⟨fun ⟨_, index, here, inside, _⟩ => by omega,
      fun inside => ⟨_, address.toInt.toNat, by omega, by omega, rfl⟩⟩
  · simp only [writeByte_eq_ok_iff]
    exact ⟨fun ⟨_, index, here, inside, _⟩ => by omega,
      fun inside => ⟨_, address.toInt.toNat, by omega, by omega, rfl⟩⟩
  · rw [Op.execute, memory_store, writeInt]
    cases memory.locate address 4 <;> rfl
  · rw [Op.execute, memory_store, writeByte, byteOf_zero]
    cases memory.locate address 1 <;> rfl
  · obtain ⟨index, here, inside, rfl⟩ := writeInt_eq_ok_iff.mp written
    obtain ⟨whole, bytes, spares⟩ := stores_setInt value here inside
    exact ⟨whole, bytes, spares, fun places order beside each => foldlM_byteOf value here inside beside each⟩
  · obtain ⟨index, here, inside, rfl⟩ := writeByte_eq_ok_iff.mp written
    exact stores_setByte byte here inside
  · obtain ⟨inside, rfl⟩ := writeText_eq_ok_iff.mp written
    exact stores_textBytes here inside

end Memory

end Stackwright.Machine
