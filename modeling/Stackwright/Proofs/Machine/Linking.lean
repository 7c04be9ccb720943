import Stackwright.Proofs.Machine.Conversions
import Stackwright.Proofs.Machine.Placing

/-! Loading is exact. Code is loaded if and only if it names each place once, refers to named places
only, and its data fits into the memory. Then every use of a name goes to the place with that name, the
memory holds the texts of the code where they were placed and zeros everywhere else, and no name is left
to be looked up when the code runs. -/

set_option autoImplicit false

namespace Stackwright

open Machine

namespace Instruction

/-- The data that a directive lays out. -/
def dataBytes (instruction : Instruction) : List UInt8 :=
  match instruction.opcode with
  | .dataString => Memory.textBytes (instruction.string?.getD "")
  | _ => List.replicate instruction.dataSize 0

variable {instruction : Instruction}

theorem dataBytes_of_string (text : instruction.opcode = .dataString) :
    instruction.dataBytes = Memory.textBytes (instruction.string?.getD "") := by
  rw [dataBytes, text]

theorem dataBytes_of_ne (other : instruction.opcode ≠ .dataString) :
    instruction.dataBytes = List.replicate instruction.dataSize 0 := by
  unfold dataBytes
  split
  next text => exact absurd text other
  next => rfl

/-- Only texts lay out anything but zeros. -/
theorem getD_dataBytes_of_ne (other : instruction.opcode ≠ .dataString) (offset : Nat) :
    instruction.dataBytes.getD offset 0 = 0 := by
  rw [dataBytes_of_ne other, List.getD_eq_getElem?_getD, List.getElem?_getD_replicate_default_eq]

theorem length_dataBytes (instruction : Instruction) : instruction.dataBytes.length = instruction.dataSize := by
  by_cases text : instruction.opcode = .dataString
  · rw [dataBytes_of_string text, dataSize, text]
  · rw [dataBytes_of_ne text, List.length_replicate]

end Instruction

namespace Code

/-- The data that code lays out, in order. -/
def dataBytes (code : Code) : List UInt8 := code.flatMap Instruction.dataBytes

variable {instruction : Instruction} {code : Code} {index offset byte : Nat}

theorem dataBytes_cons : dataBytes (instruction :: code) = instruction.dataBytes ++ dataBytes code :=
  List.flatMap_cons

theorem length_dataBytes (code : Code) : code.dataBytes.length = code.dataSize := by
  induction code with
  | nil => rfl
  | cons instruction rest ih =>
    rw [dataBytes_cons, List.length_append, ih, instruction.length_dataBytes, dataSize_cons]

/-- What an instruction lays out stands after what those before it lay out. -/
theorem getD_dataBytes (here : code[index]? = some instruction) (inside : offset < instruction.dataSize) :
    code.dataBytes.getD (dataSize (code.take index) + offset) 0 = instruction.dataBytes.getD offset 0 := by
  induction code generalizing index with
  | nil => cases here
  | cons first rest ih =>
    rw [dataBytes_cons]
    cases index with
    | zero =>
      obtain rfl := Option.some.inj here
      have start : dataSize ((first :: rest).take 0) + offset = offset := Nat.zero_add offset
      rw [start, List.getD_append _ _ _ _ (by rwa [first.length_dataBytes])]
    | succ index =>
      rw [List.take_succ_cons, dataSize_cons, List.getD_append_right _ _ _ _
        (by rw [first.length_dataBytes]; omega), first.length_dataBytes,
        Nat.add_assoc, Nat.add_sub_cancel_left]
      exact ih here

/-- Every byte of the data was laid out by some instruction. -/
theorem exists_of_lt_dataSize (inside : byte < code.dataSize) :
    ∃ index instruction offset, code[index]? = some instruction ∧ offset < instruction.dataSize ∧
      byte = dataSize (code.take index) + offset := by
  induction code generalizing byte with
  | nil => exact absurd inside (Nat.not_lt_zero byte)
  | cons first rest ih =>
    rw [dataSize_cons] at inside
    by_cases own : byte < first.dataSize
    · exact ⟨0, first, byte, rfl, own, (Nat.zero_add byte).symm⟩
    · have later : byte - first.dataSize < dataSize rest := by omega
      obtain ⟨index, instruction, offset, here, within, place⟩ := ih later
      refine ⟨index + 1, instruction, offset, here, within, ?_⟩
      rw [List.take_succ_cons, dataSize_cons]
      omega

theorem dataSize_take_le (code : Code) (index : Nat) : dataSize (code.take index) ≤ code.dataSize := by
  induction code generalizing index with
  | nil => rw [List.take_nil]
  | cons first rest ih =>
    cases index with
    | zero => exact Nat.zero_le _
    | succ index =>
      rw [List.take_succ_cons, dataSize_cons, dataSize_cons]
      exact Nat.add_le_add_left (ih index) _

end Code

namespace Machine.Layout

/-- What noting one instruction can do to a layout. -/
inductive Notes (layout : Layout) (index : Nat) (instruction : Instruction) : Layout → Prop where
  | label (kind : instruction.opcode = .label) (new : layout.isDefined instruction.mark = false) :
      Notes layout index instruction { layout with codeLabels := (instruction.mark, index) :: layout.codeLabels }
  | dataLabel (kind : instruction.opcode = .dataLabel) (new : layout.isDefined instruction.mark = false) :
      Notes layout index instruction
        { layout with dataLabels := (instruction.mark, layout.dataSize) :: layout.dataLabels }
  | text (kind : instruction.opcode = .dataString)
      (fits : layout.dataSize + instruction.dataSize ≤ layout.memory.size) :
      Notes layout index instruction
        { layout with
          dataSize := layout.dataSize + instruction.dataSize
          memory := layout.memory.setBytes layout.dataSize instruction.dataBytes }
  | other (unmarked : instruction.marks = []) (kind : instruction.opcode ≠ .dataString) :
      Notes layout index instruction { layout with dataSize := layout.dataSize + instruction.dataSize }

variable {layout next last : Layout} {index skipped address byte : Nat} {place instruction : Instruction}
  {code : Code} {label : String}

theorem notes_of_place (placed : layout.place index instruction = .ok next) :
    layout.Notes index instruction next := by
  have others (unmarked : instruction.marks = []) (kind : instruction.opcode ≠ .dataString)
      (same : { layout with dataSize := layout.dataSize + instruction.dataSize } = next) :
      layout.Notes index instruction next := same ▸ .other unmarked kind
  cases kind : instruction.opcode
  case dataString =>
    have size : (Memory.textBytes (instruction.string?.getD "")).length = instruction.dataSize := by
      rw [← Instruction.dataBytes_of_string kind, instruction.length_dataBytes]
    rw [place_string kind, size, ← Instruction.dataBytes_of_string kind] at placed
    split at placed <;> cases placed
    next fits => exact .text kind fits
  all_goals
    unfold Layout.place at placed
    simp only [kind] at placed
  case label =>
    split at placed <;> cases placed
    next new => exact .label kind (Bool.eq_false_of_not_eq_true new)
  case dataLabel =>
    split at placed <;> cases placed
    next new => exact .dataLabel kind (Bool.eq_false_of_not_eq_true new)
  all_goals
    refine others (by simp [Instruction.marks, kind]) (by simp [kind]) ?_
    cases placed
    simp [Instruction.dataSize, kind]

/-- Only a name that has no place yet is given one. -/
theorem Notes.fresh (notes : layout.Notes index instruction next) :
    ∀ name ∈ instruction.marks, layout.isDefined name = false := by
  intro name member
  cases notes with
  | label kind new | dataLabel kind new =>
    rw [Instruction.marks, kind] at member
    rwa [List.mem_singleton.mp member]
  | text kind => simp [Instruction.marks, kind] at member
  | other unmarked => simp [unmarked] at member

theorem adds_of_place (placed : layout.place index instruction = .ok next) : layout.Adds next [instruction] := by
  rcases @place_of_fresh layout index instruction (notes_of_place placed).fresh with ⟨other, same, adds⟩ | ⟨failed, _⟩
  · rw [placed] at same
    exact Except.ok.inj same ▸ adds
  · rw [placed] at failed
    cases failed

/-- Code whose directives were noted names each place once, and no place that had a name before. -/
theorem adds_of_placeAll (placed : layout.placeAll index code = .ok last) :
    layout.Adds last code ∧ code.marks.Nodup ∧ ∀ name ∈ code.marks, layout.isDefined name = false := by
  induction code generalizing layout index with
  | nil =>
    cases placed
    exact ⟨.refl _, List.nodup_nil, nofun⟩
  | cons instruction rest ih =>
    rw [placeAll] at placed
    split at placed
    next next first =>
      obtain ⟨adds, distinct, fresh⟩ := ih placed
      have one := adds_of_place first
      -- what is new after the first instruction was new before it, and is not named by it
      have known (name : String) : next.isDefined name = false ↔
          layout.isDefined name = false ∧ name ∉ instruction.marks := by
        have single : Code.marks [instruction] = instruction.marks := by simp [Code.marks]
        rw [← Bool.not_eq_true, one.marks, single, not_or, Bool.not_eq_true]
      rw [Code.marks_cons]
      refine ⟨one.cons adds, List.nodup_append.mpr ⟨?_, distinct, ?_⟩, ?_⟩
      · unfold Instruction.marks
        split <;> simp
      · rintro name own _ member rfl
        exact ((known name).mp (fresh name member)).2 own
      · intro name member
        rcases List.mem_append.mp member with own | member
        · exact (notes_of_place first).fresh name own
        · exact ((known name).mp (fresh name member)).1
    next => cases placed

theorem address?_eq_none (new : layout.isDefined label = false) : layout.address? label = none := by
  rwa [isDefined, Option.isSome_eq_false_iff, Option.isNone_iff_eq_none] at new

/-- A name keeps the place that it has. -/
theorem Notes.address?_of_known (notes : layout.Notes index instruction next)
    (known : layout.address? label = some address) : next.address? label = some address := by
  have differs (new : layout.isDefined instruction.mark = false) : label ≠ instruction.mark := by
    rintro rfl
    rw [address?_eq_none new] at known
    cases known
  cases notes with
  | label kind new =>
    rw [← known]
    exact address?_noting_of_ne (differs new)
  | dataLabel kind new =>
    rwa [address?, List.lookup_cons, beq_false_of_ne (differs new)]
  | text | other => exact known

theorem address?_of_placeAll (placed : layout.placeAll index code = .ok last)
    (known : layout.address? label = some address) : last.address? label = some address := by
  induction code generalizing layout index with
  | nil =>
    cases placed
    exact known
  | cons instruction rest ih =>
    rw [placeAll] at placed
    split at placed
    next next first => exact ih placed ((notes_of_place first).address?_of_known known)
    next => cases placed

/-- A label in the code is given its index. -/
theorem Notes.target?_mark (notes : layout.Notes index instruction next) (kind : instruction.opcode = .label) :
    next.target? instruction.mark = some index ∧ next.address? instruction.mark = some index := by
  cases notes with
  | label _ new =>
    -- a data label of the same name would hide the code label
    have unused := address?_eq_none new
    rw [address?, Option.or_eq_none_iff] at unused
    have own : ((instruction.mark, index) :: layout.codeLabels).lookup instruction.mark = some index := by
      rw [List.lookup_cons, beq_self_eq_true]
    exact ⟨own, by rw [address?, unused.1, Option.none_or]; exact own⟩
  | dataLabel differs | text differs =>
    rw [kind] at differs
    cases differs
  | other unmarked => simp [Instruction.marks, kind] at unmarked

/-- A label in the data is given the size of the data before it. -/
theorem Notes.address?_mark (notes : layout.Notes index instruction next) (kind : instruction.opcode = .dataLabel) :
    next.address? instruction.mark = some layout.dataSize := by
  cases notes with
  | dataLabel => rw [address?, List.lookup_cons, beq_self_eq_true, Option.some_or]
  | label differs | text differs =>
    rw [kind] at differs
    cases differs
  | other unmarked => simp [Instruction.marks, kind] at unmarked

/-- Code is noted up to an instruction, then the instruction, and then the rest. -/
theorem placeAll_split (placed : layout.placeAll index code = .ok last) (here : code[skipped]? = some instruction) :
    ∃ before after, layout.placeAll index (code.take skipped) = .ok before ∧
      before.place (index + skipped) instruction = .ok after ∧
      after.placeAll (index + skipped + 1) (code.drop (skipped + 1)) = .ok last := by
  induction code generalizing layout index skipped with
  | nil => cases here
  | cons first rest ih =>
    rw [placeAll] at placed
    split at placed
    next next one =>
      cases skipped with
      | zero =>
        obtain rfl := Option.some.inj here
        exact ⟨layout, next, rfl, one, placed⟩
      | succ skipped =>
        obtain ⟨before, after, start, middle, later⟩ := ih placed here
        have shift : index + 1 + skipped = index + (skipped + 1) := by omega
        rw [shift] at middle later
        refine ⟨before, after, ?_, middle, later⟩
        rw [List.take_succ_cons, placeAll, one]
        exact start
    next => cases placed

/-- A label in code whose directives were noted stands for its index. -/
theorem target?_of_label (placed : layout.placeAll index code = .ok last) (here : code[skipped]? = some instruction)
    (kind : instruction.opcode = .label) :
    last.target? instruction.mark = some (index + skipped) ∧ last.address? instruction.mark = some (index + skipped) := by
  obtain ⟨before, after, _, middle, rest⟩ := placeAll_split placed here
  obtain ⟨target, address⟩ := (notes_of_place middle).target?_mark kind
  exact ⟨target?_of_placeAll rest target, address?_of_placeAll rest address⟩

/-- A label in the data stands for the size of the data before it. -/
theorem address?_of_dataLabel (placed : layout.placeAll index code = .ok last)
    (here : code[skipped]? = some instruction) (kind : instruction.opcode = .dataLabel) :
    last.address? instruction.mark = some (layout.dataSize + Code.dataSize (code.take skipped)) := by
  obtain ⟨before, after, start, middle, rest⟩ := placeAll_split placed here
  rw [← (adds_of_placeAll start).1.dataSize]
  exact address?_of_placeAll rest ((notes_of_place middle).address?_mark kind)

/-- Nothing was written past the data. -/
def Blank (layout : Layout) : Prop := ∀ byte, layout.dataSize ≤ byte → layout.memory.byteAt byte = 0

theorem Notes.byteAt (notes : layout.Notes index instruction next) (blank : layout.Blank) (byte : Nat) :
    next.memory.byteAt byte =
      if byte < layout.dataSize then layout.memory.byteAt byte
      else instruction.dataBytes.getD (byte - layout.dataSize) 0 := by
  -- zeros are reserved without being written, they are there because nothing was written past the data
  have unwritten (kind : instruction.opcode ≠ .dataString) : layout.memory.byteAt byte =
      if byte < layout.dataSize then layout.memory.byteAt byte
      else instruction.dataBytes.getD (byte - layout.dataSize) 0 := by
    rw [Instruction.getD_dataBytes_of_ne kind]
    split
    next => rfl
    next outside => exact blank byte (Nat.le_of_not_lt outside)
  cases notes with
  | label kind | dataLabel kind => exact unwritten (by simp [kind])
  | other _ kind => exact unwritten kind
  | text kind fits =>
    have length := instruction.length_dataBytes
    dsimp only
    rw [Memory.byteAt_setBytes _ (by rwa [length])]
    by_cases before : byte < layout.dataSize
    · rw [if_neg (by omega), if_pos before]
    · rw [if_neg before]
      split
      next => rfl
      next outside =>
        rw [List.getD_eq_default _ _ (by omega)]
        exact blank byte (by omega)

theorem Notes.blank (notes : layout.Notes index instruction next) (blank : layout.Blank)
    (size : next.dataSize = layout.dataSize + instruction.dataSize) : next.Blank := by
  intro byte past
  have length := instruction.length_dataBytes
  rw [notes.byteAt blank, if_neg (by omega), List.getD_eq_default _ _ (by omega)]

/-- The data of the code stands after what was there before, and nothing was written past it. -/
theorem byteAt_of_placeAll (placed : layout.placeAll index code = .ok last) (blank : layout.Blank) (byte : Nat) :
    last.memory.byteAt byte =
      if byte < layout.dataSize then layout.memory.byteAt byte
      else code.dataBytes.getD (byte - layout.dataSize) 0 := by
  induction code generalizing layout index with
  | nil =>
    cases placed
    split
    next => rfl
    next outside => exact blank byte (Nat.le_of_not_lt outside)
  | cons instruction rest ih =>
    rw [placeAll] at placed
    split at placed
    next next first =>
      have notes := notes_of_place first
      have length := instruction.length_dataBytes
      have size : next.dataSize = layout.dataSize + instruction.dataSize := by
        rw [(adds_of_place first).dataSize]
        simp [Code.dataSize]
      rw [ih placed (notes.blank blank size), notes.byteAt blank, size, Code.dataBytes_cons]
      by_cases before : byte < layout.dataSize
      · rw [if_pos (by omega)]
        simp only [if_pos before]
      · rw [if_neg before, if_neg before]
        split
        next own => rw [List.getD_append _ _ _ _ (by omega)]
        next later =>
          rw [List.getD_append_right _ _ _ _ (by omega), length, Nat.sub_sub]
    next => cases placed

/-- A layout says of each place in the code where it is. Memory holds the texts where they were placed,
and zeros everywhere else. -/
structure Exact (layout : Layout) (code : Code) : Prop where
  labels : ∀ (index : Nat) (place use : Instruction), code[index]? = some place → place.opcode = .label →
    use.mark = place.mark → layout.targetOf use = .ok index ∧ layout.addressOf use = .ok (Int32.ofNat index)
  dataLabels : ∀ (index : Nat) (place use : Instruction), code[index]? = some place → place.opcode = .dataLabel →
    use.mark = place.mark →
    ∃ address, layout.addressOf use = .ok address ∧ address.toInt = Code.dataSize (code.take index)
  texts : ∀ (index : Nat) (place : Instruction), code[index]? = some place → place.opcode = .dataString →
    ∀ offset < place.dataSize, layout.memory.byteAt (Code.dataSize (code.take index) + offset) =
      (Memory.textBytes (place.string?.getD "")).getD offset 0
  zeros : ∀ byte, (∀ (index : Nat) (place : Instruction), code[index]? = some place → place.opcode = .dataString →
      byte < Code.dataSize (code.take index) ∨ Code.dataSize (code.take index) + place.dataSize ≤ byte) →
    layout.memory.byteAt byte = 0

theorem byteAt_of_starting {memorySize : Nat} (placed : (starting memorySize).placeAll 0 code = .ok layout)
    (byte : Nat) : layout.memory.byteAt byte = code.dataBytes.getD byte 0 := by
  have blank : (starting memorySize).Blank := by
    intro byte _
    rw [starting, empty, Memory.zeroed, Memory.byteAt, Array.getElem?_replicate]
    split <;> rfl
  exact byteAt_of_placeAll placed blank byte

theorem exact_of_placeAll {memorySize : Nat} (placed : (starting memorySize).placeAll 0 code = .ok layout)
    (fits : code.dataSize < 2 ^ 31) : layout.Exact code where
  labels index place use here kind same := by
    obtain ⟨target, address⟩ := target?_of_label placed here kind
    rw [Nat.zero_add] at target address
    rw [targetOf, addressOf, ← Instruction.mark, same, target, address]
    exact ⟨rfl, rfl⟩
  dataLabels index place use here kind same := by
    have address := address?_of_dataLabel placed here kind
    have start : (starting memorySize).dataSize = 0 := rfl
    have within := Code.dataSize_take_le code index
    rw [start, Nat.zero_add] at address
    -- the data is so small that no address of it is negative as a value
    rw [addressOf, ← Instruction.mark, same, address]
    exact ⟨_, rfl, Int32.toInt_ofNat_of_lt (by omega)⟩
  texts index place here kind offset inside := by
    rw [byteAt_of_starting placed, Code.getD_dataBytes here inside, Instruction.dataBytes_of_string kind]
  zeros byte outside := by
    rw [byteAt_of_starting placed]
    by_cases inside : byte < code.dataSize
    · obtain ⟨index, place, offset, here, within, rfl⟩ := Code.exists_of_lt_dataSize inside
      have kind : place.opcode ≠ .dataString := fun kind => by
        rcases outside index place here kind with before | past <;> omega
      rw [Code.getD_dataBytes here within, Instruction.getD_dataBytes_of_ne kind]
    · exact List.getD_eq_default _ _ (by rw [Code.length_dataBytes]; omega)

end Machine.Layout

namespace Machine

variable {op : Op} {codeSize : Nat} {state last : State} {label : String}

theorem Format.write_ne_unknownLabel (memory : Memory) (pc : Nat) (format : String) (chars : List Char)
    (values : List Int32) (output : String) :
    (Format.write memory pc format chars values output).2 ≠ some (.unknownLabel label) := by
  fun_induction Format.write memory pc format chars values output with
  | case1 | case5 | case6 => simp
  | case2 _ _ _ ih | case3 _ _ _ ih | case4 _ _ _ _ _ ih | case7 _ _ _ _ _ ih => exact ih

/-- Names were resolved when the code was loaded. -/
theorem Op.execute_ne_unknownLabel : op.execute codeSize state ≠ .faulted (.unknownLabel label) last := by
  intro failed
  cases op
  case print =>
    have prints := state.prints_print
    rw [show state.print = _ from failed] at prints
    cases prints with
    | broken stands read rejected =>
      exact Format.write_ne_unknownLabel _ _ _ _ _ _ (congrArg Prod.snd rejected)
  all_goals
    simp only [Op.execute, State.binary, State.jumpIf, State.load, State.store, State.enter] at failed
    repeat' split at failed
    all_goals cases failed

theorem execute_ne_unknownLabel (code : Array Op) (limit remaining : Nat) (state : State) :
    (execute code limit remaining state).fault ≠ some (.unknownLabel label) := by
  induction remaining generalizing state with
  | zero =>
    rw [execute]
    split <;> simp
  | succ remaining ih =>
    rw [execute]
    split
    next => simp
    next op _ =>
      split
      next next _ => exact ih next
      next => simp
      next fault last failed =>
        intro same
        obtain rfl := Option.some.inj same
        exact Op.execute_ne_unknownLabel failed

/-- An instruction that was resolved refers to a name that has a place. -/
theorem Layout.known_of_resolve {layout : Layout} {instruction : Instruction}
    (resolved : layout.resolve instruction = .ok op) :
    (instruction.opcode.isJump = true → (layout.target? instruction.mark).isSome) ∧
      (instruction.opcode = .pushAddress → layout.isDefined instruction.mark = true) := by
  have address (kind : instruction.opcode = .pushAddress) : layout.isDefined instruction.mark = true := by
    unfold resolve at resolved
    simp only [kind, addressOf] at resolved
    split at resolved
    next known => exact Option.isSome_of_eq_some known
    next => cases resolved
  have target (jump : instruction.opcode.isJump = true) : (layout.target? instruction.mark).isSome := by
    unfold resolve at resolved
    cases kind : instruction.opcode <;> rw [kind] at jump <;> try cases jump
    all_goals
      simp only [kind, targetOf] at resolved
      split at resolved
      next known => exact Option.isSome_of_eq_some known
      next => cases resolved
  exact ⟨target, address⟩

namespace Image

variable {code : Code} {memorySize : Nat} {image : Image}

/-- What was loaded was laid out, fits and was resolved. -/
theorem layout_of_load (loaded : load code memorySize = .ok image) :
    ∃ layout, (Layout.starting memorySize).placeAll 0 code = .ok layout ∧ code.dataSize ≤ memorySize ∧
      (∀ instruction ∈ code, ∃ op, layout.resolve instruction = .ok op) ∧
      image = ⟨(code.map layout.op).toArray, layout.memory⟩ := by
  rw [load_def] at loaded
  split at loaded
  next => cases loaded
  next layout placed =>
    have size : layout.dataSize = code.dataSize := (Layout.adds_of_placeAll placed).1.dataSize.trans (Nat.zero_add _)
    rw [size] at loaded
    split at loaded
    next => cases loaded
    next fits =>
      split at loaded <;> cases loaded
      next ops resolved =>
        have resolves : ∀ instruction ∈ code, ∃ op, layout.resolve instruction = .ok op := by
          intro instruction member
          obtain ⟨index, here⟩ := List.mem_iff_getElem?.mp member
          obtain ⟨op, one, _⟩ := Layout.resolve_of_resolveAll resolved here
          exact ⟨op, one⟩
        rw [Layout.resolveAll_of_resolve resolves] at resolved
        cases resolved
        exact ⟨layout, placed, Nat.le_of_not_lt fits, resolves, rfl⟩

/-- Code is loaded if and only if it names each place once, its data fits into the memory and it refers
to named places only, a missing operand counting as empty. Then every name stands for its place, memory
is as the data directives say, every instruction stands at its index with its name resolved, and no run
looks for a name in vain. -/
theorem load_exact (code : Code) {memorySize : Nat} (small : memorySize < 2 ^ 31) :
    ((∃ image, load code memorySize = .ok image) ↔
      code.marks.Nodup ∧ code.dataSize ≤ memorySize ∧
      (∀ instruction ∈ code, instruction.opcode = .pushAddress → instruction.mark ∈ code.marks) ∧
      ∀ instruction ∈ code, instruction.opcode.isJump = true → instruction.mark ∈ code.targets) ∧
    ∀ image, load code memorySize = .ok image →
      image.memory.size = memorySize ∧ image.code.size = code.length ∧
      (∃ layout : Layout, layout.Exact code ∧ layout.memory = image.memory ∧
        ∀ (index : Nat) (instruction : Instruction), code[index]? = some instruction →
          ∃ op, layout.resolve instruction = .ok op ∧ image.code[index]? = some op) ∧
      ∀ limit remaining state label,
        (execute image.code limit remaining state).fault ≠ some (.unknownLabel label) := by
  refine ⟨⟨?_, ?_⟩, ?_⟩
  · rintro ⟨image, loaded⟩
    obtain ⟨layout, placed, fits, resolves, -⟩ := layout_of_load loaded
    obtain ⟨adds, distinct, -⟩ := Layout.adds_of_placeAll placed
    refine ⟨distinct, fits, fun instruction member kind => ?_, fun instruction member jump => ?_⟩
    · obtain ⟨op, resolved⟩ := resolves instruction member
      exact ((adds.marks _).mp ((Layout.known_of_resolve resolved).2 kind)).resolve_left nofun
    · obtain ⟨op, resolved⟩ := resolves instruction member
      exact ((adds.targets _).mp ((Layout.known_of_resolve resolved).1 jump)).resolve_left nofun
  · rintro ⟨distinct, fits, addresses, jumps⟩
    rcases load_of_marks distinct jumps addresses memorySize with ⟨_, loaded⟩ | ⟨full, _⟩
    · exact loaded
    · exact absurd fits (Nat.not_le.mpr full)
  · rintro image loaded
    obtain ⟨layout, placed, fits, resolves, rfl⟩ := layout_of_load loaded
    have size : layout.memory.size = memorySize :=
      (Layout.adds_of_placeAll placed).1.memory.trans (Memory.size_zeroed memorySize)
    refine ⟨size, by simp, ⟨layout, Layout.exact_of_placeAll placed (Nat.lt_of_le_of_lt fits small), rfl, ?_⟩,
      fun limit remaining state label => execute_ne_unknownLabel _ limit remaining state⟩
    intro index instruction here
    obtain ⟨op, resolved⟩ := resolves instruction (List.mem_of_getElem? here)
    refine ⟨op, resolved, ?_⟩
    rw [List.getElem?_toArray, List.getElem?_map, here, Option.map_some, Layout.op, resolved]

/-- Names and data in one another's way, with operands that are missing or of another kind. -/
def interleaved : Code :=
  [.withLabel .jump "go", .withLabel .dataLabel "text", .withString .dataString "ab", .withLabel .label "go",
    .withInt .dataZero (-5), .withString .dataLabel "text", .withInt .dataZero 2, .plain .dataString,
    .withInt .pushAddress 7, .withLabel .pushAddress "go"]

theorem load_exact_interleaved :
    6 < 2 ^ 31 ∧ ∃ image, load interleaved 6 = .ok image ∧ image.memory.byteAt 1 = 98 ∧
      ∃ layout : Layout, layout.targetOf (.withLabel .jump "go") = .ok 3 ∧
        ∃ address, layout.addressOf (.withInt .pushAddress 7) = .ok address ∧ address.toInt = 3 := by
  have small : 6 < 2 ^ 31 := by decide
  obtain ⟨loads, holds⟩ := load_exact interleaved small
  obtain ⟨image, loaded⟩ := loads.mpr ⟨by decide, by decide, by decide, by decide⟩
  obtain ⟨_, _, ⟨layout, places, same, _⟩, _⟩ := holds image loaded
  refine ⟨small, image, loaded, ?_, layout, (places.labels 3 _ (.withLabel .jump "go") rfl rfl rfl).1,
    places.dataLabels 5 _ (.withInt .pushAddress 7) rfl rfl rfl⟩
  rw [← same]
  exact places.texts 2 _ rfl rfl 1 (by decide)

end Image

end Machine

end Stackwright
