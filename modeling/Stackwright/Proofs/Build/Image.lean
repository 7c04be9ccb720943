import Stackwright.Proofs.Build.Basic

/-! What a build looks like once it is loaded. -/

set_option autoImplicit false

namespace Stackwright

open Machine Checked

theorem Machine.Memory.setBytes_append (memory : Memory) (index : Nat) (first second : List UInt8) :
    (memory.setBytes index first).setBytes (index + first.length) second =
      memory.setBytes index (first ++ second) := by
  induction first generalizing memory index with
  | nil => rfl
  | cons byte rest ih =>
    rw [List.length_cons, List.cons_append, setBytes, setBytes, ← ih, Nat.add_assoc, Nat.add_comm 1]

/-- The formats and texts that every program begins with, as they lie in memory. -/
def Environment.texts : List UInt8 :=
  ["%d", "%s", "\n", " ", "true", "false"].flatMap Memory.textBytes

namespace Build

variable (build : Build)

/-- The memory that the program starts with. -/
def memory (size : Nat) : Memory := (Memory.zeroed size).setBytes 0 Environment.texts

/-- Where the labels of the code are. -/
def layout : Layout :=
  ⟨(build.tail.positions 19).reverse, Reserved.addresses.reverse, build.dataSize, .zeroed 0⟩

def op (instruction : Instruction) : Op := build.layout.op instruction

def ops : Array Op := (build.code.map build.op).toArray

theorem isDefined_of_lookup {labels : List (String × Nat)} {size : Nat} {memory : Memory} {label : String}
    (fresh : labels.lookup label = none) : Layout.isDefined ⟨[], labels, size, memory⟩ label = false := by
  simp [Layout.isDefined, Layout.address?, Layout.target?, fresh]

theorem placeAll_constant {labels : List (String × Nat)} {bytes : List UInt8} {label text : String}
    {index size : Nat} (fresh : labels.lookup label = none)
    (fits : (bytes ++ Memory.textBytes text).length ≤ size) (rest : Code) :
    Layout.placeAll ⟨[], labels, bytes.length, (Memory.zeroed size).setBytes 0 bytes⟩ index
        (Environment.stringConstant label text ++ rest) =
      Layout.placeAll ⟨[], (label, bytes.length) :: labels, (bytes ++ Memory.textBytes text).length,
        (Memory.zeroed size).setBytes 0 (bytes ++ Memory.textBytes text)⟩ (index + 2) rest := by
  have whole : (Memory.zeroed size).size = size := Memory.size_zeroed size
  rw [List.length_append] at fits
  rw [Layout.placeAll_string (isDefined_of_lookup fresh) (by rw [Memory.size_setBytes, whole]; exact fits)]
  have joined := Memory.setBytes_append (Memory.zeroed size) 0 bytes (Memory.textBytes text)
  rw [Nat.zero_add] at joined
  simp only [joined, List.length_append]

theorem placeAll_cell {labels : List (String × Nat)} {data index cell : Nat} {memory : Memory} {label : String}
    (small : cell < 2 ^ 31) (fresh : labels.lookup label = none) (rest : Code) :
    Layout.placeAll ⟨[], labels, data, memory⟩ index
        (.withLabel .dataLabel label :: .withInt .dataZero (Int32.ofNat cell) :: rest) =
      Layout.placeAll ⟨[], (label, data) :: labels, data + cell, memory⟩ (index + 2) rest :=
  Layout.placeAll_zero small (isDefined_of_lookup fresh)

theorem placeAll_front {size : Nat} (fits : build.dataSize ≤ size) (rest : Code) :
    (Layout.starting size).placeAll 0 (build.front ++ rest) =
      Layout.placeAll ⟨[], Reserved.addresses.reverse, build.dataSize, memory size⟩ 19 rest := by
  have small : build.analysis.sizeOf build.program.node.id < 2 ^ 31 := by
    have data := build.dataSize_le
    have code := build.code_lt
    rw [dataSize] at data
    omega
  have room : Environment.texts.length ≤ size :=
    Nat.le_trans (by decide : Environment.texts.length ≤ 29) (Nat.le_trans (Nat.le_add_right _ _) fits)
  have within {bytes : List UInt8} (shorter : bytes.length ≤ Environment.texts.length) : bytes.length ≤ size :=
    Nat.le_trans shorter room
  simp only [front, Environment.data, Environment.cell, Lowering.globals, List.append_assoc, List.cons_append,
    List.nil_append]
  change Layout.placeAll ⟨[], [], ([] : List UInt8).length, (Memory.zeroed size).setBytes 0 []⟩ 1 _ = _
  rw [placeAll_constant rfl (within (by decide)), placeAll_constant (by decide) (within (by decide)),
    placeAll_constant (by decide) (within (by decide)), placeAll_constant (by decide) (within (by decide)),
    placeAll_constant (by decide) (within (by decide)), placeAll_constant (by decide) (within (by decide))]
  have four : (4 : Int32) = Int32.ofNat 4 := rfl
  rw [four, placeAll_cell (by decide) (by decide), placeAll_cell (by decide) (by decide),
    placeAll_cell small (by decide)]
  rfl

theorem target?_of_mem {label : String} {index : Nat} (member : (label, index) ∈ build.tail.positions 19) :
    build.layout.target? label = some index := by
  refine lookup_of_mem ?_ (List.mem_reverse.mpr member)
  change ((build.tail.positions 19).reverse.map Prod.fst).Nodup
  rw [List.map_reverse, List.nodup_reverse, Layout.positions_names build.tail_links]
  exact build.tail_nodup

theorem lookup_addresses_of_mem {label : String} (member : label ∈ build.tail.definedLabels) :
    Reserved.addresses.reverse.lookup label = none := by
  rw [Nest.lookup_eq_none_iff, List.map_reverse, List.mem_reverse]
  exact fun reserved => build.reserved_notMem_tail reserved member

theorem placeAll_code {size : Nat} (fits : build.dataSize ≤ size) :
    (Layout.starting size).placeAll 0 build.code = .ok { build.layout with memory := memory size } := by
  rw [code_eq, placeAll_front build fits, Layout.placeAll_of_links build.tail_links build.tail_nodup]
  · rw [Layout.noting, List.append_nil, layout]
  · intro label member
    simp [Layout.address?, Layout.target?, build.lookup_addresses_of_mem member]

theorem target?_isSome {label : String} (member : label ∈ build.tail.definedLabels) :
    (build.layout.target? label).isSome := by
  rw [← Layout.positions_names build.tail_links 19] at member
  obtain ⟨entry, inside, rfl⟩ := List.mem_map.mp member
  rw [build.target?_of_mem inside]
  rfl

theorem address?_isSome {label : String} (member : label ∈ Reserved.addresses.map Prod.fst) :
    (build.layout.address? label).isSome := by
  have known : (build.layout.dataLabels.lookup label).isSome := by
    rw [Option.isSome_iff_ne_none]
    intro absent
    rw [Nest.lookup_eq_none_iff] at absent
    exact absent (by rw [layout, List.map_reverse]; exact List.mem_reverse.mpr member)
  rw [Layout.address?, Option.isSome_or, known, Bool.true_or]

theorem resolve_of_isDirective {layout : Layout} {instruction : Instruction}
    (directive : instruction.opcode.isDirective = true) : layout.resolve instruction = .ok .skip := by
  unfold Layout.resolve
  cases kind : instruction.opcode <;> rw [kind] at directive <;> first | rfl | cases directive

theorem exists_resolve {instruction : Instruction} (member : instruction ∈ build.code) :
    ∃ op, build.layout.resolve instruction = .ok op := by
  have directives : build.front.tail.all (fun instruction => instruction.opcode.isDirective) = true := rfl
  have first : build.front = .withLabel .jump Reserved.mainLabel :: build.front.tail := rfl
  rw [code_eq, first, List.cons_append, List.mem_cons, List.mem_append] at member
  rcases member with rfl | member | member
  · have main := build.target?_isSome (by rw [definedLabels_tail]; exact List.mem_cons_self)
    obtain ⟨index, found⟩ := Option.isSome_iff_exists.mp main
    refine ⟨.jump index, ?_⟩
    simp [Layout.resolve, Layout.targetOf, Instruction.withLabel, Instruction.label?, found, Except.map]
  · exact ⟨_, resolve_of_isDirective (List.all_eq_true.mp directives _ member)⟩
  · exact Layout.resolve_of_links (build.tail_links instruction member) (fun _ => build.target?_isSome)
      fun _ => build.address?_isSome

theorem resolveAll_withMemory (layout : Layout) (memory : Memory) (code : Code) :
    Layout.resolveAll { layout with memory := memory } code = layout.resolveAll code := by
  induction code with
  | nil => rfl
  | cons instruction rest ih =>
    rw [Layout.resolveAll, Layout.resolveAll, ih]
    rfl

/-- The code of a build is loaded into every memory that holds its data. -/
theorem load_code {size : Nat} (fits : build.dataSize ≤ size) :
    Image.load build.code size = .ok ⟨build.ops, memory size⟩ := by
  rw [Image.load_def, build.placeAll_code fits]
  dsimp only
  rw [resolveAll_withMemory, Layout.resolveAll_of_resolve fun _ member => build.exists_resolve member]
  exact if_neg (Nat.not_lt.mpr fits)

section Memory

variable {size : Nat}

theorem size_memory : (memory size).size = size := by
  rw [memory, Memory.size_setBytes, Memory.size_zeroed]

theorem byteAt_memory {index : Nat} (fits : build.dataSize ≤ size) (among : index < 21) :
    (memory size).byteAt index = Environment.texts.getD index 0 := by
  have whole : (Memory.zeroed size).size = size := Memory.size_zeroed size
  have length : Environment.texts.length = 21 := by decide
  rw [memory, Memory.byteAt_setBytes _ (by rw [whole, length]; rw [dataSize] at fits; omega), length,
    if_pos ⟨Nat.zero_le _, by omega⟩, Nat.sub_zero]

end Memory

section Ops

theorem op_annotate (instruction : Instruction) (comment : String) :
    build.op (instruction.annotate comment) = build.op instruction := by
  unfold Instruction.annotate
  split <;> rfl

theorem op_pushInt (value : Int32) : build.op (.withInt .pushInt value) = .push value := rfl

theorem op_loadInt : build.op (.plain .loadInt) = .loadInt := rfl

theorem op_add : build.op (.plain .add) = .add := rfl

theorem op_subtract : build.op (.plain .subtract) = .subtract := rfl

theorem op_stackPointer : build.op (.withLabel .pushAddress Reserved.stackPointer) = .push 21 := rfl

theorem op_framePointer : build.op (.withLabel .pushAddress Reserved.framePointer) = .push 25 := rfl

theorem op_globalBlock : build.op (.withLabel .pushAddress Reserved.globalBlock) = .push 29 := rfl

end Ops

/-- The segment stands in the code of the build at an index. -/
def At (pc : Nat) (segment : Code) : Prop := build.code.At pc segment

section At

variable {build} {pc : Nat} {first second : Code} {instruction : Instruction}

theorem At.left (stands : build.At pc (first ++ second)) : build.At pc first := Code.At.left stands

theorem At.right (stands : build.At pc (first ++ second)) : build.At (pc + first.length) second := Code.At.right stands

theorem At.getElem? (stands : build.At pc (instruction :: second)) : build.code[pc]? = some instruction := by
  obtain ⟨rest, same⟩ := stands
  have here : (build.code.drop pc)[0]? = some instruction := by
    rw [← same]
    rfl
  rwa [List.getElem?_drop, Nat.add_zero] at here

theorem At.fetch (stands : build.At pc (instruction :: second)) : build.ops[pc]? = some (build.op instruction) := by
  rw [ops, List.getElem?_toArray, List.getElem?_map, stands.getElem?]
  rfl

theorem At.lt (stands : build.At pc (instruction :: second)) : pc < build.code.length :=
  (List.getElem?_eq_some_iff.mp stands.getElem?).1

theorem At.lt_of_pos (stands : build.At pc first) (some : 0 < first.length) : pc < build.code.length := by
  have length := stands.length_le
  rw [List.length_drop] at length
  omega

theorem At.take (stands : build.At pc first) :
    build.code.take (pc + first.length) = build.code.take pc ++ first := by
  obtain ⟨rest, same⟩ := stands
  rw [List.take_add, ← same, List.take_left]

theorem At.slice (stands : build.At pc first) : (build.code.take (pc + first.length)).drop pc = first := by
  obtain ⟨rest, same⟩ := stands
  rw [List.drop_take, ← same, Nat.add_sub_cancel_left, List.take_left]

/-- A label that stands in the code is the target of the jumps to it. -/
theorem At.target? {label : String} (stands : build.At pc (instruction :: second))
    (marks : instruction.opcode = .label) (has : instruction.label? = some label) :
    build.layout.target? label = some pc := by
  have here := stands.getElem?
  rw [code_eq] at here
  by_cases inFront : pc < 19
  · rw [List.getElem?_append_left (by rw [front_length]; exact inFront)] at here
    have unmarked : build.front.all (fun instruction => instruction.opcode != .label) = true := rfl
    have other := List.all_eq_true.mp unmarked _ (List.mem_of_getElem? here)
    rw [marks] at other
    cases other
  · rw [List.getElem?_append_right (by rw [front_length]; omega), front_length] at here
    have member := Layout.mem_positions 19 here marks has
    rw [Nat.add_sub_cancel' (by omega)] at member
    exact build.target?_of_mem member

end At

theorem code_eq_start : build.code =
    build.front ++ (build.start ++ (build.main ++ [Instruction.plain .halt] ++ build.bodies)) := by
  rw [code_eq, tail]
  simp only [List.append_assoc]

theorem at_start : build.At 19 build.start := Code.at_of_eq build.code_eq_start rfl

/-- The bodies of functions come behind the main block. -/
theorem at_rest : build.At build.mainAt (build.main ++ [Instruction.plain .halt] ++ build.bodies) := by
  have whole := build.code_eq_start
  rw [← List.append_assoc, ← List.append_nil (_ ++ build.bodies)] at whole
  exact Code.at_of_eq whole (List.length_append).symm

theorem at_main : build.At build.mainAt (build.main ++ [Instruction.plain .halt]) := build.at_rest.left

theorem exists_halt {pc : Nat} (late : build.haltAt < pc) :
    ∃ earlier ∈ build.code.take pc, earlier.opcode = .halt := by
  have here := build.at_main.right.getElem?
  have taken : (build.code.take pc)[build.haltAt]? = some (.plain .halt) := by
    rw [List.getElem?_take_of_lt late]
    exact here
  exact ⟨_, List.mem_of_getElem? taken, rfl⟩

theorem at_place {place : Place} (member : place ∈ build.places) :
    build.At place.start (place.code build.analysis) := by
  have bodies := build.at_rest.right
  rw [List.length_append, ← Nat.add_assoc] at bodies
  exact Place.at_of_mem_sequence member bodies

/-- Where a function starts is what its name stands for as a value. -/
theorem op_name {place : Place} (member : place ∈ build.places) :
    build.op (.withLabel .pushAddress place.function.name.text) = .push (Int32.ofNat place.start) := by
  have inProgram : place.function ∈ build.program.functions := by
    rw [← build.map_function_places]
    exact List.mem_map_of_mem member
  have known : place.function.name.text ∈ build.tail.definedLabels := by
    rw [definedLabels_tail]
    exact List.mem_cons_of_mem _ (List.mem_append_right _ (build.name_mem_definedLabels inProgram))
  have target : build.layout.target? place.function.name.text = some place.start := by
    obtain ⟨rest, _, front⟩ := Lowering.prologue_eq place.function.name.text
      (build.analysis.sizeOf place.function.body.id)
    have stands := build.at_place member
    change build.At place.start (Lowering.prologue _ _ ++ _ ++ _) at stands
    rw [front] at stands
    refine stands.target? (Instruction.opcode_annotate _ _) ?_
    unfold Instruction.annotate
    split <;> rfl
  have address : build.layout.address? place.function.name.text = some place.start := by
    rw [Layout.address?, target]
    change (Reserved.addresses.reverse.lookup _).or _ = _
    rw [build.lookup_addresses_of_mem known, Option.none_or]
  rw [op, Layout.op, Layout.resolve]
  simp [Layout.addressOf, Instruction.withLabel, Instruction.label?, address, Except.map]

section Jumps

variable {build} {label : String} {target : Nat} (found : build.layout.target? label = some target)

include found

theorem op_jump : build.op (.withLabel .jump label) = .jump target := by
  rw [op, Layout.op, Layout.resolve]
  simp [Layout.targetOf, Instruction.withLabel, Instruction.label?, found, Except.map]

theorem op_jumpFalse : build.op (.withLabel .jumpFalse label) = .jumpFalse target := by
  rw [op, Layout.op, Layout.resolve]
  simp [Layout.targetOf, Instruction.withLabel, Instruction.label?, found, Except.map]

theorem op_jumpTrue : build.op (.withLabel .jumpTrue label) = .jumpTrue target := by
  rw [op, Layout.op, Layout.resolve]
  simp [Layout.targetOf, Instruction.withLabel, Instruction.label?, found, Except.map]

end Jumps

end Build

theorem Block.placed_of_statements {analysis : Analysis} {area : Allocator} {result : Option Ty}
    {names after : Nest Binding} {block : Block}
    (placed : Stmt.PlacedAll analysis area result ([] :: names) block.statements after) :
    block.Placed analysis area result names := by
  cases block
  exact .mk placed

namespace Place

/-- The code of the function between its two ends. -/
def body (analysis : Analysis) (place : Place) : Code :=
  (Lowering.block analysis (some (Lowering.epilogueLabel place.function.name.text)) place.function.body
    place.labeller).1

/-- The index of the first instruction of the body. -/
def bodyStart (place : Place) : Nat := place.start + 28

/-- The index after the last instruction of the body. -/
def bodyStop (analysis : Analysis) (place : Place) : Nat := place.bodyStart + (place.body analysis).length

def frameSize (analysis : Analysis) (place : Place) : Nat := analysis.sizeOf place.function.body.id

def argumentSize (place : Place) : Nat := place.function.signature.argumentSize

theorem code_eq (analysis : Analysis) (place : Place) : place.code analysis =
    Lowering.prologue place.function.name.text (place.frameSize analysis) ++ (place.body analysis ++
      Lowering.epilogue place.function.name.text place.function.result.ty) :=
  List.append_assoc _ _ _

end Place

namespace Checked

variable (checked : Checked)

theorem body_placed {function : Function} (member : function ∈ checked.program.functions) :
    function.body.Placed checked.analysis (frameArea (checked.analysis.sizeOf function.body.id))
      (some function.result.ty) (function.visible checked.program.functions) := by
  obtain ⟨after, body⟩ := (checked.placed.functions _ member).body
  exact Block.placed_of_statements body

variable {place : Place} (member : place ∈ checked.places)

include member

theorem function_mem : place.function ∈ checked.program.functions := by
  rw [← checked.map_function_places]
  exact List.mem_map_of_mem member

theorem place_placed : place.function.body.Placed checked.analysis
    (frameArea (place.frameSize checked.analysis)) (some place.function.result.ty)
    (place.function.visible checked.program.functions) :=
  checked.body_placed (checked.function_mem member)

end Checked

namespace Build

variable (build : Build) {place : Place} (member : place ∈ build.places)

include member

theorem at_prologue : build.At place.start
    (Lowering.prologue place.function.name.text (place.frameSize build.analysis)) :=
  (place.code_eq build.analysis ▸ build.at_place member).left

theorem at_body : build.At place.bodyStart (place.body build.analysis ++
    Lowering.epilogue place.function.name.text place.function.result.ty) :=
  (place.code_eq build.analysis ▸ build.at_place member).right

theorem at_epilogue : build.At (place.bodyStop build.analysis)
    (Lowering.epilogue place.function.name.text place.function.result.ty) :=
  (build.at_body member).right

/-- The storage and the arguments that a body can ask for are fewer bytes than the code has
instructions. -/
theorem frame_le : place.frameSize build.analysis + 8 + 4 * Code.count (place.body build.analysis) .exchange ≤
    build.code.length := by
  have size := (build.placed.functions _ (build.function_mem member)).size
  have body : 5 * (place.function.body.declarations + Code.count (place.body build.analysis) .exchange) ≤
      (place.body build.analysis).length :=
    Lowering.block_length Base.noConfusion place.labeller (build.place_placed member)
  have last := (build.at_epilogue member).lt
  rw [Place.bodyStop, Place.bodyStart] at last
  rw [Place.frameSize]
  omega

end Build

end Stackwright
