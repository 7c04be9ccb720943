import Mathlib
import Stackwright.Proofs.Lowering.Occurrence
import Stackwright.Proofs.Machine.Loading

/-! Programs that were analyzed and lowered, with the environment in front. Their code can be loaded
into every memory that holds their data, and what it looks like then does not depend on the memory. -/

set_option autoImplicit false

namespace Stackwright

open Machine

/-- All code of an analyzed program, with the environment in front. -/
def Program.lowered (program : Program) (analysis : Analysis) (lead : String) : Code :=
  (Lowering.program analysis true program (.starting lead)).1

/-- A program that was read and analyzed, and what is put in front of the labels of its code. -/
structure Checked where
  program : Program
  analysis : Analysis
  lead : String
  legible : program.Legible
  placed : program.Placed analysis

/-- A program that is ready to be loaded. Its code has fewer instructions than there are addresses. -/
structure Build extends Checked where
  short : (program.lowered analysis lead).length < 2 ^ 31

namespace Checked

variable (checked : Checked)

def code : Code := checked.program.lowered checked.analysis checked.lead

/-- The directives in front of the code. -/
def front : Code := Environment.data ++ Lowering.globals checked.analysis checked.program

/-- The code that stores where each function begins. -/
def cells : Code := checked.program.functions.flatMap (Lowering.storeAddress checked.analysis)

def main : Code := (Lowering.block checked.analysis none checked.program.main (.starting checked.lead)).1

/-- The labeller after the main block. -/
def labeller : Labeller := (Lowering.block checked.analysis none checked.program.main (.starting checked.lead)).2

def bodies : Code := (Lowering.functions checked.analysis checked.program.functions checked.labeller).1

/-- What comes before the code of the main block: setting the pointers and the cells of functions. -/
def start : Code := [.withLabel .label Reserved.mainLabel] ++ Environment.stackStart ++ checked.cells

/-- Everything that is executed after the first jump. -/
def tail : Code := checked.start ++ checked.main ++ [.plain .halt] ++ checked.bodies

theorem code_eq : checked.code = checked.front ++ checked.tail := by
  change Environment.data ++ Lowering.globals checked.analysis checked.program ++
    [Instruction.withLabel .label Reserved.mainLabel] ++ Environment.stackStart ++ checked.cells ++ checked.main ++
    [Instruction.plain .halt] ++ checked.bodies = _
  simp only [front, tail, start, List.append_assoc]

theorem front_length : checked.front.length = 19 := rfl

/-- The size of all data that is laid out before the program starts. -/
def dataSize : Nat := 29 + checked.analysis.sizeOf checked.program.node.id

end Checked

/-- A function of a build, with the labeller that its code was generated from and the index of its
first instruction. -/
structure Place where
  function : Function
  labeller : Labeller
  start : Nat

namespace Place

def code (analysis : Analysis) (place : Place) : Code :=
  (Lowering.function analysis place.function place.labeller).1

/-- Functions that are lowered one after the other, the first instruction having the given index. -/
def sequence (analysis : Analysis) (index : Nat) (labeller : Labeller) : List Function → List Place
  | [] => []
  | function :: rest =>
    let place : Place := ⟨function, labeller, index⟩
    place :: sequence analysis (index + (place.code analysis).length)
      (Lowering.function analysis function labeller).2 rest

variable {analysis : Analysis}

theorem map_function_sequence (index : Nat) (labeller : Labeller) (functions : List Function) :
    (sequence analysis index labeller functions).map function = functions := by
  induction functions generalizing index labeller with
  | nil => rfl
  | cons function rest ih => rw [sequence, List.map_cons, ih]

/-- The code of a function stands at its place. -/
theorem stands_of_mem_sequence {place : Place} {functions : List Function} {index : Nat} {labeller : Labeller}
    (member : place ∈ sequence analysis index labeller functions) :
    ∃ before after, (Lowering.functions analysis functions labeller).1 = before ++ place.code analysis ++ after ∧
      place.start = index + before.length := by
  induction functions generalizing index labeller with
  | nil => cases member
  | cons function rest ih =>
    change ∃ before after, (Lowering.function analysis function labeller).1 ++
      (Lowering.functions analysis rest (Lowering.function analysis function labeller).2).1 = _ ∧ _
    rcases List.mem_cons.mp member with rfl | member
    · exact ⟨[], _, rfl, rfl⟩
    · obtain ⟨before, after, same, start⟩ := ih member
      refine ⟨(Lowering.function analysis function labeller).1 ++ before, after, ?_, ?_⟩
      · rw [same]
        simp only [List.append_assoc]
      · rw [start, List.length_append, ← Nat.add_assoc]
        rfl

theorem at_of_mem_sequence {code : Code} {place : Place} {functions : List Function} {index : Nat}
    {labeller : Labeller} (member : place ∈ sequence analysis index labeller functions)
    (stands : code.At index (Lowering.functions analysis functions labeller).1) :
    code.At place.start (place.code analysis) := by
  obtain ⟨before, after, same, start⟩ := stands_of_mem_sequence member
  rw [same] at stands
  rw [start]
  exact stands.left.right

theorem start_ge_of_mem_sequence {place : Place} {functions : List Function} {index : Nat} {labeller : Labeller}
    (member : place ∈ sequence analysis index labeller functions) : index ≤ place.start := by
  obtain ⟨_, _, _, start⟩ := stands_of_mem_sequence member
  omega

theorem pairwise_sequence (index : Nat) (labeller : Labeller) (functions : List Function) :
    (sequence analysis index labeller functions).Pairwise fun one other =>
      one.start + (one.code analysis).length ≤ other.start := by
  induction functions generalizing index labeller with
  | nil => exact .nil
  | cons function rest ih => exact .cons (fun other member => start_ge_of_mem_sequence member) (ih _ _)

end Place

/-- The binding of the name of the function that comes at the index. -/
def Function.cell (function : Function) (index : Nat) : Binding :=
  ⟨function.signature.ty, ⟨.global, (4 * index : Nat)⟩, function.name.text, false⟩

theorem Function.cells_eq (functions : List Function) :
    Function.cells functions = functions.mapIdx fun index function => (function.name.text, function.cell index) := by
  have general (skipped : Nat) : cellsFrom .global (4 * skipped)
      (functions.map fun function => (function.name.text, function.signature.ty)) =
        functions.mapIdx fun index function => (function.name.text, function.cell (skipped + index)) := by
    induction functions generalizing skipped with
    | nil => rfl
    | cons function rest ih =>
      rw [List.map_cons, cellsFrom, List.mapIdx_cons]
      have next : 4 * skipped + function.signature.ty.size = 4 * (skipped + 1) := rfl
      rw [next, ih (skipped + 1)]
      simp only [Function.cell, Nat.add_zero, Nat.add_assoc, Nat.add_comm 1]
  have all := general 0
  rw [Nat.mul_zero] at all
  rw [Function.cells, all]
  simp only [Nat.zero_add]

namespace Checked

variable (checked : Checked)

theorem bindingOf_function {index : Nat} {function : Function}
    (here : checked.program.functions[index]? = some function) :
    checked.analysis.bindingOf function.name.node.id = function.cell index := by
  have noted := checked.placed.cells
  rw [Function.cells_eq, List.forall₂_iff_get] at noted
  obtain ⟨below, rfl⟩ := List.getElem?_eq_some_iff.mp here
  have same := noted.2 index below (by rw [List.length_mapIdx]; exact below)
  simpa using same

theorem storeAddress_length {function : Function} (member : function ∈ checked.program.functions) :
    (Lowering.storeAddress checked.analysis function).length = 5 := by
  obtain ⟨index, here⟩ := List.mem_iff_getElem?.mp member
  rw [Lowering.storeAddress, checked.bindingOf_function here]
  rfl

theorem start_length : checked.start.length = 9 + 5 * checked.program.functions.length := by
  have cells : checked.cells.length = 5 * checked.program.functions.length := by
    rw [Checked.cells, List.length_flatMap, List.map_congr_left fun function member => checked.storeAddress_length member]
    simp [Nat.mul_comm]
  rw [start, List.length_append, cells]
  rfl

theorem main_length : 5 * (checked.program.main.declarations + Code.count checked.main .exchange) ≤ checked.main.length :=
  Lowering.block_length Base.noConfusion _ checked.placed.main

theorem code_length :
    checked.code.length = 29 + 5 * checked.program.functions.length + checked.main.length + checked.bodies.length := by
  rw [code_eq, List.length_append, front_length, tail]
  simp only [List.length_append, start_length, List.length_cons, List.length_nil]
  omega

theorem dataSize_le : checked.dataSize ≤ checked.code.length := by
  have size := checked.placed.size
  have main := checked.main_length
  rw [code_length, dataSize]
  omega

/-- The index of the first instruction of the main block. -/
def mainAt : Nat := checked.front.length + checked.start.length

/-- The index of the instruction that ends the run. -/
def haltAt : Nat := checked.mainAt + checked.main.length

/-- The functions of the program where their code stands. -/
def places : List Place :=
  Place.sequence checked.analysis (checked.haltAt + 1) checked.labeller checked.program.functions

theorem map_function_places : checked.places.map Place.function = checked.program.functions :=
  Place.map_function_sequence _ _ _

theorem exists_place {index : Nat} {function : Function} (here : checked.program.functions[index]? = some function) :
    ∃ place, checked.places[index]? = some place ∧ place.function = function := by
  rw [← checked.map_function_places, List.getElem?_map, Option.map_eq_some_iff] at here
  exact here

theorem dataSize_ge : 29 ≤ checked.dataSize := Nat.le_add_right 29 _

variable {checked} in
/-- The cells of functions lie in the data. -/
theorem cell_le {index : Nat} {place : Place} (here : checked.places[index]? = some place) :
    29 + 4 * index + 4 ≤ checked.dataSize := by
  have inProgram : checked.program.functions[index]? = some place.function := by
    rw [← checked.map_function_places, List.getElem?_map, here]
    rfl
  have cell : (Function.cells checked.program.functions)[index]? =
      some (place.function.name.text, place.function.cell index) := by
    rw [Function.cells_eq, List.getElem?_mapIdx, inProgram]
    rfl
  have covers : (4 * index : Nat) + ((4 : Nat) : Int) ≤ 0 + checked.analysis.sizeOf checked.program.node.id :=
    (checked.placed.covered _ (List.mem_of_getElem? cell)).bounds.2
  rw [dataSize]
  omega

section Labels

open Lowering

theorem main_emits : Emits (.starting checked.lead) checked.labeller [] checked.main :=
  block_emits none checked.program.main (.starting checked.lead)

theorem bodies_define :
    Defines checked.labeller (functions checked.analysis checked.program.functions checked.labeller).2
      checked.program.functions checked.bodies :=
  functions_defines checked.analysis checked.labeller
    (fun function member => (checked.legible.functions function member).name) checked.placed.names

theorem name_mem_definedLabels {function : Function} (member : function ∈ checked.program.functions) :
    function.name.text ∈ checked.bodies.definedLabels := by
  obtain ⟨index, here⟩ := List.mem_iff_getElem?.mp member
  obtain ⟨place, found, rfl⟩ := checked.exists_place here
  obtain ⟨before, after, same, _⟩ := Place.stands_of_mem_sequence (List.mem_of_getElem? found)
  have own : place.function.name.text ∈ (place.code checked.analysis).definedLabels := by
    rw [Place.code, definedLabels_function]
    exact List.mem_cons_self
  rw [bodies, same, Code.definedLabels_append, Code.definedLabels_append]
  exact List.mem_append_left _ (List.mem_append_right _ own)

theorem storeAddress_links {function : Function} (member : function ∈ checked.program.functions) :
    ∀ instruction ∈ storeAddress checked.analysis function, instruction.Links checked.bodies.definedLabels := by
  intro instruction inside
  rcases List.mem_append.mp inside with address | rest
  · exact Instruction.links_of_isStraight (List.all_eq_true.mp (addressCode_isStraight _) _ address)
  · simp only [List.mem_cons, List.not_mem_nil, or_false] at rest
    rcases rest with rfl | rfl
    · exact ⟨_, List.mem_append_right _ (checked.name_mem_definedLabels member), rfl⟩
    · trivial

theorem definedLabels_storeAddress (function : Function) :
    (storeAddress checked.analysis function).definedLabels = [] := by
  rw [storeAddress, Code.definedLabels_append,
    Instruction.definedLabels_of_isStraight (addressCode_isStraight _)]
  rfl

theorem definedLabels_cells : checked.cells.definedLabels = [] := by
  rw [cells]
  induction checked.program.functions with
  | nil => rfl
  | cons function rest ih =>
    rw [List.flatMap_cons, Code.definedLabels_append, ih, definedLabels_storeAddress, List.append_nil]

theorem definedLabels_tail : checked.tail.definedLabels =
    Reserved.mainLabel :: (checked.main.definedLabels ++ checked.bodies.definedLabels) := by
  have first : Code.definedLabels ([Instruction.withLabel .label Reserved.mainLabel] ++ Environment.stackStart) =
    [Reserved.mainLabel] := rfl
  have last : Code.definedLabels [.plain .halt] = [] := rfl
  rw [tail, start, Code.definedLabels_append, Code.definedLabels_append, Code.definedLabels_append,
    Code.definedLabels_append, first, last, definedLabels_cells]
  simp only [List.append_nil, List.nil_append, List.cons_append]

theorem tail_links : ∀ instruction ∈ checked.tail, instruction.Links checked.tail.definedLabels := by
  intro instruction member
  rw [definedLabels_tail]
  simp only [tail, start, List.mem_append] at member
  rcases member with ((((member | member) | member) | member) | member) | member
  · rw [List.mem_singleton.mp member]
    exact ⟨_, rfl⟩
  · exact Instruction.links_of_isStraight
      (List.all_eq_true.mp (by rfl : Environment.stackStart.all Instruction.isStraight = true) _ member)
  · obtain ⟨function, inside, here⟩ := List.mem_flatMap.mp member
    refine (checked.storeAddress_links inside instruction here).mono fun label known => ?_
    exact List.mem_cons_of_mem _ (List.mem_append_right _ known)
  · refine (checked.main_emits.links instruction member).mono fun label known => ?_
    rw [List.append_nil] at known
    exact List.mem_cons_of_mem _ (List.mem_append_left _ known)
  · rw [List.mem_singleton.mp member]
    trivial
  · refine (checked.bodies_define.links instruction member).mono fun label known => ?_
    exact List.mem_cons_of_mem _ (List.mem_append_right _ known)

/-- Where a label of the code can come from. -/
theorem tail_origin {label : String} (member : label ∈ checked.tail.definedLabels) :
    label = Reserved.mainLabel ∨ (∃ first second, Labeller.Made first second label) ∨
      ∃ function ∈ checked.program.functions, label = function.name.text ∨ label = epilogueLabel function.name.text := by
  rw [definedLabels_tail, List.mem_cons, List.mem_append] at member
  rcases member with same | member | member
  · exact .inl same
  · exact .inr (.inl ⟨_, _, checked.main_emits.made label member⟩)
  · rcases checked.bodies_define.origin label member with made | named
    · exact .inr (.inl ⟨_, _, made⟩)
    · exact .inr (.inr named)

theorem reserved_notMem_tail {label : String} (reserved : label ∈ Reserved.addresses.map Prod.fst) :
    label ∉ checked.tail.definedLabels := by
  intro member
  have dash := dash_mem_of_reserved reserved
  rcases checked.tail_origin member with rfl | ⟨_, _, made⟩ | ⟨function, inside, rfl | rfl⟩
  · exact absurd dash (by decide)
  · exact not_made_of_reserved reserved made
  · exact dash_notMem_of_isName (checked.legible.functions function inside).name dash
  · exact epilogueLabel_notMem_reserved _ reserved

theorem tail_nodup : checked.tail.definedLabels.Nodup := by
  rw [definedLabels_tail, List.nodup_cons, List.mem_append]
  refine ⟨?_, List.nodup_append.mpr ⟨checked.main_emits.nodup, checked.bodies_define.nodup, ?_⟩⟩
  · rintro (member | member)
    · exact not_made_mainLabel (checked.main_emits.made _ member)
    · rcases checked.bodies_define.origin _ member with made | ⟨function, inside, same | same⟩
      · exact not_made_mainLabel made
      · have isName := (checked.legible.functions function inside).name
        rw [← same] at isName
        exact absurd (isName '$' (by decide)) (by decide)
      · have dash : '-' ∈ Reserved.mainLabel.toList := by
          rw [same, toList_epilogueLabel]
          simp
        exact absurd dash (by decide)
  · intro label member other again
    rintro rfl
    have made := checked.main_emits.made label member
    rcases checked.bodies_define.origin label again with made' | ⟨function, inside, rfl | rfl⟩
    · exact made.not_again checked.main_emits.lead made'
    · exact not_made_of_isName (checked.legible.functions function inside).name made
    · exact not_made_epilogueLabel _ made

end Labels

end Checked

theorem Build.code_lt (build : Build) : build.code.length < 2 ^ 31 := build.short

end Stackwright
