import Stackwright.Machine.Image
import Stackwright.Proofs.Lowering.Labels
import Stackwright.Proofs.Machine.Memory

/-! Loading code. Code that defines each of its labels once and uses only those it defines is loaded,
and every instruction comes to stand at its own index. -/

set_option autoImplicit false

namespace Stackwright

/-- The labels of code with their indices, the first instruction having the given index. -/
def Code.positions (index : Nat) : Code → List (String × Nat)
  | [] => []
  | instruction :: rest =>
    match instruction.opcode, instruction.label? with
    | .label, some label => (label, index) :: Code.positions (index + 1) rest
    | _, _ => Code.positions (index + 1) rest

theorem lookup_of_mem {α : Type} {entries : List (String × α)} {name : String} {value : α}
    (distinct : (entries.map Prod.fst).Nodup) (member : (name, value) ∈ entries) :
    entries.lookup name = some value := by
  induction entries with
  | nil => cases member
  | cons entry rest ih =>
    obtain ⟨apart, distinct⟩ := List.nodup_cons.mp distinct
    rw [List.lookup_cons]
    rcases List.mem_cons.mp member with rfl | member
    · rw [beq_self_eq_true]
    · have differs : name ≠ entry.1 := fun same => apart (List.mem_map.mpr ⟨_, member, same⟩)
      rw [beq_false_of_ne differs]
      exact ih distinct member

namespace Machine.Layout

variable {layout : Layout} {code : Code} {labels : List String} {index : Nat}

theorem positions_names (links : ∀ instruction ∈ code, instruction.Links labels) (index : Nat) :
    (code.positions index).map Prod.fst = code.definedLabels := by
  induction code generalizing index with
  | nil => rfl
  | cons instruction rest ih =>
    have here := links instruction List.mem_cons_self
    have others := ih (fun other member => links other (List.mem_cons_of_mem _ member)) (index + 1)
    rw [Code.definedLabels_cons, ← others, Code.positions, Code.definedLabels]
    unfold Instruction.Links at here
    cases kind : instruction.opcode <;> rw [kind] at here
    case label =>
      obtain ⟨label, has⟩ := here
      simp [kind, has]
    all_goals first | exact here.elim | simp [kind]

theorem mem_positions {instruction : Instruction} {label : String} {at_ : Nat} (index : Nat)
    (here : code[at_]? = some instruction) (marks : instruction.opcode = .label)
    (has : instruction.label? = some label) : (label, index + at_) ∈ code.positions index := by
  induction code generalizing index at_ with
  | nil => simp at here
  | cons first rest ih =>
    cases at_ with
    | zero =>
      rw [List.getElem?_cons_zero, Option.some.injEq] at here
      subst here
      simp [Code.positions, marks, has]
    | succ at_ =>
      rw [List.getElem?_cons_succ] at here
      have inside := ih (index + 1) here
      rw [Nat.add_right_comm] at inside
      rw [Code.positions]
      split
      · exact List.mem_cons_of_mem _ inside
      · exact inside

theorem place_string {instruction : Instruction} (kind : instruction.opcode = .dataString) :
    layout.place index instruction =
      if layout.dataSize + (Memory.textBytes (instruction.string?.getD "")).length ≤ layout.memory.size then
        .ok { layout with
          dataSize := layout.dataSize + (Memory.textBytes (instruction.string?.getD "")).length
          memory := layout.memory.setBytes layout.dataSize (Memory.textBytes (instruction.string?.getD "")) }
      else .error (.outOfMemory (layout.dataSize + (Memory.textBytes (instruction.string?.getD "")).length)
        layout.memory.size) := by
  simp only [place, kind, Memory.writeText]
  by_cases fits : layout.dataSize + (Memory.textBytes (instruction.string?.getD "")).length ≤ layout.memory.size
  · rw [if_pos fits, if_pos fits]
  · rw [if_neg fits, if_neg fits]

/-- The layout after labels were noted. -/
abbrev noting (layout : Layout) (labels : List (String × Nat)) : Layout :=
  { layout with codeLabels := labels.reverse ++ layout.codeLabels }

theorem address?_noting_of_ne {label other : String} {target : Nat} (differs : other ≠ label) :
    (layout.noting [(label, target)]).address? other = layout.address? other := by
  simp only [address?, target?, List.reverse_singleton, List.singleton_append, List.lookup_cons,
    beq_false_of_ne differs]

/-- Code without data directives is laid out if it defines each of its labels once. -/
theorem placeAll_of_links (links : ∀ instruction ∈ code, instruction.Links labels)
    (distinct : code.definedLabels.Nodup) (fresh : ∀ label ∈ code.definedLabels, layout.address? label = none) :
    layout.placeAll index code = .ok (layout.noting (code.positions index)) := by
  induction code generalizing layout index with
  | nil => rfl
  | cons instruction rest ih =>
    have here := links instruction List.mem_cons_self
    have others : ∀ other ∈ rest, Instruction.Links labels other := fun other member =>
      links other (List.mem_cons_of_mem _ member)
    rw [placeAll, Code.positions]
    rw [Code.definedLabels_cons] at distinct fresh
    unfold Instruction.Links at here
    cases kind : instruction.opcode <;> rw [kind] at here
    case label =>
      obtain ⟨label, has⟩ := here
      have own : Code.definedLabels [instruction] = [label] := by simp [Code.definedLabels, kind, has]
      rw [own, List.singleton_append] at distinct fresh
      obtain ⟨apart, distinct⟩ := List.nodup_cons.mp distinct
      have new : layout.isDefined label = false := by
        rw [isDefined, fresh label List.mem_cons_self]
        rfl
      have later : ∀ other ∈ Code.definedLabels rest,
          (layout.noting [(label, index)]).address? other = none := by
        intro other member
        have differs : other ≠ label := fun same => apart (same ▸ member)
        rw [address?_noting_of_ne differs]
        exact fresh other (List.mem_cons_of_mem _ member)
      have step : layout.place index instruction = .ok (layout.noting [(label, index)]) := by
        simp only [place, kind, has, Option.getD_some, new]
        rfl
      have placed : (layout.noting [(label, index)]).placeAll (index + 1) rest = _ := ih others distinct later
      rw [step, has]
      refine placed.trans ?_
      simp only [noting, List.reverse_cons, List.append_assoc, List.reverse_nil, List.nil_append]
    case dataLabel | dataZero | dataString => exact here.elim
    all_goals
      have own : Code.definedLabels [instruction] = [] := by simp [Code.definedLabels, kind]
      rw [own, List.nil_append] at distinct fresh
      simp only [place, kind]
      exact ih others distinct fresh

/-- What an instruction does once its label is resolved. -/
def op (layout : Layout) (instruction : Instruction) : Op :=
  match layout.resolve instruction with
  | .ok op => op
  | .error _ => .skip

theorem resolveAll_of_resolve (resolves : ∀ instruction ∈ code, ∃ op, layout.resolve instruction = .ok op) :
    layout.resolveAll code = .ok (code.map layout.op) := by
  induction code with
  | nil => rfl
  | cons instruction rest ih =>
    obtain ⟨op, here⟩ := resolves instruction List.mem_cons_self
    rw [resolveAll, here, ih fun other member => resolves other (List.mem_cons_of_mem _ member)]
    simp [Layout.op, here]

theorem resolve_of_links {instruction : Instruction} (links : instruction.Links labels)
    (targets : ∀ label ∈ labels, (layout.target? label).isSome)
    (reserved : ∀ label ∈ Reserved.addresses.map Prod.fst, (layout.address? label).isSome) :
    ∃ op, layout.resolve instruction = .ok op := by
  unfold Instruction.Links at links
  unfold resolve
  cases kind : instruction.opcode <;> rw [kind] at links <;> try exact ⟨_, rfl⟩
  case pushAddress =>
    obtain ⟨label, member, has⟩ := links
    have known : (layout.address? label).isSome := by
      rcases List.mem_append.mp member with member | member
      · exact reserved label member
      · rw [address?, Option.isSome_or, targets label member, Bool.or_true]
    obtain ⟨address, found⟩ := Option.isSome_iff_exists.mp known
    simp [addressOf, has, found, Except.map]
  all_goals
    obtain ⟨label, member, has⟩ := links
    obtain ⟨index, found⟩ := Option.isSome_iff_exists.mp (targets label member)
    simp [targetOf, has, found, Except.map]

section Data

variable {label text : String} {rest : Code} {memorySize : Nat}

theorem placeAll_string (fresh : layout.isDefined label = false)
    (fits : layout.dataSize + (Memory.textBytes text).length ≤ layout.memory.size) :
    layout.placeAll index (Environment.stringConstant label text ++ rest) =
      { layout with
        dataLabels := (label, layout.dataSize) :: layout.dataLabels
        dataSize := layout.dataSize + (Memory.textBytes text).length
        memory := layout.memory.setBytes layout.dataSize (Memory.textBytes text) : Layout }.placeAll
          (index + 2) rest := by
  have marked : layout.place index (.withLabel .dataLabel label) =
      .ok { layout with dataLabels := (label, layout.dataSize) :: layout.dataLabels } := by
    simp only [place, Instruction.withLabel, Instruction.label?, Option.getD_some, fresh]
    rfl
  rw [Environment.stringConstant, List.cons_append, List.singleton_append, placeAll, marked]
  dsimp only
  rw [placeAll, place_string rfl]
  simp only [Instruction.withString, Instruction.string?, Option.getD_some, fits, if_true]

theorem placeAll_zero {size : Nat} (small : size < 2 ^ 31) (fresh : layout.isDefined label = false) :
    layout.placeAll index (.withLabel .dataLabel label :: .withInt .dataZero (Int32.ofNat size) :: rest) =
      { layout with
        dataLabels := (label, layout.dataSize) :: layout.dataLabels
        dataSize := layout.dataSize + size : Layout }.placeAll (index + 2) rest := by
  have marked : layout.place index (.withLabel .dataLabel label) =
      .ok { layout with dataLabels := (label, layout.dataSize) :: layout.dataLabels } := by
    simp only [place, Instruction.withLabel, Instruction.label?, Option.getD_some, fresh]
    rfl
  have size_eq : (Int32.ofNat size).toInt.toNat = size := by
    rw [Int32.toInt_ofNat_of_lt small, Int.toNat_natCast]
  rw [placeAll, marked]
  simp only [placeAll, place, Instruction.withInt, Instruction.int?, Option.getD_some, size_eq]

end Data

theorem placeAll_stripComments : layout.placeAll index code.stripComments = layout.placeAll index code := by
  induction code generalizing layout index with
  | nil => rfl
  | cons instruction rest ih =>
    change layout.placeAll index (instruction.stripComment :: Code.stripComments rest) = _
    have same : layout.place index instruction.stripComment = layout.place index instruction := rfl
    rw [placeAll, placeAll, same]
    cases layout.place index instruction with
    | error fault => rfl
    | ok layout => exact ih

theorem placed_stripComments : layout.placed index code.stripComments = layout.placed index code := by
  induction code generalizing layout index with
  | nil => rfl
  | cons instruction rest ih =>
    change layout.placed index (instruction.stripComment :: Code.stripComments rest) = _
    have same : layout.place index instruction.stripComment = layout.place index instruction := rfl
    rw [placed, placed, same]
    cases layout.place index instruction with
    | error fault => rfl
    | ok layout => exact ih

theorem resolveAll_stripComments : layout.resolveAll code.stripComments = layout.resolveAll code := by
  induction code with
  | nil => rfl
  | cons instruction rest ih =>
    change layout.resolveAll (instruction.stripComment :: Code.stripComments rest) = _
    rw [resolveAll, resolveAll, ih]
    rfl

section Placed

variable {next : Layout} {instruction : Instruction} {label : String} {target : Nat} {ops : List Op}

/-- A label that has its place keeps it. -/
theorem target?_of_place (placed : layout.place index instruction = .ok next)
    (known : layout.target? label = some target) : next.target? label = some target := by
  unfold place at placed
  cases kind : instruction.opcode <;> simp only [kind] at placed
  case label =>
    split at placed
    · cases placed
    next new =>
      cases placed
      have differs : label ≠ instruction.label?.getD "" := by
        rintro rfl
        rw [isDefined, address?, Option.isSome_or, known, Option.isSome_some, Bool.or_true] at new
        exact new rfl
      rwa [target?, List.lookup_cons, beq_false_of_ne differs]
  case dataLabel | dataString =>
    split at placed <;> cases placed
    exact known
  all_goals
    cases placed
    exact known

theorem target?_of_placeAll (placed : layout.placeAll index code = .ok next)
    (known : layout.target? label = some target) : next.target? label = some target := by
  induction code generalizing layout index with
  | nil =>
    cases placed
    exact known
  | cons instruction rest ih =>
    rw [placeAll] at placed
    split at placed
    next between first => exact ih placed (target?_of_place first known)
    next => cases placed

/-- A label of code that was laid out stands for its index. -/
theorem target?_of_getElem? {skipped : Nat} (placed : layout.placeAll index code = .ok next)
    (here : code[skipped]? = some (.withLabel .label label)) : next.target? label = some (index + skipped) := by
  induction code generalizing layout index skipped with
  | nil => cases here
  | cons instruction rest ih =>
    rw [placeAll] at placed
    split at placed
    next between first =>
      cases skipped with
      | zero =>
        obtain rfl := Option.some.inj here
        refine target?_of_placeAll placed ?_
        change (if layout.isDefined label = true then Except.error (Fault.duplicateLabel label)
          else .ok (layout.noting [(label, index)])) = .ok between at first
        by_cases known : layout.isDefined label = true
        · rw [if_pos known] at first
          cases first
        · rw [if_neg known] at first
          cases first
          simp [target?]
      | succ skipped =>
        rw [List.getElem?_cons_succ] at here
        rw [ih placed here, Nat.add_right_comm, Nat.add_assoc]
    next => cases placed

theorem resolve_of_resolveAll {skipped : Nat} (resolved : layout.resolveAll code = .ok ops)
    (here : code[skipped]? = some instruction) :
    ∃ op, layout.resolve instruction = .ok op ∧ ops[skipped]? = some op := by
  induction code generalizing ops skipped with
  | nil => cases here
  | cons first rest ih =>
    rw [resolveAll] at resolved
    split at resolved
    next => cases resolved
    next op one =>
      split at resolved
      next => cases resolved
      next others more =>
        cases resolved
        cases skipped with
        | zero =>
          obtain rfl := Option.some.inj here
          exact ⟨op, one, rfl⟩
        | succ skipped =>
          have later := ih more here
          exact later

end Placed

end Machine.Layout

/-- Annotations have no part in what is loaded. -/
theorem Machine.Image.load_stripComments (code : Code) (memorySize : Nat) :
    Image.load code.stripComments memorySize = Image.load code memorySize := by
  simp only [Image.load, Image.loadInto, Layout.placeAll_stripComments, Layout.resolveAll_stripComments]

/-- Code that was loaded does at every index what its instruction is resolved to, and a jump to one of its
labels goes to where the label stands. -/
theorem Machine.Image.exists_layout {code : Code} {memorySize : Nat} {image : Image}
    (loaded : Image.load code memorySize = .ok image) :
    ∃ layout : Layout,
      (∀ (index : Nat) (instruction : Instruction), code[index]? = some instruction →
        ∃ op, layout.resolve instruction = .ok op ∧ image.code[index]? = some op) ∧
      ∀ (index : Nat) (label : String), code[index]? = some (.withLabel .label label) →
        layout.target? label = some index := by
  rw [Image.load_def] at loaded
  split at loaded
  next => cases loaded
  next layout placed =>
    split at loaded
    next => cases loaded
    next =>
      split at loaded <;> cases loaded
      next ops resolved =>
        refine ⟨layout, fun index instruction here => ?_, fun index label here => ?_⟩
        · obtain ⟨op, one, same⟩ := Layout.resolve_of_resolveAll resolved here
          exact ⟨op, one, by rw [List.getElem?_toArray, same]⟩
        · rw [Layout.target?_of_getElem? placed here, Nat.zero_add]

/-- The same for a segment of the code. -/
theorem Machine.Image.exists_segment {before segment after : Code} {memorySize : Nat} {image : Image}
    (loaded : Image.load (before ++ (segment ++ after)) memorySize = .ok image) :
    ∃ layout : Layout,
      (∀ (skipped : Nat) (op : Op), (segment.map layout.op)[skipped]? = some op →
        image.code[before.length + skipped]? = some op) ∧
      ∀ (skipped : Nat) (label : String), segment[skipped]? = some (.withLabel .label label) →
        layout.target? label = some (before.length + skipped) := by
  obtain ⟨layout, does, jumps⟩ := Image.exists_layout loaded
  have fetch {skipped : Nat} {instruction : Instruction} (here : segment[skipped]? = some instruction) :
      (before ++ (segment ++ after))[before.length + skipped]? = some instruction := by
    rw [List.getElem?_append_right (Nat.le_add_right _ _), Nat.add_sub_cancel_left]
    exact (List.getElem?_append_left (List.getElem?_eq_some_iff.mp here).1).trans here
  refine ⟨layout, fun skipped op here => ?_, fun skipped label here => jumps _ _ (fetch here)⟩
  obtain ⟨instruction, stands, rfl⟩ := Option.map_eq_some_iff.mp (List.getElem?_map.symm.trans here)
  obtain ⟨op, resolved, found⟩ := does _ _ (fetch stands)
  rwa [Layout.op, resolved]

end Stackwright
