import Stackwright.Proofs.Lowering.Labels
import Stackwright.Proofs.Tree.Nodes

/-! Each construct of the language is lowered to code with labels of its own. -/

set_option autoImplicit false

namespace Stackwright

theorem Instruction.isStraight_annotate (instruction : Instruction) (comment : String) :
    (instruction.annotate comment).isStraight = instruction.isStraight := by
  unfold annotate
  split <;> rfl

namespace Lowering

section Apply

variable {α β : Type} (labeller : Labeller)

@[simp] theorem bind_apply (first : Emit α) (next : α → Emit β) :
    (first >>= next) labeller = next (first labeller).1 (first labeller).2 := rfl

@[simp] theorem pure_apply (value : α) : (pure value : Emit α) labeller = (value, labeller) := rfl

@[simp] theorem family_apply (name : String) : family name labeller = labeller.family name := rfl

end Apply

theorem addressCode_isStraight (binding : Binding) : binding.addressCode.all Instruction.isStraight = true := by
  rw [Binding.addressCode, Location.addressCode]
  cases binding.location.base <;>
    simp only [List.all_cons, List.all_nil, Instruction.isStraight_annotate] <;> rfl

theorem loadOpcode_isStraight (ty : Ty) : (Instruction.plain ty.loadOpcode).isStraight = true := by
  cases ty <;> rfl

theorem storeOpcode_isStraight (ty : Ty) : (Instruction.plain ty.storeOpcode).isStraight = true := by
  cases ty <;> rfl

variable {first second : Labeller} {exits : List String} {analysis : Analysis}

theorem valueCode_emits {fragment : Fragment} (emits : Emits first second exits fragment.code) (ty : Ty) :
    Emits first second exits (fragment.valueCode ty) := by
  rw [Fragment.valueCode]
  split
  · exact emits.append (.straight _ (by simp [loadOpcode_isStraight]))
  · exact emits

theorem comparison_emits {name : String} {left right : Code}
    (inner : Emits (first.family name).2 second exits (left ++ right)) :
    Emits first second exits (comparison (first.family name).1 left right) := by
  refine .family ["arg1", "arg2", "sub", "true", "false", "join"] inner ?_ (by decide) (by decide) ?_
  · rw [List.perm_iff_count]
    intro label
    simp only [comparison, Code.definedLabels_append, List.count_append, List.map_cons, List.map_nil]
    simp [Code.definedLabels, Instruction.withLabel, Instruction.withInt, Instruction.plain, Instruction.label?,
      List.count_cons]
    omega
  · intro instruction member
    simp only [comparison, List.mem_append, List.mem_cons, List.not_mem_nil, or_false] at member
    rcases member with (((rfl | inside) | rfl) | inside) | own
    · exact .inr ⟨_, rfl⟩
    · exact .inl (List.mem_append_left _ inside)
    · exact .inr ⟨_, rfl⟩
    · exact .inl (List.mem_append_right _ inside)
    · right
      rcases own with rfl | rfl | rfl | rfl | rfl | rfl | rfl | rfl | rfl | rfl | rfl
      all_goals simp [Instruction.Links, Instruction.withLabel, Instruction.withInt, Instruction.plain, Instruction.label?]

theorem pickUpResult_isStraight (result : Ty) : (pickUpResult result).all Instruction.isStraight = true := by
  cases result <;> rfl

theorem pushArgument_emits (ty : Ty) {value : Code} (emits : Emits first second exits value) :
    Emits first second exits (pushArgument ty value) := by
  have room : Emits first first exits (Code.loadFrom Reserved.stackPointer ++
      [Instruction.withInt .pushInt (size ty), .plain .subtract] ++ Code.storeTo Reserved.stackPointer ++
      Code.loadFrom Reserved.stackPointer) := .straight _ rfl
  exact (room.append emits).append (.straight _ (by simp [storeOpcode_isStraight]))

mutual

theorem expression_emits : ∀ (expr : Expr) (labeller : Labeller),
    Emits labeller (expression analysis expr labeller).2 exits (expression analysis expr labeller).1.code
  | .literal literal node, labeller => by
    rw [expression]
    exact .straight _ rfl
  | .named name, labeller => by
    rw [expression]
    exact .straight _ (addressCode_isStraight _)
  | .binary .greater left right node, labeller => by
    rw [expression]
    exact comparison_emits ((valueCode_emits (expression_emits left _) _).append
      (valueCode_emits (expression_emits right _) _))
  | .binary .add left right node, labeller | .binary .subtract left right node, labeller
  | .binary .multiply left right node, labeller => by
    rw [expression]
    · exact ((valueCode_emits (expression_emits left _) _).append (valueCode_emits (expression_emits right _) _)).append
        (.straight _ rfl)
    · simp
  | .unary .negate operand node, labeller => by
    rw [expression]
    exact (valueCode_emits (expression_emits operand _) _).append (.straight _ rfl)
  | .call callee arguments list node, labeller => by
    rw [expression]
    cases found : (analysis.bindingOf callee.node.id).ty.signature? with
    | none => exact .straight _ rfl
    | some signature =>
      change Emits labeller _ _ (invocation _ _ _)
      simp only [invocation, List.append_assoc]
      refine (pushArguments_emits arguments signature.parameters labeller).append (.straight _ ?_)
      simp only [List.all_append, addressCode_isStraight, pickUpResult_isStraight]
      rfl
  | .invalid node, labeller => by
    rw [expression]
    exact .straight _ rfl

theorem pushArguments_emits : ∀ (arguments : List Expr) (types : List Ty) (labeller : Labeller),
    Emits labeller (pushArguments analysis arguments types labeller).2 exits
      (pushArguments analysis arguments types labeller).1
  | argument :: arguments, ty :: types, labeller => by
    rw [pushArguments]
    refine (pushArguments_emits arguments types labeller).append ?_
    exact pushArgument_emits ty (valueCode_emits (expression_emits argument _) _)
  | [], types, labeller => by
    rw [pushArguments]
    · exact .straight _ rfl
    · simp
  | argument :: arguments, [], labeller => by
    rw [pushArguments]
    · exact .straight _ rfl
    · simp

end

theorem value_emits (expr : Expr) (labeller : Labeller) :
    Emits labeller (value analysis expr labeller).2 exits (value analysis expr labeller).1 :=
  valueCode_emits (expression_emits expr labeller) _

theorem store_emits (target : Name) (source : Expr) (labeller : Labeller) :
    Emits labeller (store analysis target source labeller).2 exits (store analysis target source labeller).1 := by
  have address : Emits labeller labeller exits (analysis.bindingOf target.node.id).addressCode :=
    .straight _ (addressCode_isStraight _)
  exact (address.append (value_emits source labeller)).append (.straight _ (by simp [storeOpcode_isStraight]))

theorem selectText_emits (name : String) (labeller : Labeller) :
    Emits labeller (labeller.family name).2 exits (selectText (labeller.family name).1) := by
  refine .family ["true", "join"] (.straight (labeller.family name).2 (rfl : ([] : Code).all _ = true)) ?_
    (by decide) (by decide) ?_
  · exact .refl _
  · intro instruction member
    right
    simp only [selectText, List.mem_cons, List.not_mem_nil, or_false] at member
    rcases member with rfl | rfl | rfl | rfl | rfl | rfl
    all_goals simp [Instruction.Links, Instruction.withLabel, Instruction.label?, Reserved.addresses]

theorem printValue_emits (expr : Expr) (labeller : Labeller) :
    Emits labeller (printValue analysis expr labeller).2 exits (printValue analysis expr labeller).1 := by
  have source : Emits labeller (value analysis expr labeller).2 exits (value analysis expr labeller).1 :=
    value_emits expr labeller
  simp only [printValue, bind_apply]
  split
  · exact (source.append (selectText_emits "print-boolean" _)).append (.straight _ rfl)
  · exact source.append (.straight _ rfl)

theorem printItems_emits : ∀ (items : List PrintItem) (labeller : Labeller),
    Emits labeller (printItems analysis items labeller).2 exits (printItems analysis items labeller).1
  | [], _ => .straight _ rfl
  | .value expr :: rest, labeller => (printValue_emits expr labeller).append (printItems_emits rest _)
  | .space _ :: rest, labeller =>
    (Emits.straight labeller (rfl : (printFormat Reserved.spaceFormat).all _ = true)).append
      (printItems_emits rest labeller)
  | .newline _ :: rest, labeller =>
    (Emits.straight labeller (rfl : (printFormat Reserved.newlineFormat).all _ = true)).append
      (printItems_emits rest labeller)

theorem branch_emits {name : String} {condition thenCode : Code}
    (inner : Emits (first.family name).2 second exits (condition ++ thenCode)) :
    Emits first second exits (condition ++ [Instruction.withLabel .jumpFalse ((first.family name).1.label "end")] ++
      thenCode ++ [Instruction.withLabel .jump ((first.family name).1.label "end"),
        .withLabel .label ((first.family name).1.label "end")]) := by
  refine .family ["end"] inner ?_ (by decide) (by decide) ?_
  · rw [List.perm_iff_count]
    intro label
    simp only [Code.definedLabels_append, List.count_append, List.map_cons, List.map_nil]
    simp [Code.definedLabels, Instruction.withLabel, Instruction.label?, List.count_cons]
    omega
  · intro instruction member
    simp only [List.mem_append, List.mem_cons, List.not_mem_nil, or_false] at member ⊢
    rcases member with ((inside | rfl) | inside) | rfl | rfl
    · exact .inl (.inl inside)
    · exact .inr ⟨_, List.mem_cons_self, rfl⟩
    · exact .inl (.inr inside)
    · exact .inr ⟨_, List.mem_cons_self, rfl⟩
    · exact .inr ⟨_, rfl⟩

theorem branchElse_emits {name : String} {condition thenCode elseCode : Code}
    (inner : Emits (first.family name).2 second exits (condition ++ thenCode ++ elseCode)) :
    Emits first second exits (condition ++ [Instruction.withLabel .jumpFalse ((first.family name).1.label "else")] ++
      thenCode ++ [Instruction.withLabel .jump ((first.family name).1.label "end"),
        .withLabel .label ((first.family name).1.label "else")] ++ elseCode ++
      [Instruction.withLabel .label ((first.family name).1.label "end")]) := by
  refine .family ["end", "else"] inner ?_ (by decide) (by decide) ?_
  · rw [List.perm_iff_count]
    intro label
    simp only [Code.definedLabels_append, List.count_append, List.map_cons, List.map_nil]
    simp [Code.definedLabels, Instruction.withLabel, Instruction.label?, List.count_cons]
    omega
  · intro instruction member
    simp only [List.mem_append, List.mem_cons, List.not_mem_nil, or_false] at member ⊢
    rcases member with ((((inside | rfl) | inside) | rfl | rfl) | inside) | rfl
    · exact .inl (.inl (.inl inside))
    · exact .inr ⟨_, List.mem_cons_of_mem _ List.mem_cons_self, rfl⟩
    · exact .inl (.inl (.inr inside))
    · exact .inr ⟨_, List.mem_cons_self, rfl⟩
    · exact .inr ⟨_, rfl⟩
    · exact .inl (.inr inside)
    · exact .inr ⟨_, rfl⟩

theorem leave_emits (epilogue : Option String) (labeller : Labeller) :
    Emits labeller labeller epilogue.toList (epilogue.toList.map fun label => .withLabel .jump label) := by
  cases epilogue with
  | none => exact .straight _ rfl
  | some label =>
    refine ⟨rfl, Nat.le_refl _, nofun, .nil, fun instruction member => ?_⟩
    obtain rfl := List.mem_singleton.mp member
    exact ⟨label, by simp, rfl⟩

mutual

theorem statement_emits (epilogue : Option String) : ∀ (stmt : Stmt) (labeller : Labeller),
    Emits labeller (statement analysis epilogue stmt labeller).2 epilogue.toList
      (statement analysis epilogue stmt labeller).1
  | .declare isMutable name source node, labeller => by
    rw [statement]
    exact store_emits name source labeller
  | .assign target source node, labeller => by
    rw [statement]
    exact store_emits target source labeller
  | .branch condition thenBlock none node, labeller => by
    rw [statement]
    exact branch_emits ((value_emits condition _).append (block_emits epilogue thenBlock _))
  | .branch condition thenBlock (some elseBlock) node, labeller => by
    rw [statement]
    exact branchElse_emits (((value_emits condition _).append (block_emits epilogue thenBlock _)).append
      (block_emits epilogue elseBlock _))
  | .ret none node, labeller => by
    rw [statement]
    exact leave_emits epilogue labeller
  | .ret (some expr) node, labeller => by
    rw [statement]
    exact (value_emits expr labeller).append (leave_emits epilogue _)
  | .call call node, labeller => by
    rw [statement]
    exact (value_emits call.expr labeller).append (.straight _ rfl)
  | .print items node, labeller => by
    rw [statement]
    exact printItems_emits items labeller
  | .nested body, labeller => by
    rw [statement]
    exact block_emits epilogue body labeller
  | .invalid node, labeller => by
    rw [statement]
    exact .straight _ rfl

theorem block_emits (epilogue : Option String) : ∀ (body : Block) (labeller : Labeller),
    Emits labeller (block analysis epilogue body labeller).2 epilogue.toList
      (block analysis epilogue body labeller).1
  | .mk body node, labeller => by
    rw [block]
    exact statements_emits epilogue body labeller

theorem statements_emits (epilogue : Option String) : ∀ (stmts : List Stmt) (labeller : Labeller),
    Emits labeller (statements analysis epilogue stmts labeller).2 epilogue.toList
      (statements analysis epilogue stmts labeller).1
  | [], labeller => by
    rw [statements]
    exact .straight _ rfl
  | first :: rest, labeller => by
    rw [statements]
    exact (statement_emits epilogue first labeller).append (statements_emits epilogue rest _)

end

/-- Code of functions: besides labels of its own it defines the names of the functions and the
labels of their ends. -/
structure Defines (before after : Labeller) (functions : List Function) (code : Code) : Prop where
  lead : after.lead = before.lead
  families : before.families ≤ after.families
  origin : ∀ label ∈ code.definedLabels, Labeller.Made before after label ∨
    ∃ function ∈ functions, label = function.name.text ∨ label = epilogueLabel function.name.text
  nodup : code.definedLabels.Nodup
  links : ∀ instruction ∈ code, instruction.Links code.definedLabels

theorem dash_notMem_of_isName {name : String} (isName : IsName name) : '-' ∉ name.toList := by
  intro member
  exact absurd (isName '-' member) (by decide)

theorem epilogueLabel_inj {name other : String} (same : epilogueLabel name = epilogueLabel other) : name = other := by
  exact (String.append_right_inj _).mp ((String.append_left_inj _).mp same)

theorem toList_epilogueLabel (name : String) :
    (epilogueLabel name).toList = ("function-" ++ name).toList ++ '-' :: "epilogue".toList := by
  simp [epilogueLabel, String.toList_append]

theorem name_ne_epilogueLabel {name : String} (isName : IsName name) (other : String) :
    name ≠ epilogueLabel other := by
  rintro rfl
  refine dash_notMem_of_isName isName ?_
  rw [toList_epilogueLabel]
  simp

theorem not_made_of_isName {name : String} (isName : IsName name) : ¬ Labeller.Made first second name := by
  rintro ⟨_, _, _, _, _, _, rfl⟩
  refine dash_notMem_of_isName isName ?_
  rw [Labeller.toList_label]
  simp

theorem not_made_epilogueLabel (name : String) : ¬ Labeller.Made first second (epilogueLabel name) := by
  rintro ⟨_, _, ending, _, _, member, same⟩
  have chars := congrArg String.toList same
  rw [toList_epilogueLabel, Labeller.toList_label] at chars
  obtain ⟨_, same⟩ := lastDash_unique chars (by decide) (Labeller.dash_notMem_of_mem_endings member)
  rw [← String.toList_inj.mp same] at member
  exact absurd member (by decide)

theorem not_made_mainLabel : ¬ Labeller.Made first second Reserved.mainLabel := by
  rintro ⟨_, _, _, _, _, _, same⟩
  have chars := congrArg String.toList same
  rw [Labeller.toList_label] at chars
  have dash : '-' ∈ Reserved.mainLabel.toList := by
    rw [chars]
    simp
  exact absurd dash (by decide)

/-- What stands after the last dash of a reserved name. -/
theorem reserved_ending {label : String} (member : label ∈ Reserved.addresses.map Prod.fst) :
    ∃ before after, label.toList = before ++ '-' :: after ∧ '-' ∉ after ∧
      String.ofList after ∉ "epilogue" :: Labeller.endings := by
  simp only [Reserved.addresses, List.map_cons, List.map_nil, List.mem_cons, List.not_mem_nil, or_false] at member
  rcases member with rfl | rfl | rfl | rfl | rfl | rfl | rfl | rfl | rfl
  · exact ⟨"$print-format".toList, "integer".toList, by decide, by decide, by decide⟩
  · exact ⟨"$print-format".toList, "boolean".toList, by decide, by decide, by decide⟩
  · exact ⟨"$print-format".toList, "newline".toList, by decide, by decide, by decide⟩
  · exact ⟨"$print-format".toList, "space".toList, by decide, by decide, by decide⟩
  · exact ⟨"$boolean-true".toList, "string".toList, by decide, by decide, by decide⟩
  · exact ⟨"$boolean-false".toList, "string".toList, by decide, by decide, by decide⟩
  · exact ⟨"$stack".toList, "pointer".toList, by decide, by decide, by decide⟩
  · exact ⟨"$frame".toList, "pointer".toList, by decide, by decide, by decide⟩
  · exact ⟨"$global-memory".toList, "block".toList, by decide, by decide, by decide⟩

theorem dash_mem_of_reserved {label : String} (reserved : label ∈ Reserved.addresses.map Prod.fst) :
    '-' ∈ label.toList := by
  obtain ⟨before, after, chars, _⟩ := reserved_ending reserved
  rw [chars]
  simp

theorem not_made_of_reserved {label : String} (reserved : label ∈ Reserved.addresses.map Prod.fst) :
    ¬ Labeller.Made first second label := by
  rintro ⟨_, _, ending, _, _, listed, rfl⟩
  obtain ⟨before, after, chars, dashless, other⟩ := reserved_ending reserved
  rw [Labeller.toList_label] at chars
  obtain ⟨_, rfl⟩ := lastDash_unique chars (Labeller.dash_notMem_of_mem_endings listed) dashless
  rw [String.ofList_toList] at other
  exact other (List.mem_cons_of_mem _ listed)

theorem epilogueLabel_notMem_reserved (name : String) : epilogueLabel name ∉ Reserved.addresses.map Prod.fst := by
  intro reserved
  obtain ⟨before, after, chars, dashless, other⟩ := reserved_ending reserved
  rw [toList_epilogueLabel] at chars
  obtain ⟨_, rfl⟩ := lastDash_unique chars (by decide) dashless
  exact other List.mem_cons_self

theorem prologue_eq (name : String) (frameSize : Nat) : ∃ rest, rest.all Instruction.isStraight = true ∧
    prologue name frameSize = (Instruction.withLabel .label name).annotate ("%% function " ++ name) :: rest :=
  ⟨_, rfl, rfl⟩

theorem epilogue_eq (name : String) (result : Ty) : ∃ rest, rest.all Instruction.isStraight = true ∧
    epilogue name result = .withLabel .label (epilogueLabel name) :: rest := by
  refine ⟨_, ?_, rfl⟩
  cases result <;> rfl

theorem definedLabels_marked (label comment : String) {rest : Code}
    (straight : rest.all Instruction.isStraight = true) :
    Code.definedLabels ((Instruction.withLabel .label label).annotate comment :: rest) = [label] := by
  rw [Code.definedLabels_cons, Instruction.definedLabels_of_isStraight straight, Instruction.annotate]
  split <;> rfl

variable (analysis)

theorem definedLabels_function (function : Function) (labeller : Labeller) :
    (Lowering.function analysis function labeller).1.definedLabels = function.name.text ::
      ((block analysis (some (epilogueLabel function.name.text)) function.body labeller).1.definedLabels ++
        [epilogueLabel function.name.text]) := by
  obtain ⟨front, straight, front_eq⟩ := prologue_eq function.name.text (analysis.sizeOf function.body.id)
  obtain ⟨back, straight', back_eq⟩ := epilogue_eq function.name.text function.result.ty
  have first := definedLabels_marked function.name.text ("%% function " ++ function.name.text) straight
  have last := definedLabels_marked (epilogueLabel function.name.text) "" straight'
  rw [← front_eq] at first
  rw [Instruction.annotate, if_pos rfl, ← back_eq] at last
  change Code.definedLabels (_ ++ _ ++ _) = _
  rw [Code.definedLabels_append, Code.definedLabels_append, first, last]
  rfl

theorem function_defines {function : Function} (isName : IsName function.name.text) (labeller : Labeller) :
    Defines labeller (Lowering.function analysis function labeller).2 [function]
      (Lowering.function analysis function labeller).1 := by
  have body : Emits labeller (block analysis _ function.body labeller).2 _ _ :=
    block_emits (some (epilogueLabel function.name.text)) function.body labeller
  have labels := definedLabels_function analysis function labeller
  refine ⟨body.lead, body.families, fun label member => ?_, ?_, fun instruction member => ?_⟩
  · rw [labels, List.mem_cons, List.mem_append, List.mem_singleton] at member
    rcases member with rfl | member | rfl
    · exact .inr ⟨function, List.mem_singleton.mpr rfl, .inl rfl⟩
    · exact .inl (body.made label member)
    · exact .inr ⟨function, List.mem_singleton.mpr rfl, .inr rfl⟩
  · rw [labels, List.nodup_cons, List.mem_append, List.mem_singleton, List.nodup_append]
    refine ⟨?_, body.nodup, List.nodup_singleton _, ?_⟩
    · rintro (member | same)
      · exact not_made_of_isName isName (body.made _ member)
      · exact name_ne_epilogueLabel isName _ same
    · intro label member other last same
      rw [List.mem_singleton.mp last] at same
      exact not_made_epilogueLabel _ (same ▸ body.made label member)
  · rw [labels]
    obtain ⟨front, straight, front_eq⟩ := prologue_eq function.name.text (analysis.sizeOf function.body.id)
    obtain ⟨back, straight', back_eq⟩ := epilogue_eq function.name.text function.result.ty
    change instruction ∈ _ ++ _ ++ _ at member
    rw [front_eq, back_eq] at member
    simp only [List.mem_append, List.mem_cons] at member
    rcases member with ((rfl | member) | member) | rfl | member
    · unfold Instruction.annotate
      split <;> exact ⟨_, rfl⟩
    · exact Instruction.links_of_isStraight (List.all_eq_true.mp straight _ member)
    · refine (body.links _ member).mono fun label known => ?_
      rcases List.mem_append.mp known with known | known
      · exact List.mem_cons_of_mem _ (List.mem_append_left _ known)
      · exact List.mem_cons_of_mem _ (List.mem_append_right _ known)
    · exact ⟨_, rfl⟩
    · exact Instruction.links_of_isStraight (List.all_eq_true.mp straight' _ member)

theorem functions_defines : ∀ {functions : List Function} (labeller : Labeller),
    (∀ function ∈ functions, IsName function.name.text) →
    (functions.map fun function => function.name.text).Nodup →
    Defines labeller (Lowering.functions analysis functions labeller).2 functions
      (Lowering.functions analysis functions labeller).1
  | [], labeller, _, _ => ⟨rfl, Nat.le_refl _, nofun, .nil, nofun⟩
  | function :: functions, labeller, areNames, distinct => by
    have isName := areNames function List.mem_cons_self
    have one := function_defines analysis isName labeller
    have inRest : ∀ other ∈ functions, IsName other.name.text := fun other member =>
      areNames other (List.mem_cons_of_mem _ member)
    obtain ⟨apart, distinct⟩ := List.nodup_cons.mp distinct
    have two := functions_defines (Lowering.function analysis function labeller).2 inRest distinct
    have labels : (Lowering.functions analysis (function :: functions) labeller).1.definedLabels =
        (Lowering.function analysis function labeller).1.definedLabels ++
          (Lowering.functions analysis functions (Lowering.function analysis function labeller).2).1.definedLabels :=
      Code.definedLabels_append _ _
    refine ⟨two.lead.trans one.lead, Nat.le_trans one.families two.families, fun label member => ?_, ?_, ?_⟩
    · rcases List.mem_append.mp (labels ▸ member) with member | member
      · rcases one.origin label member with made | ⟨_, here, from_⟩
        · exact .inl (made.widen two.families)
        · exact .inr ⟨function, List.mem_cons_self, List.mem_singleton.mp here ▸ from_⟩
      · rcases two.origin label member with made | ⟨other, there, from_⟩
        · exact .inl (made.mono one.lead one.families)
        · exact .inr ⟨other, List.mem_cons_of_mem _ there, from_⟩
    · rw [labels]
      refine List.nodup_append.mpr ⟨one.nodup, two.nodup, fun label member other again => ?_⟩
      rintro rfl
      rcases one.origin label member with made | ⟨_, here, rfl | rfl⟩
      · rcases two.origin label again with made' | ⟨other, there, rfl | rfl⟩
        · exact made.not_again one.lead made'
        · exact not_made_of_isName (inRest other there) made
        · exact not_made_epilogueLabel _ made
      all_goals
        rw [List.mem_singleton.mp here] at again
        rcases two.origin _ again with made' | ⟨other, there, same | same⟩
      · exact not_made_of_isName isName made'
      · exact apart (List.mem_map.mpr ⟨other, there, same.symm⟩)
      · exact name_ne_epilogueLabel isName _ same
      · exact not_made_epilogueLabel _ made'
      · exact name_ne_epilogueLabel (inRest other there) _ same.symm
      · exact apart (List.mem_map.mpr ⟨other, there, (epilogueLabel_inj same).symm⟩)
    · intro instruction member
      rw [labels]
      rcases List.mem_append.mp member with member | member
      · exact (one.links instruction member).mono (List.subset_append_left _ _)
      · exact (two.links instruction member).mono (List.subset_append_right _ _)

end Lowering

end Stackwright
