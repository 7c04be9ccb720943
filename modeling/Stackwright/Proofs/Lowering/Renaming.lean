import Stackwright.Proofs.Lowering.Emission
import Stackwright.Proofs.Machine.Renaming

/-! Code that is generated with something else in front of its labels. It differs in the names of
generated labels only, and these stand for each other one by one. -/

set_option autoImplicit false

namespace Stackwright

namespace Labeller

/-- A label, and what it becomes when something else is put in front of generated labels. -/
def Renamed (lead lead' : String) (label label' : String) : Prop :=
  (label' = label ∧ ∀ first second, ¬ Made first second label) ∨
    ∃ (name : String) (number : Nat) (ending : String), ending ∈ endings ∧
      label = lead ++ "-" ++ name ++ "-" ++ toString number ++ "-" ++ ending ∧
      label' = lead' ++ "-" ++ name ++ "-" ++ toString number ++ "-" ++ ending

variable {lead lead' : String}

theorem made_of_ending {name ending : String} {number : Nat} (member : ending ∈ endings) :
    Made ⟨lead, number⟩ ⟨lead, number + 1⟩ (lead ++ "-" ++ name ++ "-" ++ toString number ++ "-" ++ ending) :=
  ⟨name, number, ending, Nat.le_refl _, Nat.lt_succ_self _, member, rfl⟩

/-- Labels with the same lead differ in what comes after it. -/
theorem append_lead_inj {name name' digits digits' ending ending' : String} :
    lead ++ "-" ++ name ++ "-" ++ digits ++ "-" ++ ending = lead ++ "-" ++ name' ++ "-" ++ digits' ++ "-" ++ ending' ↔
      "-" ++ name ++ "-" ++ digits ++ "-" ++ ending = "-" ++ name' ++ "-" ++ digits' ++ "-" ++ ending' := by
  simp only [String.append_assoc, String.append_right_inj]

theorem oneToOne_renamed : OneToOne (Renamed lead lead') := by
  rintro one one' two two' (⟨rfl, fixed⟩ | ⟨name, number, ending, member, rfl, rfl⟩)
    (⟨rfl, fixed'⟩ | ⟨name', number', ending', member', rfl, rfl⟩)
  · exact Iff.rfl
  · exact ⟨fun same => absurd (same ▸ made_of_ending member') (fixed _ _),
      fun same => absurd (same ▸ made_of_ending member') (fixed _ _)⟩
  · exact ⟨fun same => absurd (same ▸ made_of_ending member) (fixed' _ _),
      fun same => absurd (same ▸ made_of_ending member) (fixed' _ _)⟩
  · rw [append_lead_inj, append_lead_inj]

end Labeller

/-- Two families that differ in what is in front. -/
def LabelFamily.Renamed (lead lead' : String) (labels labels' : LabelFamily) : Prop :=
  ∀ ending ∈ Labeller.endings, Labeller.Renamed lead lead' (labels.label ending) (labels'.label ending)

/-- Two pieces of code that differ in what is put in front of their labels. -/
abbrev Code.Releads (lead lead' : String) (code code' : Code) : Prop :=
  List.Forall₂ (Instruction.Renames (Labeller.Renamed lead lead')) code code'

namespace Lowering

variable {lead lead' : String} {code code' more more' : Code} {analysis : Analysis}

section Releads

theorem releads_label {opcode : Opcode} {label label' : String} (renamed : Labeller.Renamed lead lead' label label') :
    Code.Releads lead lead' [.withLabel opcode label] [.withLabel opcode label'] :=
  .cons ⟨rfl, rfl, rfl, fun _ => renamed⟩ .nil

theorem releads_fixed {opcode : Opcode} {label : String} (fixed : ∀ first second, ¬ Labeller.Made first second label) :
    Code.Releads lead lead' [.withLabel opcode label] [.withLabel opcode label] :=
  releads_label (.inl ⟨rfl, fixed⟩)

/-- An instruction that only refers to reserved data stays as it is. -/
theorem renames_of_isStraight {instruction : Instruction} (straight : instruction.isStraight = true) :
    instruction.Renames (Labeller.Renamed lead lead') instruction := by
  refine ⟨rfl, rfl, rfl, fun takes => .inl ⟨rfl, fun first second => ?_⟩⟩
  unfold Instruction.isStraight at straight
  have address : instruction.opcode = .pushAddress := by
    cases kind : instruction.opcode <;> rw [kind] at straight takes <;> first | rfl | exact absurd takes (by decide) | exact absurd straight (by simp)
  rw [address] at straight
  obtain ⟨label, has, member⟩ := (Option.any_eq_true _ _).mp straight
  rw [Instruction.mark, has]
  exact not_made_of_reserved (List.contains_iff_mem.mp member)

theorem releads_of_isStraight (straight : code.all Instruction.isStraight = true) :
    Code.Releads lead lead' code code :=
  List.forall₂_same.mpr fun instruction member => renames_of_isStraight (List.all_eq_true.mp straight instruction member)

theorem releads_append (one : Code.Releads lead lead' code code') (two : Code.Releads lead lead' more more') :
    Code.Releads lead lead' (code ++ more) (code' ++ more') :=
  List.rel_append one two

end Releads

/-- Two ways to generate that take the same number of families, each with a lead of its own, and give
related results. -/
def Parallel {α : Type} (lead lead' : String) (same : α → α → Prop) (emit emit' : Emit α) : Prop :=
  ∀ families, ∃ after, (emit ⟨lead, families⟩).2 = ⟨lead, after⟩ ∧ (emit' ⟨lead', families⟩).2 = ⟨lead', after⟩ ∧
    same (emit ⟨lead, families⟩).1 (emit' ⟨lead', families⟩).1

section Parallel

variable {α β : Type} {same : α → α → Prop} {same' : β → β → Prop} {emit emit' : Emit α} {next next' : α → Emit β}

theorem Parallel.pure {value value' : α} (related : same value value') :
    Parallel lead lead' same (Pure.pure value) (Pure.pure value') :=
  fun families => ⟨families, rfl, rfl, related⟩

theorem Parallel.bind (first : Parallel lead lead' same emit emit')
    (second : ∀ value value', same value value' → Parallel lead lead' same' (next value) (next' value')) :
    Parallel lead lead' same' (emit >>= next) (emit' >>= next') := by
  intro families
  obtain ⟨between, one, one', related⟩ := first families
  obtain ⟨after, two, two', related'⟩ := second _ _ related between
  refine ⟨after, ?_, ?_, ?_⟩
  · rw [bind_apply, one, two]
  · rw [bind_apply, one', two']
  · rw [bind_apply, bind_apply, one, one']
    exact related'

theorem parallel_family (name : String) :
    Parallel lead lead' (LabelFamily.Renamed lead lead') (family name) (family name) :=
  fun families => ⟨families + 1, rfl, rfl, fun ending member => .inr ⟨name, families, ending, member, rfl, rfl⟩⟩

end Parallel

/-- Two fragments that differ in what is put in front of their labels. -/
def FragmentsRelead (lead lead' : String) (fragment fragment' : Fragment) : Prop :=
  fragment'.kind = fragment.kind ∧ Code.Releads lead lead' fragment.code fragment'.code

theorem FragmentsRelead.valueCode {fragment fragment' : Fragment} (relead : FragmentsRelead lead lead' fragment fragment')
    (ty : Ty) : Code.Releads lead lead' (fragment.valueCode ty) (fragment'.valueCode ty) := by
  rw [Fragment.valueCode, Fragment.valueCode, Fragment.isAddress, Fragment.isAddress, relead.1]
  split
  · exact releads_append relead.2 (releads_of_isStraight (by simp [loadOpcode_isStraight]))
  · exact relead.2

theorem comparison_releads {labels labels' : LabelFamily} (renamed : labels.Renamed lead lead' labels')
    (one : Code.Releads lead lead' code code') (two : Code.Releads lead lead' more more') :
    Code.Releads lead lead' (comparison labels code more) (comparison labels' code' more') := by
  have label (opcode : Opcode) (ending : String) (member : ending ∈ Labeller.endings) :
      (Instruction.withLabel opcode (labels.label ending)).Renames (Labeller.Renamed lead lead')
        (.withLabel opcode (labels'.label ending)) := ⟨rfl, rfl, rfl, fun _ => renamed ending member⟩
  have push (value : Int32) : (Instruction.withInt .pushInt value).Renames (Labeller.Renamed lead lead')
      (.withInt .pushInt value) := renames_of_isStraight rfl
  refine releads_append (releads_append (releads_append (releads_append (.cons (label .label "arg1" (by decide)) .nil)
    one) (.cons (label .label "arg2" (by decide)) .nil)) two) ?_
  exact .cons (label .label "sub" (by decide)) (.cons (renames_of_isStraight rfl)
    (.cons (label .jumpPositive "true" (by decide)) (.cons (label .jump "false" (by decide))
    (.cons (label .label "true" (by decide)) (.cons (push 1) (.cons (label .jump "join" (by decide))
    (.cons (label .label "false" (by decide)) (.cons (push 0) (.cons (label .jump "join" (by decide))
    (.cons (label .label "join" (by decide)) .nil))))))))))

theorem pushArgument_releads (ty : Ty) (relead : Code.Releads lead lead' code code') :
    Code.Releads lead lead' (pushArgument ty code) (pushArgument ty code') :=
  releads_append (releads_append (releads_of_isStraight rfl) relead)
    (releads_of_isStraight (by simp [storeOpcode_isStraight]))

theorem invocation_releads (callee : Binding) (signature : Signature) (relead : Code.Releads lead lead' code code') :
    Code.Releads lead lead' (invocation callee signature code) (invocation callee signature code') := by
  simp only [invocation, List.append_assoc]
  refine releads_append relead (releads_of_isStraight ?_)
  simp only [List.all_append, addressCode_isStraight, pickUpResult_isStraight]
  rfl

mutual

theorem expression_parallel : ∀ expr : Expr, Parallel lead lead' (FragmentsRelead lead lead')
    (expression analysis expr) (expression analysis expr)
  | .literal literal node => by
    rw [expression]
    exact .pure ⟨rfl, releads_of_isStraight rfl⟩
  | .named name => by
    rw [expression]
    exact .pure ⟨rfl, releads_of_isStraight (addressCode_isStraight _)⟩
  | .binary .greater left right node => by
    rw [expression]
    refine (parallel_family "compare").bind fun labels labels' renamed => ?_
    refine (expression_parallel left).bind fun one one' first => ?_
    refine (expression_parallel right).bind fun two two' second => ?_
    exact .pure ⟨rfl, comparison_releads renamed (first.valueCode _) (second.valueCode _)⟩
  | .binary .add left right node | .binary .subtract left right node | .binary .multiply left right node => by
    rw [expression]
    · refine (expression_parallel left).bind fun one one' first => ?_
      refine (expression_parallel right).bind fun two two' second => ?_
      exact .pure ⟨rfl, releads_append (releads_append (first.valueCode _) (second.valueCode _))
        (releads_of_isStraight rfl)⟩
    · simp
  | .unary .negate operand node => by
    rw [expression]
    refine (expression_parallel operand).bind fun one one' first => ?_
    exact .pure ⟨rfl, releads_append (first.valueCode _) (releads_of_isStraight rfl)⟩
  | .call callee arguments list node => by
    rw [expression]
    cases found : (analysis.bindingOf callee.node.id).ty.signature? with
    | none => exact .pure ⟨rfl, releads_of_isStraight rfl⟩
    | some signature =>
      refine (pushArguments_parallel arguments signature.parameters).bind fun code code' relead => ?_
      exact .pure ⟨rfl, invocation_releads _ _ relead⟩
  | .invalid node => by
    rw [expression]
    exact .pure ⟨rfl, releads_of_isStraight rfl⟩

theorem pushArguments_parallel : ∀ (arguments : List Expr) (types : List Ty),
    Parallel lead lead' (Code.Releads lead lead') (pushArguments analysis arguments types)
      (pushArguments analysis arguments types)
  | argument :: arguments, ty :: types => by
    rw [pushArguments]
    refine (pushArguments_parallel arguments types).bind fun code code' later => ?_
    refine (expression_parallel argument).bind fun one one' first => ?_
    exact .pure (releads_append later (pushArgument_releads ty (first.valueCode _)))
  | [], types => by
    rw [pushArguments]
    · exact .pure .nil
    · simp
  | argument :: arguments, [] => by
    rw [pushArguments]
    · exact .pure .nil
    · simp

end

theorem value_parallel (expr : Expr) :
    Parallel lead lead' (Code.Releads lead lead') (value analysis expr) (value analysis expr) :=
  (expression_parallel expr).bind fun _ _ relead => .pure (relead.valueCode _)

theorem store_parallel (target : Name) (source : Expr) :
    Parallel lead lead' (Code.Releads lead lead') (store analysis target source) (store analysis target source) :=
  (value_parallel source).bind fun _ _ relead => .pure (releads_append
    (releads_append (releads_of_isStraight (addressCode_isStraight _)) relead)
    (releads_of_isStraight (by simp [storeOpcode_isStraight])))

theorem selectText_releads {labels labels' : LabelFamily} (renamed : labels.Renamed lead lead' labels') :
    Code.Releads lead lead' (selectText labels) (selectText labels') := by
  have whenTrue := renamed "true" (by decide)
  have join := renamed "join" (by decide)
  exact .cons ⟨rfl, rfl, rfl, fun _ => whenTrue⟩ (.cons (renames_of_isStraight rfl)
    (.cons ⟨rfl, rfl, rfl, fun _ => join⟩ (.cons ⟨rfl, rfl, rfl, fun _ => whenTrue⟩
    (.cons (renames_of_isStraight rfl) (.cons ⟨rfl, rfl, rfl, fun _ => join⟩ .nil)))))

theorem printValue_parallel (expr : Expr) :
    Parallel lead lead' (Code.Releads lead lead') (printValue analysis expr) (printValue analysis expr) := by
  refine (value_parallel expr).bind fun code code' relead => ?_
  split
  · refine (parallel_family "print-boolean").bind fun labels labels' renamed => .pure ?_
    exact releads_append (releads_append relead (selectText_releads renamed)) (releads_of_isStraight rfl)
  · exact .pure (releads_append relead (releads_of_isStraight rfl))

theorem printItems_parallel : ∀ items : List PrintItem,
    Parallel lead lead' (Code.Releads lead lead') (printItems analysis items) (printItems analysis items)
  | [] => .pure .nil
  | .value expr :: rest =>
    (printValue_parallel expr).bind fun _ _ one =>
      (printItems_parallel rest).bind fun _ _ two => .pure (releads_append one two)
  | .space _ :: rest | .newline _ :: rest =>
    (printItems_parallel rest).bind fun _ _ two => .pure (releads_append (releads_of_isStraight rfl) two)

/-- A label that no labeller makes. -/
def IsFixed (label : String) : Prop := ∀ first second, ¬ Labeller.Made first second label

theorem leave_releads {epilogue : Option String} (fixed : ∀ label ∈ epilogue, IsFixed label) :
    Code.Releads lead lead' (epilogue.toList.map fun label => .withLabel .jump label)
      (epilogue.toList.map fun label => .withLabel .jump label) := by
  cases epilogue with
  | none => exact .nil
  | some label => exact releads_fixed (fixed label rfl)

mutual

theorem statement_parallel {epilogue : Option String} (fixed : ∀ label ∈ epilogue, IsFixed label) :
    ∀ stmt : Stmt, Parallel lead lead' (Code.Releads lead lead') (statement analysis epilogue stmt)
      (statement analysis epilogue stmt)
  | .declare isMutable name source node => by
    rw [statement]
    exact store_parallel name source
  | .assign target source node => by
    rw [statement]
    exact store_parallel target source
  | .branch condition thenBlock none node => by
    rw [statement]
    refine (parallel_family "if").bind fun labels labels' renamed => ?_
    refine (value_parallel condition).bind fun test test' relead => ?_
    refine (block_parallel fixed thenBlock).bind fun code code' first => .pure ?_
    have last := renamed "end" (by decide)
    exact releads_append (releads_append (releads_append relead (releads_label last)) first)
      (releads_append (releads_label last) (releads_label last))
  | .branch condition thenBlock (some elseBlock) node => by
    rw [statement]
    refine (parallel_family "if").bind fun labels labels' renamed => ?_
    refine (value_parallel condition).bind fun test test' relead => ?_
    refine (block_parallel fixed thenBlock).bind fun code code' first => ?_
    refine (block_parallel fixed elseBlock).bind fun other other' second => .pure ?_
    have last := renamed "end" (by decide)
    have otherwise := renamed "else" (by decide)
    exact releads_append (releads_append (releads_append (releads_append (releads_append relead
      (releads_label otherwise)) first) (releads_append (releads_label last) (releads_label otherwise))) second)
      (releads_label last)
  | .ret none node => by
    rw [statement]
    exact .pure (leave_releads fixed)
  | .ret (some expr) node => by
    rw [statement]
    exact (value_parallel expr).bind fun _ _ relead => .pure (releads_append relead (leave_releads fixed))
  | .call call node => by
    rw [statement]
    exact (value_parallel call.expr).bind fun _ _ relead => .pure (releads_append relead (releads_of_isStraight rfl))
  | .print items node => by
    rw [statement]
    exact printItems_parallel items
  | .nested body => by
    rw [statement]
    exact block_parallel fixed body
  | .invalid node => by
    rw [statement]
    exact .pure .nil

theorem block_parallel {epilogue : Option String} (fixed : ∀ label ∈ epilogue, IsFixed label) :
    ∀ body : Block, Parallel lead lead' (Code.Releads lead lead') (block analysis epilogue body)
      (block analysis epilogue body)
  | .mk body node => by
    rw [block]
    exact statements_parallel fixed body

theorem statements_parallel {epilogue : Option String} (fixed : ∀ label ∈ epilogue, IsFixed label) :
    ∀ stmts : List Stmt, Parallel lead lead' (Code.Releads lead lead') (statements analysis epilogue stmts)
      (statements analysis epilogue stmts)
  | [] => by
    rw [statements]
    exact .pure .nil
  | first :: rest => by
    rw [statements]
    exact (statement_parallel fixed first).bind fun _ _ one =>
      (statements_parallel fixed rest).bind fun _ _ two => .pure (releads_append one two)

end

/-- A label in front of code without labels stays as it is. -/
theorem marked_releads {label comment : String} (fixed : IsFixed label) (straight : code.all Instruction.isStraight = true) :
    Code.Releads lead lead' ((Instruction.withLabel .label label).annotate comment :: code)
      ((Instruction.withLabel .label label).annotate comment :: code) := by
  refine .cons ⟨rfl, rfl, rfl, fun _ => .inl ⟨rfl, ?_⟩⟩ (releads_of_isStraight straight)
  unfold Instruction.annotate
  split <;> exact fixed

theorem function_parallel {function : Function} (isName : IsName function.name.text) :
    Parallel lead lead' (Code.Releads lead lead') (Lowering.function analysis function)
      (Lowering.function analysis function) := by
  have fixed : ∀ label ∈ some (epilogueLabel function.name.text), IsFixed label := by
    rintro label ⟨⟩
    exact fun _ _ => not_made_epilogueLabel _
  obtain ⟨front, straight, front_eq⟩ := prologue_eq function.name.text (analysis.sizeOf function.body.id)
  obtain ⟨back, straight', back_eq⟩ := epilogue_eq function.name.text function.result.ty
  refine (block_parallel fixed function.body).bind fun _ _ relead => .pure ?_
  rw [front_eq, back_eq]
  refine releads_append (releads_append (marked_releads (fun _ _ => not_made_of_isName isName) straight) relead) ?_
  exact releads_append (releads_fixed (fixed _ rfl)) (releads_of_isStraight straight')

theorem functions_parallel : ∀ {functions : List Function}, (∀ function ∈ functions, IsName function.name.text) →
    Parallel lead lead' (Code.Releads lead lead') (Lowering.functions analysis functions)
      (Lowering.functions analysis functions)
  | [], _ => .pure .nil
  | function :: functions, areNames => by
    refine (function_parallel (areNames function List.mem_cons_self)).bind fun _ _ one => ?_
    refine (functions_parallel fun other member => areNames other (List.mem_cons_of_mem _ member)).bind fun _ _ two => ?_
    exact .pure (releads_append one two)

theorem storeAddress_releads {function : Function} (isName : IsName function.name.text) :
    Code.Releads lead lead' (storeAddress analysis function) (storeAddress analysis function) :=
  releads_append (releads_of_isStraight (addressCode_isStraight _))
    (releads_append (releads_fixed fun _ _ => not_made_of_isName isName) (releads_of_isStraight rfl))

theorem cells_releads {functions : List Function} (areNames : ∀ function ∈ functions, IsName function.name.text) :
    Code.Releads lead lead' (functions.flatMap (storeAddress analysis)) (functions.flatMap (storeAddress analysis)) := by
  induction functions with
  | nil => exact .nil
  | cons function rest ih =>
    rw [List.flatMap_cons]
    exact releads_append (storeAddress_releads (areNames function List.mem_cons_self))
      (ih fun other member => areNames other (List.mem_cons_of_mem _ member))

/-- The directives in front of a program name reserved places only. -/
theorem front_releads (program : Program) :
    Code.Releads lead lead' (Environment.data ++ globals analysis program) (Environment.data ++ globals analysis program) := by
  have reserved : (Environment.data ++ globals analysis program).all (fun instruction =>
      !instruction.opcode.takesLabel || instruction.mark == Reserved.mainLabel ||
        (Reserved.addresses.map Prod.fst).contains instruction.mark) = true := rfl
  refine List.forall₂_same.mpr fun instruction member => ⟨rfl, rfl, rfl, fun takes => .inl ⟨rfl, fun _ _ => ?_⟩⟩
  have here := List.all_eq_true.mp reserved instruction member
  simp only [takes, Bool.not_true, Bool.false_or, Bool.or_eq_true, beq_iff_eq, List.contains_iff_mem] at here
  rcases here with main | data
  · rw [main]
    exact not_made_mainLabel
  · exact not_made_of_reserved data

/-- A program that is lowered with something else in front of its labels differs in nothing else. -/
theorem program_releads {program : Program} (areNames : ∀ function ∈ program.functions, IsName function.name.text) :
    Code.Releads lead lead' (Lowering.program analysis true program (.starting lead)).1
      (Lowering.program analysis true program (.starting lead')).1 := by
  have parallel : Parallel lead lead' (Code.Releads lead lead') (Lowering.program analysis true program)
      (Lowering.program analysis true program) := by
    refine (block_parallel (fun _ none => by cases none) program.main).bind fun _ _ main => ?_
    refine (functions_parallel areNames).bind fun _ _ bodies => .pure ?_
    refine releads_append (releads_append (releads_append (releads_append (releads_append (releads_append
      (front_releads program) ?_) ?_) (cells_releads areNames)) main) ?_) bodies
    · exact releads_fixed fun _ _ => not_made_mainLabel
    · exact releads_of_isStraight rfl
    · exact releads_of_isStraight rfl
  obtain ⟨_, _, _, relead⟩ := parallel 0
  exact relead

end Lowering

end Stackwright
