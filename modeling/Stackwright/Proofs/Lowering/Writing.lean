import Stackwright.Lowering.Program
import Stackwright.Proofs.Assembly.Text

/-! What lowered code is written with. Every instruction has the operand that its operation takes, no label has a
blank in it, and every annotation is a name after a fixed text, as long as neither the names of the program nor
what is put in front of its labels have blanks. -/

set_option autoImplicit false

namespace Stackwright

open Text

theorem Opcode.operandKind_loadOpcode (ty : Ty) : ty.loadOpcode.operandKind = none := by
  cases ty <;> rfl

theorem Opcode.operandKind_storeOpcode (ty : Ty) : ty.storeOpcode.operandKind = none := by
  cases ty <;> rfl

/-- An annotation that ends with a name stays on its line. -/
theorem Text.Tidy.of_solid {front text : String} (solid : Solid text) (plain : '\n' ∉ front.toList) :
    Tidy (front ++ text) := by
  refine ⟨?_, ?_⟩
  · rw [String.toList_append, List.mem_append]
    exact not_or.mpr ⟨plain, solid.newline_notMem⟩
  · rw [String.toList_append]
    exact solid.closed.append _

theorem Binding.wellFormed_addressCode {binding : Binding} (solid : Solid binding.lexeme) :
    binding.addressCode.WellFormed := by
  have tidy : Tidy ("%% " ++ binding.lexeme) := .of_solid solid (by decide)
  rw [Binding.addressCode, Location.addressCode]
  cases binding.location.base with
  | global => exact (Code.wellFormed_cons _ _).mpr ⟨.annotate (by simp +decide) tidy, by simp +decide⟩
  | frame => exact (Code.wellFormed_cons _ _).mpr ⟨.annotate (by simp +decide) tidy, by simp +decide⟩
  | null => exact (Code.wellFormed_cons _ _).mpr ⟨.annotate (by simp +decide) tidy, Code.wellFormed_nil⟩

theorem Fragment.wellFormed_valueCode {fragment : Fragment} (wellFormed : fragment.code.WellFormed) (ty : Ty) :
    (fragment.valueCode ty).WellFormed := by
  unfold Fragment.valueCode
  split
  · simpa [Opcode.operandKind_loadOpcode] using wellFormed
  · exact wellFormed

/-- The labels of the family can be written. -/
def LabelFamily.Solid (labels : LabelFamily) : Prop := Text.Solid labels.stem

theorem LabelFamily.Solid.label {labels : LabelFamily} (solid : labels.Solid) {ending : String}
    (unbroken : Unbroken ending) : Text.Solid (labels.label ending) :=
  Text.Solid.append solid unbroken

namespace Lowering

/-- The step has a good result, and labels stay without blanks. -/
def Yields {α : Type} (good : α → Prop) (emit : Emit α) : Prop :=
  ∀ labeller : Labeller, Unbroken labeller.lead → good (emit labeller).1 ∧ Unbroken (emit labeller).2.lead

section Yields

variable {α β : Type} {good : α → Prop} {fine : β → Prop} {emit : Emit α} {next : α → Emit β}

theorem Yields.pure {value : α} (isGood : good value) : Yields good (Pure.pure value) :=
  fun _ unbroken => ⟨isGood, unbroken⟩

theorem Yields.bind (first : Yields good emit) (second : ∀ value, good value → Yields fine (next value)) :
    Yields fine (emit >>= next) := by
  intro labeller unbroken
  obtain ⟨isGood, unbroken⟩ := first labeller unbroken
  exact second _ isGood _ unbroken

theorem yields_family {name : String} (unbroken : Unbroken name) : Yields LabelFamily.Solid (family name) := by
  intro labeller lead
  have dash : Solid "-" := by decide
  have stem : Solid (labeller.lead ++ "-" ++ name ++ "-" ++ toString labeller.families ++ "-") :=
    ((((dash.prepend lead).append unbroken).append dash.2).append (Operand.solid_digits _).2).append dash.2
  exact ⟨stem, lead⟩

end Yields

theorem wellFormed_loadFrom {label : String} (solid : Solid label) : (Code.loadFrom label).WellFormed := by
  simp +decide [Code.loadFrom, solid]

theorem wellFormed_storeTo {label : String} (solid : Solid label) : (Code.storeTo label).WellFormed := by
  simp +decide [Code.storeTo, solid]

theorem wellFormed_comparison {labels : LabelFamily} (solid : labels.Solid) {left right : Code}
    (one : left.WellFormed) (two : right.WellFormed) : (comparison labels left right).WellFormed := by
  have label (ending : String) (unbroken : Unbroken ending) : Solid (labels.label ending) := solid.label unbroken
  simp +decide [comparison, one, two, label]

theorem wellFormed_pushArgument (ty : Ty) {value : Code} (wellFormed : value.WellFormed) :
    (pushArgument ty value).WellFormed := by
  have pointer : Solid Reserved.stackPointer := by decide
  simp +decide [pushArgument, wellFormed_loadFrom, wellFormed_storeTo, pointer, wellFormed,
    Opcode.operandKind_storeOpcode]

theorem wellFormed_invocation {callee : Binding} (solid : Solid callee.lexeme) (signature : Signature)
    {arguments : Code} (wellFormed : arguments.WellFormed) :
    (invocation callee signature arguments).WellFormed := by
  have pointer : Solid Reserved.stackPointer := by decide
  have result : (pickUpResult signature.result).WellFormed := by
    unfold pickUpResult
    split
    · simp [wellFormed_loadFrom, pointer, Opcode.operandKind_loadOpcode]
    · simp +decide
  simp +decide [invocation, wellFormed, Binding.wellFormed_addressCode solid, result, wellFormed_loadFrom,
    wellFormed_storeTo, pointer]

/-- Every name of the program that is lowered can be written. -/
def Named (analysis : Analysis) : Prop := ∀ id : Nat, Solid (analysis.bindingOf id).lexeme

variable {analysis : Analysis}

mutual

theorem expression_yields (named : Named analysis) : ∀ expr : Expr,
    Yields (fun fragment => fragment.code.WellFormed) (expression analysis expr)
  | .literal literal node => by
    rw [expression]
    exact .pure (by simp +decide)
  | .named name => by
    rw [expression]
    exact .pure (Binding.wellFormed_addressCode (named _))
  | .binary .greater left right node => by
    rw [expression]
    refine (yields_family (by decide)).bind fun labels solid => ?_
    refine (expression_yields named left).bind fun one wellFormed => ?_
    refine (expression_yields named right).bind fun two wellFormed' => .pure ?_
    exact wellFormed_comparison solid (Fragment.wellFormed_valueCode wellFormed _)
      (Fragment.wellFormed_valueCode wellFormed' _)
  | .binary .add left right node | .binary .subtract left right node | .binary .multiply left right node => by
    rw [expression]
    · refine (expression_yields named left).bind fun one wellFormed => ?_
      refine (expression_yields named right).bind fun two wellFormed' => .pure ?_
      simp +decide [Fragment.wellFormed_valueCode wellFormed, Fragment.wellFormed_valueCode wellFormed']
    · simp
  | .unary .negate operand node => by
    rw [expression]
    refine (expression_yields named operand).bind fun fragment wellFormed => .pure ?_
    simp +decide [Fragment.wellFormed_valueCode wellFormed]
  | .call callee arguments list node => by
    rw [expression]
    cases (analysis.bindingOf callee.node.id).ty.signature? with
    | none => exact .pure (by simp +decide)
    | some signature =>
      refine (pushArguments_yields named arguments signature.parameters).bind fun code wellFormed => .pure ?_
      exact wellFormed_invocation (named _) signature wellFormed
  | .invalid node => by
    rw [expression]
    exact .pure (by simp +decide)

theorem pushArguments_yields (named : Named analysis) : ∀ (arguments : List Expr) (types : List Ty),
    Yields Code.WellFormed (pushArguments analysis arguments types)
  | argument :: arguments, ty :: types => by
    rw [pushArguments]
    refine (pushArguments_yields named arguments types).bind fun later wellFormed => ?_
    refine (expression_yields named argument).bind fun fragment wellFormed' => .pure ?_
    exact (Code.wellFormed_append _ _).mpr
      ⟨wellFormed, wellFormed_pushArgument ty (Fragment.wellFormed_valueCode wellFormed' _)⟩
  | [], _ => by
    rw [pushArguments]
    · exact .pure Code.wellFormed_nil
    · simp
  | _ :: _, [] => by
    rw [pushArguments]
    · exact .pure Code.wellFormed_nil
    · simp

end

theorem value_yields (named : Named analysis) (expr : Expr) : Yields Code.WellFormed (value analysis expr) :=
  (expression_yields named expr).bind fun _ wellFormed => .pure (Fragment.wellFormed_valueCode wellFormed _)

theorem store_yields (named : Named analysis) (target : Name) (source : Expr) :
    Yields Code.WellFormed (store analysis target source) := by
  refine (value_yields named source).bind fun code wellFormed => .pure ?_
  simp [Binding.wellFormed_addressCode (named target.node.id), wellFormed, Opcode.operandKind_storeOpcode]

theorem wellFormed_printFormat {format : String} (solid : Solid format) : (printFormat format).WellFormed := by
  simp +decide [printFormat, solid]

theorem wellFormed_selectText {labels : LabelFamily} (solid : labels.Solid) : (selectText labels).WellFormed := by
  have label (ending : String) (unbroken : Unbroken ending) : Solid (labels.label ending) := solid.label unbroken
  simp +decide [selectText, label]

theorem printValue_yields (named : Named analysis) (expr : Expr) :
    Yields Code.WellFormed (printValue analysis expr) := by
  refine (value_yields named expr).bind fun source wellFormed => ?_
  split
  · refine (yields_family (by decide)).bind fun labels solid => .pure ?_
    simp [wellFormed, wellFormed_selectText solid, wellFormed_printFormat (by decide : Solid Reserved.booleanFormat)]
  · refine .pure ?_
    simp [wellFormed, wellFormed_printFormat (by decide : Solid Reserved.integerFormat)]

theorem printItems_yields (named : Named analysis) : ∀ items : List PrintItem,
    Yields Code.WellFormed (printItems analysis items)
  | [] => .pure Code.wellFormed_nil
  | .value expr :: rest =>
    (printValue_yields named expr).bind fun _ wellFormed =>
      (printItems_yields named rest).bind fun _ wellFormed' =>
        .pure ((Code.wellFormed_append _ _).mpr ⟨wellFormed, wellFormed'⟩)
  | .space _ :: rest =>
    (printItems_yields named rest).bind fun _ wellFormed =>
      .pure ((Code.wellFormed_append _ _).mpr ⟨wellFormed_printFormat (by decide), wellFormed⟩)
  | .newline _ :: rest =>
    (printItems_yields named rest).bind fun _ wellFormed =>
      .pure ((Code.wellFormed_append _ _).mpr ⟨wellFormed_printFormat (by decide), wellFormed⟩)

section Statements

variable {epilogue : Option String}

theorem wellFormed_leave (solid : ∀ label ∈ epilogue, Solid label) :
    Code.WellFormed (epilogue.toList.map fun label => .withLabel .jump label) := by
  refine List.forall_mem_map.mpr fun label member => ?_
  exact (Instruction.wellFormed_withLabel label).mpr ⟨rfl, solid label (Option.mem_toList.mp member)⟩

mutual

theorem statement_yields (named : Named analysis) (solid : ∀ label ∈ epilogue, Solid label) : ∀ stmt : Stmt,
    Yields Code.WellFormed (statement analysis epilogue stmt)
  | .declare isMutable name source node => by
    rw [statement]
    exact store_yields named name source
  | .assign target source node => by
    rw [statement]
    exact store_yields named target source
  | .branch condition thenBlock none node => by
    rw [statement]
    refine (yields_family (by decide)).bind fun labels family => ?_
    refine (value_yields named condition).bind fun test wellFormed => ?_
    refine (block_yields named solid thenBlock).bind fun code wellFormed' => .pure ?_
    simp +decide [wellFormed, wellFormed', family.label (by decide : Unbroken "end")]
  | .branch condition thenBlock (some elseBlock) node => by
    rw [statement]
    refine (yields_family (by decide)).bind fun labels family => ?_
    refine (value_yields named condition).bind fun test wellFormed => ?_
    refine (block_yields named solid thenBlock).bind fun code wellFormed' => ?_
    refine (block_yields named solid elseBlock).bind fun more wellFormed'' => .pure ?_
    simp +decide [wellFormed, wellFormed', wellFormed'', family.label (by decide : Unbroken "end"),
      family.label (by decide : Unbroken "else")]
  | .ret none node => by
    rw [statement]
    exact .pure (wellFormed_leave solid)
  | .ret (some result) node => by
    rw [statement]
    refine (value_yields named result).bind fun code wellFormed => .pure ?_
    exact (Code.wellFormed_append _ _).mpr ⟨wellFormed, wellFormed_leave solid⟩
  | .call call node => by
    rw [statement]
    refine (value_yields named call.expr).bind fun code wellFormed => .pure ?_
    simp +decide [wellFormed]
  | .print items node => by
    rw [statement]
    exact printItems_yields named items
  | .nested body => by
    rw [statement]
    exact block_yields named solid body
  | .invalid node => by
    rw [statement]
    exact .pure Code.wellFormed_nil

theorem block_yields (named : Named analysis) (solid : ∀ label ∈ epilogue, Solid label) : ∀ body : Block,
    Yields Code.WellFormed (block analysis epilogue body)
  | .mk body node => by
    rw [block]
    exact statements_yields named solid body

theorem statements_yields (named : Named analysis) (solid : ∀ label ∈ epilogue, Solid label) :
    ∀ stmts : List Stmt, Yields Code.WellFormed (statements analysis epilogue stmts)
  | [] => by
    rw [statements]
    exact .pure Code.wellFormed_nil
  | first :: rest => by
    rw [statements]
    refine (statement_yields named solid first).bind fun code wellFormed => ?_
    refine (statements_yields named solid rest).bind fun more wellFormed' => .pure ?_
    exact (Code.wellFormed_append _ _).mpr ⟨wellFormed, wellFormed'⟩

end

end Statements

theorem wellFormed_below {pointer : String} (solid : Solid pointer) (distance : Int32) :
    (below pointer distance).WellFormed := by
  simp +decide [below, wellFormed_loadFrom solid]

section Function

variable {name : String} (solid : Solid name)

include solid

theorem solid_epilogueLabel : Solid (epilogueLabel name) := by
  have front : Solid "function-" := by decide
  exact (front.append solid.2).append (by decide)

theorem wellFormed_prologue (frameSize : Nat) : (prologue name frameSize).WellFormed := by
  have stack : Solid Reserved.stackPointer := by decide
  have frame : Solid Reserved.framePointer := by decide
  have first : ((Instruction.withLabel .label name).annotate ("%% function " ++ name)).WellFormed :=
    .annotate ((Instruction.wellFormed_withLabel name).mpr ⟨rfl, solid⟩) (.of_solid solid (by decide))
  simp +decide [prologue, first, wellFormed_below, wellFormed_loadFrom, wellFormed_storeTo, stack, frame]

theorem wellFormed_epilogue (result : Ty) : (epilogue name result).WellFormed := by
  have stack : Solid Reserved.stackPointer := by decide
  have frame : Solid Reserved.framePointer := by decide
  have given : (handOver result).WellFormed := by
    unfold handOver
    split
    · simp +decide [wellFormed_below, wellFormed_loadFrom, wellFormed_storeTo, stack,
        Opcode.operandKind_storeOpcode]
    · exact Code.wellFormed_nil
  simp +decide [epilogue, solid_epilogueLabel solid, given, wellFormed_below, wellFormed_loadFrom, wellFormed_storeTo,
    stack, frame]

end Function

theorem function_yields (named : Named analysis) {function : Function} (solid : Solid function.name.text) :
    Yields Code.WellFormed (Lowering.function analysis function) := by
  have leaves : ∀ label ∈ some (epilogueLabel function.name.text), Solid label := fun label same =>
    Option.some.inj same ▸ solid_epilogueLabel solid
  refine (block_yields named leaves function.body).bind fun code wellFormed => .pure ?_
  simp [wellFormed_prologue solid, wellFormed, wellFormed_epilogue solid]

theorem functions_yields (named : Named analysis) : ∀ {functions : List Function},
    (∀ function ∈ functions, Solid function.name.text) →
    Yields Code.WellFormed (Lowering.functions analysis functions)
  | [], _ => .pure Code.wellFormed_nil
  | function :: functions, solid => by
    obtain ⟨here, others⟩ := List.forall_mem_cons.mp solid
    refine (function_yields named here).bind fun code wellFormed => ?_
    refine (functions_yields named others).bind fun more wellFormed' => .pure ?_
    exact (Code.wellFormed_append _ _).mpr ⟨wellFormed, wellFormed'⟩

theorem wellFormed_storeAddress (named : Named analysis) {function : Function} (solid : Solid function.name.text) :
    (storeAddress analysis function).WellFormed := by
  simp +decide [storeAddress, Binding.wellFormed_addressCode (named _), solid]

theorem wellFormed_data : Environment.data.WellFormed := by
  simp +decide [Environment.data, Environment.stringConstant, Environment.cell]

theorem wellFormed_stackStart : Environment.stackStart.WellFormed := by
  simp +decide [Environment.stackStart, wellFormed_storeTo]

/-- A program is lowered to code that can be written, if its names and what its labels begin with can. -/
theorem program_yields (named : Named analysis) {program : Program}
    (solid : ∀ function ∈ program.functions, Solid function.name.text) (withEnvironment : Bool) :
    Yields Code.WellFormed (Lowering.program analysis withEnvironment program) := by
  refine (block_yields named (nofun : ∀ label ∈ none, Solid label) program.main).bind fun main wellFormed => ?_
  refine (functions_yields named solid).bind fun functions wellFormed' => .pure ?_
  have cells : Code.WellFormed (program.functions.flatMap (storeAddress analysis)) :=
    Code.wellFormed_flatMap fun function member => wellFormed_storeAddress named (solid function member)
  cases withEnvironment <;>
    simp +decide [globals, wellFormed, wellFormed', cells, wellFormed_data, wellFormed_stackStart]

end Lowering

end Stackwright
