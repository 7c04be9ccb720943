import Stackwright.Proofs.Build.Image
import Stackwright.Proofs.Reordering.Rules
import Stackwright.Proofs.Lowering.Templates

/-! How much code a program has does not depend on the order of its function definitions. Wherever a
variable lies, finding it takes as many instructions as for any other with the same base. -/

set_option autoImplicit false

namespace Stackwright

/-- Bindings that code treats alike: their types are the same, and their offsets count from the same
base. -/
structure Binding.Alike (binding other : Binding) : Prop where
  ty : binding.ty = other.ty
  base : binding.location.base = other.location.base

theorem Binding.Alike.length {binding other : Binding} (alike : binding.Alike other) :
    binding.addressCode.length = other.addressCode.length := by
  rw [Binding.addressCode, Binding.addressCode, Location.addressCode, Location.addressCode, alike.base]
  cases other.location.base <;> rfl

/-- The same name is found in both nests. -/
theorem Nest.Alike.binding {names names' : Nest Binding} (alike : Nest.Alike Binding.Alike names names')
    {name name' : String} {binding binding' : Binding} (text : name = name') (found : names.find? name = some binding)
    (found' : names'.find? name' = some binding') : binding.Alike binding' := by
  subst text
  have same := alike.find? name
  rw [found, found'] at same
  cases same with
  | some also => exact also

variable {analysis analysis' : Analysis} {names names' : Nest Binding}

namespace Lowering

mutual

/-- Expressions of the same shape have the same type and code of the same length. -/
theorem value_length_eq (alike : Nest.Alike Binding.Alike names names') {expr expr' : Expr} {ty ty' : Ty} :
    Resolved analysis names expr ty → Resolved analysis' names' expr' ty' → expr.bare = expr'.bare →
      ty = ty' ∧ ∀ labeller labeller', (value analysis expr labeller).1.length =
        (value analysis' expr' labeller').1.length
  | .int _, resolved', same => by
    obtain ⟨node', rfl⟩ := Expr.of_bare_literal same
    cases resolved' with
    | int _ => exact ⟨rfl, fun labeller labeller' => by rw [value_literal, value_literal]⟩
  | .bool _, resolved', same => by
    obtain ⟨node', rfl⟩ := Expr.of_bare_literal same
    cases resolved' with
    | bool _ => exact ⟨rfl, fun labeller labeller' => by rw [value_literal, value_literal]⟩
  | .named found noted _, resolved', same => by
    obtain ⟨name', rfl, text⟩ := Expr.of_bare_named same
    cases resolved' with
    | named found' noted' _ =>
      have also := alike.binding text found found'
      refine ⟨also.ty, fun labeller labeller' => ?_⟩
      rw [value_named, value_named, noted, noted', List.length_append, List.length_append, also.length]
      rfl
  | @Resolved.arithmetic _ _ operator left right node kind typedLeft typedRight _, resolved', same => by
    obtain ⟨left', right', node', rfl, sameLeft, sameRight⟩ := Expr.of_bare_binary same
    cases resolved' with
    | greater _ _ _ => exact absurd rfl kind
    | arithmetic _ resolvedLeft resolvedRight _ =>
      refine ⟨rfl, fun labeller labeller' => ?_⟩
      obtain ⟨first, second, code⟩ := value_arithmetic analysis kind left right node labeller
      obtain ⟨first', second', code'⟩ := value_arithmetic analysis' kind left' right' node' labeller'
      have one := (value_length_eq alike typedLeft resolvedLeft sameLeft).2 first first'
      have two := (value_length_eq alike typedRight resolvedRight sameRight).2 second second'
      simp only [code, code', List.length_append, one, two, List.length_singleton]
  | @Resolved.greater _ _ left right node typedLeft typedRight _, resolved', same => by
    obtain ⟨left', right', node', rfl, sameLeft, sameRight⟩ := Expr.of_bare_binary same
    cases resolved' with
    | arithmetic kind _ _ _ => exact absurd rfl kind
    | greater resolvedLeft resolvedRight _ =>
      refine ⟨rfl, fun labeller labeller' => ?_⟩
      obtain ⟨labels, first, second, code⟩ := value_greater analysis left right node labeller
      obtain ⟨labels', first', second', code'⟩ := value_greater analysis' left' right' node' labeller'
      have one := (value_length_eq alike typedLeft resolvedLeft sameLeft).2 first first'
      have two := (value_length_eq alike typedRight resolvedRight sameRight).2 second second'
      simp only [code, code', comparison_eq, List.length_append, one, two, decideCode, List.length_cons, List.length_nil]
  | .negate operand _, resolved', same => by
    obtain ⟨operand', node', rfl, sameOperand⟩ := Expr.of_bare_unary same
    cases resolved' with
    | negate resolvedOperand _ =>
      refine ⟨rfl, fun labeller labeller' => ?_⟩
      have one := (value_length_eq alike operand resolvedOperand sameOperand).2 labeller labeller'
      simp only [value_negate, List.length_append, one, List.length_singleton]
  | .call found callable noted arguments _, resolved', same => by
    obtain ⟨callee', arguments', list', node', rfl, text, sameArguments⟩ := Expr.of_bare_call same
    cases resolved' with
    | call found' callable' noted' resolvedArguments _ =>
      have also := alike.binding text found found'
      obtain ⟨rfl, rfl⟩ := Ty.function.inj (callable.symm.trans (also.ty.trans callable'))
      refine ⟨rfl, fun labeller labeller' => ?_⟩
      have pushed := pushArguments_length_eq alike arguments resolvedArguments sameArguments labeller labeller'
      simp only [value_call analysis noted callable, value_call analysis' noted' callable', invocation_eq, enterCode,
        List.length_append, also.length, pushed]

theorem pushArguments_length_eq (alike : Nest.Alike Binding.Alike names names') {exprs exprs' : List Expr}
    {types : List Ty} : ResolvedAll analysis names exprs types → ResolvedAll analysis' names' exprs' types →
      Expr.bareAll exprs = Expr.bareAll exprs' → ∀ labeller labeller',
        (pushArguments analysis exprs types labeller).1.length =
          (pushArguments analysis' exprs' types labeller').1.length
  | .nil, resolved', same, labeller, labeller' => by
    obtain rfl := Expr.of_bareAll_nil same
    rw [pushArguments, pushArguments] <;> simp
  | @ResolvedAll.cons _ _ first rest ty types typedFirst typedRest, resolved', same, labeller, labeller' => by
    obtain ⟨first', rest', rfl, sameFirst, sameRest⟩ := Expr.of_bareAll_cons same
    cases resolved' with
    | cons resolvedFirst resolvedRest =>
      obtain ⟨next, code⟩ := pushArguments_cons analysis first rest ty types labeller
      obtain ⟨next', code'⟩ := pushArguments_cons analysis' first' rest' ty types labeller'
      have one := (value_length_eq alike typedFirst resolvedFirst sameFirst).2 next next'
      have others := pushArguments_length_eq alike typedRest resolvedRest sameRest labeller labeller'
      simp only [code, code', pushArgument_eq, List.length_append, one, others]

end

theorem printItem_length_eq (alike : Nest.Alike Binding.Alike names names') {item item' : PrintItem}
    (resolved : item.Resolved analysis names) (resolved' : item'.Resolved analysis' names')
    (same : item.bare = item'.bare) (labeller labeller' : Labeller) :
    (printItem analysis item labeller).1.length = (printItem analysis' item' labeller').1.length := by
  cases item with
  | value expr =>
    obtain ⟨expr', rfl, sameExpr⟩ := PrintItem.of_bare_value same
    obtain ⟨ty, typed, _⟩ := resolved
    obtain ⟨ty', typed', _⟩ := resolved'
    obtain ⟨rfl, lengths⟩ := value_length_eq alike typed typed' sameExpr
    change (printValue analysis expr labeller).1.length = (printValue analysis' expr' labeller').1.length
    by_cases truth : ty = .bool
    · obtain ⟨labels, code⟩ := printValue_bool analysis (typed.typeOf_eq.trans truth) labeller
      obtain ⟨labels', code'⟩ := printValue_bool analysis' (typed'.typeOf_eq.trans truth) labeller'
      simp only [code, code', List.length_append, lengths labeller labeller']
      rfl
    · rw [printValue_int analysis (typed.typeOf_eq.trans_ne truth), List.length_append, lengths labeller labeller',
        printValue_int analysis' (typed'.typeOf_eq.trans_ne truth), List.length_append]
  | space span =>
    obtain ⟨span', rfl⟩ := PrintItem.of_bare_space same
    rfl
  | newline span =>
    obtain ⟨span', rfl⟩ := PrintItem.of_bare_newline same
    rfl

theorem printItems_length_eq (alike : Nest.Alike Binding.Alike names names') {items items' : List PrintItem}
    (resolved : ∀ item ∈ items, item.Resolved analysis names)
    (resolved' : ∀ item ∈ items', item.Resolved analysis' names')
    (same : items.map PrintItem.bare = items'.map PrintItem.bare) (labeller labeller' : Labeller) :
    (printItems analysis items labeller).1.length = (printItems analysis' items' labeller').1.length := by
  induction items generalizing items' labeller labeller' with
  | nil =>
    obtain rfl := List.map_eq_nil_iff.mp same.symm
    rfl
  | cons item rest ih =>
    obtain ⟨item', rest', rfl, sameItem, sameRest⟩ := List.map_eq_cons_iff.mp same.symm
    obtain ⟨here, others⟩ := List.forall_mem_cons.mp resolved
    obtain ⟨here', others'⟩ := List.forall_mem_cons.mp resolved'
    rw [printItems_cons, printItems_cons, List.length_append, List.length_append,
      printItem_length_eq alike here here' sameItem.symm labeller labeller', ih others others' sameRest.symm]

theorem store_length_eq (alike : Nest.Alike Binding.Alike names names') {target target' : Name}
    {binding binding' : Binding} {source source' : Expr} (noted : analysis.bindingOf target.node.id = binding)
    (noted' : analysis'.bindingOf target'.node.id = binding') (also : binding.Alike binding')
    (typed : Resolved analysis names source binding.ty) (typed' : Resolved analysis' names' source' binding'.ty)
    (same : source.bare = source'.bare) (labeller labeller' : Labeller) :
    (store analysis target source labeller).1.length = (store analysis' target' source' labeller').1.length := by
  rw [store_eq analysis noted, store_eq analysis' noted', List.length_append, List.length_append, List.length_append,
    List.length_append, also.length, (value_length_eq alike typed typed' same).2 labeller labeller']
  rfl

variable {area area' : Allocator} {result result' : Option Ty} {exit exit' : Option String}

mutual

/-- Statements of the same shape have code of the same length, and leave names that are treated alike. -/
theorem statement_length_eq (base : area.base = area'.base) (exits : exit.isSome = exit'.isSome)
    {names names' after after' : Nest Binding} {stmt stmt' : Stmt} :
    Nest.Alike Binding.Alike names names' → Stmt.Placed analysis area result names stmt after →
      Stmt.Placed analysis' area' result' names' stmt' after' → stmt.bare = stmt'.bare →
      Nest.Alike Binding.Alike after after' ∧ ∀ labeller labeller',
        (statement analysis exit stmt labeller).1.length = (statement analysis' exit' stmt' labeller').1.length
  | alike, .declare typed _ _ _ noted covers _, placed', same => by
    obtain ⟨name', value', node', rfl, text, sameValue⟩ := Stmt.of_bare_declare same
    cases placed' with
    | declare typed' _ _ _ noted' covers' _ =>
      have also : Binding.Alike _ _ :=
        ⟨(value_length_eq alike typed typed' sameValue).1, covers.base.trans (base.trans covers'.base.symm)⟩
      refine ⟨text ▸ alike.declare _ also, fun labeller labeller' => ?_⟩
      rw [statement, statement]
      exact store_length_eq alike noted noted' also typed typed' sameValue labeller labeller'
  | alike, .assign found _ noted typed, placed', same => by
    obtain ⟨target', value', node', rfl, text, sameValue⟩ := Stmt.of_bare_assign same
    cases placed' with
    | assign found' _ noted' typed' =>
      refine ⟨alike, fun labeller labeller' => ?_⟩
      rw [statement, statement]
      exact store_length_eq alike noted noted' (alike.binding text found found') typed typed' sameValue labeller labeller'
  | alike, @Stmt.Placed.branch _ _ _ _ condition thenBlock node typed thenPlaced, placed', same => by
    obtain ⟨condition', thenBlock', elseBlock', node', rfl, sameCondition, sameThen, sameElse⟩ :=
      Stmt.of_bare_branch same
    obtain rfl := Option.map_eq_none_iff.mp sameElse.symm
    cases placed' with
    | branch typed' thenPlaced' =>
      refine ⟨alike, fun labeller labeller' => ?_⟩
      obtain ⟨labels, first, second, code⟩ := statement_branch analysis exit condition thenBlock node labeller
      obtain ⟨labels', first', second', code'⟩ := statement_branch analysis' exit' condition' thenBlock' node' labeller'
      have one := (value_length_eq alike typed typed' sameCondition).2 first first'
      have two := block_length_eq base exits alike thenPlaced thenPlaced' sameThen second second'
      simp only [code, code', List.length_append, one, two, List.length_cons, List.length_nil]
  | alike, @Stmt.Placed.branchElse _ _ _ _ condition thenBlock elseBlock node typed thenPlaced elsePlaced, placed', same => by
    obtain ⟨condition', thenBlock', elseBlock', node', rfl, sameCondition, sameThen, sameElse⟩ :=
      Stmt.of_bare_branch same
    obtain ⟨elseBlock', rfl, sameBlock⟩ := Option.map_eq_some_iff.mp sameElse.symm
    cases placed' with
    | branchElse typed' thenPlaced' elsePlaced' =>
      refine ⟨alike, fun labeller labeller' => ?_⟩
      obtain ⟨labels, first, second, third, code⟩ :=
        statement_branchElse analysis exit condition thenBlock elseBlock node labeller
      obtain ⟨labels', first', second', third', code'⟩ :=
        statement_branchElse analysis' exit' condition' thenBlock' elseBlock' node' labeller'
      have one := (value_length_eq alike typed typed' sameCondition).2 first first'
      have two := block_length_eq base exits alike thenPlaced thenPlaced' sameThen second second'
      have three := block_length_eq base exits alike elsePlaced elsePlaced' sameBlock.symm third third'
      simp only [code, code', List.length_append, one, two, three, List.length_cons, List.length_nil]
  | alike, .ret _, placed', same => by
    obtain ⟨value', node', rfl, sameValue⟩ := Stmt.of_bare_ret same
    obtain rfl := Option.map_eq_none_iff.mp sameValue.symm
    cases placed' with
    | ret _ =>
      refine ⟨alike, fun labeller labeller' => ?_⟩
      rw [statement_ret, statement_ret, List.length_map, List.length_map, Option.length_toList, Option.length_toList, exits]
  | alike, .retValue typed _ _, placed', same => by
    obtain ⟨value', node', rfl, sameValue⟩ := Stmt.of_bare_ret same
    obtain ⟨value', rfl, sameExpr⟩ := Option.map_eq_some_iff.mp sameValue.symm
    cases placed' with
    | retValue typed' _ _ =>
      refine ⟨alike, fun labeller labeller' => ?_⟩
      rw [statement_retValue, statement_retValue, List.length_append, List.length_append, List.length_map,
        List.length_map, Option.length_toList, Option.length_toList, exits,
        (value_length_eq alike typed typed' sameExpr.symm).2 labeller labeller']
  | alike, .call typed, placed', same => by
    obtain ⟨call', node', rfl, sameCall⟩ := Stmt.of_bare_call same
    cases placed' with
    | call typed' =>
      refine ⟨alike, fun labeller labeller' => ?_⟩
      rw [statement_call, statement_call, List.length_append, List.length_append,
        (value_length_eq alike typed typed' (Call.bare_expr sameCall)).2 labeller labeller']
  | alike, .print resolved, placed', same => by
    obtain ⟨items', node', rfl, sameItems⟩ := Stmt.of_bare_print same
    cases placed' with
    | print resolved' =>
      refine ⟨alike, fun labeller labeller' => ?_⟩
      rw [statement, statement]
      exact printItems_length_eq alike resolved resolved' sameItems labeller labeller'
  | alike, .nested placed, placed', same => by
    obtain ⟨body', rfl, sameBody⟩ := Stmt.of_bare_nested same
    cases placed' with
    | nested placed' =>
      refine ⟨alike, fun labeller labeller' => ?_⟩
      rw [statement, statement]
      exact block_length_eq base exits alike placed placed' sameBody labeller labeller'

theorem block_length_eq (base : area.base = area'.base) (exits : exit.isSome = exit'.isSome)
    {names names' : Nest Binding} {body body' : Block} :
    Nest.Alike Binding.Alike names names' → Block.Placed analysis area result names body →
      Block.Placed analysis' area' result' names' body' → body.bare = body'.bare → ∀ labeller labeller',
        (block analysis exit body labeller).1.length = (block analysis' exit' body' labeller').1.length
  | alike, .mk placed, placed', same, labeller, labeller' => by
    obtain ⟨statements', node', rfl, sameStatements⟩ := Block.of_bare_mk same
    cases placed' with
    | mk placed' =>
      rw [block, block]
      exact statements_length_eq base exits alike.openBlock placed placed' sameStatements labeller labeller'

theorem statements_length_eq (base : area.base = area'.base) (exits : exit.isSome = exit'.isSome)
    {names names' after after' : Nest Binding} {stmts stmts' : List Stmt} :
    Nest.Alike Binding.Alike names names' → Stmt.PlacedAll analysis area result names stmts after →
      Stmt.PlacedAll analysis' area' result' names' stmts' after' → Stmt.bareAll stmts = Stmt.bareAll stmts' →
      ∀ labeller labeller',
        (statements analysis exit stmts labeller).1.length = (statements analysis' exit' stmts' labeller').1.length
  | alike, .nil, placed', same, labeller, labeller' => by
    obtain rfl := Stmt.of_bareAll_nil same
    rw [statements, statements]
    rfl
  | alike, .cons first rest, placed', same, labeller, labeller' => by
    obtain ⟨first', rest', rfl, sameFirst, sameRest⟩ := Stmt.of_bareAll_cons same
    cases placed' with
    | cons placedFirst placedRest =>
      obtain ⟨after, one⟩ := statement_length_eq base exits alike first placedFirst sameFirst
      rw [statements_cons, statements_cons, List.length_append, List.length_append, one labeller labeller',
        statements_length_eq base exits after rest placedRest sameRest]

end

/-- The length of what stands before the body of a function is always the same. -/
theorem prologue_length (name : String) (frameSize : Nat) :
    (prologue name frameSize).length = (prologue "" 0).length := rfl

theorem epilogue_length (name : String) (result : Ty) :
    (epilogue name result).length = (epilogue "" result).length := by
  simp only [epilogue, List.length_append, List.length_cons, List.length_nil]

theorem function_length_eq {functions functions' : List Function} {function function' : Function}
    (alike : Nest.AlikeBlock Binding.Alike (Function.cells functions).reverse (Function.cells functions').reverse)
    (like : function.Like function') (placed : function.Placed analysis functions)
    (placed' : function'.Placed analysis' functions') (labeller labeller' : Labeller) :
    (Lowering.function analysis function labeller).1.length =
      (Lowering.function analysis' function' labeller').1.length := by
  obtain ⟨after, body⟩ := placed.body
  obtain ⟨after', body'⟩ := placed'.body
  have outer : Nest.Alike Binding.Alike (function.visible functions) (function'.visible functions') := by
    refine .cons ?_ (.cons alike .nil)
    rw [Parameter.cells, Parameter.cells, like.types]
    exact Nest.AlikeBlock.of_forall fun _ _ => ⟨rfl, rfl⟩
  have lengths (exit exit' : String) : (block analysis (some exit) function.body labeller).1.length =
      (block analysis' (some exit') function'.body labeller').1.length := by
    refine block_length_eq ?_ ?_ outer (Block.placed_of_statements body) (Block.placed_of_statements body') like.body
      labeller labeller' <;> rfl
  simp only [Lowering.function, bind_apply, pure_apply, List.length_append]
  rw [lengths, prologue_length, prologue_length function'.name.text, epilogue_length,
    epilogue_length function'.name.text, like.resultType]

/-- Functions have code of the same length whatever the labels of it are. -/
theorem functions_length {functions all : List Function} (placed : ∀ function ∈ functions, function.Placed analysis all)
    (labeller labeller' : Labeller) : (Lowering.functions analysis functions labeller).1.length =
      (functions.map fun function => (Lowering.function analysis function labeller').1.length).sum := by
  have like (function : Function) : function.Like function := ⟨rfl, rfl, rfl, rfl⟩
  induction functions generalizing labeller with
  | nil => rfl
  | cons function rest ih =>
    obtain ⟨here, others⟩ := List.forall_mem_cons.mp placed
    have one := function_length_eq (.of_forall fun _ _ => ⟨rfl, rfl⟩) (like function) here here labeller labeller'
    simp only [Lowering.functions, bind_apply, pure_apply, List.length_append, List.map_cons, List.sum_cons, one,
      ih others]

end Lowering

namespace Function

theorem cells_names (functions : List Function) :
    (Function.cells functions).map Prod.fst = functions.map fun function => function.name.text := by
  rw [Function.cells, cellsFrom_names, List.map_map]
  rfl

theorem of_mem_cells {functions : List Function} {entry : String × Binding} (member : entry ∈ Function.cells functions) :
    ∃ function ∈ functions, function.name.text = entry.1 ∧ entry.2.ty = function.signature.ty ∧
      entry.2.location.base = .global := by
  obtain ⟨base, _, _, declared⟩ := mem_cellsFrom member
  obtain ⟨function, inside, same⟩ := List.mem_map.mp declared
  obtain ⟨name, ty⟩ := Prod.mk.inj same
  exact ⟨function, inside, name, ty.symm, base⟩

theorem exists_cell {functions : List Function} {function : Function} (member : function ∈ functions) :
    ∃ index, (function.name.text, function.cell index) ∈ Function.cells functions := by
  obtain ⟨index, inside, rfl⟩ := List.getElem_of_mem member
  refine ⟨index, ?_⟩
  rw [Function.cells_eq]
  exact List.mem_mapIdx.mpr ⟨index, inside, rfl⟩

end Function

namespace Program.Reorders

variable {program other : Program} (reorders : program.Reorders other)

include reorders

/-- The cells of functions are treated alike, in whatever order the functions come. -/
theorem alike_cells (distinct : (program.functions.map fun function => function.name.text).Nodup) :
    Nest.AlikeBlock Binding.Alike (Function.cells program.functions).reverse
      (Function.cells other.functions).reverse := by
  apply Nest.alikeBlock_of_mem
  · rw [List.map_reverse, List.nodup_reverse, Function.cells_names]
    exact reorders.names_perm.nodup_iff.mp distinct
  · intro entry declared
    obtain ⟨function, member, name, ty, base⟩ := Function.of_mem_cells (List.mem_reverse.mp declared)
    obtain ⟨function', member', like⟩ := reorders.exists_like member
    obtain ⟨index, cell⟩ := Function.exists_cell member'
    refine ⟨function'.cell index, List.mem_reverse.mpr ?_, ty.trans (congrArg Signature.ty like.signature), base⟩
    rwa [← name, like.name]
  · intro entry declared
    rw [List.map_reverse, List.mem_reverse, Function.cells_names]
    have inOther : entry.1 ∈ (Function.cells other.functions).map Prod.fst :=
      List.mem_map_of_mem (List.mem_reverse.mp declared)
    rw [Function.cells_names] at inOther
    exact reorders.names_perm.mem_iff.mpr inOther

/-- What is the same for functions of the same shape is the same for both programs, but for its order. -/
theorem map_perm {α : Type} (measure measure' : Function → α) (also : ∀ {function function' : Function},
    function ∈ program.functions → function' ∈ other.functions → function.Like function' →
      measure function = measure' function') :
    (program.functions.map measure).Perm (other.functions.map measure') := by
  have bared : List.Forall₂ (fun bare (function : Function) => bare = function.bare)
      (program.functions.map Function.bare) program.functions :=
    List.forall₂_map_left_iff.mpr (List.forall₂_same.mpr fun _ _ => rfl)
  -- The functions of the one program in the order of the other.
  obtain ⟨middle, same, perm⟩ := List.perm_comp_forall₂ reorders.functions.symm bared
  have equal : middle.map measure = other.functions.map measure' := by
    obtain ⟨length, each⟩ := List.forall₂_iff_get.mp (List.forall₂_map_left_iff.mp same)
    refine List.ext_getElem (by rw [List.length_map, List.length_map, length]) fun index inside inside' => ?_
    rw [List.getElem_map, List.getElem_map]
    rw [List.length_map] at inside inside'
    exact also (perm.subset (List.getElem_mem inside)) (List.getElem_mem inside')
      (Function.like_of_bare (each index inside' inside).symm)
  exact equal ▸ perm.symm.map measure

end Program.Reorders

/-- Programs that differ in the order of their functions have code of the same length. -/
theorem Checked.length_eq_of_reorders {checked checked' : Checked} (reorders : checked.program.Reorders checked'.program) :
    checked.code.length = checked'.code.length := by
  have alike := reorders.alike_cells checked.placed.names
  have count := reorders.functions.length_eq
  rw [List.length_map, List.length_map] at count
  have main : checked.main.length = checked'.main.length := by
    refine Lowering.block_length_eq ?_ ?_ (.cons alike .nil) checked.placed.main checked'.placed.main reorders.main _ _ <;>
      rfl
  have bodies : checked.bodies.length = checked'.bodies.length := by
    rw [Checked.bodies, Checked.bodies, Lowering.functions_length checked.placed.functions _ checked.labeller,
      Lowering.functions_length checked'.placed.functions _ checked'.labeller]
    refine (reorders.map_perm _ _ fun member member' like => ?_).sum_eq
    exact Lowering.function_length_eq alike like (checked.placed.functions _ member)
      (checked'.placed.functions _ member') _ _
  rw [Checked.code_length, Checked.code_length, count, main, bodies]

end Stackwright
