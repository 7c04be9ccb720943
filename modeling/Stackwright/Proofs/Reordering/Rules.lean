import Stackwright.Proofs.Reordering.Names
import Stackwright.Proofs.Rules
import Stackwright.Proofs.Tree.Shape

/-! The static rules do not care for the order of function definitions, nor for the numbers and regions
of nodes: a program whose functions stand in another order obeys them as well. -/

set_option autoImplicit false

namespace Stackwright

/-- The same program with its function definitions in another order, but for the numbers and regions of
its nodes. -/
structure Program.Reorders (program other : Program) : Prop where
  functions : (program.functions.map Function.bare).Perm (other.functions.map Function.bare)
  main : program.main.bare = other.main.bare

variable {context context' after : Context} {result : Option Ty}

mutual

theorem HasType.transport {expr expr' : Expr} {ty : Ty} (alike : Nest.Alike Eq context context') :
    HasType context expr ty → expr.bare = expr'.bare → HasType context' expr' ty
  | .int, same => by
    obtain ⟨node', rfl⟩ := Expr.of_bare_literal same
    exact .int
  | .bool, same => by
    obtain ⟨node', rfl⟩ := Expr.of_bare_literal same
    exact .bool
  | .named found, same => by
    obtain ⟨name', rfl, text⟩ := Expr.of_bare_named same
    exact .named (text ▸ alike.find?_eq _ ▸ found)
  | .arithmetic kind left right, same => by
    obtain ⟨left', right', node', rfl, sameLeft, sameRight⟩ := Expr.of_bare_binary same
    exact .arithmetic kind (left.transport alike sameLeft) (right.transport alike sameRight)
  | .greater left right, same => by
    obtain ⟨left', right', node', rfl, sameLeft, sameRight⟩ := Expr.of_bare_binary same
    exact .greater (left.transport alike sameLeft) (right.transport alike sameRight)
  | .negate operand, same => by
    obtain ⟨operand', node', rfl, sameOperand⟩ := Expr.of_bare_unary same
    exact .negate (operand.transport alike sameOperand)
  | .call found signature arguments, same => by
    obtain ⟨callee', arguments', list', node', rfl, text, sameArguments⟩ := Expr.of_bare_call same
    exact .call (text ▸ alike.find?_eq _ ▸ found) signature (arguments.transport alike sameArguments)

theorem HaveTypes.transport {exprs exprs' : List Expr} {types : List Ty} (alike : Nest.Alike Eq context context') :
    HaveTypes context exprs types → Expr.bareAll exprs = Expr.bareAll exprs' → HaveTypes context' exprs' types
  | .nil, same => by
    obtain rfl := Expr.of_bareAll_nil same
    exact .nil
  | .cons first rest, same => by
    obtain ⟨first', rest', rfl, sameFirst, sameRest⟩ := Expr.of_bareAll_cons same
    exact .cons (first.transport alike sameFirst) (rest.transport alike sameRest)

end

theorem PrintItem.Fits.transport {item item' : PrintItem} (alike : Nest.Alike Eq context context')
    (fits : item.Fits context) (same : item.bare = item'.bare) : item'.Fits context' := by
  cases item with
  | value expr =>
    obtain ⟨expr', rfl, sameExpr⟩ := PrintItem.of_bare_value same
    obtain ⟨ty, typed, isValue⟩ := fits
    exact ⟨ty, typed.transport alike sameExpr, isValue⟩
  | space span =>
    obtain ⟨span', rfl⟩ := PrintItem.of_bare_space same
    trivial
  | newline span =>
    obtain ⟨span', rfl⟩ := PrintItem.of_bare_newline same
    trivial

theorem exists_of_map_eq {α β : Type} {f : α → β} {first second : List α} (same : first.map f = second.map f) :
    ∀ item ∈ second, ∃ item' ∈ first, f item' = f item := by
  intro item member
  have mapped : f item ∈ first.map f := same ▸ List.mem_map_of_mem member
  exact List.mem_map.mp mapped

mutual

theorem Stmt.Fits.transport {stmt stmt' : Stmt} {context context' after : Context} :
    Nest.Alike Eq context context' → Stmt.Fits result context stmt after → stmt.bare = stmt'.bare →
      ∃ after', Stmt.Fits result context' stmt' after' ∧ Nest.Alike Eq after after'
  | alike, .declare typed isValue fresh, same => by
    obtain ⟨name', value', node', rfl, text, sameValue⟩ := Stmt.of_bare_declare same
    refine ⟨_, .declare (typed.transport alike sameValue) isValue ?_, text ▸ alike.declare _ rfl⟩
    exact fun declared => fresh (alike.declares_iff.mpr (text ▸ declared))
  | alike, .assign found typed, same => by
    obtain ⟨target', value', node', rfl, text, sameValue⟩ := Stmt.of_bare_assign same
    exact ⟨_, .assign (text ▸ alike.find?_eq _ ▸ found) (typed.transport alike sameValue), alike⟩
  | alike, .branch typed thenFits, same => by
    obtain ⟨condition', thenBlock', elseBlock', node', rfl, sameCondition, sameThen, sameElse⟩ :=
      Stmt.of_bare_branch same
    obtain rfl := Option.map_eq_none_iff.mp sameElse.symm
    exact ⟨_, .branch (typed.transport alike sameCondition) (Block.Fits.transport alike thenFits sameThen), alike⟩
  | alike, .branchElse typed thenFits elseFits, same => by
    obtain ⟨condition', thenBlock', elseBlock', node', rfl, sameCondition, sameThen, sameElse⟩ :=
      Stmt.of_bare_branch same
    obtain ⟨elseBlock', rfl, sameBlock⟩ := Option.map_eq_some_iff.mp sameElse.symm
    exact ⟨_, .branchElse (typed.transport alike sameCondition) (Block.Fits.transport alike thenFits sameThen)
      (Block.Fits.transport alike elseFits sameBlock.symm), alike⟩
  | alike, .ret expected, same => by
    obtain ⟨value', node', rfl, sameValue⟩ := Stmt.of_bare_ret same
    obtain rfl := Option.map_eq_none_iff.mp sameValue.symm
    exact ⟨_, .ret expected, alike⟩
  | alike, .retValue typed isValue expected, same => by
    obtain ⟨value', node', rfl, sameValue⟩ := Stmt.of_bare_ret same
    obtain ⟨value', rfl, sameExpr⟩ := Option.map_eq_some_iff.mp sameValue.symm
    exact ⟨_, .retValue (typed.transport alike sameExpr.symm) isValue expected, alike⟩
  | alike, .call typed, same => by
    obtain ⟨call', node', rfl, sameCall⟩ := Stmt.of_bare_call same
    exact ⟨_, .call (typed.transport alike (Call.bare_expr sameCall)), alike⟩
  | alike, .print fits, same => by
    obtain ⟨items', node', rfl, sameItems⟩ := Stmt.of_bare_print same
    refine ⟨_, .print fun item' member => ?_, alike⟩
    obtain ⟨item, member, sameItem⟩ := exists_of_map_eq sameItems item' member
    exact (fits item member).transport alike sameItem
  | alike, .nested fits, same => by
    obtain ⟨body', rfl, sameBody⟩ := Stmt.of_bare_nested same
    exact ⟨_, .nested (Block.Fits.transport alike fits sameBody), alike⟩

theorem Block.Fits.transport {body body' : Block} {context context' : Context} :
    Nest.Alike Eq context context' → Block.Fits result context body → body.bare = body'.bare →
      Block.Fits result context' body'
  | alike, .mk fits, same => by
    obtain ⟨statements', node', rfl, sameStatements⟩ := Block.of_bare_mk same
    obtain ⟨after', fits', _⟩ := Stmt.FitAll.transport alike.openBlock fits sameStatements
    exact .mk fits'

theorem Stmt.FitAll.transport {stmts stmts' : List Stmt} {context context' after : Context} :
    Nest.Alike Eq context context' → Stmt.FitAll result context stmts after →
      Stmt.bareAll stmts = Stmt.bareAll stmts' →
      ∃ after', Stmt.FitAll result context' stmts' after' ∧ Nest.Alike Eq after after'
  | alike, .nil, same => by
    obtain rfl := Stmt.of_bareAll_nil same
    exact ⟨_, .nil, alike⟩
  | alike, .cons first rest, same => by
    obtain ⟨first', rest', rfl, sameFirst, sameRest⟩ := Stmt.of_bareAll_cons same
    obtain ⟨between', here, alikeBetween⟩ := Stmt.Fits.transport alike first sameFirst
    obtain ⟨after', others, alikeAfter⟩ := Stmt.FitAll.transport alikeBetween rest sameRest
    exact ⟨after', .cons here others, alikeAfter⟩

end

mutual

theorem Stmt.Completes.transport {stmt stmt' : Stmt} :
    Stmt.Completes stmt → stmt.bare = stmt'.bare → Stmt.Completes stmt'
  | .declare, same => by
    obtain ⟨name', value', node', rfl, _⟩ := Stmt.of_bare_declare same
    exact .declare
  | .assign, same => by
    obtain ⟨target', value', node', rfl, _⟩ := Stmt.of_bare_assign same
    exact .assign
  | .thenPath completes, same => by
    obtain ⟨condition', thenBlock', elseBlock', node', rfl, _, sameThen, _⟩ := Stmt.of_bare_branch same
    exact .thenPath (completes.transport sameThen)
  | .elsePath completes, same => by
    obtain ⟨condition', thenBlock', elseBlock', node', rfl, _, _, sameElse⟩ := Stmt.of_bare_branch same
    obtain ⟨elseBlock', rfl, sameBlock⟩ := Option.map_eq_some_iff.mp sameElse.symm
    exact .elsePath (completes.transport sameBlock.symm)
  | .skipped, same => by
    obtain ⟨condition', thenBlock', elseBlock', node', rfl, _, _, sameElse⟩ := Stmt.of_bare_branch same
    obtain rfl := Option.map_eq_none_iff.mp sameElse.symm
    exact .skipped
  | .call, same => by
    obtain ⟨call', node', rfl, _⟩ := Stmt.of_bare_call same
    exact .call
  | .print, same => by
    obtain ⟨items', node', rfl, _⟩ := Stmt.of_bare_print same
    exact .print
  | .nested completes, same => by
    obtain ⟨body', rfl, sameBody⟩ := Stmt.of_bare_nested same
    exact .nested (completes.transport sameBody)
  | .invalid, same => by
    obtain ⟨node', rfl⟩ := Stmt.of_bare_invalid same
    exact .invalid

theorem Block.Completes.transport {body body' : Block} :
    Block.Completes body → body.bare = body'.bare → Block.Completes body'
  | .mk completes, same => by
    obtain ⟨statements', node', rfl, sameStatements⟩ := Block.of_bare_mk same
    exact .mk (completes.transport sameStatements)

theorem Stmt.CompleteAll.transport {stmts stmts' : List Stmt} :
    Stmt.CompleteAll stmts → Stmt.bareAll stmts = Stmt.bareAll stmts' → Stmt.CompleteAll stmts'
  | .nil, same => by
    obtain rfl := Stmt.of_bareAll_nil same
    exact .nil
  | .cons first rest, same => by
    obtain ⟨first', rest', rfl, sameFirst, sameRest⟩ := Stmt.of_bareAll_cons same
    exact .cons (first.transport sameFirst) (rest.transport sameRest)

end

namespace Function.Like

variable {function function' : Function}

theorem resultType (like : function.Like function') : function.result.ty = function'.result.ty :=
  congrArg Primitive.ty like.result

theorem types (like : function.Like function') :
    (function.parameters.map fun parameter => (parameter.name.text, parameter.type.ty)) =
      function'.parameters.map fun parameter => (parameter.name.text, parameter.type.ty) := by
  have same := congrArg (List.map fun entry : String × Primitive => (entry.1, entry.2.ty)) like.parameters
  simp only [List.map_map, Function.comp_def] at same
  exact same

theorem signature (like : function.Like function') : function.signature = function'.signature := by
  have types := congrArg (List.map Prod.snd) like.types
  simp only [List.map_map, Function.comp_def] at types
  rw [Function.signature, Function.signature, types, like.resultType]

theorem entries (like : function.Like function') :
    Parameter.entries function.parameters = Parameter.entries function'.parameters := by
  have same := congrArg (List.map fun entry : String × Ty => (entry.1, Entry.mk entry.2 false)) like.types
  simp only [List.map_map, Function.comp_def] at same
  exact congrArg List.reverse same

theorem statements (like : function.Like function') :
    Stmt.bareAll function.body.statements = Stmt.bareAll function'.body.statements := by
  have same := like.body
  revert same
  cases function.body
  cases function'.body
  simp [Block.bare, Block.statements]

/-- A function obeys the rules as well as another of the same shape. -/
theorem wellFormed {functions functions' : List Function} (like : function.Like function')
    (alike : Nest.AlikeBlock Eq (Function.entries functions) (Function.entries functions'))
    (wellFormed : function.WellFormed functions) : function'.WellFormed functions' := by
  constructor
  · have names := congrArg (List.map Prod.fst) like.types
    simp only [List.map_map, Function.comp_def] at names
    exact names ▸ wellFormed.parameters
  · obtain ⟨after, fits⟩ := wellFormed.body
    have outer : Nest.Alike Eq [Parameter.entries function.parameters, Function.entries functions]
        [Parameter.entries function'.parameters, Function.entries functions'] :=
      .cons (like.entries ▸ Nest.AlikeBlock.of_forall fun _ _ => rfl) (.cons alike .nil)
    obtain ⟨after', fits', _⟩ := Stmt.FitAll.transport outer.openBlock fits like.statements
    exact ⟨after', like.resultType ▸ fits'⟩
  · intro proper completes
    exact wellFormed.returns (like.resultType ▸ proper) (completes.transport like.body.symm)

end Function.Like

namespace Program.Reorders

variable {program other : Program} (reorders : program.Reorders other)

include reorders

theorem symm : other.Reorders program := ⟨reorders.functions.symm, reorders.main.symm⟩

/-- Every function of the one program has its like in the other. -/
theorem exists_like {function : Function} (member : function ∈ program.functions) :
    ∃ function' ∈ other.functions, function.Like function' := by
  have moved : function.bare ∈ other.functions.map Function.bare :=
    reorders.functions.subset (List.mem_map_of_mem member)
  obtain ⟨function', member', same⟩ := List.mem_map.mp moved
  exact ⟨function', member', Function.like_of_bare same.symm⟩

theorem names_perm : (program.functions.map fun function => function.name.text).Perm
    (other.functions.map fun function => function.name.text) := by
  have mapped := reorders.functions.map fun function => function.name.text
  simpa only [List.map_map, Function.comp_def, Function.bare, Name.bare] using mapped

/-- What functions stand for depends on their shape only, and not on their order. -/
theorem alikeBlock {α β : Type} {related : α → β → Prop} (stands : Function → α) (stands' : Function → β)
    (distinct : (program.functions.map fun function => function.name.text).Nodup)
    (also : ∀ {function function' : Function}, function.Like function' → related (stands function) (stands' function')) :
    Nest.AlikeBlock related (program.functions.map fun function => (function.name.text, stands function)).reverse
      (other.functions.map fun function => (function.name.text, stands' function)).reverse := by
  -- As no name is declared twice, it is enough that each block has the entries of the other.
  apply Nest.alikeBlock_of_mem
  · rw [List.map_reverse, List.nodup_reverse, List.map_map]
    exact reorders.names_perm.nodup_iff.mp distinct
  · intro entry declared
    obtain ⟨function, member, rfl⟩ := List.mem_map.mp (List.mem_reverse.mp declared)
    obtain ⟨function', member', like⟩ := reorders.exists_like member
    refine ⟨stands' function', List.mem_reverse.mpr (List.mem_map.mpr ⟨function', member', ?_⟩), also like⟩
    rw [like.name]
  · intro entry declared
    obtain ⟨function', member', rfl⟩ := List.mem_map.mp (List.mem_reverse.mp declared)
    obtain ⟨function, member, like⟩ := reorders.symm.exists_like member'
    rw [List.map_reverse, List.mem_reverse, List.map_map]
    exact List.mem_map.mpr ⟨function, member, like.name.symm⟩

/-- The rules do not care for the order of functions. -/
theorem wellFormed (wellFormed : program.WellFormed) : other.WellFormed := by
  have alike : Nest.AlikeBlock Eq (Function.entries program.functions) (Function.entries other.functions) :=
    reorders.alikeBlock _ _ wellFormed.names fun like => by rw [like.signature]
  refine ⟨reorders.names_perm.nodup_iff.mp wellFormed.names, fun function' member' => ?_, ?_⟩
  · obtain ⟨function, member, like⟩ := reorders.symm.exists_like member'
    exact like.symm.wellFormed alike (wellFormed.functions function member)
  · exact wellFormed.main.transport (.cons alike .nil) reorders.main

end Program.Reorders

end Stackwright
