import Stackwright.Proofs.Reordering.Rules
import Stackwright.Proofs.Timing

/-! The steps of a program do not depend on the order of its function definitions, nor on the numbers
and regions of nodes. Two runs show the same beats and come to the same end, and at each point of both
the names stand for functions of the same shape and for the same values. -/

set_option autoImplicit false

namespace Stackwright

open Machine

/-- Names stand for the same value, or for functions of the same shape. -/
inductive Meaning.Alike : Meaning → Meaning → Prop where
  | value (value : Value) : Meaning.Alike (.value value) (.value value)
  | function {function function' : Function} : function.Like function' →
      Meaning.Alike (.function function) (.function function')

/-- A place led to is the same one, with names that stand for the same. -/
inductive Flow.Alike : Flow → Flow → Prop where
  | next {names names' : Nest Meaning} : Nest.Alike Meaning.Alike names names' →
      Flow.Alike (.next names) (.next names')
  | returned (value : Option Value) : Flow.Alike (.returned value) (.returned value)

/-- Runs that show the same beats and whose ends are related. -/
inductive Timed.Alike {α β : Type} (related : α → β → Prop) : Timed α → Timed β → Prop where
  | ok {beats : List Beat} {value : α} {value' : β} : related value value' →
      Timed.Alike related ⟨beats, .ok value⟩ ⟨beats, .ok value'⟩
  | error {beats : List Beat} (stop : Stop) : Timed.Alike related ⟨beats, .error stop⟩ ⟨beats, .error stop⟩

namespace Timed

variable {α β γ δ : Type} {related : α → β → Prop} {related' : γ → δ → Prop} {run : Timed α} {run' : Timed β}

theorem Alike.refl (run : Timed α) : Alike Eq run run := by
  obtain ⟨beats, ending⟩ := run
  cases ending with
  | ok value => exact .ok rfl
  | error stop => exact .error stop

theorem Alike.eq {run run' : Timed α} (alike : Alike Eq run run') : run = run' := by
  cases alike with
  | ok same => rw [same]
  | error stop => rfl

theorem Alike.pure {value : α} {value' : β} (also : related value value') :
    Alike related (Pure.pure value) (Pure.pure value') := .ok also

theorem Alike.stuck : Alike related stuck stuck := .error .stuck

theorem Alike.bind {follow : α → Timed γ} {follow' : β → Timed δ} (one : Alike related run run')
    (two : ∀ value value', related value value' → Alike related' (follow value) (follow' value')) :
    Alike related' (run >>= follow) (run' >>= follow') := by
  cases one with
  | @ok beats value value' also =>
    have after := two value value' also
    change Alike related' ⟨beats ++ (follow value).beats, _⟩ ⟨beats ++ (follow' value').beats, _⟩
    generalize follow value = rest, follow' value' = rest' at after ⊢
    cases after with
    | ok also' => exact .ok also'
    | error stop => exact .error stop
  | error stop => exact .error stop

/-- The same steps come first. -/
theorem Alike.emit (beats : List Beat) (after : Alike related run run') :
    Alike related (Timed.emit beats >>= fun _ => run) (Timed.emit beats >>= fun _ => run') :=
  (Alike.refl _).bind fun _ _ _ => after

/-- Calls of functions of the same shape, with the same arguments. -/
def Invoke.Alike (invoke invoke' : Invoke) : Prop :=
  ∀ {function function' : Function}, function.Like function' → ∀ arguments,
    Timed.Alike Eq (invoke function arguments) (invoke' function' arguments)

variable {invoke invoke' : Invoke} {names names' : Nest Meaning}

theorem Invoke.Alike.named {arguments arguments' : Timed (List Value)} (calls : Invoke.Alike invoke invoke')
    (alike : Nest.Alike Meaning.Alike names names') (callee : String)
    (values : Timed.Alike Eq arguments arguments') :
    Timed.Alike Eq (invoke.named names callee arguments) (invoke'.named names' callee arguments') := by
  have found := alike.find? callee
  unfold Invoke.named
  generalize names.find? callee = meaning, names'.find? callee = meaning' at found ⊢
  cases found with
  | none => exact .stuck
  | some same =>
    cases same with
    | value value => exact .stuck
    | @function function function' like =>
      simp only [like.signature, show function.result.ty = function'.result.ty from congrArg Primitive.ty like.result]
      refine values.bind fun first first' equal => ?_
      subst equal
      exact .emit _ ((calls like first).bind fun result result' equal => equal ▸ .refl _)

end Timed

variable {invoke invoke' : Timed.Invoke} (calls : Timed.Invoke.Alike invoke invoke') {base : Base}

include calls

-- The members of a family share its hypotheses, also those that a member only hands on to the others.
set_option linter.unusedSectionVars false in
mutual

theorem Expr.timed_alike {names names' : Nest Meaning} (alike : Nest.Alike Meaning.Alike names names') :
    ∀ {expr expr' : Expr}, expr.bare = expr'.bare →
      Timed.Alike Eq (expr.timed invoke base names) (expr'.timed invoke' base names')
  | .literal value node, expr', same => by
    obtain ⟨node', rfl⟩ := Expr.of_bare_literal same
    cases value <;> exact .refl _
  | .named name, expr', same => by
    obtain ⟨name', rfl, text⟩ := Expr.of_bare_named same
    have found := alike.find? name.text
    rw [Expr.timed, Expr.timed, ← text]
    generalize names.find? name.text = meaning, names'.find? name.text = meaning' at found ⊢
    cases found with
    | none => exact .stuck
    | some here =>
      cases here with
      | value value => exact .refl _
      | function like => exact .stuck
  | .binary operator left right node, expr', same => by
    obtain ⟨left', right', node', rfl, sameLeft, sameRight⟩ := Expr.of_bare_binary same
    rw [Expr.timed, Expr.timed]
    refine .emit _ ((Expr.timed_alike alike sameLeft).bind fun value value' equal => ?_)
    subst equal
    exact .emit _ ((Expr.timed_alike alike sameRight).bind fun value value' equal => equal ▸ .refl _)
  | .unary operator operand node, expr', same => by
    obtain ⟨operand', node', rfl, sameOperand⟩ := Expr.of_bare_unary same
    rw [Expr.timed, Expr.timed]
    exact (Expr.timed_alike alike sameOperand).bind fun value value' equal => equal ▸ .refl _
  | .call callee arguments list node, expr', same => by
    obtain ⟨callee', arguments', list', node', rfl, text, sameArguments⟩ := Expr.of_bare_call same
    rw [Expr.timed, Expr.timed, ← text]
    exact (calls.named alike callee.text (Expr.timedAll_alike alike sameArguments)).bind
      fun result result' equal => equal ▸ .refl _
  | .invalid node, expr', same => by
    obtain ⟨node', rfl⟩ := Expr.of_bare_invalid same
    exact .stuck

theorem Expr.timedAll_alike {names names' : Nest Meaning} (alike : Nest.Alike Meaning.Alike names names') :
    ∀ {exprs exprs' : List Expr}, Expr.bareAll exprs = Expr.bareAll exprs' →
      Timed.Alike Eq (Expr.timedAll invoke base names exprs) (Expr.timedAll invoke' base names' exprs')
  | [], exprs', same => by
    obtain rfl := Expr.of_bareAll_nil same
    exact .refl _
  | first :: rest, exprs', same => by
    obtain ⟨first', rest', rfl, sameFirst, sameRest⟩ := Expr.of_bareAll_cons same
    rw [Expr.timedAll, Expr.timedAll]
    refine (Expr.timedAll_alike alike sameRest).bind fun values values' equal => ?_
    subst equal
    exact .emit _ ((Expr.timed_alike alike sameFirst).bind fun value value' equal => equal ▸ .refl _)

end

section Statements

variable {names names' : Nest Meaning}

theorem Expr.timedStore_alike {expr expr' : Expr} (alike : Nest.Alike Meaning.Alike names names')
    (same : expr.bare = expr'.bare) :
    Timed.Alike Eq (expr.timedStore invoke base names) (expr'.timedStore invoke' base names') := by
  rw [Expr.timedStore, Expr.timedStore]
  exact .emit _ ((Expr.timed_alike calls alike same).bind fun value value' equal => equal ▸ .refl _)

theorem Call.timed_alike {call call' : Call} (alike : Nest.Alike Meaning.Alike names names')
    (same : call.bare = call'.bare) :
    Timed.Alike Eq (call.timed invoke base names) (call'.timed invoke' base names') := by
  simp only [Call.bare, Call.mk.injEq, Name.bare_eq_iff, and_true] at same
  rw [Call.timed, Call.timed, ← same.1]
  exact (calls.named alike call.callee.text (Expr.timedAll_alike calls alike same.2)).bind fun _ _ _ => .refl _

theorem PrintItem.timed_alike {item item' : PrintItem} (alike : Nest.Alike Meaning.Alike names names')
    (same : item.bare = item'.bare) :
    Timed.Alike Eq (item.timed invoke base names) (item'.timed invoke' base names') := by
  cases item with
  | value expr =>
    obtain ⟨expr', rfl, sameExpr⟩ := PrintItem.of_bare_value same
    exact (Expr.timed_alike calls alike sameExpr).bind fun value value' equal => equal ▸ .refl _
  | space span =>
    obtain ⟨span', rfl⟩ := PrintItem.of_bare_space same
    exact .refl _
  | newline span =>
    obtain ⟨span', rfl⟩ := PrintItem.of_bare_newline same
    exact .refl _

theorem PrintItem.timedAll_alike (alike : Nest.Alike Meaning.Alike names names') :
    ∀ {items items' : List PrintItem}, items.map PrintItem.bare = items'.map PrintItem.bare →
      Timed.Alike Eq (PrintItem.timedAll invoke base names items) (PrintItem.timedAll invoke' base names' items')
  | [], items', same => by
    obtain rfl := List.map_eq_nil_iff.mp same.symm
    exact .refl _
  | item :: rest, items', same => by
    obtain ⟨item', rest', rfl, sameItem, sameRest⟩ := List.map_eq_cons_iff.mp same.symm
    exact (PrintItem.timed_alike calls alike sameItem.symm).bind fun _ _ _ =>
      PrintItem.timedAll_alike alike sameRest.symm

omit calls in
theorem Flow.Alike.timed {flow flow' : Flow} (alike : flow.Alike flow') (opcodes : List Opcode) :
    Timed.Alike Flow.Alike (flow.timed opcodes) (flow'.timed opcodes) := by
  cases alike with
  | next same => exact .emit _ (.pure (.next same))
  | returned value => exact .pure (.returned value)

omit calls in
theorem Flow.Alike.leaveBlock {flow flow' : Flow} (alike : flow.Alike flow') :
    flow.leaveBlock.Alike flow'.leaveBlock := by
  cases alike with
  | next same => exact .next same.tail
  | returned value => exact .returned value

theorem Stmt.timed_alike_assign {target target' : Name} {value value' : Expr} {node node' : Node}
    (alike : Nest.Alike Meaning.Alike names names') (text : target.text = target'.text)
    (same : value.bare = value'.bare) :
    Timed.Alike Flow.Alike ((Stmt.assign target value node).timed invoke base names)
      ((Stmt.assign target' value' node').timed invoke' base names') := by
  rw [Stmt.timed, Stmt.timed, ← text]
  refine (Expr.timedStore_alike calls alike same).bind fun result result' equal => ?_
  subst equal
  have found := alike.find? target.text
  generalize names.find? target.text = meaning, names'.find? target.text = meaning' at found ⊢
  cases found with
  | none => exact .stuck
  | some here =>
    cases here with
    | function like => exact .stuck
    | value old =>
      simp only
      split
      · exact .pure (.next (alike.assign _ (.value result)))
      · exact .stuck

end Statements

-- The members of a family share its hypotheses, also those that a member only hands on to the others.
set_option linter.unusedSectionVars false in
mutual

theorem Stmt.timed_alike {names names' : Nest Meaning} (alike : Nest.Alike Meaning.Alike names names') :
    ∀ {stmt stmt' : Stmt}, stmt.bare = stmt'.bare →
      Timed.Alike Flow.Alike (stmt.timed invoke base names) (stmt'.timed invoke' base names')
  | .declare isMutable name value node, stmt', same => by
    obtain ⟨name', value', node', rfl, text, sameValue⟩ := Stmt.of_bare_declare same
    rw [Stmt.timed, Stmt.timed, ← text]
    refine (Expr.timedStore_alike calls alike sameValue).bind fun result result' equal => ?_
    subst equal
    exact .pure (.next (alike.declare _ (.value result)))
  | .assign target value node, stmt', same => by
    obtain ⟨target', value', node', rfl, text, sameValue⟩ := Stmt.of_bare_assign same
    exact Stmt.timed_alike_assign calls alike text sameValue
  | .branch condition thenBlock none node, stmt', same => by
    obtain ⟨condition', thenBlock', elseBlock', node', rfl, sameCondition, sameThen, sameElse⟩ :=
      Stmt.of_bare_branch same
    obtain rfl := Option.map_eq_none_iff.mp sameElse.symm
    rw [Stmt.timed, Stmt.timed]
    refine (Expr.timed_alike calls alike sameCondition).bind fun result result' equal => ?_
    subst equal
    match result with
    | .int _ => exact .stuck
    | .bool true => exact .emit _ ((Block.timed_alike alike sameThen).bind fun flow flow' led => led.timed _)
    | .bool false => exact .emit _ (.pure (.next alike))
  | .branch condition thenBlock (some elseBlock) node, stmt', same => by
    obtain ⟨condition', thenBlock', elseBlock', node', rfl, sameCondition, sameThen, sameElse⟩ :=
      Stmt.of_bare_branch same
    obtain ⟨elseBlock', rfl, sameBlock⟩ := Option.map_eq_some_iff.mp sameElse.symm
    rw [Stmt.timed, Stmt.timed]
    refine (Expr.timed_alike calls alike sameCondition).bind fun result result' equal => ?_
    subst equal
    match result with
    | .int _ => exact .stuck
    | .bool true => exact .emit _ ((Block.timed_alike alike sameThen).bind fun flow flow' led => led.timed _)
    | .bool false => exact .emit _ ((Block.timed_alike alike sameBlock.symm).bind fun flow flow' led => led.timed _)
  | .ret none node, stmt', same => by
    obtain ⟨value', node', rfl, sameValue⟩ := Stmt.of_bare_ret same
    obtain rfl := Option.map_eq_none_iff.mp sameValue.symm
    exact .emit _ (.pure (.returned none))
  | .ret (some value) node, stmt', same => by
    obtain ⟨value', node', rfl, sameValue⟩ := Stmt.of_bare_ret same
    obtain ⟨value', rfl, sameExpr⟩ := Option.map_eq_some_iff.mp sameValue.symm
    rw [Stmt.timed, Stmt.timed]
    refine (Expr.timed_alike calls alike sameExpr.symm).bind fun result result' equal => ?_
    subst equal
    exact .emit _ (.pure (.returned (some result)))
  | .call call node, stmt', same => by
    obtain ⟨call', node', rfl, sameCall⟩ := Stmt.of_bare_call same
    rw [Stmt.timed, Stmt.timed]
    exact (Call.timed_alike calls alike sameCall).bind fun _ _ _ => .pure (.next alike)
  | .print items node, stmt', same => by
    obtain ⟨items', node', rfl, sameItems⟩ := Stmt.of_bare_print same
    rw [Stmt.timed, Stmt.timed]
    exact (PrintItem.timedAll_alike calls alike sameItems).bind fun _ _ _ => .pure (.next alike)
  | .nested body, stmt', same => by
    obtain ⟨body', rfl, sameBody⟩ := Stmt.of_bare_nested same
    rw [Stmt.timed, Stmt.timed]
    exact Block.timed_alike alike sameBody
  | .invalid node, stmt', same => by
    obtain ⟨node', rfl⟩ := Stmt.of_bare_invalid same
    exact .stuck

theorem Block.timed_alike {names names' : Nest Meaning} (alike : Nest.Alike Meaning.Alike names names') :
    ∀ {body body' : Block}, body.bare = body'.bare →
      Timed.Alike Flow.Alike (body.timed invoke base names) (body'.timed invoke' base names')
  | .mk statements node, body', same => by
    obtain ⟨statements', node', rfl, sameStatements⟩ := Block.of_bare_mk same
    rw [Block.timed, Block.timed]
    exact (Stmt.timedAll_alike alike.openBlock sameStatements).bind fun flow flow' led => .pure led.leaveBlock

theorem Stmt.timedAll_alike {names names' : Nest Meaning} (alike : Nest.Alike Meaning.Alike names names') :
    ∀ {stmts stmts' : List Stmt}, Stmt.bareAll stmts = Stmt.bareAll stmts' →
      Timed.Alike Flow.Alike (Stmt.timedAll invoke base names stmts) (Stmt.timedAll invoke' base names' stmts')
  | [], stmts', same => by
    obtain rfl := Stmt.of_bareAll_nil same
    exact .pure (.next alike)
  | first :: rest, stmts', same => by
    obtain ⟨first', rest', rfl, sameFirst, sameRest⟩ := Stmt.of_bareAll_cons same
    rw [Stmt.timedAll, Stmt.timedAll]
    refine (Stmt.timed_alike alike sameFirst).bind fun flow flow' led => ?_
    cases led with
    | next alike' => exact Stmt.timedAll_alike alike' sameRest
    | returned value => exact .pure (.returned value)

end

omit calls

theorem Function.Like.meanings {function function' : Function} (like : function.Like function')
    (arguments : List Value) :
    Parameter.meanings function.parameters arguments = Parameter.meanings function'.parameters arguments := by
  have zipped (parameters : List Parameter) : Parameter.meanings parameters arguments =
      (((parameters.map fun parameter => (parameter.name.text, parameter.type.primitive)).zipWith
        (fun entry value => (entry.1, .value value)) arguments).reverse) := by
    rw [List.zipWith_map_left]
    rfl
  rw [zipped, zipped, like.parameters]

theorem Function.timedEnd_alike {function function' : Function} (like : function.Like function') {flow flow' : Flow}
    (alike : flow.Alike flow') : Timed.Alike Eq (function.timedEnd flow) (function'.timedEnd flow') := by
  have result : function.result.ty = function'.result.ty := congrArg Primitive.ty like.result
  unfold Function.timedEnd
  rw [result]
  cases alike with
  | next same => exact .refl _
  | returned value => exact .refl _

theorem Parameter.meanings_alike (parameters : List Parameter) (arguments : List Value) :
    Nest.AlikeBlock Meaning.Alike (Parameter.meanings parameters arguments) (Parameter.meanings parameters arguments) := by
  refine .of_forall fun entry member => ?_
  rw [Parameter.meanings, List.mem_reverse] at member
  obtain ⟨index, _, rfl⟩ := List.mem_iff_getElem.mp member
  rw [List.getElem_zipWith]
  exact .value _

/-- Calls of functions of two programs, of which one is the other in another order. -/
theorem Function.timed_alike {functions functions' : List Function}
    (alike : Nest.AlikeBlock Meaning.Alike (Function.meanings functions) (Function.meanings functions'))
    (bound : Nat) : Timed.Invoke.Alike (Function.timed functions bound) (Function.timed functions' bound) := by
  -- Induction on how deep calls may nest: those in a body have one level less than the call of it.
  induction bound with
  | zero => exact fun _ _ => .error .timeout
  | succ bound ih =>
    intro function function' like arguments
    rw [Function.timed, Function.timed]
    simp only [like.signature]
    split
    · have names : Nest.Alike Meaning.Alike
          [Parameter.meanings function.parameters arguments, Function.meanings functions]
          [Parameter.meanings function'.parameters arguments, Function.meanings functions'] :=
        .cons (like.meanings arguments ▸ Parameter.meanings_alike _ _) (.cons alike .nil)
      exact .emit _ (.emit _ (.emit _ ((Block.timed_alike ih names like.body).bind
        fun flow flow' led => Function.timedEnd_alike like led)))
    · exact .stuck

/-- A program shows the same beats and comes to the same end in whatever order its functions stand. -/
theorem Program.Reorders.timed_eq {program other : Program} (reorders : program.Reorders other)
    (distinct : (program.functions.map fun function => function.name.text).Nodup) (bound : Nat) :
    program.timed bound = other.timed bound := by
  have alike : Nest.AlikeBlock Meaning.Alike (Function.meanings program.functions)
      (Function.meanings other.functions) := reorders.alikeBlock _ _ distinct .function
  have calls : Timed.Invoke.Alike (Function.timed program.functions bound) (Function.timed other.functions bound) :=
    Function.timed_alike alike bound
  have main : Timed.Alike Flow.Alike (program.main.timed (Function.timed program.functions bound) .global
      [Function.meanings program.functions]) (other.main.timed (Function.timed other.functions bound) .global
      [Function.meanings other.functions]) := Block.timed_alike calls (.cons alike .nil) reorders.main
  have cells : program.functions.flatMap (fun _ => Timed.find .global ++ Opcode.code [.pushAddress, .storeInt]) =
      other.functions.flatMap fun _ => Timed.find .global ++ Opcode.code [.pushAddress, .storeInt] := by
    have count : program.functions.length = other.functions.length := by
      simpa using reorders.functions.length_eq
    rw [List.flatMap_def, List.flatMap_def, List.map_const', List.map_const', count]
  rw [Program.timed, Program.timed, cells]
  refine Timed.Alike.eq (.emit _ (.emit _ (main.bind fun flow flow' led => ?_)))
  cases led with
  | next _ => exact .pure rfl
  | returned value => exact .stuck

end Stackwright
