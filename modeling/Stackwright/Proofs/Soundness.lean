import Stackwright.Proofs.ReturnPaths
import Stackwright.Proofs.Semantics
import Stackwright.Proofs.Tree.Nodes

/-! A program that obeys the static rules never gets stuck: while it runs, every name stands for
something of the type that the rules know for it, and every body comes out where the rules say. -/

set_option autoImplicit false

namespace Stackwright

/-- Whatever was printed before, the run is not stuck, and a result that it has is good. -/
def Exec.Sound {α : Type} (run : Exec α) (good : α → Prop) : Prop :=
  ∀ output,
    match run output with
    | .ok (value, _) => good value
    | .error stop => stop = .timeout

namespace Exec.Sound

variable {α β : Type} {run : Exec α} {good : α → Prop}

theorem pure {value : α} (holds : good value) : Sound (Pure.pure value) good := fun _ => holds

theorem timeout : Sound (.timeout : Exec α) good := fun _ => rfl

theorem write (text : String) : Sound (Exec.write text) fun _ => True := fun _ => trivial

theorem mono {better : α → Prop} (sound : Sound run good) (implies : ∀ value, good value → better value) :
    Sound run better := by
  intro output
  have here := sound output
  split at here
  · exact implies _ here
  · exact here

theorem bind {follow : α → Exec β} {better : β → Prop} (one : Sound run good)
    (two : ∀ value, good value → Sound (follow value) better) : Sound (run >>= follow) better := by
  intro output
  have first := one output
  rw [Exec.bind_apply]
  cases ended : run output with
  | error stop =>
    rw [ended] at first
    exact first
  | ok result =>
    rw [ended] at first
    exact two result.1 first result.2

end Exec.Sound

/-- What a name of a program with the given functions may stand for. -/
def Entry.Admits (functions : List Function) (entry : Entry) : Meaning → Prop
  | .value value => value.ty = entry.ty
  | .function function => function ∈ functions ∧ entry = ⟨function.signature.ty, false⟩

/-- What a function may give back. -/
def Function.Gives (function : Function) : Option Value → Prop
  | some value => value.ty = function.result.ty
  | none => function.result.ty = .void

/-- Calls of the functions with arguments of the right types do not get stuck. -/
def Invoke.Sound (invoke : Invoke) (functions : List Function) : Prop :=
  ∀ function ∈ functions, ∀ arguments : List Value,
    arguments.map Value.ty = function.signature.parameters → (invoke function arguments).Sound function.Gives

theorem Entry.Admits.function_of_ty {functions : List Function} {entry : Entry} {meaning : Meaning}
    {parameters : List Ty} {result : Ty} (admits : entry.Admits functions meaning)
    (callable : entry.ty = .function parameters result) :
    ∃ function ∈ functions, meaning = .function function ∧
      function.signature.parameters = parameters ∧ function.result.ty = result := by
  cases meaning with
  | value value =>
    have isValue := value.isValue_ty
    rw [show value.ty = _ from admits, callable] at isValue
    cases isValue
  | function function =>
    obtain ⟨member, rfl⟩ := admits
    injection callable with parameters result
    exact ⟨function, member, rfl, parameters, result⟩

theorem Entry.Admits.variable_of_ty {functions : List Function} {entry : Entry} {meaning : Meaning}
    (admits : entry.Admits functions meaning) (isValue : entry.ty.isValue = true) :
    ∃ value, meaning = .value value ∧ value.ty = entry.ty := by
  cases meaning with
  | value value => exact ⟨value, rfl, admits⟩
  | function function =>
    rw [admits.2] at isValue
    cases isValue

theorem TypeMark.isValue_of_ne_void {mark : TypeMark} (valued : mark.primitive ≠ .void) :
    mark.ty.isValue = true := by
  unfold TypeMark.ty
  cases kind : mark.primitive with
  | void => exact absurd kind valued
  | int | bool => rfl

theorem Function.Legible.isValue {function : Function} (legible : function.Legible) :
    ∀ ty ∈ function.signature.parameters, ty.isValue = true := by
  intro ty member
  obtain ⟨parameter, inside, rfl⟩ := List.mem_map.mp member
  exact TypeMark.isValue_of_ne_void (legible.parameters parameter inside)

/-- Where a statement may lead: to its end only on a path that completes it, and out of the
function with what that function gives back. -/
def Flow.Fits (functions : List Function) (result : Option Ty) (completes : Prop) (after : Context) :
    Flow → Prop
  | .next names => completes ∧ after.Matches (Entry.Admits functions) names
  | .returned value => result = some (value.elim .void Value.ty)

theorem Flow.Fits.completing {functions : List Function} {result : Option Ty} {completes completes' : Prop}
    {after : Context} {flow : Flow} (fits : flow.Fits functions result completes after)
    (path : completes → completes') : flow.Fits functions result completes' after := by
  cases flow with
  | next names => exact ⟨path fits.1, fits.2⟩
  | returned value => exact fits

/-- A statement declares names in the innermost block only. -/
theorem Stmt.FitAll.outer {result : Option Ty} {block : List (String × Entry)} {outer after : Context}
    {stmts : List Stmt} (fits : Stmt.FitAll result (block :: outer) stmts after) :
    ∃ block', after = block' :: outer := by
  induction stmts generalizing block with
  | nil =>
    cases fits
    exact ⟨block, rfl⟩
  | cons first rest ih =>
    cases fits with
    | cons here others =>
      cases here with
      | declare _ _ _ => exact ih others
      | _ => exact ih others

theorem Block.fits_of_statements {result : Option Ty} {context after : Context} {block : Block}
    (fits : Stmt.FitAll result ([] :: context) block.statements after) : block.Fits result context := by
  cases block
  exact .mk fits

theorem Parameter.matches_meanings {functions : List Function} {parameters : List Parameter}
    {arguments : List Value}
    (typed : arguments.map Value.ty = parameters.map fun parameter => parameter.type.ty) :
    Nest.MatchesBlock (Entry.Admits functions) (Parameter.entries parameters)
      (Parameter.meanings parameters arguments) := by
  refine List.rel_reverse ?_
  induction parameters generalizing arguments with
  | nil => exact .nil
  | cons parameter rest ih =>
    cases arguments with
    | nil => cases typed
    | cons value values =>
      injection typed with first others
      exact .cons ⟨rfl, first⟩ (ih others)

theorem Function.matches_meanings (functions : List Function) :
    Nest.MatchesBlock (Entry.Admits functions) (Function.entries functions) (Function.meanings functions) := by
  refine List.rel_reverse (List.forall₂_map_left_iff.mpr (List.forall₂_map_right_iff.mpr ?_))
  exact List.forall₂_same.mpr fun function member => ⟨rfl, member, rfl⟩

section Sound

variable {functions : List Function} (legible : ∀ function ∈ functions, function.Legible)
  {invoke : Invoke} (calls : invoke.Sound functions)

include legible calls

-- The members of a family share its hypotheses, also those that a member only hands on to the others.
set_option linter.unusedSectionVars false in
mutual

theorem HasType.sound {context : Context} {names : Nest Meaning}
    (same : context.Matches (Entry.Admits functions) names) {expr : Expr} {ty : Ty} :
    HasType context expr ty → ty.isValue = true →
      (expr.evaluate invoke names).Sound fun value => value.ty = ty
  | .int, _ => by
    rw [Expr.evaluate]
    exact .pure rfl
  | .bool, _ => by
    rw [Expr.evaluate]
    exact .pure rfl
  | .named found, isValue => by
    obtain ⟨meaning, here, admits⟩ := same.find found
    obtain ⟨value, rfl, typed⟩ := admits.variable_of_ty isValue
    rw [Expr.evaluate, here]
    exact .pure typed
  | @HasType.arithmetic _ operator _ _ _ kind left right, _ => by
    rw [Expr.evaluate]
    refine (left.sound same rfl).bind fun one isInt => (right.sound same rfl).bind fun two isInt' => ?_
    cases one with
    | bool => cases isInt
    | int one =>
      cases two with
      | bool => cases isInt'
      | int two =>
        cases operator with
        | greater => exact absurd rfl kind
        | add | subtract | multiply => exact .pure rfl
  | .greater left right, _ => by
    rw [Expr.evaluate]
    refine (left.sound same rfl).bind fun one isInt => (right.sound same rfl).bind fun two isInt' => ?_
    cases one with
    | bool => cases isInt
    | int one =>
      cases two with
      | bool => cases isInt'
      | int two => exact .pure rfl
  | .negate operand, _ => by
    rw [Expr.evaluate]
    refine (operand.sound same rfl).bind fun value isInt => ?_
    cases value with
    | bool => cases isInt
    | int value => exact .pure rfl
  | .call found callable arguments, isValue => by
    obtain ⟨meaning, here, admits⟩ := same.find found
    obtain ⟨function, member, rfl, rfl, rfl⟩ := admits.function_of_ty callable
    rw [Expr.evaluate, Invoke.named, here]
    have evaluated := arguments.sound same (legible function member).isValue
    refine (evaluated.bind fun values typed => calls function member values typed).bind fun value given => ?_
    cases value with
    | some value => exact .pure given
    | none =>
      rw [show function.result.ty = .void from given] at isValue
      cases isValue

theorem HaveTypes.sound {context : Context} {names : Nest Meaning}
    (same : context.Matches (Entry.Admits functions) names) {exprs : List Expr} {types : List Ty} :
    HaveTypes context exprs types → (∀ ty ∈ types, ty.isValue = true) →
      (Expr.evaluateAll invoke names exprs).Sound fun values => values.map Value.ty = types
  | .nil, _ => by
    rw [Expr.evaluateAll]
    exact .pure rfl
  | .cons first rest, areValues => by
    rw [Expr.evaluateAll]
    have later := rest.sound same fun ty member => areValues ty (List.mem_cons_of_mem _ member)
    refine later.bind fun values typed => ?_
    refine (first.sound same (areValues _ List.mem_cons_self)).bind fun value isFirst => ?_
    exact .pure (by rw [List.map_cons, typed, isFirst])

end

theorem HasType.call_sound {context : Context} {names : Nest Meaning}
    (same : context.Matches (Entry.Admits functions) names) {call : Call} {ty : Ty} :
    HasType context call.expr ty → (call.perform invoke names).Sound fun _ => True
  | .call found callable arguments => by
    obtain ⟨meaning, here, admits⟩ := same.find found
    obtain ⟨function, member, rfl, rfl, rfl⟩ := admits.function_of_ty callable
    rw [Call.perform, Invoke.named, here]
    have evaluated := arguments.sound legible calls same (legible function member).isValue
    exact (evaluated.bind fun values typed => calls function member values typed).bind fun _ _ => .pure trivial

theorem PrintItem.Fits.sound {context : Context} {names : Nest Meaning}
    (same : context.Matches (Entry.Admits functions) names) {items : List PrintItem}
    (fits : ∀ item ∈ items, item.Fits context) :
    (PrintItem.performAll invoke names items).Sound fun _ => True := by
  induction items with
  | nil => exact .pure trivial
  | cons item rest ih =>
    rw [PrintItem.performAll]
    have others := ih fun item member => fits item (List.mem_cons_of_mem _ member)
    refine Exec.Sound.bind ?_ fun _ (_ : True) => others
    have here := fits item List.mem_cons_self
    cases item with
    | value expr =>
      obtain ⟨ty, typed, isValue⟩ := here
      exact (typed.sound legible calls same isValue).bind fun value _ => .write value.text
    | space => exact .write " "
    | newline => exact .write "\n"

-- The members of a family share its hypotheses, also those that a member only hands on to the others.
set_option linter.unusedSectionVars false in
mutual

theorem Stmt.Fits.sound {result : Option Ty} {context after : Context} {names : Nest Meaning}
    (same : context.Matches (Entry.Admits functions) names) {stmt : Stmt} :
    Stmt.Fits result context stmt after →
      (stmt.perform invoke names).Sound (Flow.Fits functions result stmt.Completes after)
  | .declare typed isValue _ => by
    rw [Stmt.perform]
    refine (typed.sound legible calls same isValue).bind fun value typed => .pure ⟨.declare, ?_⟩
    exact Nest.Matches.declare same typed
  | .assign found typed => by
    rw [Stmt.perform]
    obtain ⟨meaning, here, admits⟩ := same.find found
    cases meaning with
    | function function => cases admits.2
    | value old =>
      have isValue := old.isValue_ty
      rw [show old.ty = _ from admits] at isValue
      refine (typed.sound legible calls same isValue).bind fun value typed => ?_
      rw [here]
      dsimp only
      rw [if_pos (typed.trans (Eq.symm admits))]
      have admitted : Entry.Admits functions ⟨_, true⟩ (.value value) := typed
      refine .pure ⟨.assign, ?_⟩
      exact Nest.Matches.assign (fun _ _ => True) (fun _ _ _ => trivial) (fun _ _ _ held => held) admitted same
        (List.pairwise_of_forall fun _ _ => trivial) found
  | .branch condition thenBlock => by
    rw [Stmt.perform]
    refine (condition.sound legible calls same rfl).bind fun value isBool => ?_
    match value, isBool with
    | .bool true, _ => exact (thenBlock.sound same).mono fun flow fits => fits.completing .thenPath
    | .bool false, _ => exact .pure ⟨.skipped, same⟩
  | .branchElse condition thenBlock elseBlock => by
    rw [Stmt.perform]
    refine (condition.sound legible calls same rfl).bind fun value isBool => ?_
    match value, isBool with
    | .bool true, _ => exact (thenBlock.sound same).mono fun flow fits => fits.completing .thenPath
    | .bool false, _ => exact (elseBlock.sound same).mono fun flow fits => fits.completing .elsePath
  | .ret expected => by
    rw [Stmt.perform]
    exact .pure expected
  | .retValue typed isValue expected => by
    rw [Stmt.perform]
    refine (typed.sound legible calls same isValue).bind fun value typed => .pure ?_
    rw [expected, ← typed]
    rfl
  | .call typed => by
    rw [Stmt.perform]
    exact (typed.call_sound legible calls same).bind fun _ _ => .pure ⟨.call, same⟩
  | .print items => by
    rw [Stmt.perform]
    exact (PrintItem.Fits.sound legible calls same items).bind fun _ _ => .pure ⟨.print, same⟩
  | .nested body => by
    rw [Stmt.perform]
    exact (body.sound same).mono fun flow fits => fits.completing .nested

theorem Block.Fits.sound {result : Option Ty} {context : Context} {names : Nest Meaning}
    (same : context.Matches (Entry.Admits functions) names) {block : Block} :
    Block.Fits result context block →
      (block.perform invoke names).Sound (Flow.Fits functions result block.Completes context)
  | .mk statements => by
    rw [Block.perform]
    refine (statements.sound (Nest.Matches.openBlock same)).bind fun flow fits => .pure ?_
    cases flow with
    | next names =>
      obtain ⟨block, rfl⟩ := statements.outer
      exact ⟨.mk fits.1, Nest.Matches.leaveBlock fits.2⟩
    | returned value => exact fits

theorem Stmt.FitAll.sound {result : Option Ty} {context after : Context} {names : Nest Meaning}
    (same : context.Matches (Entry.Admits functions) names) {stmts : List Stmt} :
    Stmt.FitAll result context stmts after →
      (Stmt.performAll invoke names stmts).Sound (Flow.Fits functions result (Stmt.CompleteAll stmts) after)
  | .nil => by
    rw [Stmt.performAll]
    exact .pure ⟨.nil, same⟩
  | .cons first rest => by
    rw [Stmt.performAll]
    refine (first.sound same).bind fun flow fits => ?_
    cases flow with
    | next names =>
      exact (rest.sound fits.2).mono fun flow fits' => fits'.completing (.cons fits.1)
    | returned value => exact .pure fits

end

omit calls

/-- Calls of the functions of a well-formed program do not get stuck, however deep they nest. -/
theorem Function.invoke_sound (wellFormed : ∀ function ∈ functions, function.WellFormed functions) (bound : Nat) :
    (Function.invoke functions bound).Sound functions := by
  induction bound with
  | zero => exact fun _ _ _ _ => .timeout
  | succ bound ih =>
    intro function member arguments typed
    obtain ⟨_, ⟨after, body⟩, returns⟩ := wellFormed function member
    have same : Nest.Matches (Entry.Admits functions)
        [Parameter.entries function.parameters, Function.entries functions]
        [Parameter.meanings function.parameters arguments, Function.meanings functions] :=
      .cons (Parameter.matches_meanings typed) (.cons (Function.matches_meanings functions) .nil)
    rw [Function.invoke]
    dsimp only
    rw [if_pos typed]
    refine ((Block.fits_of_statements body).sound legible ih same).bind fun flow fits => ?_
    -- Only a function without a result comes to the end of its body.
    have ended : (∀ value, flow ≠ .returned (some value)) → function.result.ty = .void := by
      intro valueless
      by_contra valued
      match flow, fits with
      | .next _, fits => exact returns valued fits.1
      | .returned none, fits => exact valued (Option.some.inj fits)
      | .returned (some value), _ => exact valueless value rfl
    match flow, fits with
    | .returned (some value), fits =>
      have typed : value.ty = function.result.ty := (Option.some.inj fits).symm
      rw [Function.finish, if_pos typed]
      exact .pure typed
    | .returned none, _ | .next _, _ =>
      rw [Function.finish, if_pos (ended (by simp))]
      exact .pure (ended (by simp))

end Sound

/-- A program that obeys the static rules never gets stuck. -/
theorem Program.WellFormed.sound {program : Program} (legible : program.Legible)
    (wellFormed : program.WellFormed) (bound : Nat) : (program.perform bound).Sound fun _ => True := by
  have calls := Function.invoke_sound legible.functions wellFormed.functions bound
  have same : Nest.Matches (Entry.Admits program.functions) [Function.entries program.functions]
      [Function.meanings program.functions] :=
    .cons (Function.matches_meanings program.functions) .nil
  refine (wellFormed.main.sound legible.functions calls same).bind fun flow fits => ?_
  cases flow with
  | next names => exact .pure trivial
  | returned value => cases fits

end Stackwright
