import Stackwright.Analysis.Program
import Stackwright.Proofs.Checking.Statement
import Stackwright.Proofs.Scope.Cells

/-! Checking functions against the rules: names that are declared one after the other, the body in its
own scope below that of the parameters, and the paths through it. -/

set_option autoImplicit false

namespace Stackwright

namespace Checker

open Analysis

section Declaring

variable {α : Type}

theorem forM_cons_apply (act : α → Checker Unit) (item : α) (rest : List α) (known : Analysis) :
    (item :: rest).forM act known = rest.forM act (act item known).2 := rfl

/-- A step for each of some items that notes down types and then declares the name of the item. -/
structure Declares (scope : Nat) (act : α → Checker Unit) (name : α → Name) (ty : α → Ty)
    (ids : α → List Nat) : Prop where
  step : ∀ (item : α) (known : Analysis), ∃ between, Annotates (ids item) known between ∧
    between.diagnostics = known.diagnostics ∧
    act item known = declare scope (name item) (ty item) false between

variable {scope : Nat} {act : α → Checker Unit} {name : α → Name} {ty : α → Ty} {ids : α → List Nat}
  {base : Base} {final : Analysis} {outer : Nest Binding}

/-- All numbers that the step for an item concerns. -/
abbrev allIds (name : α → Name) (ids : α → List Nat) (item : α) : List Nat :=
  ids item ++ [(name item).node.id]

/-- The name and the type that an item declares. -/
abbrev entryOf (name : α → Name) (ty : α → Ty) (item : α) : String × Ty := ((name item).text, ty item)

theorem Declares.performs (declares : Declares scope act name ty ids) (item : α) (known : Analysis) :
    Performs scope (allIds name ids item) known (act item known).2 := by
  obtain ⟨between, annotates, _, same⟩ := declares.step item known
  rw [same]
  exact annotates.performs.append (declare_performs scope (name item) (ty item) false between)

theorem Declares.performsAll (declares : Declares scope act name ty ids) (items : List α)
    (known : Analysis) :
    Performs scope (items.flatMap (allIds name ids)) known (items.forM act known).2 := by
  induction items generalizing known with
  | nil => exact (Annotates.refl known).performs
  | cons item rest ih =>
    rw [forM_cons_apply, List.flatMap_cons]
    exact (declares.performs item known).append (ih _)

theorem Declares.spendsAll (declares : Declares scope act name ty ids) (items : List α) (known : Analysis)
    (settled : known.scopes.Settled scope) :
    ScopeTree.Spends scope (4 * items.length) known.scopes (items.forM act known).2.scopes := by
  induction items generalizing known with
  | nil => exact .refl
  | cons item rest ih =>
    rw [forM_cons_apply, List.length_cons, Nat.mul_add, Nat.add_comm]
    have here := declares.performs item known
    refine .trans settled (here.grows settled) ?_ (ih _ (here.settled settled))
    obtain ⟨between, annotates, _, same⟩ := declares.step item known
    rw [← annotates.scopes] at settled ⊢
    rw [same]
    exact declare_spends scope (name item) (ty item) false between settled

theorem Declares.of_silent (declares : Declares scope act name ty ids) {item : α} {known after : Analysis}
    {offset : Nat} (step : act item known = ((), after)) (settled : known.scopes.Settled scope)
    (nextAt : known.scopes.NextAt scope base offset) (silent : after.diagnostics = known.diagnostics) :
    after.scopes.NextAt scope base (offset + (ty item).size) ∧
      ¬ (known.scopes.chain scope).Declares (name item).text ∧
      after.scopes.chain scope = (known.scopes.chain scope).declare (name item).text
        ⟨ty item, ⟨base, offset⟩, (name item).text, false⟩ ∧
      after.bindings[(name item).node.id]? = some ⟨ty item, ⟨base, offset⟩, (name item).text, false⟩ := by
  obtain ⟨between, annotates, _, same⟩ := declares.step item known
  rw [step] at same
  have performs := declare_performs scope (name item) (ty item) false between
  rw [← same] at performs
  have silentName := ((annotates.toNotes.silent_iff performs.toNotes).mp silent).2
  obtain ⟨binding, scopes, bound, grown, noted⟩ := declare_of_silent (same ▸ silentName)
  rw [← same] at grown noted
  subst grown
  rw [annotates.scopes] at bound
  obtain ⟨rfl, later⟩ := nextAt.bind? settled bound
  refine ⟨later, ?_, (ScopeTree.binds_of_bind? settled bound).chain, noted⟩
  rw [← ScopeTree.bind?_none_iff settled, bound]
  simp

/-- Names that are declared without a diagnostic are new, and their storage lies in order. -/
theorem Declares.all_of_silent (declares : Declares scope act name ty ids) :
    ∀ {items : List α} {known after : Analysis} {offset : Nat} {block : List (String × Binding)},
      items.forM act known = ((), after) → known.scopes.Settled scope →
      known.scopes.NextAt scope base offset → known.scopes.chain scope = block :: outer →
      after.diagnostics = known.diagnostics → (items.flatMap (allIds name ids)).Nodup →
      (∀ item ∈ items, final.bindings[(name item).node.id]? = after.bindings[(name item).node.id]?) →
      after.scopes.chain scope =
          ((cellsFrom base offset (items.map (entryOf name ty))).reverse ++ block) :: outer ∧
        (items.map fun item => (name item).text).Nodup ∧
        (∀ item ∈ items, (name item).text ∉ block.map Prod.fst) ∧
        List.Forall₂ (fun item cell => final.bindingOf (name item).node.id = cell.2) items
          (cellsFrom base offset (items.map (entryOf name ty)))
  | [], known, after, offset, block, step, _, _, visible, _, _, _ => by
    cases step
    exact ⟨visible, List.nodup_nil, by simp, .nil⟩
  | item :: rest, known, after, offset, block, step, settled, nextAt, visible, silent, distinct, recorded => by
    rcases stepFirst : act item known with ⟨⟨⟩, between⟩
    rw [forM_cons_apply, stepFirst] at step
    have one := declares.performs item known
    have two := declares.performsAll rest between
    rw [stepFirst] at one
    rw [step] at two
    rw [List.flatMap_cons] at distinct
    obtain ⟨silentFirst, silentRest⟩ := (one.toNotes.silent_iff two.toNotes).mp silent
    obtain ⟨later, fresh, chain, noted⟩ := declares.of_silent stepFirst settled nextAt silentFirst
    rw [visible, Nest.declare] at chain
    obtain ⟨names, unique, apart, cells⟩ := declares.all_of_silent step (one.settled settled) later chain
      silentRest (List.nodup_append.mp distinct).2.1
      (fun other member => recorded other (List.mem_cons_of_mem _ member))
    simp only [List.map_cons, List.mem_cons, not_or] at apart
    refine ⟨?_, ?_, ?_, .cons ?_ cells⟩
    · rw [names, List.map_cons, cellsFrom, List.reverse_cons, List.append_assoc]
      rfl
    · refine List.nodup_cons.mpr ⟨fun twice => ?_, unique⟩
      obtain ⟨other, member, same⟩ := List.mem_map.mp twice
      exact (apart other member).1 same
    · refine List.forall_mem_cons.mpr ⟨fun member => fresh ?_, fun other member => (apart other member).2⟩
      exact ⟨block, by rw [visible]; rfl, member⟩
    · have absent : (name item).node.id ∉ rest.flatMap (allIds name ids) :=
        fun twice => (List.nodup_append.mp distinct).2.2 _ (by simp) _ twice rfl
      rw [Analysis.bindingOf, recorded item List.mem_cons_self, two.toNotes.same.bindings absent, noted,
        Option.getD_some]

theorem Declares.of_fresh (declares : Declares scope act name ty ids) {item : α} {known : Analysis}
    (settled : known.scopes.Settled scope)
    (fresh : ¬ (known.scopes.chain scope).Declares (name item).text) :
    ∃ after, act item known = ((), after) ∧ after.diagnostics = known.diagnostics := by
  obtain ⟨between, annotates, silent, same⟩ := declares.step item known
  have free : known.scopes.bind? scope (name item).text (ty item) false ≠ none :=
    fun taken => fresh ((ScopeTree.bind?_none_iff settled).mp taken)
  obtain ⟨⟨binding, scopes⟩, bound⟩ := Option.ne_none_iff_exists'.mp free
  rw [← annotates.scopes] at bound
  rw [same, declare_of_some bound]
  exact ⟨_, rfl, silent⟩

/-- New names are declared without a diagnostic. -/
theorem Declares.all_of_fresh (declares : Declares scope act name ty ids) :
    ∀ {items : List α} {known : Analysis} {offset : Nat} {block : List (String × Binding)},
      known.scopes.Settled scope → known.scopes.NextAt scope base offset →
      known.scopes.chain scope = block :: outer → (items.map fun item => (name item).text).Nodup →
      (∀ item ∈ items, (name item).text ∉ block.map Prod.fst) →
      ∃ after, items.forM act known = ((), after) ∧ after.diagnostics = known.diagnostics ∧
        after.scopes.chain scope =
          ((cellsFrom base offset (items.map (entryOf name ty))).reverse ++ block) :: outer
  | [], known, offset, block, _, _, visible, _, _ => ⟨known, rfl, rfl, visible⟩
  | item :: rest, known, offset, block, settled, nextAt, visible, unique, apart => by
    obtain ⟨absent, unique⟩ := List.nodup_cons.mp unique
    obtain ⟨own, apart⟩ := List.forall_mem_cons.mp apart
    have fresh : ¬ (known.scopes.chain scope).Declares (name item).text := by
      rw [visible]
      simpa [Nest.Declares] using own
    obtain ⟨between, step, silent⟩ := declares.of_fresh settled fresh
    obtain ⟨later, _, chain, _⟩ := declares.of_silent step settled nextAt silent
    rw [visible, Nest.declare] at chain
    have performs := declares.performs item known
    rw [step] at performs
    obtain ⟨after, stepRest, silentRest, names⟩ := declares.all_of_fresh (performs.settled settled) later chain
      unique (fun other member => by
        rw [List.map_cons, List.mem_cons, not_or]
        refine ⟨fun same => absent (List.mem_map.mpr ⟨other, member, same⟩), apart other member⟩)
    refine ⟨after, by rw [forM_cons_apply, step, stepRest], silentRest.trans silent, ?_⟩
    rw [names, List.map_cons, cellsFrom, List.reverse_cons, List.append_assoc]
    rfl

end Declaring

section Instances

theorem setTypes_annotates (parameters : List Parameter) (known : Analysis) :
    Annotates (parameters.map fun parameter => parameter.type.node.id) known
      (parameters.forM (fun parameter => setType parameter.type.node.id parameter.type.ty) known).2 ∧
    (parameters.forM (fun parameter => setType parameter.type.node.id parameter.type.ty) known).2.diagnostics =
      known.diagnostics := by
  induction parameters generalizing known with
  | nil => exact ⟨.refl known, rfl⟩
  | cons parameter rest ih =>
    rw [forM_cons_apply, List.map_cons]
    obtain ⟨annotates, silent⟩ := ih (setType parameter.type.node.id parameter.type.ty known).2
    exact ⟨(setType_annotates known _ List.mem_cons_self).trans
      (annotates.mono (List.subset_cons_self _ _)), silent⟩

/-- The numbers for which a definition writes down a type. -/
abbrev writtenIds (function : Function) : List Nat :=
  function.node.id :: function.result.node.id ::
    function.parameters.map fun parameter => parameter.type.node.id

theorem declareFunction_declares (scope : Nat) :
    Declares scope (declareFunction scope) Function.name (fun function => function.signature.ty)
      writtenIds where
  step function known := by
    have one : Annotates (writtenIds function) known _ :=
      setType_annotates known function.result.ty (List.mem_cons_of_mem _ List.mem_cons_self)
    obtain ⟨two, silent⟩ := setTypes_annotates function.parameters
      (setType function.result.node.id function.result.ty known).2
    have three : Annotates (writtenIds function) _ _ := setType_annotates
      (function.parameters.forM (fun parameter => setType parameter.type.node.id parameter.type.ty)
        (setType function.result.node.id function.result.ty known).2).2 function.signature.ty List.mem_cons_self
    refine ⟨_, (one.trans (two.mono ?_)).trans three, silent, rfl⟩
    intro id member
    exact List.mem_cons_of_mem _ (List.mem_cons_of_mem _ member)

theorem declareParameter_declares (scope : Nat) :
    Declares scope (declareParameter scope) Parameter.name (fun parameter => parameter.type.ty)
      (fun parameter => [parameter.node.id]) where
  step parameter known :=
    ⟨_, setType_annotates known parameter.type.ty (List.mem_singleton.mpr rfl), rfl, rfl⟩

end Instances

section Body

variable {known after final : Analysis} {parameters : Nat} {result : Ty}

/-- The scope exists, and nothing that is visible from it lies below the frame pointer. -/
structure Outside (tree : ScopeTree) (number : Nat) : Prop where
  rooted : tree.Rooted
  isOpen : number < tree.scopes.size
  above : ∀ entry ∈ (tree.chain number).flatten, entry.2.location.base = .frame →
    0 ≤ entry.2.location.offset

theorem openProcedure_settled (outside : Outside known.scopes parameters) :
    (known.scopes.openProcedure parameters).2.Settled known.scopes.scopes.size := by
  refine ScopeTree.addOwner_settled outside.rooted outside.isOpen ⟨Int.le_refl _, by simp [Allocator.starting]⟩ ?_
  intro entry member same
  have above := outside.above entry member same
  simp only [Allocator.starting, ScopeTree.linkageSize]
  omega

/-- The place of the statements of a function body. -/
abbrev bodyPlace (known : Analysis) (result : Ty) : Place := ⟨known.scopes.scopes.size, some result⟩

/-- What is known at the beginning of a function body. -/
abbrev atBody (known : Analysis) (parameters : Nat) (body : Block) : Analysis :=
  entered known (known.scopes.openProcedure parameters).2 body.node

theorem checkBody_eq (parameters : Nat) (result : Ty) (body : Block) (known : Analysis) :
    checkBody parameters result body known =
      leaveScope known.scopes.scopes.size
        (checkStatements (bodyPlace known result) body.statements (atBody known parameters body)).2 := rfl

theorem Block.ids_eq (body : Block) : body.ids = [body.node.id] ++ Stmt.idsAll body.statements := by
  cases body
  rw [Block.ids]
  rfl

theorem checkBody_notes (parameters : Nat) (result : Ty) (body : Block) (known : Analysis) :
    Notes body.ids known (checkBody parameters result body known).2 := by
  have statements := checkStatements_performs (bodyPlace known result) body.statements
    (atBody known parameters body)
  rw [checkBody_eq, Block.ids_eq]
  exact ((entered_notes known _ body.node).append statements.toNotes).trans (leaveScope_notes _ _)

theorem checkBody_keeps (outside : Outside known.scopes parameters) (result : Ty) (body : Block) :
    known.scopes.Keeps (checkBody parameters result body known).2.scopes := by
  have statements := checkStatements_performs (bodyPlace known result) body.statements
    (atBody known parameters body)
  rw [checkBody_eq]
  exact ScopeTree.keeps_leave (by simp) (statements.grows (openProcedure_settled outside))

theorem atBody_chain (outside : Outside known.scopes parameters) (body : Block) :
    (atBody known parameters body).scopes.chain known.scopes.scopes.size =
      [] :: known.scopes.chain parameters :=
  ScopeTree.addOwner_chain outside.rooted outside.isOpen

theorem atBody_declarable (outside : Outside known.scopes parameters) (body : Block)
    (declarable : (known.scopes.chain parameters).Declarable) :
    ((atBody known parameters body).scopes.chain known.scopes.scopes.size).Declarable := by
  intro entry member
  rw [atBody_chain outside, List.flatten_cons, List.nil_append] at member
  exact declarable entry member

/-- A body that is checked without a diagnostic is well formed. -/
theorem checkBody_of_silent {body : Block} (step : checkBody parameters result body known = ((), after))
    (outside : Outside known.scopes parameters) (declarable : (known.scopes.chain parameters).Declarable)
    (legible : body.Legible) (silent : Silent final body.ids known after)
    (sized : final.scopes.allocatedSize known.scopes.scopes.size =
      after.scopes.allocatedSize known.scopes.scopes.size) :
    (∃ names, Stmt.PlacedAll final (frameArea (final.sizeOf body.id)) (some result)
      ([] :: known.scopes.chain parameters) body.statements names) ∧
      final.sizeOf body.id ≤ 4 * body.declarations := by
  rcases stepBody : checkStatements (bodyPlace known result) body.statements (atBody known parameters body)
    with ⟨⟨⟩, last⟩
  rw [checkBody_eq, stepBody] at step
  cases step
  have performs := checkStatements_performs (bodyPlace known result) body.statements
    (atBody known parameters body)
  rw [stepBody] at performs
  have settled := openProcedure_settled outside
  have grows := performs.grows settled
  obtain ⟨allocator, found, larger, _, size⟩ := ScopeTree.grown_allocator (by simp) grows
  rw [Block.ids_eq, List.singleton_append] at silent
  have scope : final.nodeScopes[body.id]? = some known.scopes.scopes.size := by
    have absent : body.id ∉ Stmt.idsAll body.statements := (List.nodup_cons.mp silent.distinct).1
    have own : body.id ∈ body.node.id :: Stmt.idsAll body.statements := List.mem_cons_self
    rw [silent.agrees.nodeScopes own]
    exact (performs.toNotes.same.nodeScopes absent).trans Std.TreeMap.getElem?_insert_self
  -- The frame is as large as the most that the scope of the body ever had in use.
  have peak : final.sizeOf body.id = allocator.peak := by
    rw [Analysis.sizeOf, scope, Option.map_some, Option.getD_some, sized]
    exact size
  have bounded : last.scopes.Bounded known.scopes.scopes.size (frameArea (final.sizeOf body.id)) := by
    intro later found'
    cases found.symm.trans found'
    exact ⟨larger.base.symm, larger.direction.symm, larger.start.symm, by rw [peak]; exact Nat.le_refl _⟩
  have placed := placedAll_of_silent stepBody settled (atBody_declarable outside body declarable)
    (by cases body; rw [Block.Legible] at legible; exact legible) (silent_entered performs.toNotes silent) bounded
  rw [atBody_chain outside] at placed
  refine ⟨⟨_, placed⟩, ?_⟩
  have spends := checkStatements_spends (bodyPlace known result) body.statements
    (atBody known parameters body) settled
  rw [stepBody] at spends
  have owner := ScopeTree.addOwner_allocatorOf known.scopes .procedure parameters
    (.starting .frame .downward (-ScopeTree.linkageSize))
  have begun := ScopeTree.addOwner_allocator known.scopes .procedure parameters
    (.starting .frame .downward (-ScopeTree.linkageSize))
  rw [← owner] at begun
  rw [grows.allocatorOf_eq settled] at found
  have spent := (spends.bound begun found).2
  cases body
  rw [peak, Block.declarations]
  simpa [Allocator.used, Allocator.starting, Block.statements] using spent

/-- A body that the rules allow is checked without a diagnostic. -/
theorem checkBody_of_fitAll {body : Block} {context : Context} (outside : Outside known.scopes parameters)
    (declarable : (known.scopes.chain parameters).Declarable)
    (fits : Stmt.FitAll (some result) ([] :: (known.scopes.chain parameters).map Binding.entry)
      body.statements context) :
    ∃ after, checkBody parameters result body known = ((), after) ∧
      after.diagnostics = known.diagnostics := by
  have entries : ((atBody known parameters body).scopes.chain (bodyPlace known result).scope).map Binding.entry =
      [] :: (known.scopes.chain parameters).map Binding.entry :=
    congrArg (Nest.map Binding.entry) (atBody_chain outside body)
  rw [← entries] at fits
  change Stmt.FitAll (bodyPlace known result).result _ _ _ at fits
  obtain ⟨last, step, silent⟩ := checkStatements_of_fitAll fits (openProcedure_settled outside)
    (atBody_declarable outside body declarable)
  rw [checkBody_eq, step]
  exact ⟨_, rfl, silent⟩

end Body

section Function

variable {known after final : Analysis} {root : Nat} {cells : List (String × Binding)}

/-- The scope is that of the program, in which only functions are declared. -/
structure Global (tree : ScopeTree) (root : Nat) (cells : List (String × Binding)) : Prop where
  rooted : tree.Rooted
  isOpen : root < tree.scopes.size
  chain : tree.chain root = [cells]
  base : ∀ entry ∈ cells, entry.2.location.base = .global
  declarable : ∀ entry ∈ cells, entry.2.ty.Declarable

/-- What is known when the parameters of a function are about to be declared. -/
abbrev atParameters (known : Analysis) (root : Nat) (function : Function) : Analysis :=
  (setScope function.list.id known.scopes.scopes.size
    (entered known (known.scopes.openParameters root).2 function.node)).2

/-- What is known when they have been declared. -/
abbrev atFunction (known : Analysis) (root : Nat) (function : Function) : Analysis :=
  (function.parameters.forM (declareParameter known.scopes.scopes.size) (atParameters known root function)).2

/-- What is known after the body. -/
abbrev afterBody (known : Analysis) (root : Nat) (function : Function) : Analysis :=
  (checkBody known.scopes.scopes.size function.result.ty function.body (atFunction known root function)).2

theorem checkFunction_eq (root : Nat) (function : Function) (known : Analysis) :
    checkFunction root function known =
      checkPaths function (leaveScope known.scopes.scopes.size (afterBody known root function)).2 := rfl

/-- The numbers of the parameters. -/
abbrev parameterIds (function : Function) : List Nat :=
  function.parameters.flatMap (allIds Parameter.name fun parameter => [parameter.node.id])

/-- The numbers that checking the inside of a function concerns. -/
abbrev innerIds (function : Function) : List Nat :=
  [function.node.id, function.list.id] ++ (parameterIds function ++ function.body.ids)

theorem atParameters_notes (known : Analysis) (root : Nat) (function : Function) :
    Notes [function.node.id, function.list.id] known (atParameters known root function) :=
  (entered_notes known _ function.node).append (setScope_notes _ _ (List.mem_singleton.mpr rfl))

theorem checkPaths_annotates {ids : List Nat} (function : Function) (known : Analysis) :
    Annotates ids known (checkPaths function known).2 := by
  unfold checkPaths
  split
  · exact report_annotates known _ _
  · exact .refl known

theorem atFunction_performs (known : Analysis) (root : Nat) (function : Function) :
    Performs known.scopes.scopes.size (parameterIds function) (atParameters known root function)
      (atFunction known root function) :=
  (declareParameter_declares known.scopes.scopes.size).performsAll function.parameters _

theorem afterBody_notes (known : Analysis) (root : Nat) (function : Function) :
    Notes (innerIds function) known (afterBody known root function) :=
  (atParameters_notes known root function).append
    ((atFunction_performs known root function).toNotes.append (checkBody_notes _ _ function.body _))

theorem checkFunction_notes (root : Nat) (function : Function) (known : Analysis) :
    Notes (innerIds function) known (checkFunction root function known).2 := by
  rw [checkFunction_eq]
  exact ((afterBody_notes known root function).trans (leaveScope_notes _ _)).trans
    (checkPaths_annotates function _).toNotes

theorem Global.settled (globals : Global known.scopes root cells) (function : Function) :
    (atParameters known root function).scopes.Settled known.scopes.scopes.size := by
  refine ScopeTree.addOwner_settled globals.rooted globals.isOpen ⟨Int.le_refl _, by simp [Allocator.starting]⟩ ?_
  intro entry member same
  rw [globals.chain, List.flatten_singleton] at member
  rw [globals.base entry member] at same
  cases same

theorem Global.chain_parameters (globals : Global known.scopes root cells) (function : Function) :
    (atParameters known root function).scopes.chain known.scopes.scopes.size = [[], cells] := by
  rw [← globals.chain]
  exact ScopeTree.addOwner_chain globals.rooted globals.isOpen

theorem nextAt_parameters (known : Analysis) (root : Nat) (function : Function) :
    (atParameters known root function).scopes.NextAt known.scopes.scopes.size .frame 0 := by
  refine ⟨.starting .frame .upward 0, ?_, rfl, rfl, rfl⟩
  have owner := ScopeTree.addOwner_allocatorOf known.scopes .parameters root (.starting .frame .upward 0)
  exact owner.symm ▸ ScopeTree.addOwner_allocator known.scopes .parameters root (.starting .frame .upward 0)

section Inside

variable {function : Function} (globals : Global known.scopes root cells)
  (visible : (atFunction known root function).scopes.chain known.scopes.scopes.size =
    [(Parameter.cells function.parameters).reverse, cells])

include globals visible

theorem outside_of_visible : Outside (atFunction known root function).scopes known.scopes.scopes.size := by
  have settled := (atFunction_performs known root function).settled (globals.settled function)
  refine ⟨settled.rooted, settled.isOpen, fun entry member same => ?_⟩
  simp only [visible, List.flatten_cons, List.flatten_nil, List.append_nil, List.mem_append,
    List.mem_reverse] at member
  rcases member with member | member
  · exact (mem_cellsFrom member).2.1
  · rw [globals.base entry member] at same
    cases same

theorem declarable_of_visible (legible : function.Legible) :
    ((atFunction known root function).scopes.chain known.scopes.scopes.size).Declarable := by
  intro entry member
  simp only [visible, List.flatten_cons, List.flatten_nil, List.append_nil, List.mem_append,
    List.mem_reverse] at member
  rcases member with member | member
  · obtain ⟨parameter, declared, same⟩ := List.mem_map.mp (mem_cellsFrom member).2.2.2
    have proper := legible.parameters parameter declared
    rw [← (Prod.mk.inj same).2]
    cases kind : parameter.type.primitive with
    | void => exact absurd kind proper
    | int | bool => simp only [TypeMark.ty, kind, Primitive.ty, Ty.Declarable]
  · exact globals.declarable entry member

theorem afterBody_grows : ScopeTree.Grows known.scopes.scopes.size (atParameters known root function).scopes
    (afterBody known root function).scopes := by
  have settled := globals.settled function
  have performs := atFunction_performs known root function
  have keeps := checkBody_keeps (outside_of_visible globals visible) function.result.ty function.body
  exact (performs.grows settled).trans settled (keeps.grows (performs.settled settled))

theorem checkFunction_keeps : known.scopes.Keeps (checkFunction root function known).2.scopes := by
  rw [checkFunction_eq, (checkPaths_annotates function _ : Annotates [] _ _).scopes]
  exact ScopeTree.keeps_leave (by simp) (afterBody_grows globals visible)

/-- The storage of the body is still known after the function, and it is the body's own. -/
theorem checkFunction_size :
    (atFunction known root function).scopes.scopes.size < (checkFunction root function known).2.scopes.scopes.size ∧
    known.scopes.allocators.size ≤
      (checkFunction root function known).2.scopes.allocatorOf (atFunction known root function).scopes.scopes.size ∧
    (checkFunction root function known).2.scopes.allocatedSize (atFunction known root function).scopes.scopes.size =
      (afterBody known root function).scopes.allocatedSize (atFunction known root function).scopes.scopes.size := by
  have outside := outside_of_visible globals visible
  have body := checkStatements_performs (bodyPlace (atFunction known root function) function.result.ty)
    function.body.statements (atBody (atFunction known root function) known.scopes.scopes.size function.body)
  have grows := body.grows (openProcedure_settled outside)
  obtain ⟨allocator, _, _, owner, _⟩ := ScopeTree.grown_allocator (by simp) grows
  have opened := grows.opened
  have created := ((atFunction_performs known root function).grows (globals.settled function)).created
  obtain ⟨names, here⟩ := (afterBody_grows globals visible).own ScopeTree.getElem?_addScope_size
  rw [checkFunction_eq, (checkPaths_annotates function _ : Annotates [] _ _).scopes]
  have wider : known.scopes.allocators.size ≤ (known.scopes.openParameters root).2.allocators.size := by
    simp [ScopeTree.openParameters, ScopeTree.addOwner, ScopeTree.addScope]
  refine ⟨?_, ?_, ?_⟩
  · refine Nat.lt_of_lt_of_le ?_ opened
    simp [atBody, entered, setScope, ScopeTree.openProcedure, ScopeTree.addOwner, ScopeTree.addScope]
  · exact Nat.le_trans (Nat.le_trans wider created) (Nat.le_of_eq owner.symm)
  · simp only [leaveScope, modify_apply, ScopeTree.allocatedSize, ScopeTree.leave_allocators here (by simp)]
    rfl

end Inside

theorem checkPaths_of_silent {function : Function}
    (silent : (checkPaths function known).2.diagnostics = known.diagnostics)
    (valued : function.result.ty ≠ .void) : function.body.alwaysReturns = true := by
  cases returns : function.body.alwaysReturns with
  | true => rfl
  | false =>
    have applies : (decide (function.result.ty ≠ .void) && !function.body.alwaysReturns) = true := by
      simp [valued, returns]
    rw [checkPaths, if_pos applies] at silent
    exact absurd silent (report_ne known _ _)

theorem checkPaths_of_returns {function : Function}
    (returns : function.result.ty ≠ .void → function.body.alwaysReturns = true) :
    checkPaths function known = ((), known) := by
  by_cases valued : function.result.ty = .void
  · simp [checkPaths, valued]
  · simp [checkPaths, returns valued]

/-- What remains known about storage after further steps. -/
def Sized (known after final : Analysis) : Prop :=
  ∀ number < after.scopes.scopes.size, known.scopes.allocators.size ≤ after.scopes.allocatorOf number →
    final.scopes.allocatedSize number = after.scopes.allocatedSize number

/-- The parts of a function that is checked without a diagnostic report nothing either. -/
theorem silent_parts {function : Function} (step : checkFunction root function known = ((), after))
    (silent : Silent final (innerIds function) known after) :
    Silent final (parameterIds function) (atParameters known root function) (atFunction known root function) ∧
      Silent final function.body.ids (atFunction known root function) (afterBody known root function) ∧
      after.diagnostics = (afterBody known root function).diagnostics := by
  rw [checkFunction_eq] at step
  have one := atParameters_notes known root function
  have two := (atFunction_performs known root function).toNotes
  have three := checkBody_notes known.scopes.scopes.size function.result.ty function.body
    (atFunction known root function)
  have last : Notes [] (afterBody known root function) after := by
    have paths : Notes [] _ _ := (checkPaths_annotates function
      (leaveScope known.scopes.scopes.size (afterBody known root function)).2).toNotes
    rw [step] at paths
    exact (leaveScope_notes known.scopes.scopes.size (afterBody known root function)).trans paths
  have silentBody := silent.init (afterBody_notes known root function) last
  obtain ⟨_, silentRest⟩ := silentBody.split one (two.append three)
  obtain ⟨silentParameters, silentInner⟩ := silentRest.split two three
  exact ⟨silentParameters, silentInner, silent.reports.trans silentBody.reports.symm⟩

/-- The parameters of such a function are new names, and their storage lies in order. -/
theorem parameters_of_silent {function : Function} (step : checkFunction root function known = ((), after))
    (globals : Global known.scopes root cells) (silent : Silent final (innerIds function) known after) :
    (atFunction known root function).scopes.chain known.scopes.scopes.size =
        [(Parameter.cells function.parameters).reverse, cells] ∧
      (function.parameters.map fun parameter => parameter.name.text).Nodup ∧
      List.Forall₂ (fun parameter cell => final.bindingOf parameter.name.node.id = cell.2) function.parameters
        (Parameter.cells function.parameters) := by
  have own := (silent_parts step silent).1
  obtain ⟨visible, unique, _, noted⟩ := (declareParameter_declares known.scopes.scopes.size).all_of_silent rfl
    (globals.settled function) (nextAt_parameters known root function) (globals.chain_parameters function)
    own.reports own.distinct
    (fun parameter member => own.agrees.bindings (List.mem_flatMap.mpr ⟨parameter, member, by simp⟩))
  rw [List.append_nil] at visible
  exact ⟨visible, unique, noted⟩

/-- A function that is checked without a diagnostic is well formed. -/
theorem checkFunction_of_silent {functions : List Function} {function : Function}
    (step : checkFunction root function known = ((), after))
    (globals : Global known.scopes root (Function.cells functions).reverse) (legible : function.Legible)
    (silent : Silent final (innerIds function) known after) (sized : Sized known after final) :
    function.Placed final functions := by
  obtain ⟨visible, unique, _⟩ := parameters_of_silent step globals silent
  obtain ⟨_, silentInner, silentLast⟩ := silent_parts step silent
  obtain ⟨opened, owner, size⟩ := checkFunction_size globals visible
  rw [step] at opened owner size
  obtain ⟨⟨names, placed⟩, size⟩ := checkBody_of_silent rfl (outside_of_visible globals visible)
    (declarable_of_visible globals visible legible) legible.body silentInner ((sized _ opened owner).trans size)
  rw [visible] at placed
  have silentPaths : (checkPaths function (leaveScope known.scopes.scopes.size
      (afterBody known root function)).2).2.diagnostics = (afterBody known root function).diagnostics := by
    rw [← checkFunction_eq, step]
    exact silentLast
  exact ⟨unique, ⟨names, placed⟩, checkPaths_of_silent silentPaths, size⟩

/-- A well-formed function is checked without a diagnostic. -/
theorem checkFunction_of_wellFormed {functions : List Function} {function : Function}
    (globals : Global known.scopes root (Function.cells functions).reverse) (legible : function.Legible)
    (wellFormed : function.WellFormed functions) :
    ∃ after, checkFunction root function known = ((), after) ∧ after.diagnostics = known.diagnostics ∧
      known.scopes.Keeps after.scopes := by
  obtain ⟨between, step, silent, visible⟩ := (declareParameter_declares known.scopes.scopes.size).all_of_fresh
    (globals.settled function) (nextAt_parameters known root function) (globals.chain_parameters function)
    wellFormed.parameters (by simp)
  rw [List.append_nil] at visible
  have here : atFunction known root function = between := congrArg Prod.snd step
  rw [← here] at visible
  obtain ⟨context, fits⟩ := wellFormed.body
  have entries := function.visible_entries functions
  rw [← entries] at fits
  rw [show function.visible functions = _ from visible.symm] at fits
  obtain ⟨afterwards, stepBody, silentBody⟩ := checkBody_of_fitAll (outside_of_visible globals visible)
    (declarable_of_visible globals visible legible) fits
  have keeps := checkFunction_keeps globals visible
  have paths : checkPaths function (leaveScope known.scopes.scopes.size (afterBody known root function)).2 = _ :=
    checkPaths_of_returns fun valued => (Block.alwaysReturns_iff _).mpr (wellFormed.returns valued)
  rw [checkFunction_eq, paths] at keeps
  rw [checkFunction_eq, paths]
  refine ⟨_, rfl, ?_, keeps⟩
  have same : (afterBody known root function).diagnostics = (atFunction known root function).diagnostics := by
    rw [show afterBody known root function = afterwards from congrArg Prod.snd stepBody, silentBody]
  exact same.trans ((congrArg Analysis.diagnostics here).trans silent)

end Function

end Checker

end Stackwright
