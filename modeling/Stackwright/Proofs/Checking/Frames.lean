import Stackwright.Proofs.Checking.Program
import Stackwright.Proofs.Scope.Taking

/-! The storage of programs and function bodies. What the allocators have counted in the end is the most
that the declarations need at once: blocks that follow each other use the same storage. -/

set_option autoImplicit false

namespace Stackwright

/-- What a statement keeps in use for the rest of its block: the bytes of the variable that it declares. -/
def Stmt.room (analysis : Analysis) : Stmt → Nat
  | .declare _ _ value _ => (analysis.typeOf value.id).size
  | .assign _ _ _ | .branch _ _ _ _ | .ret _ _ | .call _ _ | .print _ _ | .nested _ | .invalid _ => 0

mutual

/-- The most bytes that a statement needs at once. -/
def Stmt.peak (analysis : Analysis) : Stmt → Nat
  | .declare _ _ value _ => (analysis.typeOf value.id).size
  | .branch _ thenBlock none _ => thenBlock.peak analysis
  | .branch _ thenBlock (some elseBlock) _ => max (thenBlock.peak analysis) (elseBlock.peak analysis)
  | .nested body => body.peak analysis
  | .assign _ _ _ | .ret _ _ | .call _ _ | .print _ _ | .invalid _ => 0

/-- The most bytes that the variables of a block need at once. -/
def Block.peak (analysis : Analysis) : Block → Nat
  | .mk statements _ => Stmt.peakAll analysis 0 statements

/-- The most bytes that are in use during some statements, with `running` bytes in use before them. -/
def Stmt.peakAll (analysis : Analysis) (running : Nat) : List Stmt → Nat
  | [] => running
  | first :: rest =>
    max (running + first.peak analysis) (Stmt.peakAll analysis (running + first.room analysis) rest)

end

section Peak

variable (analysis : Analysis)

theorem Stmt.peakAll_add (running more : Nat) (statements : List Stmt) :
    Stmt.peakAll analysis (running + more) statements = running + Stmt.peakAll analysis more statements := by
  induction statements generalizing more with
  | nil => rw [Stmt.peakAll, Stmt.peakAll]
  | cons first rest ih => rw [Stmt.peakAll, Stmt.peakAll, Nat.add_assoc, Nat.add_assoc, ih, Nat.add_max_add_left]

theorem Stmt.peakAll_cons (first : Stmt) (rest : List Stmt) : Stmt.peakAll analysis 0 (first :: rest) =
    max (first.peak analysis) (first.room analysis + Stmt.peakAll analysis 0 rest) := by
  rw [Stmt.peakAll, Nat.zero_add, Nat.zero_add, ← Stmt.peakAll_add, Nat.add_zero]

/-- What some statements keep in use for the rest of their block. -/
def Stmt.roomAll : List Stmt → Nat
  | [] => 0
  | first :: rest => first.room analysis + Stmt.roomAll rest

end Peak

namespace Checker

open Analysis ScopeTree

variable {final : Analysis}

/-- The type of an expression is noted down under its number. -/
theorem checkExpr_noted (scope : Nat) (expr : Expr) (known : Analysis) :
    (checkExpr scope expr known).2.types[expr.id]? = some (checkExpr scope expr known).1 := by
  cases expr with
  | named name =>
    rw [checkExpr]
    simp only [resolve, bind_apply, get_apply]
    cases known.scopes.lookup scope name.text <;> exact Std.TreeMap.getElem?_insert_self
  | literal | binary | unary | call | invalid =>
    rw [checkExpr]
    exact Std.TreeMap.getElem?_insert_self

theorem id_mem_ids (expr : Expr) : expr.id ∈ expr.ids := by
  cases expr <;> simp [Expr.ids, Expr.id, Expr.node]

theorem Annotates.takes {number : Nat} {ids : List Nat} {before after : Analysis} (step : Annotates ids before after)
    (settled : before.scopes.Settled number) : Takes number 0 0 before.scopes after.scopes :=
  .of_same settled (by rw [step.scopes])

theorem checkDeclaration_takes (place : Place) (isMutable : Bool) (name : Name) (value : Expr) (node : Node)
    (known : Analysis) (settled : known.scopes.Settled place.scope)
    (silent : Silent final (Stmt.ids (.declare isMutable name value node)) known
      (checkDeclaration place isMutable name value node known).2) :
    Takes place.scope (final.typeOf value.id).size (final.typeOf value.id).size known.scopes
      (checkDeclaration place isMutable name value node known).2.scopes := by
  let context := "declaration of '" ++ name.text ++ "'"
  rcases step : checkValue place.scope context value known with ⟨ty, between⟩
  have same : checkDeclaration place isMutable name value node known =
      declare place.scope name ty isMutable (setType node.id ty between).2 := by
    rw [checkDeclaration, bind_apply, step]
    rfl
  rw [same] at silent ⊢
  have one : Annotates value.ids known between := by
    have annotates := checkValue_annotates place.scope context value known
    rwa [step] at annotates
  have two : Annotates [node.id] between _ := setType_annotates between ty (List.mem_singleton.mpr rfl)
  have three := declare_performs place.scope name ty isMutable (setType node.id ty between).2
  obtain ⟨silentValue, silentRest⟩ :=
    (silent.perm (ids_declare_perm _ _ _ _)).split one.toNotes (two.toNotes.append three.toNotes)
  obtain ⟨stepExpr, _⟩ := checkValue_of_silent step silentValue.reports
  -- The variable gets storage for the type found just now. The tables still hold that type in the end,
  -- as the number of the value is not used again.
  have typed : final.typeOf value.id = ty := by
    have noted := checkExpr_noted place.scope value known
    rw [stepExpr] at noted
    exact silentValue.agrees.typeOf (id_mem_ids value) noted
  obtain ⟨binding, scopes, bound, grown, _⟩ := declare_of_silent silentRest.reports
  rw [typed, grown]
  change between.scopes.bind? _ _ _ _ = _ at bound
  rw [one.scopes] at bound
  exact takes_bind? settled bound

mutual

/-- A statement that is checked without a diagnostic takes the storage of its declarations. -/
theorem checkStmt_takes (place : Place) : ∀ (stmt : Stmt) (known : Analysis), known.scopes.Settled place.scope →
    Silent final stmt.ids known (checkStmt place stmt known).2 →
    Takes place.scope (stmt.room final) (stmt.peak final) known.scopes (checkStmt place stmt known).2.scopes
  | .declare isMutable name value node, known, settled, silent => by
    rw [Stmt.room, Stmt.peak]
    rw [checkStmt] at silent ⊢
    exact checkDeclaration_takes place isMutable name value node known settled silent
  | .assign target value _, known, settled, _ => by
    rw [Stmt.room, Stmt.peak, checkStmt]
    exact Annotates.takes (checkAssignment_annotates place target value known) settled
  | .branch condition thenBlock none node, known, settled, silent => by
    rw [Stmt.room, Stmt.peak]
    rw [checkStmt] at silent ⊢
    rw [Stmt.ids, List.append_nil] at silent
    have one := checkCondition_annotates place condition known
    have two := checkNested_encloses place thenBlock (checkCondition place condition known).2
    rw [← one.scopes] at settled ⊢
    exact checkNested_takes place thenBlock _ settled (silent.tail.split one.toNotes two.toNotes).2
  | .branch condition thenBlock (some elseBlock) node, known, settled, silent => by
    rw [Stmt.room, Stmt.peak]
    rw [checkStmt] at silent ⊢
    rw [Stmt.ids] at silent
    have one := checkCondition_annotates place condition known
    have two := checkNested_encloses place thenBlock (checkCondition place condition known).2
    have three := checkNested_encloses place elseBlock
      (checkNested place thenBlock (checkCondition place condition known).2).2
    obtain ⟨_, silentBlocks⟩ := silent.tail.split one.toNotes (two.toNotes.append three.toNotes)
    obtain ⟨silentThen, silentElse⟩ := silentBlocks.split two.toNotes three.toNotes
    rw [← one.scopes] at settled ⊢
    have returns := two.returns settled
    have first := checkNested_takes place thenBlock _ settled silentThen
    have second := checkNested_takes place elseBlock _ returns.settled silentElse
    -- The first block gave back all it took, so the second one may use the same bytes.
    have both := Takes.trans settled returns.grows first second
    rwa [Nat.zero_add, Nat.zero_add] at both
  | .ret value node, known, settled, _ => by
    rw [Stmt.room, Stmt.peak, checkStmt]
    exact Annotates.takes (checkReturn_annotates place value node known) settled
  | .call call _, known, settled, _ => by
    rw [Stmt.room, Stmt.peak, checkStmt]
    exact Annotates.takes (checkExpr_annotates place.scope call.expr known) settled
  | .print items _, known, settled, _ => by
    rw [Stmt.room, Stmt.peak, checkStmt]
    exact Annotates.takes (checkPrint_annotates place items known) settled
  | .nested body, known, settled, silent => by
    rw [Stmt.room, Stmt.peak]
    rw [checkStmt] at silent ⊢
    rw [Stmt.ids] at silent
    exact checkNested_takes place body known settled silent
  | .invalid _, known, settled, _ => by
    rw [Stmt.room, Stmt.peak, checkStmt]
    exact .of_same settled rfl

theorem checkNested_takes (place : Place) : ∀ (block : Block) (known : Analysis), known.scopes.Settled place.scope →
    Silent final block.ids known (checkNested place block known).2 →
    Takes place.scope 0 (block.peak final) known.scopes (checkNested place block known).2.scopes
  | .mk statements node, known, settled, silent => by
    rw [checkNested_eq] at silent ⊢
    rw [Block.peak]
    rw [Block.ids] at silent
    have body := checkStatements_performs (innerPlace place known) statements (inside place node known)
    have inner := openNested_settled settled
    exact takes_leave (body.grows inner) (checkStatements_takes (innerPlace place known) statements
      (inside place node known) inner (silent_entered body.toNotes silent))

theorem checkStatements_takes (place : Place) : ∀ (statements : List Stmt) (known : Analysis),
    known.scopes.Settled place.scope →
    Silent final (Stmt.idsAll statements) known (checkStatements place statements known).2 →
    Takes place.scope (Stmt.roomAll final statements) (Stmt.peakAll final 0 statements) known.scopes
      (checkStatements place statements known).2.scopes
  | [], known, settled, _ => by
    rw [Stmt.peakAll, checkStatements]
    exact .of_same settled rfl
  | first :: rest, known, settled, silent => by
    rw [checkStatements] at silent ⊢
    rw [Stmt.idsAll] at silent
    have one := checkStmt_performs place first known
    have two := checkStatements_performs place rest (checkStmt place first known).2
    obtain ⟨silentFirst, silentRest⟩ := silent.split one.toNotes two.toNotes
    rw [Stmt.peakAll_cons]
    exact .trans settled (one.grows settled) (checkStmt_takes place first known settled silentFirst)
      (checkStatements_takes place rest _ (one.settled settled) silentRest)

end

section Body

variable {known : Analysis} {parameters : Nat} {result : Ty} {body : Block}

/-- The scope of a body is noted down under the number of the body. -/
theorem checkBody_scope (distinct : body.ids.Nodup) :
    (checkBody parameters result body known).2.nodeScopes[body.id]? = some known.scopes.scopes.size := by
  have performs := checkStatements_performs (bodyPlace known result) body.statements (atBody known parameters body)
  rw [Block.ids_eq] at distinct
  have absent : body.id ∉ Stmt.idsAll body.statements := (List.nodup_cons.mp distinct).1
  rw [checkBody_eq, (leaveScope_notes _ _ : Notes [] _ _).same.nodeScopes List.not_mem_nil]
  exact (performs.toNotes.same.nodeScopes absent).trans Std.TreeMap.getElem?_insert_self

/-- The storage of a body that is checked without a diagnostic is what its statements need. -/
theorem checkBody_peak (outside : Outside known.scopes parameters)
    (silent : Silent final body.ids known (checkBody parameters result body known).2) :
    (checkBody parameters result body known).2.scopes.allocatedSize known.scopes.scopes.size = body.peak final := by
  rw [checkBody_eq] at silent ⊢
  rw [Block.ids_eq] at silent
  have performs := checkStatements_performs (bodyPlace known result) body.statements (atBody known parameters body)
  have settled := openProcedure_settled outside
  have grows := performs.grows settled
  have takes := checkStatements_takes (bodyPlace known result) body.statements (atBody known parameters body) settled
    (silent_entered performs.toNotes silent)
  obtain ⟨allocator, found, _, _, size⟩ := grown_allocator (by simp) grows
  have begun := addOwner_allocator known.scopes .procedure parameters (.starting .frame .downward (-linkageSize))
  rw [← addOwner_allocatorOf known.scopes .procedure parameters (.starting .frame .downward (-linkageSize))] at begun
  rw [grows.allocatorOf_eq settled] at found
  have peak := (takes.exactly begun found).2
  refine size.trans (peak.trans ?_)
  -- The linkage lies before the start of the allocator and does not count as in use.
  have begins : (Allocator.starting .frame .downward (-linkageSize)).used = 0 := by
    simp [Allocator.used, Allocator.starting]
  cases body
  rw [begins, Block.peak, Nat.zero_add]
  exact Nat.max_eq_right (Nat.zero_le _)

end Body

section Function

variable {known after : Analysis} {root : Nat} {cells : List (String × Binding)} {function : Function}

theorem checkFunction_scope (distinct : function.body.ids.Nodup) :
    (checkFunction root function known).2.nodeScopes[function.body.id]? =
      some (atFunction known root function).scopes.scopes.size := by
  have last : Notes [] (afterBody known root function) (checkFunction root function known).2 := by
    rw [checkFunction_eq]
    exact (leaveScope_notes _ _).trans (checkPaths_annotates function _).toNotes
  rw [last.same.nodeScopes List.not_mem_nil]
  exact checkBody_scope distinct

/-- The check of a function in the course of an analysis that reports nothing about it. -/
structure Reviewed (root : Nat) (cells : List (String × Binding)) (final : Analysis) (function : Function)
    (known : Analysis) : Prop where
  globals : Global known.scopes root cells
  distinct : (innerIds function).Nodup
  silent : (checkFunction root function known).2.diagnostics = known.diagnostics
  agrees : Agrees (innerIds function) (checkFunction root function known).2 final
  sized : Sized known (checkFunction root function known).2 final

theorem Reviewed.silently (reviewed : Reviewed root cells final function known) :
    Silent final (innerIds function) known (checkFunction root function known).2 :=
  ⟨reviewed.distinct, reviewed.silent, reviewed.agrees⟩

theorem Reviewed.scope (reviewed : Reviewed root cells final function known) :
    final.nodeScopes[function.body.id]? = some (atFunction known root function).scopes.scopes.size := by
  have own : function.body.id ∈ innerIds function := by simp [innerIds, Block.ids_eq, Block.id]
  rw [reviewed.agrees.nodeScopes own]
  exact checkFunction_scope (silent_parts rfl reviewed.silently).2.1.distinct

theorem Reviewed.peak (reviewed : Reviewed root cells final function known) :
    final.sizeOf function.body.id = function.body.peak final := by
  obtain ⟨visible, _⟩ := parameters_of_silent rfl reviewed.globals reviewed.silently
  obtain ⟨opened, owner, size⟩ := checkFunction_size reviewed.globals visible
  rw [Analysis.sizeOf, reviewed.scope, Option.map_some, Option.getD_some, reviewed.sized _ opened owner, size]
  exact checkBody_peak (outside_of_visible reviewed.globals visible) (silent_parts rfl reviewed.silently).2.1

/-- Every one of the functions that are checked without a diagnostic is. -/
theorem exists_reviewed : ∀ {rest : List Function} {known after : Analysis},
    rest.forM (checkFunction root) known = ((), after) → Global known.scopes root cells →
    Silent final (rest.flatMap innerIds) known after → Sized known after final →
    ∀ function ∈ rest, ∃ known, Reviewed root cells final function known
  | [], _, _, _, _, _, _ => by simp
  | first :: rest, known, after, step, globals, silent, sized => by
    rw [forM_cons_apply] at step
    have one := checkFunction_notes root first known
    have two := checkFunctions_notes root rest (checkFunction root first known).2
    rw [step] at two
    rw [List.flatMap_cons] at silent
    obtain ⟨silentFirst, silentRest⟩ := silent.split one two
    obtain ⟨visible, _⟩ := parameters_of_silent rfl globals silentFirst
    have keeps := checkFunction_keeps globals visible
    have globalsRest := globals.keeps keeps
    have keepsRest := checkFunctions_keeps step globalsRest silentRest
    refine List.forall_mem_cons.mpr
      ⟨⟨known, globals, silentFirst.distinct, silentFirst.reports, silentFirst.agrees, ?_⟩, ?_⟩
    · exact sized.earlier globalsRest.rooted keepsRest
    · exact exists_reviewed step globalsRest silentRest (sized.later keeps)

/-- Functions that are declared one after the other take the storage of their cells. -/
theorem declareFunctions_takes (functions : List Function) (known : Analysis) (settled : known.scopes.Settled root)
    (silent : (functions.forM (declareFunction root) known).2.diagnostics = known.diagnostics) :
    Takes root (4 * functions.length) (4 * functions.length) known.scopes
      (functions.forM (declareFunction root) known).2.scopes := by
  induction functions generalizing known with
  | nil => exact .of_same settled rfl
  | cons first rest ih =>
    have declares := declareFunction_declares root
    rw [forM_cons_apply] at silent ⊢
    have one := declares.performs first known
    have two := declares.performsAll rest (declareFunction root first known).2
    obtain ⟨silentFirst, silentRest⟩ := (one.toNotes.silent_iff two.toNotes).mp silent
    have here : Takes root 4 4 known.scopes (declareFunction root first known).2.scopes := by
      obtain ⟨between, annotates, same, step⟩ := declares.step first known
      rw [step] at silentFirst ⊢
      obtain ⟨binding, scopes, bound, grown, _⟩ := declare_of_silent (silentFirst.trans same.symm)
      rw [grown]
      rw [annotates.scopes] at bound
      exact takes_bind? settled bound
    have both := Takes.trans settled (one.grows settled) here (ih _ (one.settled settled) silentRest)
    rw [List.length_cons]
    rwa [Nat.max_eq_right (Nat.le_add_right _ _), Nat.add_comm, ← Nat.mul_succ] at both

end Function

end Checker

open Checker

section Program

variable {program : Program} (legible : program.Legible) (distinct : program.ids.Nodup)
  (silent : program.analyze.diagnostics = [])

include legible distinct silent

theorem Program.exists_reviewed : ∀ function ∈ program.functions, ∃ known,
    Reviewed 0 (Function.cells program.functions).reverse program.analyze function known := by
  exact Checker.exists_reviewed rfl (atFunctions_global legible (declared_of_silent distinct silent).1)
    (silent_stages distinct silent).2.1 (final_sized legible distinct silent)

/-- The frame of every function is as large as its variables need it to be at once. -/
theorem Program.frame_peak : ∀ function ∈ program.functions,
    program.analyze.sizeOf function.body.id = function.body.peak program.analyze := by
  intro function member
  obtain ⟨known, reviewed⟩ := Program.exists_reviewed legible distinct silent function member
  exact reviewed.peak

/-- The global block has room for the cells of the functions, and after them for the global variables. -/
theorem Program.global_peak : program.analyze.sizeOf program.node.id =
    4 * program.functions.length + program.main.peak program.analyze := by
  have settled := ScopeTree.root_settled
  have declared := atFunctions_performs program
  have keeps := atMain_keeps legible distinct silent
  obtain ⟨silentNames, _, silentMain⟩ := silent_stages distinct silent
  -- The allocator of the global block sees the names of the functions first and the main block last;
  -- the insides of functions have storage of their own.
  have names := declareFunctions_takes program.functions (atStart program) settled silentNames
  have bodies : ScopeTree.Takes 0 0 0 (atFunctions program).scopes (atMain program).scopes :=
    .of_same (declared.settled settled) (keeps.allocators _ (declared.settled settled).allocatorOf_lt)
  have main := checkNested_takes ⟨0, none⟩ program.main (atMain program) (atMain_settled legible distinct silent)
    silentMain
  have grows := declared.grows settled
  have takes := ScopeTree.Takes.trans settled (grows.trans settled (keeps.grows (declared.settled settled)))
    (names.trans settled grows bodies) main
  have end_ := atEnd_grows legible distinct silent
  have begun : ScopeTree.root.allocators[ScopeTree.root.allocatorOf 0]? = some (.starting .global .upward 0) := rfl
  obtain ⟨later, found, _⟩ := end_.moved begun
  have taken := (takes.exactly begun found).2
  rw [final_peak legible distinct silent ((end_.allocatorOf_eq settled).symm ▸ found), taken]
  simp only [Allocator.starting, Allocator.used]
  omega

end Program

end Stackwright
