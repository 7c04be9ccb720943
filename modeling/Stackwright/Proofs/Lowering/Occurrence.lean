import Stackwright.Proofs.Lowering.Size
import Stackwright.Proofs.Lowering.Templates

/-! Where the code of expressions stands. The code of a program holds the code of every expression in it,
each at a place of its own, and the names that are visible there are those that the expression was
resolved with. -/

set_option autoImplicit false

namespace Stackwright

mutual

/-- The expression and all expressions inside of it. -/
def Expr.parts : Expr → List Expr
  | .literal value node => [.literal value node]
  | .named name => [.named name]
  | .binary operator left right node => .binary operator left right node :: (left.parts ++ right.parts)
  | .unary operator operand node => .unary operator operand node :: operand.parts
  | .call callee arguments list node => .call callee arguments list node :: Expr.partsAll arguments
  | .invalid node => [.invalid node]

def Expr.partsAll : List Expr → List Expr
  | [] => []
  | first :: rest => first.parts ++ Expr.partsAll rest

end

def PrintItem.exprs : PrintItem → List Expr
  | .value expr => expr.parts
  | .space _ | .newline _ => []

mutual

/-- All expressions in a statement; a call for its effect is one of them. -/
def Stmt.exprs : Stmt → List Expr
  | .declare _ _ value _ => value.parts
  | .assign _ value _ => value.parts
  | .branch condition thenBlock none _ => condition.parts ++ thenBlock.exprs
  | .branch condition thenBlock (some elseBlock) _ => condition.parts ++ (thenBlock.exprs ++ elseBlock.exprs)
  | .ret (some value) _ => value.parts
  | .ret none _ => []
  | .call call _ => call.expr.parts
  | .print items _ => items.flatMap PrintItem.exprs
  | .nested body => body.exprs
  | .invalid _ => []

def Block.exprs : Block → List Expr
  | .mk statements _ => Stmt.exprsAll statements

def Stmt.exprsAll : List Stmt → List Expr
  | [] => []
  | first :: rest => first.exprs ++ Stmt.exprsAll rest

end

/-- All expressions in a program. -/
def Program.exprs (program : Program) : List Expr :=
  program.functions.flatMap (fun function => function.body.exprs) ++ program.main.exprs

/-- The segment stands in the code at an index. -/
def Code.At (code : Code) (pc : Nat) (segment : Code) : Prop := segment <+: code.drop pc

namespace Code

variable {code first second : Code} {pc : Nat}

theorem At.left (stands : code.At pc (first ++ second)) : code.At pc first :=
  (List.prefix_append first second).trans stands

theorem At.right (stands : code.At pc (first ++ second)) : code.At (pc + first.length) second := by
  obtain ⟨rest, same⟩ := stands
  refine ⟨rest, ?_⟩
  rw [← List.drop_drop, ← same, List.append_assoc, List.drop_left]

theorem at_of_eq {before after : Code} (same : code = before ++ (first ++ after)) (start : pc = before.length) :
    code.At pc first := by
  refine ⟨after, ?_⟩
  rw [same, start, List.drop_left]

/-- What comes before a segment and after it. -/
theorem At.exists_eq (stands : code.At pc first) (some : 0 < first.length) :
    ∃ before after, code = before ++ (first ++ after) ∧ before.length = pc := by
  have length := stands.length_le
  rw [List.length_drop] at length
  obtain ⟨after, same⟩ := stands
  exact ⟨code.take pc, after, by rw [same, List.take_append_drop], by rw [List.length_take]; omega⟩

end Code

/-- Where the code of an expression is to stand: the index of its first instruction, and the labeller that
its labels come from. -/
structure Site where
  expr : Expr
  labeller : Labeller
  start : Nat

namespace Site

variable (analysis : Analysis) (site : Site)

/-- The code of the expression, which leaves its value. -/
def code : Code := (Lowering.value analysis site.expr site.labeller).1

/-- The index behind the last instruction. -/
def stop : Nat := site.start + (site.code analysis).length

theorem start_lt_stop : site.start < site.stop analysis :=
  Nat.lt_add_of_pos_right (Lowering.value_length_pos analysis site.expr site.labeller)

variable (one other : Site)

def Precedes : Prop := one.stop analysis ≤ other.start

/-- The code at the other site is inside of the code at this one, and ends earlier. -/
def Encloses : Prop := one.start ≤ other.start ∧ other.stop analysis < one.stop analysis

/-- Two sites have no code in common, unless that of one is inside of the code of the other and shorter. -/
def Separate : Prop :=
  (one.Precedes analysis other ∨ other.Precedes analysis one) ∨
    (one.Encloses analysis other ∨ other.Encloses analysis one)

variable {analysis one other}

theorem Separate.symm (separate : one.Separate analysis other) : other.Separate analysis one :=
  separate.imp Or.symm Or.symm

end Site

/-- A segment of code that begins at an index has sites for expressions, in their order, which are separate
from each other. -/
def Sited (analysis : Analysis) (holds : Site → Prop) (exprs : List Expr) (start : Nat) (segment : Code) : Prop :=
  ∃ sites : List Site, sites.map Site.expr = exprs ∧ sites.Pairwise (Site.Separate analysis) ∧
    ∀ site ∈ sites, holds site ∧ start ≤ site.start ∧ site.stop analysis ≤ start + segment.length

namespace Sited

variable {analysis : Analysis} {holds holds' : Site → Prop} {exprs exprs' : List Expr} {start : Nat}
  {first second : Code}

theorem nil : Sited analysis holds [] start first := ⟨[], rfl, .nil, nofun⟩

theorem imp (sited : Sited analysis holds exprs start first) (implies : ∀ site, start ≤ site.start →
    site.stop analysis ≤ start + first.length → holds site → holds' site) : Sited analysis holds' exprs start first := by
  obtain ⟨sites, same, apart, inside⟩ := sited
  refine ⟨sites, same, apart, fun site member => ?_⟩
  obtain ⟨here, low, high⟩ := inside site member
  exact ⟨implies site low high here, low, high⟩

theorem widen {start' : Nat} (sited : Sited analysis holds exprs start' first) (low : start ≤ start')
    (high : start' + first.length ≤ start + second.length) : Sited analysis holds exprs start second := by
  obtain ⟨sites, same, apart, inside⟩ := sited
  refine ⟨sites, same, apart, fun site member => ?_⟩
  obtain ⟨here, begins, ends⟩ := inside site member
  exact ⟨here, Nat.le_trans low begins, Nat.le_trans ends high⟩

theorem left (sited : Sited analysis holds exprs start first) (second : Code) :
    Sited analysis holds exprs start (first ++ second) := by
  refine sited.widen (Nat.le_refl _) ?_
  rw [List.length_append]
  exact Nat.add_le_add_left (Nat.le_add_right _ _) _

theorem right (sited : Sited analysis holds exprs (start + first.length) second) :
    Sited analysis holds exprs start (first ++ second) := by
  refine sited.widen (Nat.le_add_right _ _) (Nat.le_of_eq ?_)
  rw [List.length_append, Nat.add_assoc]

/-- Of two segments one after the other, all sites in the first precede those in the second. -/
theorem both (one : Sited analysis holds exprs start first)
    (other : Sited analysis holds exprs' (start + first.length) second) :
    Sited analysis holds (exprs ++ exprs') start (first ++ second) := by
  obtain ⟨sites, same, apart, inside⟩ := one
  obtain ⟨sites', same', apart', inside'⟩ := other
  refine ⟨sites ++ sites', by rw [List.map_append, same, same'], ?_, fun site member => ?_⟩
  · refine List.pairwise_append.mpr ⟨apart, apart', fun site member site' member' => .inl (.inl ?_)⟩
    obtain ⟨_, _, early⟩ := inside site member
    obtain ⟨_, late, _⟩ := inside' site' member'
    exact Nat.le_trans early late
  · rw [List.length_append]
    rcases List.mem_append.mp member with member | member
    · obtain ⟨here, low, high⟩ := inside site member
      exact ⟨here, low, by omega⟩
    · obtain ⟨here, low, high⟩ := inside' site member
      exact ⟨here, by omega, by omega⟩

theorem swap (sited : Sited analysis holds (exprs ++ exprs') start first) :
    Sited analysis holds (exprs' ++ exprs) start first := by
  obtain ⟨sites, same, apart, inside⟩ := sited
  obtain ⟨one, other, rfl, rfl, rfl⟩ := List.map_eq_append_iff.mp same
  exact ⟨other ++ one, List.map_append, (List.pairwise_append_comm Site.Separate.symm).mp apart,
    fun site member => inside site (List.mem_append.mpr (List.mem_append.mp member).symm)⟩

/-- Code around other code encloses all sites there. -/
theorem around (site : Site) (here : holds site) (inner : Sited analysis holds exprs site.start first)
    (longer : first.length < (site.code analysis).length) :
    Sited analysis holds (site.expr :: exprs) site.start (site.code analysis) := by
  obtain ⟨sites, same, apart, inside⟩ := inner
  refine ⟨site :: sites, by rw [List.map_cons, same], ?_, ?_⟩
  · refine List.pairwise_cons.mpr ⟨fun other member => .inr (.inl ?_), apart⟩
    obtain ⟨_, low, high⟩ := inside other member
    exact ⟨low, Nat.lt_of_le_of_lt high (Nat.add_lt_add_left longer _)⟩
  · intro other member
    rcases List.mem_cons.mp member with rfl | member
    · exact ⟨here, Nat.le_refl _, Nat.le_refl _⟩
    · obtain ⟨holds, low, high⟩ := inside other member
      exact ⟨holds, low, by omega⟩

end Sited

/-- The code of the expression stands at the site, and the expression was resolved with visible names that
have the property. -/
def Site.Stands (analysis : Analysis) (good : Nest Binding → Prop) (code : Code) (site : Site) : Prop :=
  code.At site.start (site.code analysis) ∧ ∃ names ty, good names ∧ Resolved analysis names site.expr ty

section Expressions

variable {analysis : Analysis} {good : Nest Binding → Prop} {code : Code} {names : Nest Binding}

theorem Resolved.sited_around {expr : Expr} {ty : Ty} {labeller : Labeller} {start : Nat} {exprs : List Expr}
    {inner : Code} (resolved : Resolved analysis names expr ty) (isGood : good names)
    (stands : code.At start (Lowering.value analysis expr labeller).1)
    (sited : Sited analysis (Site.Stands analysis good code) exprs start inner)
    (longer : inner.length < (Lowering.value analysis expr labeller).1.length) :
    Sited analysis (Site.Stands analysis good code) (expr :: exprs) start (Lowering.value analysis expr labeller).1 :=
  .around ⟨expr, labeller, start⟩ ⟨stands, names, ty, isGood, resolved⟩ sited longer

theorem Resolved.sited_alone {expr : Expr} {ty : Ty} {labeller : Labeller} {start : Nat}
    (resolved : Resolved analysis names expr ty) (isGood : good names)
    (stands : code.At start (Lowering.value analysis expr labeller).1) :
    Sited analysis (Site.Stands analysis good code) [expr] start (Lowering.value analysis expr labeller).1 :=
  have inner : Sited analysis (Site.Stands analysis good code) [] start [] := .nil
  resolved.sited_around isGood stands inner (Lowering.value_length_pos analysis expr labeller)

mutual

/-- The code of an expression has sites for the expression and all inside of it. -/
theorem Resolved.sited {expr : Expr} {ty : Ty} {labeller : Labeller} {start : Nat} (isGood : good names) :
    Resolved analysis names expr ty → code.At start (Lowering.value analysis expr labeller).1 →
      Sited analysis (Site.Stands analysis good code) expr.parts start (Lowering.value analysis expr labeller).1
  | .int typed, stands => (Resolved.int typed).sited_alone isGood stands
  | .bool typed, stands => (Resolved.bool typed).sited_alone isGood stands
  | .named found noted typed, stands => (Resolved.named found noted typed).sited_alone isGood stands
  | @Resolved.arithmetic _ _ operator leftExpr rightExpr node kind left right typed, stands => by
    obtain ⟨first, second, same⟩ := Lowering.value_arithmetic analysis kind leftExpr rightExpr node labeller
    have whole := stands
    rw [same] at stands
    have inner := (left.sited isGood stands.left).both (right.sited isGood stands.right.left)
    refine (Resolved.arithmetic kind left right typed).sited_around isGood whole inner ?_
    rw [same]
    simp only [List.length_append, List.length_singleton]
    omega
  | @Resolved.greater _ _ leftExpr rightExpr node left right typed, stands => by
    obtain ⟨labels, first, second, same⟩ := Lowering.value_greater analysis leftExpr rightExpr node labeller
    have whole := stands
    rw [same, Lowering.comparison_eq] at stands
    -- In front of each operand there is a label.
    have inner := (((left.sited isGood stands.right.left).both
      (right.sited isGood stands.right.right.right.left).right)).right
    refine (Resolved.greater left right typed).sited_around isGood whole inner ?_
    rw [same, Lowering.comparison_eq]
    simp only [List.length_append, Lowering.decideCode, List.length_cons]
    omega
  | .negate operand typed, stands => by
    have whole := stands
    rw [Lowering.value_negate] at stands
    refine (Resolved.negate operand typed).sited_around isGood whole (operand.sited isGood stands.left) ?_
    rw [Lowering.value_negate, List.length_append]
    exact Nat.lt_succ_self _
  | .call found callable noted arguments typed, stands => by
    have whole := stands
    rw [Lowering.value_call _ noted callable, Lowering.invocation_eq] at stands
    refine (Resolved.call found callable noted arguments typed).sited_around isGood whole
      (arguments.sited isGood stands.left) ?_
    rw [Lowering.value_call _ noted callable, Lowering.invocation_eq]
    simp only [List.length_append, Lowering.enterCode, List.length_cons]
    omega

theorem ResolvedAll.sited {arguments : List Expr} {types : List Ty} {labeller : Labeller} {start : Nat}
    (isGood : good names) : ResolvedAll analysis names arguments types →
      code.At start (Lowering.pushArguments analysis arguments types labeller).1 →
      Sited analysis (Site.Stands analysis good code) (Expr.partsAll arguments) start
        (Lowering.pushArguments analysis arguments types labeller).1
  | .nil, _ => .nil
  | @ResolvedAll.cons _ _ argument arguments ty types first rest, stands => by
    obtain ⟨next, same⟩ := Lowering.pushArguments_cons analysis argument arguments ty types labeller
    rw [same, Lowering.pushArgument_eq] at stands ⊢
    -- The last argument is pushed first.
    exact ((rest.sited isGood stands.left).both ((first.sited isGood stands.right.right.left).left _).right).swap

end

theorem PrintItem.Resolved.sited {item : PrintItem} {labeller : Labeller} {start : Nat}
    (resolved : item.Resolved analysis names) (isGood : good names)
    (stands : code.At start (Lowering.printItem analysis item labeller).1) :
    Sited analysis (Site.Stands analysis good code) item.exprs start (Lowering.printItem analysis item labeller).1 := by
  cases item with
  | space | newline => exact .nil
  | value expr =>
    obtain ⟨ty, resolved, _⟩ := resolved
    rw [Lowering.printItem] at stands ⊢
    by_cases typed : analysis.typeOf expr.id = .bool
    · obtain ⟨labels, same⟩ := Lowering.printValue_bool analysis typed labeller
      rw [same] at stands ⊢
      exact (resolved.sited isGood stands.left).left _
    · rw [Lowering.printValue_int _ typed] at stands ⊢
      exact (resolved.sited isGood stands.left).left _

theorem PrintItem.sited_all {items : List PrintItem} {labeller : Labeller} {start : Nat}
    (resolved : ∀ item ∈ items, item.Resolved analysis names) (isGood : good names)
    (stands : code.At start (Lowering.printItems analysis items labeller).1) :
    Sited analysis (Site.Stands analysis good code) (items.flatMap PrintItem.exprs) start
      (Lowering.printItems analysis items labeller).1 := by
  induction items generalizing labeller start with
  | nil => exact .nil
  | cons item rest ih =>
    obtain ⟨first, others⟩ := List.forall_mem_cons.mp resolved
    rw [Lowering.printItems_cons] at stands ⊢
    exact (first.sited isGood stands.left).both (ih others stands.right)

end Expressions

section Statements

variable {analysis : Analysis} {good : Nest Binding → Prop} {code : Code} {area : Allocator} {result : Option Ty}
  {exit : Option String}

/-- What holds of visible names keeps holding where blocks are opened and variables declared. -/
structure Lasting (analysis : Analysis) (area : Allocator) (result : Option Ty) (good : Nest Binding → Prop) :
    Prop where
  opens : ∀ {names}, good names → good ([] :: names)
  declares : ∀ {names stmt after}, Stmt.Placed analysis area result names stmt after → good names → good after

mutual

/-- The code of a statement has sites for all expressions in it. -/
theorem Stmt.Placed.sited {names after : Nest Binding} {stmt : Stmt} {labeller : Labeller} {start : Nat}
    (lasting : Lasting analysis area result good) (isGood : good names) :
    Stmt.Placed analysis area result names stmt after →
      code.At start (Lowering.statement analysis exit stmt labeller).1 →
      Sited analysis (Site.Stands analysis good code) stmt.exprs start (Lowering.statement analysis exit stmt labeller).1
  | .declare typed _ _ _ noted _ _, stands | .assign _ _ noted typed, stands => by
    rw [Lowering.statement, Lowering.store_eq _ noted] at stands ⊢
    exact ((typed.sited isGood stands.right.left).left _).right
  | @Stmt.Placed.branch _ _ _ _ conditionExpr body node condition thenBlock, stands => by
    obtain ⟨labels, first, second, same⟩ := Lowering.statement_branch analysis exit conditionExpr body node labeller
    rw [same] at stands ⊢
    exact (condition.sited isGood stands.left).both
      ((thenBlock.sited lasting isGood stands.right.right.left).left _).right
  | @Stmt.Placed.branchElse _ _ _ _ conditionExpr body other node condition thenBlock elseBlock, stands => by
    obtain ⟨labels, first, second, third, same⟩ :=
      Lowering.statement_branchElse analysis exit conditionExpr body other node labeller
    rw [same] at stands ⊢
    exact (condition.sited isGood stands.left).both
      ((thenBlock.sited lasting isGood stands.right.right.left).both
        ((elseBlock.sited lasting isGood stands.right.right.right.right.left).left _).right).right
  | .ret _, _ => .nil
  | .retValue typed _ _, stands => by
    rw [Lowering.statement_retValue] at stands ⊢
    exact (typed.sited isGood stands.left).left _
  | .call typed, stands => by
    rw [Lowering.statement_call] at stands ⊢
    exact (typed.sited isGood stands.left).left _
  | .print items, stands => by
    rw [Lowering.statement] at stands ⊢
    exact PrintItem.sited_all items isGood stands
  | .nested body, stands => by
    rw [Lowering.statement] at stands ⊢
    exact body.sited lasting isGood stands

theorem Block.Placed.sited {names : Nest Binding} {block : Block} {labeller : Labeller} {start : Nat}
    (lasting : Lasting analysis area result good) (isGood : good names) :
    Block.Placed analysis area result names block →
      code.At start (Lowering.block analysis exit block labeller).1 →
      Sited analysis (Site.Stands analysis good code) block.exprs start (Lowering.block analysis exit block labeller).1
  | .mk statements, stands => by
    rw [Lowering.block] at stands ⊢
    exact statements.sited lasting (lasting.opens isGood) stands

theorem Stmt.PlacedAll.sited {names after : Nest Binding} {stmts : List Stmt} {labeller : Labeller} {start : Nat}
    (lasting : Lasting analysis area result good) (isGood : good names) :
    Stmt.PlacedAll analysis area result names stmts after →
      code.At start (Lowering.statements analysis exit stmts labeller).1 →
      Sited analysis (Site.Stands analysis good code) (Stmt.exprsAll stmts) start
        (Lowering.statements analysis exit stmts labeller).1
  | .nil, _ => .nil
  | .cons first rest, stands => by
    rw [Lowering.statements_cons] at stands ⊢
    exact (first.sited lasting isGood stands.left).both (rest.sited lasting (lasting.declares first isGood) stands.right)

end

end Statements

end Stackwright
