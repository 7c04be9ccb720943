import Stackwright.Proofs.Build.Image
import Stackwright.Proofs.Build.Labels

/-! Where the expressions of a whole program stand: those of the main block in its code, and those of the
functions behind it, in their order. -/

set_option autoImplicit false

namespace Stackwright

variable {holds : Site → Prop}

/-- The bodies of functions that are lowered one after the other come in the same order. -/
theorem Place.sited_sequence {analysis : Analysis} {index : Nat} {labeller : Labeller} {functions : List Function}
    (bodies : ∀ place ∈ sequence analysis index labeller functions,
      Sited analysis holds place.function.body.exprs place.bodyStart (place.body analysis)) :
    Sited analysis holds (functions.flatMap fun function => function.body.exprs) index
      (Lowering.functions analysis functions labeller).1 := by
  induction functions generalizing index labeller with
  | nil => exact .nil
  | cons function rest ih =>
    obtain ⟨first, others⟩ := List.forall_mem_cons.mp bodies
    have here : Sited analysis holds function.body.exprs index (code analysis ⟨function, labeller, index⟩) := by
      rw [code_eq]
      exact (first.left _).right
    exact here.both (ih others)

namespace Checked

variable (checked : Checked)

/-- The code behind the cells of functions has sites for all expressions of the program. -/
theorem sited {index : Nat} (main : Sited checked.analysis holds checked.program.main.exprs index checked.main)
    (bodies : ∀ place ∈ Place.sequence checked.analysis (index + checked.main.length + 1) checked.labeller
        checked.program.functions, Sited checked.analysis holds place.function.body.exprs place.bodyStart
      (place.body checked.analysis)) :
    Sited checked.analysis holds checked.program.exprs index
      (checked.main ++ [Instruction.plain .halt] ++ checked.bodies) := by
  refine Sited.swap ((main.left _).both ?_)
  rw [List.length_append, ← Nat.add_assoc]
  exact Place.sited_sequence bodies

/-- The code of everything in a program stands in its code, with the environment in front or without. -/
theorem exists_sited (withEnvironment : Bool) : ∃ index, Sited checked.analysis
    (Site.Stands checked.analysis (fun _ => True) (checked.codeWith withEnvironment)) checked.program.exprs index
    (checked.main ++ [Instruction.plain .halt] ++ checked.bodies) := by
  have lasting {area : Allocator} {result : Option Ty} : Lasting checked.analysis area result (fun _ => True) :=
    ⟨fun _ => trivial, fun _ _ => trivial⟩
  obtain ⟨before, same⟩ : ∃ before, checked.codeWith withEnvironment =
      before ++ (checked.main ++ [Instruction.plain .halt] ++ checked.bodies) := by
    refine ⟨checked.frontWith withEnvironment ++ ([.withLabel .label Reserved.mainLabel] ++
      (if withEnvironment then Environment.stackStart else []) ++ checked.cells), ?_⟩
    rw [codeWith_eq, tailWith]
    simp only [List.append_assoc]
  have stands : (checked.codeWith withEnvironment).At before.length
      (checked.main ++ [Instruction.plain .halt] ++ checked.bodies) :=
    Code.at_of_eq (same.trans (by rw [List.append_nil])) rfl
  refine ⟨before.length, checked.sited (checked.placed.main.sited lasting trivial stands.left.left) ?_⟩
  intro place member
  have bodies := stands.right
  rw [List.length_append, ← Nat.add_assoc] at bodies
  have inProgram : place.function ∈ checked.program.functions := by
    rw [← Place.map_function_sequence _ _ checked.program.functions]
    exact List.mem_map_of_mem member
  have code := Place.at_of_mem_sequence member bodies
  rw [place.code_eq] at code
  exact (checked.body_placed inProgram).sited lasting trivial code.right.left

end Checked

/-- Annotations have no part in where code stands. -/
theorem CompileOptions.at_shown (options : CompileOptions) {code segment : Code} {pc : Nat}
    (stands : code.At pc segment) : (options.shown code).At pc (options.shown segment) := by
  unfold shown
  split
  · exact stands
  · rw [Code.At, Code.stripComments, Code.stripComments, ← List.map_drop]
    exact List.IsPrefix.map _ stands

/-- Sites for expressions, in their order: the code of each stands at its site, and no two sites have code in
common, unless the code of one is inside of that of the other. -/
structure Code.Houses (code : Code) (analysis : Analysis) (options : CompileOptions) (exprs : List Expr)
    (sites : List Site) : Prop where
  exprs : sites.map Site.expr = exprs
  separate : sites.Pairwise (Site.Separate analysis)
  stands : ∀ site ∈ sites, code.At site.start (options.shown (site.code analysis))

section Houses

variable {code : Code} {analysis : Analysis} {options : CompileOptions} {exprs : List Expr} {sites : List Site}

theorem Sited.exists_houses {start : Nat} {segment : Code} (sited : Sited analysis holds exprs start segment)
    (stands : ∀ site, holds site → code.At site.start (site.code analysis)) :
    ∃ sites, (options.shown code).Houses analysis options exprs sites ∧ ∀ site ∈ sites, holds site := by
  obtain ⟨sites, same, apart, inside⟩ := sited
  have here (site : Site) (member : site ∈ sites) : holds site := (inside site member).1
  exact ⟨sites, ⟨same, apart, fun site member => options.at_shown (stands site (here site member))⟩, here⟩

theorem Code.Houses.exists_site (houses : code.Houses analysis options exprs sites) {expr : Expr}
    (inside : expr ∈ exprs) : ∃ site ∈ sites, site.expr = expr :=
  List.mem_map.mp (houses.exprs ▸ inside)

/-- What comes before the code at a site and after it. -/
theorem Code.Houses.exists_eq (houses : code.Houses analysis options exprs sites) {site : Site}
    (member : site ∈ sites) : ∃ before after,
      code = before ++ (options.shown (site.code analysis) ++ after) ∧ before.length = site.start := by
  refine (houses.stands site member).exists_eq ?_
  rw [options.length_shown]
  exact Lowering.value_length_pos analysis site.expr site.labeller

end Houses

end Stackwright
