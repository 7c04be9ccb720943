import Stackwright.Proofs.Reordering.Rules
import Stackwright.Proofs.Tree.Spelling

/-! Source texts whose function definitions stand in another order. If one of them can be read, so can the
other, and the programs differ in the order of their functions only. -/

set_option autoImplicit false

namespace Stackwright

/-- A text cut into the tokens of its function definitions and those of its main block. -/
structure Outline (source : String) (definitions : List (List Token)) (main : List Token) : Prop where
  clean : (Scan.ofText source).faults = []
  tokens : (Scan.ofText source).tokens = definitions.flatten ++ main
  functions : ∀ definition ∈ definitions, ∃ function, Grammar.Function definition function
  main : ∃ body, Grammar.Program main ⟨[], body, .blank, 0⟩

/-- The other text has the function definitions of the source in some order, and then its main block. Blanks
and comments between the tokens do not matter. -/
def Rearranges (source other : String) : Prop :=
  ∃ definitions order : List (List Token), ∃ main, Outline source definitions main ∧ order.Perm definitions ∧
    (Scan.ofText other).faults = [] ∧
    (Scan.ofText other).tokens.map Token.spelling = (order.flatten ++ main).map Token.spelling

namespace Grammar

variable {α : Type} {part : List Token → α → Prop} {pieces : List (List Token)} {values : List α}

theorem Sequence.of_forall₂ (each : List.Forall₂ part pieces values) : Sequence part pieces.flatten values := by
  induction each with
  | nil => exact .nil
  | cons here _ ih => exact .cons here ih

theorem exists_forall₂ (each : ∀ piece ∈ pieces, ∃ value, part piece value) :
    ∃ values, List.Forall₂ part pieces values := by
  induction pieces with
  | nil => exact ⟨[], .nil⟩
  | cons piece rest ih =>
    obtain ⟨⟨value, here⟩, others⟩ := List.forall_mem_cons.mp each
    obtain ⟨values, all⟩ := ih others
    exact ⟨value :: values, .cons here all⟩

/-- Functions in front of a program without any. -/
theorem Program.of_forall₂ {main : List Token} {functions : List Stackwright.Function} {body : Stackwright.Block}
    (each : List.Forall₂ Function pieces functions) (last : Program main ⟨[], body, .blank, 0⟩) :
    Program (pieces.flatten ++ main) ⟨functions, body, .blank, 0⟩ := by
  obtain ⟨⟨⟩, isWord, inner⟩ := last
  exact .mk (.of_forall₂ each) isWord inner

end Grammar

variable {source other : String} {program : Program}

/-- Texts that differ in the order of definitions are read as programs that do. -/
theorem Rearranges.parse (rearranges : Rearranges source other) (parsed : Program.parse source = .ok program) :
    ∃ program', Program.parse other = .ok program' ∧ program.Reorders program' := by
  obtain ⟨definitions, order, main, outline, perm, clean, spelled⟩ := rearranges
  obtain ⟨functions, each⟩ := Grammar.exists_forall₂ outline.functions
  obtain ⟨body, last⟩ := outline.main
  obtain ⟨functions', each', perm'⟩ := List.perm_comp_forall₂ perm each
  -- The definitions are derivable one by one and so in either order. As each text is derivable as one tree
  -- only, the programs that are read from them are these trees.
  have derived := Grammar.Program.of_forall₂ each last
  rw [← outline.tokens] at derived
  have derived' := Grammar.Program.respells _ _ _ (.of_forall₂ each' last) (respelled_of_map_eq spelled.symm)
  obtain ⟨again, reparsed, tree⟩ := Program.parse_of_derivable outline.clean derived
  obtain rfl : program = again := Except.ok.inj (parsed.symm.trans reparsed)
  obtain ⟨program', parsed', tree'⟩ := Program.parse_of_derivable clean derived'
  have functions_eq : program.functions.map Function.bare = functions := congrArg Program.functions tree
  have functions_eq' : program'.functions.map Function.bare = functions' := congrArg Program.functions tree'
  have main_eq : program.main.bare = body := congrArg Program.main tree
  have main_eq' : program'.main.bare = body := congrArg Program.main tree'
  refine ⟨program', parsed', ⟨?_, main_eq.trans main_eq'.symm⟩⟩
  rw [functions_eq, functions_eq']
  exact perm'.symm

end Stackwright
