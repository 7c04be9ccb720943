import Stackwright.Proofs.Tree.Progress

/-! The numbers of the nodes of any tree that is read, whether or not the text has faults. A rule
that fails gives its numbers up with the node it was making, so with a fault some numbers may be left
out, but none is used twice; and where the parser itself has nothing to report, none is left out
either, even if some of the text was no token. -/

set_option autoImplicit false

namespace Stackwright

namespace Program

/-- The faults that the parser has added to those of the text. -/
def syntaxFaults (source : String) : List SyntaxFault :=
  (Program.read source).2.drop (Scan.ofText source).faults.length

theorem syntaxFaults_eq (source : String) :
    syntaxFaults source = (Parser.program (Cursor.ofText source).clear).2.faults := by
  have length : (Scan.ofText source).faults.length =
      ((Scan.ofText source).faults.map SyntaxFault.ofLexical).length := (List.length_map _).symm
  rw [syntaxFaults, read_eq, length]
  exact List.drop_left

/-- The numbers in the tree of any text are different from each other and below the node count. If
the parser met no fault, they are all the numbers below the node count, in order. -/
theorem ids_identify_nodes (source : String) :
    (Program.read source).1.ids.Nodup ∧
    (∀ id ∈ (Program.read source).1.ids, id < (Program.read source).1.nodeCount) ∧
    (syntaxFaults source = [] → (Program.read source).1.ids = List.range (Program.read source).1.nodeCount) := by
  have reads := Parser.reads_program (Cursor.ofText source).clear
  have start : (Cursor.ofText source).clear.nextId = 0 := rfl
  rw [syntaxFaults_eq, read_eq]
  refine ⟨reads.rising.imp Nat.ne_of_lt, fun id member => (reads.bounds id member).2, fun clean => ?_⟩
  have count := reads.complete clean
  have numbers := eq_range'_of_rising reads.rising reads.bounds count
  rw [start, Nat.zero_add] at count
  have total : (Parser.program (Cursor.ofText source).clear).1.nodeCount =
      (Parser.program (Cursor.ofText source).clear).1.ids.length := count
  rw [total, List.range_eq_range']
  exact numbers

/-- Text that is no token leaves no gap; a statement that could not be read leaves out the numbers of
what had been made of it. -/
example : (Program.read "main \x7b $ x := 1; \x7d").1.ids = [0, 1, 2, 3, 4] := by decide +kernel

example : (Program.read "main \x7b x := 1 2; \x7d").1.ids = [0, 1, 5] := by decide +kernel

end Program

end Stackwright
