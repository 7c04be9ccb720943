import Stackwright.Proofs.Rules
import Stackwright.ReturnPaths

/-! A body always returns exactly if no path through it comes out at its end. -/

set_option autoImplicit false

namespace Stackwright

mutual

theorem Stmt.completes_iff : ∀ stmt : Stmt, stmt.Completes ↔ stmt.alwaysReturns = false
  | .declare _ _ _ _ | .assign _ _ _ | .call _ _ | .print _ _ | .invalid _ =>
    ⟨fun _ => by rw [Stmt.alwaysReturns], fun _ => by constructor⟩
  | .ret _ _ => ⟨nofun, fun never => by simp [Stmt.alwaysReturns] at never⟩
  | .nested body => by
    rw [Stmt.alwaysReturns, ← body.completes_iff]
    exact ⟨fun (.nested inner) => inner, .nested⟩
  | .branch _ thenBlock none _ => ⟨fun _ => by rw [Stmt.alwaysReturns], fun _ => .skipped⟩
  | .branch _ thenBlock (some elseBlock) _ => by
    rw [Stmt.alwaysReturns, Bool.and_eq_false_iff, ← thenBlock.completes_iff, ← elseBlock.completes_iff]
    constructor
    · intro path
      cases path with
      | thenPath inner => exact .inl inner
      | elsePath inner => exact .inr inner
    · rintro (inner | inner)
      · exact .thenPath inner
      · exact .elsePath inner

theorem Block.completes_iff : ∀ block : Block, block.Completes ↔ block.alwaysReturns = false
  | .mk statements _ => by
    rw [Block.alwaysReturns, ← completeAll_iff statements]
    exact ⟨fun (.mk all) => all, .mk⟩

theorem completeAll_iff : ∀ stmts : List Stmt, Stmt.CompleteAll stmts ↔ anyReturns stmts = false
  | [] => ⟨fun _ => by rw [anyReturns], fun _ => .nil⟩
  | first :: rest => by
    rw [anyReturns, Bool.or_eq_false_iff, ← first.completes_iff, ← completeAll_iff rest]
    exact ⟨fun (.cons one more) => ⟨one, more⟩, fun ⟨one, more⟩ => .cons one more⟩

end

theorem Block.alwaysReturns_iff (block : Block) : block.alwaysReturns = true ↔ ¬ block.Completes := by
  rw [block.completes_iff, Bool.not_eq_false]

end Stackwright
