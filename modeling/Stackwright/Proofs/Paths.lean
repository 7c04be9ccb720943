import Stackwright.Proofs.ReturnPaths

/-! Paths through a body. A path is the list of the ways it takes at the conditions it comes to, and it
either comes out at the end or leaves the function by a `return`; what the conditions are does not
matter. The check of a body that has to give a result is exact for these paths. -/

set_option autoImplicit false

namespace Stackwright

/-- How a path leaves a statement or a block. -/
inductive Exit where
  | completes | returns
  deriving DecidableEq, Repr

mutual

/-- A path through a statement, with the ways it takes and how it leaves. A path takes either way at
every condition. -/
inductive Stmt.Path : Stmt → List Bool → Exit → Prop where
  | declare {isMutable : Bool} {name : Name} {value : Expr} {node : Node} :
      Stmt.Path (.declare isMutable name value node) [] .completes
  | assign {target : Name} {value : Expr} {node : Node} : Stmt.Path (.assign target value node) [] .completes
  | thenPath {condition : Expr} {thenBlock : Block} {elseBlock : Option Block} {node : Node}
      {ways : List Bool} {exit : Exit} :
      Block.Path thenBlock ways exit → Stmt.Path (.branch condition thenBlock elseBlock node) (true :: ways) exit
  | elsePath {condition : Expr} {thenBlock elseBlock : Block} {node : Node} {ways : List Bool} {exit : Exit} :
      Block.Path elseBlock ways exit →
      Stmt.Path (.branch condition thenBlock (some elseBlock) node) (false :: ways) exit
  | skipped {condition : Expr} {thenBlock : Block} {node : Node} :
      Stmt.Path (.branch condition thenBlock none node) [false] .completes
  | ret {value : Option Expr} {node : Node} : Stmt.Path (.ret value node) [] .returns
  | call {call : Call} {node : Node} : Stmt.Path (.call call node) [] .completes
  | print {items : List PrintItem} {node : Node} : Stmt.Path (.print items node) [] .completes
  | nested {body : Block} {ways : List Bool} {exit : Exit} :
      Block.Path body ways exit → Stmt.Path (.nested body) ways exit
  | invalid {node : Node} : Stmt.Path (.invalid node) [] .completes

inductive Block.Path : Block → List Bool → Exit → Prop where
  | mk {statements : List Stmt} {node : Node} {ways : List Bool} {exit : Exit} :
      Stmt.PathAll statements ways exit → Block.Path (.mk statements node) ways exit

/-- A path through statements that run in order, up to the one that returns. -/
inductive Stmt.PathAll : List Stmt → List Bool → Exit → Prop where
  | nil : Stmt.PathAll [] [] .completes
  | leaves {first : Stmt} {rest : List Stmt} {ways : List Bool} :
      Stmt.Path first ways .returns → Stmt.PathAll (first :: rest) ways .returns
  | goesOn {first : Stmt} {rest : List Stmt} {ways more : List Bool} {exit : Exit} :
      Stmt.Path first ways .completes → Stmt.PathAll rest more exit →
      Stmt.PathAll (first :: rest) (ways ++ more) exit

end

mutual

theorem Stmt.Path.completes {stmt : Stmt} {ways : List Bool} {exit : Exit} :
    stmt.Path ways exit → exit = .completes → stmt.Completes
  | .declare, _ => .declare
  | .assign, _ => .assign
  | .thenPath path, ends => .thenPath (path.completes ends)
  | .elsePath path, ends => .elsePath (path.completes ends)
  | .skipped, _ => .skipped
  | .call, _ => .call
  | .print, _ => .print
  | .nested path, ends => .nested (path.completes ends)
  | .invalid, _ => .invalid

theorem Block.Path.completes {block : Block} {ways : List Bool} {exit : Exit} :
    block.Path ways exit → exit = .completes → block.Completes
  | .mk path, ends => .mk (path.completes ends)

theorem Stmt.PathAll.completes {stmts : List Stmt} {ways : List Bool} {exit : Exit} :
    Stmt.PathAll stmts ways exit → exit = .completes → Stmt.CompleteAll stmts
  | .nil, _ => .nil
  | .goesOn path rest, ends => .cons (path.completes rfl) (rest.completes ends)

end

mutual

theorem Stmt.Completes.exists_path {stmt : Stmt} : stmt.Completes → ∃ ways, stmt.Path ways .completes
  | .declare => ⟨_, .declare⟩
  | .assign => ⟨_, .assign⟩
  | .thenPath inner =>
    have ⟨_, path⟩ := inner.exists_path
    ⟨_, .thenPath path⟩
  | .elsePath inner =>
    have ⟨_, path⟩ := inner.exists_path
    ⟨_, .elsePath path⟩
  | .skipped => ⟨_, .skipped⟩
  | .call => ⟨_, .call⟩
  | .print => ⟨_, .print⟩
  | .nested inner =>
    have ⟨_, path⟩ := inner.exists_path
    ⟨_, .nested path⟩
  | .invalid => ⟨_, .invalid⟩

theorem Block.Completes.exists_path {block : Block} : block.Completes → ∃ ways, block.Path ways .completes
  | .mk all =>
    have ⟨_, path⟩ := all.exists_path
    ⟨_, .mk path⟩

theorem Stmt.CompleteAll.exists_path {stmts : List Stmt} :
    Stmt.CompleteAll stmts → ∃ ways, Stmt.PathAll stmts ways .completes
  | .nil => ⟨_, .nil⟩
  | .cons one more =>
    have ⟨_, path⟩ := one.exists_path
    have ⟨_, paths⟩ := more.exists_path
    ⟨_, .goesOn path paths⟩

end

/-- The ways are the first of an endless list of them. -/
def Heads (plan : Nat → Bool) (ways : List Bool) : Prop :=
  ∀ index way, ways[index]? = some way → plan index = way

theorem Heads.cons {plan : Nat → Bool} {ways : List Bool} (heads : Heads (fun index => plan (index + 1)) ways) :
    Heads plan (plan 0 :: ways) := by
  intro index way found
  cases index with
  | zero => exact Option.some.inj found
  | succ index => exact heads index way found

theorem Heads.append {plan : Nat → Bool} {ways more : List Bool} (heads : Heads plan ways)
    (tail : Heads (fun index => plan (ways.length + index)) more) : Heads plan (ways ++ more) := by
  intro index way found
  rcases Nat.lt_or_ge index ways.length with inside | beyond
  · rw [List.getElem?_append_left inside] at found
    exact heads index way found
  · rw [List.getElem?_append_right beyond] at found
    have reached : plan (ways.length + (index - ways.length)) = way := tail _ way found
    rwa [Nat.add_sub_cancel' beyond] at reached

theorem heads_nil (plan : Nat → Bool) : Heads plan [] := nofun

mutual

/-- However the conditions go, there is a path. -/
theorem Stmt.exists_path : ∀ (stmt : Stmt) (plan : Nat → Bool), ∃ ways exit, Heads plan ways ∧ stmt.Path ways exit
  | .declare _ _ _ _, plan => ⟨_, _, heads_nil plan, .declare⟩
  | .assign _ _ _, plan => ⟨_, _, heads_nil plan, .assign⟩
  | .branch _ thenBlock none _, plan => by
    cases first : plan 0 with
    | true =>
      obtain ⟨ways, exit, heads, path⟩ := thenBlock.exists_path fun index => plan (index + 1)
      exact ⟨_, _, first ▸ heads.cons, .thenPath path⟩
    | false => exact ⟨_, _, first ▸ (heads_nil _).cons, .skipped⟩
  | .branch _ thenBlock (some elseBlock) _, plan => by
    cases first : plan 0 with
    | true =>
      obtain ⟨ways, exit, heads, path⟩ := thenBlock.exists_path fun index => plan (index + 1)
      exact ⟨_, _, first ▸ heads.cons, .thenPath path⟩
    | false =>
      obtain ⟨ways, exit, heads, path⟩ := elseBlock.exists_path fun index => plan (index + 1)
      exact ⟨_, _, first ▸ heads.cons, .elsePath path⟩
  | .ret _ _, plan => ⟨_, _, heads_nil plan, .ret⟩
  | .call _ _, plan => ⟨_, _, heads_nil plan, .call⟩
  | .print _ _, plan => ⟨_, _, heads_nil plan, .print⟩
  | .nested body, plan =>
    have ⟨_, _, heads, path⟩ := body.exists_path plan
    ⟨_, _, heads, .nested path⟩
  | .invalid _, plan => ⟨_, _, heads_nil plan, .invalid⟩

theorem Block.exists_path : ∀ (block : Block) (plan : Nat → Bool),
    ∃ ways exit, Heads plan ways ∧ block.Path ways exit
  | .mk statements _, plan =>
    have ⟨_, _, heads, path⟩ := exists_pathAll statements plan
    ⟨_, _, heads, .mk path⟩

theorem exists_pathAll : ∀ (stmts : List Stmt) (plan : Nat → Bool),
    ∃ ways exit, Heads plan ways ∧ Stmt.PathAll stmts ways exit
  | [], plan => ⟨_, _, heads_nil plan, .nil⟩
  | first :: rest, plan => by
    obtain ⟨ways, exit, heads, path⟩ := first.exists_path plan
    cases exit with
    | returns => exact ⟨_, _, heads, .leaves path⟩
    | completes =>
      obtain ⟨more, exit, tail, paths⟩ := exists_pathAll rest fun index => plan (ways.length + index)
      exact ⟨_, _, heads.append tail, .goesOn path paths⟩

end

/-- A body always returns exactly if no path through it comes out at its end; and it has a path for
whatever its conditions do, so a body that always returns has nothing but paths to a `return`. -/
theorem Block.alwaysReturns_exact (block : Block) :
    (block.alwaysReturns = true ↔ ¬ ∃ ways, block.Path ways .completes) ∧
      ∀ plan, ∃ ways exit, Heads plan ways ∧ block.Path ways exit := by
  refine ⟨?_, block.exists_path⟩
  rw [block.alwaysReturns_iff, not_iff_not]
  exact ⟨Block.Completes.exists_path, fun ⟨_, path⟩ => path.completes rfl⟩

end Stackwright
