import Stackwright.Lowering.Expression

/-! What a step of checking notes down. It concerns the nodes of the part that is checked and no
others, and diagnostics are only ever added, so a whole that reports nothing has parts that report
nothing. -/

set_option autoImplicit false

namespace Stackwright

namespace Analysis

/-- Two analyses tell the same about some of the nodes. -/
structure Same (among : Nat → Prop) (known other : Analysis) : Prop where
  types : ∀ {id : Nat}, among id → other.types[id]? = known.types[id]?
  bindings : ∀ {id : Nat}, among id → other.bindings[id]? = known.bindings[id]?
  nodeScopes : ∀ {id : Nat}, among id → other.nodeScopes[id]? = known.nodeScopes[id]?

/-- Nothing was noted about nodes other than the given ones, and no diagnostic was taken back. -/
structure Notes (ids : List Nat) (before after : Analysis) : Prop where
  same : Same (· ∉ ids) before after
  reports : before.diagnostics <+: after.diagnostics

/-- The final analysis still tells what was noted about the given nodes. -/
abbrev Agrees (ids : List Nat) (known final : Analysis) : Prop := Same (· ∈ ids) known final

variable {among fewer : Nat → Prop} {ids more later : List Nat} {before between after final : Analysis}

theorem Same.refl (analysis : Analysis) : Same among analysis analysis :=
  ⟨fun _ => rfl, fun _ => rfl, fun _ => rfl⟩

theorem Same.trans (one : Same among before between) (two : Same among between after) :
    Same among before after :=
  ⟨fun member => (two.types member).trans (one.types member),
    fun member => (two.bindings member).trans (one.bindings member),
    fun member => (two.nodeScopes member).trans (one.nodeScopes member)⟩

theorem Same.mono (same : Same among before after) (narrower : ∀ {id : Nat}, fewer id → among id) :
    Same fewer before after :=
  ⟨fun member => same.types (narrower member), fun member => same.bindings (narrower member),
    fun member => same.nodeScopes (narrower member)⟩

theorem Notes.refl (analysis : Analysis) : Notes ids analysis analysis :=
  ⟨.refl analysis, List.prefix_rfl⟩

theorem Notes.mono (notes : Notes ids before after) (wider : ids ⊆ more) : Notes more before after :=
  ⟨notes.same.mono fun absent member => absent (wider member), notes.reports⟩

theorem Notes.trans (one : Notes ids before between) (two : Notes ids between after) :
    Notes ids before after :=
  ⟨one.same.trans two.same, one.reports.trans two.reports⟩

theorem Notes.append (one : Notes ids before between) (two : Notes later between after) :
    Notes (ids ++ later) before after :=
  (one.mono (List.subset_append_left ids later)).trans (two.mono (List.subset_append_right ids later))

/-- Two steps report nothing together if and only if neither does. -/
theorem Notes.silent_iff (one : Notes ids before between) (two : Notes later between after) :
    after.diagnostics = before.diagnostics ↔
      between.diagnostics = before.diagnostics ∧ after.diagnostics = between.diagnostics := by
  refine ⟨fun silent => ?_, fun ⟨first, second⟩ => second.trans first⟩
  have shorter := two.reports.length_le
  rw [silent] at shorter
  have first := one.reports.eq_of_length_le shorter
  exact ⟨first.symm, silent.trans first⟩

theorem Agrees.earlier (agrees : Agrees ids after final) (notes : Notes later between after)
    (apart : ∀ id ∈ ids, id ∉ later) : Agrees ids between final :=
  (notes.same.mono fun {id} member => apart id member).trans agrees

theorem Agrees.left (agrees : Agrees (ids ++ later) after final) (notes : Notes later between after)
    (distinct : (ids ++ later).Nodup) : Agrees ids between final := by
  have apart := (List.nodup_append.mp distinct).2.2
  have kept : Agrees ids after final := agrees.mono fun member => List.mem_append_left later member
  exact kept.earlier notes fun id member twice => apart id member id twice rfl

theorem Agrees.right (agrees : Agrees (ids ++ later) after final) : Agrees later after final :=
  agrees.mono fun member => List.mem_append_right ids member

/-- A step that reported nothing about parts whose numbers all differ. The final analysis still tells what
it noted about them. -/
structure Silent (final : Analysis) (ids : List Nat) (before after : Analysis) : Prop where
  distinct : ids.Nodup
  reports : after.diagnostics = before.diagnostics
  agrees : Agrees ids after final

/-- Of two steps that are silent together each one is. -/
theorem Silent.split (silent : Silent final (ids ++ later) before after) (one : Notes ids before between)
    (two : Notes later between after) : Silent final ids before between ∧ Silent final later between after := by
  obtain ⟨first, rest⟩ := (one.silent_iff two).mp silent.reports
  obtain ⟨left, right, _⟩ := List.nodup_append.mp silent.distinct
  exact ⟨⟨left, first, silent.agrees.left two silent.distinct⟩, ⟨right, rest, silent.agrees.right⟩⟩

/-- What comes last and notes nothing changes nothing. -/
theorem Silent.init (silent : Silent final ids before after) (one : Notes ids before between)
    (last : Notes [] between after) : Silent final ids before between := by
  rw [← List.append_nil ids] at silent
  exact (silent.split one last).1

theorem Silent.tail {id : Nat} (silent : Silent final (id :: ids) before after) : Silent final ids before after :=
  ⟨(List.nodup_cons.mp silent.distinct).2, silent.reports,
    silent.agrees.mono fun member => List.mem_cons_of_mem id member⟩

theorem Silent.perm (silent : Silent final ids before after) (same : ids.Perm more) :
    Silent final more before after :=
  ⟨same.nodup silent.distinct, silent.reports, silent.agrees.mono fun member => same.mem_iff.mpr member⟩

theorem Agrees.typeOf {id : Nat} {ty : Ty} (agrees : Agrees ids after final) (member : id ∈ ids)
    (noted : after.types[id]? = some ty) : final.typeOf id = ty := by
  rw [Analysis.typeOf, agrees.types member, noted, Option.getD_some]

theorem Agrees.bindingOf {id : Nat} {binding : Binding} (agrees : Agrees ids after final) (member : id ∈ ids)
    (noted : after.bindings[id]? = some binding) : final.bindingOf id = binding := by
  rw [Analysis.bindingOf, agrees.bindings member, noted, Option.getD_some]

end Analysis

namespace Checker

open Analysis

variable {α β : Type}

@[simp] theorem pure_apply (value : α) (known : Analysis) :
    (pure value : Checker α) known = (value, known) := rfl

@[simp] theorem bind_apply (first : Checker α) (next : α → Checker β) (known : Analysis) :
    (first >>= next) known = next (first known).1 (first known).2 := rfl

@[simp] theorem get_apply (known : Analysis) : (get : Checker Analysis) known = (known, known) := rfl

@[simp] theorem modify_apply (change : Analysis → Analysis) (known : Analysis) :
    (modify change : Checker Unit) known = ((), change known) := rfl

variable {ids : List Nat} {id : Nat} (known : Analysis)

theorem setType_notes (ty : Ty) (member : id ∈ ids) : Notes ids known (setType id ty known).2 := by
  refine ⟨⟨fun {other} absent => ?_, fun _ => rfl, fun _ => rfl⟩, List.prefix_rfl⟩
  have differs : compare id other ≠ .eq := fun same => absent (Nat.compare_eq_eq.mp same ▸ member)
  simp only [setType, modify_apply, Std.TreeMap.getElem?_insert, if_neg differs]

theorem setBinding_notes (binding : Binding) (member : id ∈ ids) :
    Notes ids known (setBinding id binding known).2 := by
  refine ⟨⟨fun _ => rfl, fun {other} absent => ?_, fun _ => rfl⟩, List.prefix_rfl⟩
  have differs : compare id other ≠ .eq := fun same => absent (Nat.compare_eq_eq.mp same ▸ member)
  simp only [setBinding, modify_apply, Std.TreeMap.getElem?_insert, if_neg differs]

theorem setScope_notes (scope : Nat) (member : id ∈ ids) :
    Notes ids known (setScope id scope known).2 := by
  refine ⟨⟨fun _ => rfl, fun _ => rfl, fun {other} absent => ?_⟩, List.prefix_rfl⟩
  have differs : compare id other ≠ .eq := fun same => absent (Nat.compare_eq_eq.mp same ▸ member)
  simp only [setScope, modify_apply, Std.TreeMap.getElem?_insert, if_neg differs]

theorem report_notes (cause : Diagnostic.Cause) (span : Span) :
    Notes ids known (report cause span known).2 :=
  ⟨⟨fun _ => rfl, fun _ => rfl, fun _ => rfl⟩, List.prefix_append _ _⟩

end Checker

end Stackwright
