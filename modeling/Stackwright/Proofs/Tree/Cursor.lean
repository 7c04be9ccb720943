import Stackwright.Proofs.Tree.Nodes
import Stackwright.Tree.Parser.Cursor

/-! What a parsing rule does to its cursor. A rule never gives tokens back, never forgets a fault
and never reuses a number; and as long as no fault was recorded, the numbers it handed out are
exactly those of the tree it made. The rules for sequences let each larger rule be followed
step by step. -/

set_option autoImplicit false

namespace Stackwright

namespace Cursor

/-- The tokens ahead that are identifiers are spelt like names. -/
def Proper (cursor : Cursor) : Prop :=
  ∀ token ∈ cursor.rest, token.kind = .identifier → IsName token.lexeme

/-- One cursor is ahead of another, whether or not anything was read in between. -/
structure Leads (cursor next : Cursor) : Prop where
  rest : next.rest <:+ cursor.rest
  faults : next.faults = [] → cursor.faults = []
  nextId : cursor.nextId ≤ next.nextId

/-- From one cursor to another a part with the given numbers was read, which is `legible`
unless a fault was recorded. -/
structure Reads (cursor next : Cursor) (ids : List Nat) (legible : Prop) : Prop extends
    Leads cursor next where
  rising : ids.Pairwise (· < ·)
  bounds : ∀ id ∈ ids, cursor.nextId ≤ id ∧ id < next.nextId
  complete : next.faults = [] → next.nextId = cursor.nextId + ids.length
  legible : cursor.Proper → next.faults = [] → legible

variable {first second third : Cursor} {ids later : List Nat} {legible alsoLegible : Prop}

theorem Leads.refl (cursor : Cursor) : cursor.Leads cursor :=
  ⟨List.suffix_refl _, id, Nat.le_refl _⟩

theorem Leads.trans (one : first.Leads second) (two : second.Leads third) : first.Leads third :=
  ⟨two.rest.trans one.rest, one.faults ∘ two.faults, Nat.le_trans one.nextId two.nextId⟩

theorem Leads.proper (leads : first.Leads second) (proper : first.Proper) : second.Proper :=
  fun token member => proper token (leads.rest.subset member)

theorem Reads.append (one : Reads first second ids legible)
    (two : Reads second third later alsoLegible) :
    Reads first third (ids ++ later) (legible ∧ alsoLegible) where
  toLeads := one.toLeads.trans two.toLeads
  rising := by
    refine List.pairwise_append.mpr ⟨one.rising, two.rising, ?_⟩
    intro early earlyMember late lateMember
    exact Nat.lt_of_lt_of_le (one.bounds early earlyMember).2 (two.bounds late lateMember).1
  bounds := by
    intro id member
    have forward := one.nextId
    have onward := two.nextId
    rcases List.mem_append.mp member with member | member
    · have := one.bounds id member
      omega
    · have := two.bounds id member
      omega
  complete := by
    intro clean
    have whole := one.complete (two.faults clean)
    have rest := two.complete clean
    simp only [List.length_append]
    omega
  legible := fun proper clean =>
    ⟨one.legible proper (two.faults clean), two.legible (one.proper proper) clean⟩

theorem Reads.imp (reads : Reads first second ids legible) (same : ids = later)
    (implies : legible → alsoLegible) : Reads first second later alsoLegible :=
  same ▸ { reads with legible := fun proper clean => implies (reads.legible proper clean) }

/-- A part without numbers. -/
theorem Reads.bare (leads : first.Leads second) (same : second.nextId = first.nextId) :
    Reads first second [] True where
  toLeads := leads
  rising := .nil
  bounds := by simp
  complete := by simp [same]
  legible := fun _ _ => trivial

/-- With a fault recorded nothing more is promised than that the numbers are new. -/
theorem Reads.ofFault (leads : first.Leads second) (faulty : second.faults ≠ [])
    (rising : ids.Pairwise (· < ·))
    (bounds : ∀ id ∈ ids, first.nextId ≤ id ∧ id < second.nextId) :
    Reads first second ids legible where
  toLeads := leads
  rising := rising
  bounds := bounds
  complete := fun clean => absurd clean faulty
  legible := fun _ clean => absurd clean faulty

theorem leads_advance (cursor : Cursor) : cursor.Leads cursor.advance := by
  unfold advance
  cases rest : cursor.rest with
  | nil => exact .refl cursor
  | cons token more => exact ⟨by simp [rest], id, Nat.le_refl _⟩

@[simp] theorem advance_nextId (cursor : Cursor) : cursor.advance.nextId = cursor.nextId := by
  unfold advance
  split <;> rfl

theorem leads_record (cursor : Cursor) (fault : SyntaxFault) : cursor.Leads (cursor.record fault) :=
  ⟨List.suffix_refl _, by simp [record], Nat.le_refl _⟩

theorem record_faults_ne_nil (cursor : Cursor) (fault : SyntaxFault) :
    (cursor.record fault).faults ≠ [] := by
  simp [record]

theorem skipStatement_suffix (previous : Option Span) (tokens : List Token) :
    (skipStatement previous tokens).2 <:+ tokens := by
  induction tokens generalizing previous with
  | nil => exact List.suffix_refl _
  | cons token rest ih =>
    unfold skipStatement
    split
    · exact List.suffix_refl _
    · exact List.suffix_cons ..
    · exact (ih _).trans (List.suffix_cons ..)

theorem skipItem_suffix (previous : Option Span) (tokens : List Token) :
    (skipItem previous tokens).2 <:+ tokens := by
  induction tokens generalizing previous with
  | nil => exact List.suffix_refl _
  | cons token rest ih =>
    unfold skipItem
    split
    · exact List.suffix_refl _
    · exact List.suffix_refl _
    · exact (ih _).trans (List.suffix_cons ..)

theorem leads_resumeStatement (cursor : Cursor) : cursor.Leads cursor.resumeStatement :=
  ⟨skipStatement_suffix cursor.previous cursor.rest, id, Nat.le_refl _⟩

theorem leads_resumeItem (cursor : Cursor) : cursor.Leads cursor.resumeItem :=
  ⟨skipItem_suffix cursor.previous cursor.rest, id, Nat.le_refl _⟩

end Cursor

namespace Parser

open Cursor

/-- Following a rule either gives a result that is `good`, or fails further ahead. -/
def Yields {α : Type} (rule : Parser α) (cursor : Cursor) (good : α → Cursor → Prop) : Prop :=
  match rule cursor with
  | .ok value next => good value next
  | .error _ next => cursor.Leads next

/-- A rule that reads a part whose numbers and legibility its result determines. -/
abbrev Parses {α : Type} (rule : Parser α) (ids : α → List Nat) (legible : α → Prop) : Prop :=
  ∀ cursor, Yields rule cursor fun value next => Reads cursor next (ids value) (legible value)

variable {α β : Type} {cursor : Cursor} {ids : α → List Nat} {legible : α → Prop}

theorem Yields.mono {rule : Parser α} {good better : α → Cursor → Prop}
    (yields : Yields rule cursor good) (implies : ∀ value next, good value next → better value next) :
    Yields rule cursor better := by
  unfold Yields at yields ⊢
  split at yields
  · exact implies _ _ yields
  · exact yields

theorem Yields.bind {rule : Parser α} {follow : α → Parser β} {middle : α → Cursor → Prop}
    {good : β → Cursor → Prop} (one : Yields rule cursor middle)
    (leads : ∀ value next, middle value next → cursor.Leads next)
    (two : ∀ value next, middle value next → Yields (follow value) next good) :
    Yields (rule >>= follow) cursor good := by
  unfold Yields at one ⊢
  change match EStateM.bind rule follow cursor with
    | .ok value next => good value next
    | .error _ next => cursor.Leads next
  unfold EStateM.bind
  cases result : rule cursor with
  | error fault next => simpa [result] using one
  | ok value next =>
    simp only [result] at one ⊢
    have onward := two value next one
    unfold Yields at onward
    cases final : follow value next with
    | ok last ahead => simpa [final] using onward
    | error fault ahead =>
      simp only [final] at onward ⊢
      exact (leads value next one).trans onward

/-- Read one part, then go on. -/
theorem Parses.bind {rule : Parser α} {follow : α → Parser β} {good : β → Cursor → Prop}
    (one : Parses rule ids legible)
    (two : ∀ value next, Reads cursor next (ids value) (legible value) →
      Yields (follow value) next good) :
    Yields (rule >>= follow) cursor good :=
  (one cursor).bind (fun _ _ reads => reads.toLeads) two

/-- A rule that starts on a budget taken from the cursor. -/
theorem Parses.within {rule : Parser α} {within : Nat → Parser α} {budget : Cursor → Nat}
    (parses : ∀ amount, Parses (within amount) ids legible)
    (same : ∀ cursor, rule cursor = within (budget cursor) cursor) : Parses rule ids legible := by
  intro cursor
  unfold Yields
  rw [same cursor]
  exact parses (budget cursor) cursor

theorem yields_pure {good : α → Cursor → Prop} {value : α} (holds : good value cursor) :
    Yields (pure value) cursor good := holds

theorem yields_throw {good : α → Cursor → Prop} {fault : SyntaxFault} :
    Yields (throw fault) cursor good := Leads.refl cursor

theorem yields_peek : Yields peek cursor fun token next => token = cursor.peek ∧ next = cursor :=
  ⟨rfl, rfl⟩

/-- Look at the next token, then go on. -/
theorem yields_peek_bind {follow : Token → Parser β} {good : β → Cursor → Prop}
    (two : Yields (follow cursor.peek) cursor good) : Yields (peek >>= follow) cursor good := by
  refine yields_peek.bind (fun _ _ here => here.2 ▸ .refl _) ?_
  rintro _ _ ⟨rfl, rfl⟩
  exact two

theorem parses_advance : Parses advance (fun _ => []) (fun _ => True) := fun cursor =>
  .bare cursor.leads_advance cursor.advance_nextId

theorem parses_check (kind : Kind) : Parses (check kind) (fun _ => []) (fun _ => True) :=
  fun cursor => .bare (.refl cursor) rfl

theorem parses_freshId : Parses freshId (fun id => [id]) (fun _ => True) := fun _ =>
  { rest := List.suffix_refl _
    faults := id
    nextId := Nat.le_succ _
    rising := List.pairwise_singleton ..
    bounds := by simp
    complete := by simp
    legible := fun _ _ => trivial }

theorem parses_eat (kind : Kind) : Parses (eat kind) (fun _ => []) (fun _ => True) := by
  intro cursor
  unfold eat
  refine (parses_check kind).bind fun found next looked => ?_
  split
  · refine parses_advance.bind fun _ last taken => ?_
    exact yields_pure ((looked.append taken).imp rfl (fun _ => trivial))
  · exact yields_pure looked

theorem parses_expect (kind : Kind) : Parses (expect kind) (fun _ => []) (fun _ => True) := by
  intro cursor
  unfold expect
  refine yields_peek_bind ?_
  split
  · exact parses_advance cursor
  · split
    · exact yields_throw
    · exact yields_throw

theorem parses_identifier :
    Parses identifier (fun name => [name.node.id]) (fun name => IsName name.text) := by
  intro cursor
  unfold identifier
  refine yields_peek_bind ?_
  split
  next isIdentifier =>
    have spelt : cursor.Proper → IsName cursor.peek.lexeme := by
      intro proper
      unfold Cursor.peek at isIdentifier ⊢
      cases rest : cursor.rest with
      | nil => simp [rest, Token.endOfFile] at isIdentifier
      | cons token more =>
        simp only [rest] at isIdentifier ⊢
        exact proper token (by simp [rest]) isIdentifier
    refine parses_advance.bind fun _ next taken => ?_
    refine parses_freshId.bind fun id last numbered => ?_
    have reads := taken.append numbered
    exact yields_pure { reads with legible := fun proper _ => spelt proper }
  · exact yields_throw
  · exact yields_throw

end Parser

end Stackwright
