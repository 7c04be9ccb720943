import Stackwright.Proofs.Tree.Grammar
import Stackwright.Tree.Parser.Cursor

/-! Which tokens a parsing rule takes. `Outcome` follows a rule step by step whether or not it
is allowed to fail, so that the rules below serve both those who ask what a successful rule has
read and those who ask whether a rule succeeds on tokens of the right form. -/

set_option autoImplicit false

namespace Stackwright

namespace Cursor

/-- From one cursor to the other exactly the given tokens were taken and no fault was recorded. -/
structure Passes (cursor next : Cursor) (tokens : List Token) : Prop where
  rest : cursor.rest = tokens ++ next.rest
  faults : next.faults = cursor.faults

variable {first second third : Cursor} {tokens later : List Token}

theorem Passes.refl (cursor : Cursor) : cursor.Passes cursor [] := ⟨rfl, rfl⟩

theorem Passes.append (one : first.Passes second tokens) (two : second.Passes third later) :
    first.Passes third (tokens ++ later) :=
  ⟨by rw [one.rest, two.rest, List.append_assoc], two.faults.trans one.faults⟩

theorem Passes.length (passes : first.Passes second tokens) :
    first.rest.length = tokens.length + second.rest.length := by
  rw [passes.rest, List.length_append]

/-- The tokens that stand ahead in a known order are taken in that order. -/
theorem Passes.rest_eq {rest : List Token} (passes : first.Passes second tokens)
    (ahead : first.rest = tokens ++ rest) : second.rest = rest :=
  List.append_cancel_left (passes.rest.symm.trans ahead)

theorem Passes.peek_kind (passes : first.Passes second []) : second.peek.kind = first.peek.kind := by
  have same : second.rest = first.rest := passes.rest.symm
  unfold peek
  rw [same]
  cases first.rest <;> rfl

theorem passes_advance {cursor : Cursor} (more : cursor.peek.kind ≠ .endOfFile) :
    cursor.Passes cursor.advance [cursor.peek] := by
  unfold advance peek at *
  cases rest : cursor.rest with
  | nil => simp [rest, Token.endOfFile] at more
  | cons token tokens => exact ⟨by simp [rest], rfl⟩

theorem peek_of_rest {cursor : Cursor} {token : Token} {rest : List Token}
    (ahead : cursor.rest = token :: rest) : cursor.peek = token := by
  simp [peek, ahead]

end Cursor

namespace Parser

open Cursor

/-- Following a rule gives a result that is `good`, or it fails, which only happens if `failed`. -/
def Outcome {α : Type} (failed : Prop) (rule : Parser α) (cursor : Cursor)
    (good : α → Cursor → Prop) : Prop :=
  match rule cursor with
  | .ok value next => good value next
  | .error _ _ => failed

section
variable {α β : Type} {failed : Prop} {cursor : Cursor}

theorem Outcome.ok {rule : Parser α} {good : α → Cursor → Prop} {value : α} {next : Cursor}
    (outcome : Outcome failed rule cursor good) (result : rule cursor = .ok value next) :
    good value next := by
  simpa [Outcome, result] using outcome

theorem Outcome.exists_ok {rule : Parser α} {good : α → Cursor → Prop}
    (outcome : Outcome False rule cursor good) :
    ∃ value next, rule cursor = .ok value next ∧ good value next := by
  unfold Outcome at outcome
  split at outcome
  next value next result => exact ⟨value, next, result, outcome⟩
  · exact outcome.elim

theorem Outcome.mono {rule : Parser α} {good better : α → Cursor → Prop}
    (outcome : Outcome failed rule cursor good)
    (implies : ∀ value next, good value next → better value next) :
    Outcome failed rule cursor better := by
  unfold Outcome at outcome ⊢
  split at outcome
  · exact implies _ _ outcome
  · exact outcome

theorem Outcome.bind {rule : Parser α} {follow : α → Parser β} {middle : α → Cursor → Prop}
    {good : β → Cursor → Prop} (one : Outcome failed rule cursor middle)
    (two : ∀ value next, middle value next → Outcome failed (follow value) next good) :
    Outcome failed (rule >>= follow) cursor good := by
  unfold Outcome at one
  change match EStateM.bind rule follow cursor with
    | .ok value next => good value next
    | .error _ _ => failed
  unfold EStateM.bind
  cases result : rule cursor with
  | error fault next => simpa [result] using one
  | ok value next =>
    simp only [result] at one
    exact two value next one

theorem outcome_pure {good : α → Cursor → Prop} {value : α} (holds : good value cursor) :
    Outcome failed (pure value) cursor good := holds

theorem outcome_throw {good : α → Cursor → Prop} {fault : SyntaxFault} (fails : failed) :
    Outcome failed (throw fault) cursor good := fails

theorem outcome_peek {follow : Token → Parser β} {good : β → Cursor → Prop}
    (two : Outcome failed (follow cursor.peek) cursor good) :
    Outcome failed (peek >>= follow) cursor good := two

theorem outcome_check {kind : Kind} {follow : Bool → Parser β} {good : β → Cursor → Prop}
    (two : Outcome failed (follow (cursor.peek.kind == kind)) cursor good) :
    Outcome failed (check kind >>= follow) cursor good := two

/-- Take the next token, then go on. -/
theorem outcome_advance {follow : Token → Parser β} {good : β → Cursor → Prop}
    (more : cursor.peek.kind ≠ .endOfFile)
    (two : ∀ next, cursor.Passes next [cursor.peek] → Outcome failed (follow cursor.peek) next good) :
    Outcome failed (advance >>= follow) cursor good :=
  two cursor.advance (passes_advance more)

/-- Take a new number, then go on. -/
theorem outcome_freshId {follow : Nat → Parser β} {good : β → Cursor → Prop}
    (two : ∀ id next, cursor.Passes next [] → Outcome failed (follow id) next good) :
    Outcome failed (freshId >>= follow) cursor good :=
  two cursor.nextId { cursor with nextId := cursor.nextId + 1 } ⟨rfl, rfl⟩

/-- Take the next token if it is of the kind, then go on either way. -/
theorem outcome_eat {kind : Kind} {follow : Bool → Parser β} {good : β → Cursor → Prop}
    (real : kind ≠ .endOfFile)
    (found : ∀ token next, token.kind = kind → cursor.Passes next [token] →
      Outcome failed (follow true) next good)
    (missing : cursor.peek.kind ≠ kind → Outcome failed (follow false) cursor good) :
    Outcome failed (eat kind >>= follow) cursor good := by
  have eats : Outcome failed (eat kind) cursor fun taken next =>
      (taken = true ∧ cursor.peek.kind = kind ∧ cursor.Passes next [cursor.peek]) ∨
      (taken = false ∧ cursor.peek.kind ≠ kind ∧ next = cursor) := by
    unfold eat
    refine outcome_check ?_
    split
    next same =>
      have isKind : cursor.peek.kind = kind := by simpa using same
      refine outcome_advance (isKind ▸ real) fun next passes => ?_
      exact outcome_pure (.inl ⟨rfl, isKind, passes⟩)
    next different => exact outcome_pure (.inr ⟨rfl, by simpa using different, rfl⟩)
  refine eats.bind ?_
  rintro _ next (⟨rfl, isKind, passes⟩ | ⟨rfl, different, rfl⟩)
  · exact found cursor.peek next isKind passes
  · exact missing different

theorem outcome_expect {kind : Kind} (real : kind ≠ .endOfFile) (next : failed ∨ cursor.peek.kind = kind) :
    Outcome failed (expect kind) cursor fun token last => token.kind = kind ∧ cursor.Passes last [token] := by
  unfold expect
  refine outcome_peek ?_
  split
  next isKind => exact ⟨isKind, passes_advance (isKind ▸ real)⟩
  next different =>
    have fails : failed := next.resolve_right different
    split
    · exact outcome_throw fails
    · exact outcome_throw fails

theorem outcome_identifier (next : failed ∨ cursor.peek.kind = .identifier) :
    Outcome failed identifier cursor fun name last =>
      ∃ token, token.kind = .identifier ∧ cursor.Passes last [token] ∧ name.bare = Grammar.name token := by
  unfold identifier
  refine outcome_peek ?_
  split
  next isName =>
    refine outcome_advance (by simp [isName]) fun afterName taken => ?_
    refine outcome_freshId fun id last numbered => ?_
    exact outcome_pure ⟨cursor.peek, isName, taken.append numbered, rfl⟩
  next ended => exact outcome_throw (next.resolve_right (by simp [ended]))
  next other _ => exact outcome_throw (next.resolve_right (by assumption))

end

end Parser

end Stackwright
