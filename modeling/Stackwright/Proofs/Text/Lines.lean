import Mathlib
import Stackwright.Text.Blank
import Stackwright.Text.Line

/-! Lines of a text, told by where its newlines are: a text written line by line is read back line by line,
and the line that a place of a text is on begins with what stands between the last newline and that place.
Blanks at the end of a line are dropped, which changes no text that ends with a character of another kind. -/

set_option autoImplicit false

namespace Stackwright.Text

/-- The character ends no line: it is no newline, and no carriage return that a newline follows. -/
structure Stays (c : Char) (rest : List Char) : Prop where
  notNewline : c ≠ '\n'
  notReturn : c = '\r' → rest.head? ≠ some '\n'

theorem splitLines_cons {c : Char} {rest : List Char} (stays : Stays c rest) :
    splitLines (c :: rest) =
      match splitLines rest with
      | [] => [[c]]
      | line :: lines => (c :: line) :: lines := by
  refine splitLines.eq_4 c rest stays.notNewline ?_
  rintro tail isReturn rfl
  exact stays.notReturn isReturn rfl

theorem splitLines_cons_of_eq {c : Char} {rest line : List Char} {lines : List (List Char)} (stays : Stays c rest)
    (split : splitLines rest = line :: lines) : splitLines (c :: rest) = (c :: line) :: lines := by
  rw [splitLines_cons stays, split]

theorem stays_append {c : Char} {line rest : List Char} (plain : '\n' ∉ c :: line)
    (ends : line = [] → c = '\r' → rest.head? ≠ some '\n') : Stays c (line ++ rest) := by
  refine ⟨Ne.symm (List.ne_of_not_mem_cons plain), fun isReturn newline => ?_⟩
  cases line with
  | nil => exact ends rfl isReturn newline
  | cons first line =>
    obtain rfl : first = '\n' := Option.some.inj newline
    exact plain (List.mem_cons_of_mem c List.mem_cons_self)

/-- A carriage return in front of a newline belongs to the end of the line. -/
theorem splitLines_return {rest : List Char} (newline : rest.head? = some '\n') :
    splitLines ('\r' :: rest) = splitLines rest := by
  obtain ⟨tail, rfl⟩ := List.head?_eq_some_iff.mp newline
  rfl

/-- No line has a newline in it. -/
theorem newline_notMem_of_mem_splitLines {text line : List Char} (member : line ∈ splitLines text) :
    '\n' ∉ line := by
  induction text generalizing line with
  | nil => cases member
  | cons c rest ih =>
    by_cases isNewline : c = '\n'
    · subst isNewline
      rcases List.mem_cons.mp member with rfl | later
      · exact List.not_mem_nil
      · exact ih later
    by_cases ended : c = '\r' ∧ rest.head? = some '\n'
    · obtain ⟨rfl, newline⟩ := ended
      exact ih (splitLines_return newline ▸ member)
    · rw [splitLines_cons ⟨isNewline, fun isReturn newline => ended ⟨isReturn, newline⟩⟩] at member
      cases split : splitLines rest with
      | nil =>
        rw [split] at member
        rw [List.mem_singleton.mp member, List.mem_singleton]
        exact Ne.symm isNewline
      | cons first others =>
        rw [split] at member ih
        rcases List.mem_cons.mp member with rfl | later
        · exact List.not_mem_cons_of_ne_of_not_mem (Ne.symm isNewline) (ih List.mem_cons_self)
        · exact ih (List.mem_cons_of_mem first later)

/-- A line that is written with a newline behind it is the first line of the text. -/
theorem splitLines_append_newline {line : List Char} (plain : '\n' ∉ line) (ends : line.getLast? ≠ some '\r')
    (rest : List Char) : splitLines (line ++ '\n' :: rest) = line :: splitLines rest := by
  induction line with
  | nil => rfl
  | cons c line ih =>
    have stays : Stays c (line ++ '\n' :: rest) := stays_append plain fun empty isReturn _ => ends (by
      rw [empty, isReturn]
      rfl)
    refine splitLines_cons_of_eq stays (ih (List.not_mem_of_not_mem_cons plain) fun last => ends ?_)
    rw [List.getLast?_cons, last, Option.getD_some]

/-- Texts without newlines that are written one a line are the lines of what is written. -/
theorem splitLines_flatMap {written : List (List Char)}
    (plain : ∀ line ∈ written, '\n' ∉ line ∧ line.getLast? ≠ some '\r') :
    splitLines (written.flatMap fun line => line ++ ['\n']) = written := by
  induction written with
  | nil => rfl
  | cons line written ih =>
    obtain ⟨here, others⟩ := List.forall_mem_cons.mp plain
    rw [List.flatMap_cons, List.append_assoc, List.singleton_append,
      splitLines_append_newline here.1 here.2, ih others]

/-- Beyond the first newline, what the first line is does not matter. -/
theorem drop_splitLines_cons {c : Char} (other : c ≠ '\n') (rest : List Char) (count : Nat) :
    (splitLines (c :: rest)).drop (count + 1) = (splitLines rest).drop (count + 1) := by
  by_cases ended : c = '\r' ∧ rest.head? = some '\n'
  · obtain ⟨rfl, newline⟩ := ended
    rw [splitLines_return newline]
  · rw [splitLines_cons ⟨other, fun isReturn newline => ended ⟨isReturn, newline⟩⟩]
    cases splitLines rest <;> simp

/-- The lines behind a newline are those of the text behind it. -/
theorem drop_splitLines (front rest : List Char) :
    (splitLines (front ++ '\n' :: rest)).drop (front.count '\n' + 1) = splitLines rest := by
  induction front with
  | nil => rfl
  | cons c front ih =>
    by_cases isNewline : c = '\n'
    · subst isNewline
      rw [List.count_cons_self, List.cons_append, splitLines, List.drop_succ_cons, ih]
    · rw [List.count_cons_of_ne isNewline, List.cons_append, drop_splitLines_cons isNewline, ih]

/-- A text that goes on within its first line has it as its beginning. -/
theorem splitLines_of_plain {indent after : List Char} (plain : '\n' ∉ indent)
    (visible : ∀ c ∈ after.head?, c ≠ '\n' ∧ c ≠ '\r') (some : indent ++ after ≠ []) :
    ∃ rest lines, splitLines (indent ++ after) = (indent ++ rest) :: lines ∧ rest.head? = after.head? := by
  induction indent with
  | nil =>
    obtain ⟨c, after, rfl⟩ := List.exists_cons_of_ne_nil some
    obtain ⟨notNewline, notReturn⟩ := visible c rfl
    rw [List.nil_append, splitLines_cons ⟨notNewline, fun isReturn => absurd isReturn notReturn⟩]
    cases splitLines after with
    | nil => exact ⟨[c], [], rfl, rfl⟩
    | cons line lines => exact ⟨c :: line, lines, rfl, rfl⟩
  | cons c indent ih =>
    have stays : Stays c (indent ++ after) := stays_append plain fun _ _ newline => (visible '\n' newline).1 rfl
    by_cases ended : indent ++ after = []
    · obtain ⟨rfl, rfl⟩ := List.append_eq_nil_iff.mp ended
      exact ⟨[], [], splitLines_cons stays, rfl⟩
    · obtain ⟨rest, lines, split, head⟩ := ih (List.not_mem_of_not_mem_cons plain) ended
      exact ⟨rest, lines, splitLines_cons_of_eq stays split, head⟩

/-- What stands before the last line of a text is nothing, or ends with a newline. -/
theorem rdropWhile_newline (before : List Char) :
    before.rdropWhile (· != '\n') = [] ∨ ∃ front, before.rdropWhile (· != '\n') = front ++ ['\n'] := by
  by_cases empty : before.rdropWhile (· != '\n') = []
  · exact .inl empty
  · have last := List.rdropWhile_last_not _ before empty
    rw [bne_iff_ne, not_not] at last
    exact .inr ⟨_, last ▸ (List.dropLast_append_getLast empty).symm⟩

/-- The line that a place is on begins with what stands before the place behind the last newline, and goes
on as the text does at the place. -/
theorem exists_rest_of_getElem? {before after line : List Char}
    (visible : ∀ c ∈ after.head?, c ≠ '\n' ∧ c ≠ '\r')
    (shown : (splitLines (before ++ after))[before.count '\n']? = some line) :
    ∃ rest, line = before.rtakeWhile (· != '\n') ++ rest ∧ rest.head? = after.head? := by
  have plain : '\n' ∉ before.rtakeWhile (· != '\n') := fun member => by
    simpa using List.mem_rtakeWhile_imp member
  have whole : before.rdropWhile (· != '\n') ++ before.rtakeWhile (· != '\n') = before :=
    List.rdropWhile_append_rtakeWhile
  generalize before.rtakeWhile (· != '\n') = indent at plain whole ⊢
  -- the line is the first one of the text behind the last newline
  have first : (splitLines (indent ++ after))[0]? = some line := by
    rw [← whole, List.append_assoc, List.count_append, List.count_eq_zero_of_not_mem plain, Nat.add_zero] at shown
    rcases rdropWhile_newline before with empty | ⟨front, ended⟩
    · simpa [empty] using shown
    · rw [ended, List.append_assoc, List.count_append, List.count_singleton_self] at shown
      rw [← drop_splitLines front, List.getElem?_drop, Nat.add_zero]
      exact shown
  have some : indent ++ after ≠ [] := fun empty => by simp [empty, splitLines] at first
  obtain ⟨rest, lines, split, head⟩ := splitLines_of_plain plain visible some
  rw [split] at first
  exact ⟨rest, (Option.some.inj first).symm, head⟩

/-- The text has no blank in it. -/
def Unbroken (text : String) : Prop := ∀ c ∈ text.toList, isBlank c = false

instance (text : String) : Decidable (Unbroken text) :=
  decidable_of_iff (text.toList.all (!isBlank ·)) (by simp [Unbroken])

/-- The text is not empty and has no blank in it. -/
def Solid (text : String) : Prop := text ≠ "" ∧ Unbroken text

instance (text : String) : Decidable (Solid text) := inferInstanceAs (Decidable (_ ∧ _))

/-- The text ends with a character that is no blank. -/
def Closed (chars : List Char) : Prop := ∃ c ∈ chars.getLast?, isBlank c = false

theorem Unbroken.append {one other : String} (unbroken : Unbroken one) (unbroken' : Unbroken other) :
    Unbroken (one ++ other) := by
  unfold Unbroken
  rw [String.toList_append]
  exact List.forall_mem_append.mpr ⟨unbroken, unbroken'⟩

theorem Solid.append {one other : String} (solid : Solid one) (unbroken : Unbroken other) : Solid (one ++ other) :=
  ⟨fun empty => solid.1 (String.append_eq_empty_iff.mp empty).1, solid.2.append unbroken⟩

theorem Solid.prepend {one other : String} (solid : Solid other) (unbroken : Unbroken one) : Solid (one ++ other) :=
  ⟨fun empty => solid.1 (String.append_eq_empty_iff.mp empty).2, unbroken.append solid.2⟩

theorem Solid.newline_notMem {text : String} (solid : Solid text) : '\n' ∉ text.toList := fun member =>
  absurd (solid.2 _ member) (by decide)

theorem Solid.closed {text : String} (solid : Solid text) : Closed text.toList := by
  have some : text.toList ≠ [] := fun empty => solid.1 (String.toList_eq_nil_iff.mp empty)
  exact ⟨_, List.getLast?_eq_some_getLast some, solid.2 _ (List.getLast_mem some)⟩

theorem Closed.append {chars : List Char} (closed : Closed chars) (front : List Char) : Closed (front ++ chars) := by
  obtain ⟨c, last, visible⟩ := closed
  exact ⟨c, by rw [List.getLast?_append, last, Option.some_or, Option.mem_some_iff], visible⟩

/-- A text that ends with a character that is no blank is what it is without the blanks at its end. -/
theorem trimEnd_of_closed {chars : List Char} (closed : Closed chars) : trimEnd chars = chars := by
  obtain ⟨last, isLast, visible⟩ := closed
  obtain ⟨front, rfl⟩ := List.getLast?_eq_some_iff.mp isLast
  simp [trimEnd, visible]

/-- Blanks are dropped up to a character that is none. -/
theorem trimEnd_append {front blanks : List Char} (closed : Closed front) (blank : ∀ c ∈ blanks, isBlank c = true) :
    trimEnd (front ++ blanks) = front := by
  have dropped : (blanks.reverse ++ front.reverse).dropWhile isBlank = front.reverse.dropWhile isBlank :=
    List.dropWhile_append_of_pos fun c member => blank c (List.mem_reverse.mp member)
  rw [trimEnd, List.reverse_append, dropped]
  exact trimEnd_of_closed closed

end Stackwright.Text
