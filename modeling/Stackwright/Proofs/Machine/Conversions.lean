import Mathlib.Algebra.Group.Nat.Even
import Stackwright.Proofs.Machine.Isolation

/-! Print formats. How many values a format takes is counted before it is read, and reading it comes to
the same number, as the signs of a pair stand next to each other in every run of percent signs. So each
conversion has a value of its own, and no value is left over. -/

set_option autoImplicit false

namespace Stackwright.Machine

namespace Format

/-- What a format writes with the values for its conversions, one for each of them. -/
inductive Writes (memory : Memory) : List Char → List Int32 → String → Prop where
  | done : Writes memory [] [] ""
  | plain {c : Char} {rest : List Char} {values : List Int32} {text : String} (plain : c ≠ '%')
      (later : Writes memory rest values text) : Writes memory (c :: rest) values (String.singleton c ++ text)
  | percent {rest : List Char} {values : List Int32} {text : String} (later : Writes memory rest values text) :
      Writes memory ('%' :: '%' :: rest) values ("%" ++ text)
  | int {rest : List Char} {value : Int32} {values : List Int32} {text : String}
      (later : Writes memory rest values text) :
      Writes memory ('%' :: 'd' :: rest) (value :: values) (toString value.toInt ++ text)
  | text {rest : List Char} {value : Int32} {values : List Int32} {shown text : String}
      (read : memory.readText value = .ok shown) (later : Writes memory rest values text) :
      Writes memory ('%' :: 's' :: rest) (value :: values) (shown ++ text)

/-- How many percent signs a text ends with. -/
def percentsAtEnd (text : List Char) : Nat := (text.reverse.takeWhile (· == '%')).length

/-- A percent sign between two texts is in no pair, if pairs are made from the left. -/
def Unpaired (before after : List Char) : Prop := Even (percentsAtEnd before) ∧ after.head? ≠ some '%'

variable {memory : Memory} {pc : Nat} {format output written text : String} {c : Char}
  {chars rest before after : List Char} {values : List Int32}

theorem escapes_cons_of_ne (plain : c ≠ '%') : escapes (c :: rest) = escapes rest := by
  rw [escapes]
  rintro _ rfl
  exact absurd rfl plain

theorem escapes_percent_of_ne (plain : c ≠ '%') : escapes ('%' :: c :: rest) = escapes rest := by
  rw [escapes, escapes_cons_of_ne plain]
  rintro _ - same
  exact plain (List.cons.inj same).1

/-- Pairs do not overlap, so that no sign is counted for two of them. -/
theorem two_mul_escapes_le (chars : List Char) : 2 * escapes chars ≤ chars.count '%' := by
  fun_induction escapes chars with
  | case1 rest ih =>
    rw [List.count_cons_self, List.count_cons_self]
    omega
  | case2 c rest _ ih => exact Nat.le_trans ih List.count_le_count_cons
  | case3 => exact Nat.le_refl 0

theorem conversions_cons_of_ne (plain : c ≠ '%') : conversions (c :: rest) = conversions rest := by
  rw [conversions, escapes_cons_of_ne plain, List.count_cons_of_ne plain, conversions]

theorem conversions_escape : conversions ('%' :: '%' :: rest) = conversions rest := by
  rw [conversions, escapes, List.count_cons_self, List.count_cons_self, conversions]
  omega

theorem conversions_percent_of_ne (plain : c ≠ '%') : conversions ('%' :: c :: rest) = conversions rest + 1 := by
  -- the count of the rest is exact, so that a sign more in front is a conversion more
  have enough := two_mul_escapes_le rest
  rw [conversions, escapes_percent_of_ne plain, List.count_cons_self, List.count_cons_of_ne plain, conversions]
  omega

/-- The count of conversions is the number of those that are reached. -/
theorem Writes.length_values (writes : Writes memory chars values text) : values.length = conversions chars := by
  induction writes with
  | done => rfl
  | plain plain later ih => rw [conversions_cons_of_ne plain, ih]
  | percent later ih => rw [conversions_escape, ih]
  | int later ih => rw [conversions_percent_of_ne (by decide), List.length_cons, ih]
  | text read later ih => rw [conversions_percent_of_ne (by decide), List.length_cons, ih]

example : conversions "%%%d %%%%%s".toList = 2 := by decide

theorem write_of_writes (writes : Writes memory chars values text) (pc : Nat) (format output : String) :
    write memory pc format chars values output = (output ++ text, none) := by
  induction writes generalizing output with
  | done => rw [write, String.append_empty]
  | plain plain later ih =>
    rw [write, ih, String.push_eq_append, String.append_assoc]
    exact plain
  | percent later ih => rw [write, ih, String.push_eq_append, String.append_assoc]; rfl
  | int later ih => rw [write, List.tail_cons, ih, List.headD_cons, String.append_assoc]
  | text read later ih => simp only [write, List.headD_cons, read, List.tail_cons, ih, String.append_assoc]

/-- With one value for each conversion counted, a format that is written to its end used one value for
each conversion reached. -/
theorem writes_of_write (enough : values.length = conversions chars)
    (done : write memory pc format chars values output = (written, none)) :
    ∃ text, Writes memory chars values text ∧ written = output ++ text := by
  fun_induction write memory pc format chars values output with
  | case1 values output =>
    obtain rfl := List.length_eq_zero_iff.mp enough
    exact ⟨"", .done, by rw [String.append_empty]; exact (Prod.mk.inj done).1.symm⟩
  | case2 values output rest ih =>
    rw [conversions_escape] at enough
    obtain ⟨text, writes, rfl⟩ := ih enough done
    exact ⟨_, writes.percent, by rw [String.push_eq_append, String.append_assoc]; rfl⟩
  | case3 values output rest ih =>
    rw [conversions_percent_of_ne (by decide)] at enough
    obtain ⟨value, values, rfl⟩ := List.exists_cons_of_length_eq_add_one enough
    obtain ⟨text, writes, rfl⟩ := ih (Nat.succ.inj enough) done
    exact ⟨_, writes.int, by rw [List.headD_cons, String.append_assoc]⟩
  | case4 values output rest shown read ih =>
    rw [conversions_percent_of_ne (by decide)] at enough
    obtain ⟨value, values, rfl⟩ := List.exists_cons_of_length_eq_add_one enough
    obtain ⟨text, writes, rfl⟩ := ih (Nat.succ.inj enough) done
    exact ⟨_, .text read writes, by rw [String.append_assoc]⟩
  | case5 => cases done
  | case6 => cases done
  | case7 c rest values output plain ih =>
    have plain : c ≠ '%' := plain
    rw [conversions_cons_of_ne plain] at enough
    obtain ⟨text, writes, rfl⟩ := ih enough done
    exact ⟨_, .plain plain writes, by rw [String.push_eq_append, String.append_assoc]⟩

/-- Another character ends every run of percent signs before it. -/
theorem percentsAtEnd_append_cons (front : List Char) (plain : c ≠ '%') :
    percentsAtEnd (front ++ c :: before) = percentsAtEnd before := by
  have none : (c :: front.reverse).takeWhile (· == '%') = [] :=
    List.takeWhile_cons_of_neg (by simpa using plain)
  rw [percentsAtEnd, List.reverse_append, List.reverse_cons, List.append_assoc, List.singleton_append,
    List.takeWhile_append, none, List.append_nil, percentsAtEnd]
  split
  next all => rw [all]
  next => rfl

theorem even_percentsAtEnd_escape (even : Even (percentsAtEnd before)) :
    Even (percentsAtEnd ('%' :: '%' :: before)) := by
  -- the pair lengthens the run at the end only if there is nothing but that run
  have both : ['%', '%'].takeWhile (· == '%') = ['%', '%'] := rfl
  rw [percentsAtEnd, List.reverse_cons, List.reverse_cons, List.append_assoc, List.singleton_append,
    List.takeWhile_append, both]
  split
  next all =>
    rw [percentsAtEnd, all] at even
    rw [List.length_append]
    exact even.add (by decide)
  next => exact even

theorem Unpaired.append_cons (unpaired : Unpaired before after) (front : List Char) (plain : c ≠ '%') :
    Unpaired (front ++ c :: before) after :=
  ⟨(percentsAtEnd_append_cons front plain).symm ▸ unpaired.1, unpaired.2⟩

theorem Unpaired.escape (unpaired : Unpaired before after) : Unpaired ('%' :: '%' :: before) after :=
  ⟨even_percentsAtEnd_escape unpaired.1, unpaired.2⟩

/-- A format is rejected only for a sign that is in no pair and begins no conversion. -/
theorem unpaired_of_write {other : String}
    (failed : write memory pc format chars values output = (written, some (.badFormat other))) :
    other = format ∧ ∃ before after, chars = before ++ '%' :: after ∧ Unpaired before after ∧
      after.head? ≠ some 'd' ∧ after.head? ≠ some 's' := by
  -- what was written before the sign are pairs, conversions and other characters; pairs alone may end in a
  -- run of signs, which then is of even length
  fun_induction write memory pc format chars values output with
  | case1 => cases failed
  | case2 values output rest ih =>
    obtain ⟨same, before, after, rfl, unpaired, others⟩ := ih failed
    exact ⟨same, _, _, rfl, unpaired.escape, others⟩
  | case3 values output rest ih =>
    obtain ⟨same, before, after, rfl, unpaired, others⟩ := ih failed
    exact ⟨same, _, _, rfl, unpaired.append_cons ['%'] (by decide), others⟩
  | case4 values output rest shown read ih =>
    obtain ⟨same, before, after, rfl, unpaired, others⟩ := ih failed
    exact ⟨same, _, _, rfl, unpaired.append_cons ['%'] (by decide), others⟩
  | case5 => cases failed
  | case6 rest values output notEscape notInt notText =>
    have apart (c : Char) (differs : ∀ others, rest = c :: others → False) : rest.head? ≠ some c := by
      intro first
      obtain ⟨others, begins⟩ := List.head?_eq_some_iff.mp first
      exact differs others begins
    cases failed
    exact ⟨rfl, [], rest, rfl, ⟨Even.zero, apart _ notEscape⟩, apart _ notInt, apart _ notText⟩
  | case7 c rest values output plain ih =>
    have plain : c ≠ '%' := plain
    obtain ⟨same, before, after, rfl, unpaired, others⟩ := ih failed
    exact ⟨same, _, _, rfl, unpaired.append_cons [] plain, others⟩

end Format

namespace State

variable {state next last : State} {address : Int32} {format text : String} {values below : List Int32}

theorem print_of_writes (stands : state.stack = address :: values.reverse ++ below)
    (read : state.memory.readText address = .ok format)
    (writes : Format.Writes state.memory format.toList values text) :
    state.print =
      .running { state with pc := state.pc + 1, stack := below, output := state.output ++ text } := by
  have count : values.reverse.length = Format.conversions format.toList := by
    rw [List.length_reverse, writes.length_values]
  have enough : ¬(values.reverse ++ below).length < values.reverse.length := by
    rw [List.length_append]
    omega
  rw [List.cons_append] at stands
  simp only [print, stands, read, ← count, if_neg enough, List.take_left, List.drop_left, List.reverse_reverse,
    Format.write_of_writes writes, State.next]

/-- What printing can come to. -/
inductive Prints (state : State) : Outcome → Prop where
  | underflow : Prints state (.faulted (.stackUnderflow state.pc) { state with stack := [] })
  | unreadable {failed : Int} {rest : List Int32} :
      Prints state (.faulted (.badAddress failed state.pc) { state with stack := rest })
  | written {address : Int32} {format output : String} {values below : List Int32}
      (stands : state.stack = address :: values.reverse ++ below)
      (read : state.memory.readText address = .ok format)
      (count : values.length = Format.conversions format.toList)
      (done : Format.write state.memory state.pc format format.toList values state.output = (output, none)) :
      Prints state (.running { state with pc := state.pc + 1, stack := below, output := output })
  | broken {address : Int32} {format output : String} {fault : Fault} {values below : List Int32}
      (stands : state.stack = address :: values.reverse ++ below)
      (read : state.memory.readText address = .ok format)
      (failed : Format.write state.memory state.pc format format.toList values state.output = (output, some fault)) :
      Prints state (.faulted fault { state with stack := below, output := output })

theorem prints_print (state : State) : state.Prints state.print := by
  unfold print
  split
  next => exact .underflow
  next address rest stands =>
    split
    next => exact .unreadable
    next format read =>
      dsimp only
      split
      next => exact .underflow
      next enough =>
        have parts : state.stack = address :: (rest.take (Format.conversions format.toList)).reverse.reverse ++
            rest.drop (Format.conversions format.toList) := by
          rw [List.reverse_reverse, List.cons_append, List.take_append_drop, stands]
        split
        next done =>
          refine .written parts read ?_ (Prod.ext rfl done)
          rw [List.length_reverse, List.length_take]
          omega
        next fault failed => exact .broken parts read (Prod.ext rfl failed)

theorem writes_of_print (running : state.print = .running next) :
    ∃ address format values below text, state.stack = address :: values.reverse ++ below ∧
      state.memory.readText address = .ok format ∧ Format.Writes state.memory format.toList values text ∧
      next = { state with pc := state.pc + 1, stack := below, output := state.output ++ text } := by
  have prints := state.prints_print
  rw [running] at prints
  cases prints with
  | written stands read count done =>
    obtain ⟨text, writes, rfl⟩ := Format.writes_of_write count done
    exact ⟨_, _, _, _, text, stands, read, writes, rfl⟩

theorem unpaired_of_print (failed : state.print = .faulted (.badFormat format) last) :
    (∃ address rest, state.stack = address :: rest ∧ state.memory.readText address = .ok format) ∧
      ∃ before after, format.toList = before ++ '%' :: after ∧ Format.Unpaired before after ∧
        after.head? ≠ some 'd' ∧ after.head? ≠ some 's' := by
  have prints := state.prints_print
  rw [failed] at prints
  cases prints with
  | broken stands read rejected =>
    obtain ⟨rfl, unpaired⟩ := Format.unpaired_of_write rejected
    exact ⟨⟨_, _, stands, read⟩, unpaired⟩

/-- A format that is printed takes its address and one value for each conversion off the stack, the
value for the last conversion being on top, and leaves everything below. Counting the conversions by
their signs comes to their number, no format makes the count negative, and one is rejected only for a
sign that is in no pair and begins no conversion. -/
theorem print_consumes (state : State) :
    (∀ format : List Char, 2 * Format.escapes format ≤ format.count '%') ∧
    (∀ format values text, Format.Writes state.memory format values text →
      values.length = Format.conversions format) ∧
    (∀ next, state.print = .running next ↔ ∃ address format values below text,
      state.stack = address :: values.reverse ++ below ∧ state.memory.readText address = .ok format ∧
      Format.Writes state.memory format.toList values text ∧
      next = { state with pc := state.pc + 1, stack := below, output := state.output ++ text }) ∧
    (∀ format last, state.print = .faulted (.badFormat format) last →
      (∃ address rest, state.stack = address :: rest ∧ state.memory.readText address = .ok format) ∧
      ∃ before after, format.toList = before ++ '%' :: after ∧ Format.Unpaired before after ∧
        after.head? ≠ some 'd' ∧ after.head? ≠ some 's') := by
  refine ⟨Format.two_mul_escapes_le, fun _ _ _ => Format.Writes.length_values, fun next => ⟨writes_of_print, ?_⟩,
    fun _ _ => unpaired_of_print⟩
  rintro ⟨address, format, values, below, text, stands, read, writes, rfl⟩
  exact print_of_writes stands read writes

end State

end Stackwright.Machine
