import P2PFileSync.Interface.CommandLines

/-!
# The message for a missing closing quote

`generate_nice_error_msg` shows the rest of the line, or a part of it that fits a
terminal, and points to a place of it. The places are computed with unsigned
subtractions. Where the rest is long and the place late, one of them wraps, or
nothing is shown at all, and the padding before the caret is longer than any
`std::string`: the call throws.

The place is the index of the space behind the quoted word. The caret stands
behind one space less than that index, so where it is printed, it is printed one
character too early.

Main result: `unpaired_report`.
-/

set_option autoImplicit false

namespace P2PFileSync

open StdString

/-! ## What is reported -/

/-- The loop on the command line comes to a rest that begins with a double quote,
has its first space at `current` and has no double quote behind it. -/
structure ReportsUnpaired (inputCommand input : Bytes) (current : ℕ) : Prop where
  reached : ∃ start result, find (trimmed inputCommand) space 0 = some start ∧
    Relation.ReflTransGen Iterates (eraseFront (trimmed inputCommand) (some (start + 1)), [])
      (input, result)
  spaced : find input space 0 = some current
  quoted : input.head? = some doubleQuote
  unpaired : find input doubleQuote (current + 1) = none

/-- The subtractions of two `size_t` made by `generate_nice_error_msg`. -/
def subtractions (errorLoc : ℕ) (command : Bytes) : List (ℕ × ℕ) :=
  (if 80 ≤ command.length ∧ ¬ errorLoc < 77 then
    (command.length, errorLoc) ::
      if sizeSub command.length errorLoc < 77 then
        [(errorLoc, command.length), (sizeSub errorLoc command.length, 77), (command.length, 77)]
      else []
  else []) ++ [((shownCommand errorLoc command).2, 1)]

/-- The number of spaces before the caret. -/
def caretPadding (errorLoc : ℕ) (command : Bytes) : ℕ := sizeSub (shownCommand errorLoc command).2 1

/-- The index in the command of the first character shown. -/
def shownStart (errorLoc : ℕ) (command : Bytes) : ℕ :=
  if 80 ≤ command.length ∧ ¬ errorLoc < 77 ∧ sizeSub command.length errorLoc < 77 then
    command.length - 77
  else 0

/-- `parse_command` returns the error, no subtraction wraps, and the padding is
shorter than the line shown. -/
def ReturnsMessage (inputCommand : Bytes) (parsedCommand : ParsedCommand) (errorLoc : ℕ)
    (command : Bytes) : Prop :=
  (∃ msg, Parses inputCommand parsedCommand (.returned ⟨.INVALID_ARGUMENT, msg⟩ parsedCommand)) ∧
    (∀ pair ∈ subtractions errorLoc command, pair.2 ≤ pair.1) ∧
    caretPadding errorLoc command < (shownCommand errorLoc command).1.length

/-- The character of the line shown that stands over the caret is the one at the
place of the error. -/
def CaretUnderError (errorLoc : ℕ) (command : Bytes) : Prop :=
  shownStart errorLoc command + caretPadding errorLoc command = errorLoc

/-! ## How the report ends -/

/-- The loop ends as the iteration it comes to. -/
theorem parseArguments_of_iterates {s t : Bytes × List Bytes}
    (reached : Relation.ReflTransGen Iterates s t) {arguments : Except ParseFailure (List Bytes)}
    (leaves : parseIteration t.1 t.2 = .leave arguments) :
    ∃ fuel, parseArguments fuel s.1 s.2 = some arguments := by
  induction reached using Relation.ReflTransGen.head_induction_on with
  | refl => exact ⟨1, by rw [parseArguments, leaves]⟩
  | head goes _ ih =>
      obtain ⟨fuel, ends⟩ := ih
      refine ⟨fuel + 1, ?_⟩
      rw [parseArguments, goes]
      exact ends

section Report

variable {inputCommand input : Bytes} {current : ℕ}

/-- The report is what `parse_command` ends with. -/
theorem ReportsUnpaired.parses (report : ReportsUnpaired inputCommand input current)
    (parsedCommand : ParsedCommand) :
    ∃ command, Parses inputCommand parsedCommand
      (finish command parsedCommand (.error (unpairedQuote current input))) := by
  obtain ⟨start, result, cut, reached⟩ := report.reached
  have leaves : parseIteration input result = .leave (.error (unpairedQuote current input)) := by
    simp only [parseIteration, report.spaced, if_pos report.quoted, report.unpaired]
  obtain ⟨fuel, ends⟩ := parseArguments_of_iterates reached leaves
  have spaced : space ∈ trimmed inputCommand := by
    by_contra alone
    rw [find_eq_none alone] at cut
    cases cut
  obtain ⟨command, rest, split, alone⟩ := List.eq_append_cons_of_mem spaced
  rw [split, find_append_cons alone] at cut
  obtain rfl := Option.some.inj cut
  rw [split, eraseFront_append_cons] at ends
  refine ⟨command, fuel, ?_⟩
  rw [parseCommand_arguments split alone, ends]
  rfl

/-- The place of the error lies inside the rest, behind its first character. -/
theorem ReportsUnpaired.bounds (report : ReportsUnpaired inputCommand input current) :
    0 < current ∧ current < input.length := by
  have spaced : space ∈ input := by
    by_contra alone
    have missing := report.spaced
    rw [find_eq_none alone] at missing
    cases missing
  obtain ⟨word, rest, rfl, alone⟩ := List.eq_append_cons_of_mem spaced
  have place := report.spaced
  rw [find_append_cons alone] at place
  obtain rfl := Option.some.inj place
  have quoted := (head?_append_space word rest).mp report.quoted
  constructor
  · exact List.length_pos_of_mem (List.mem_of_mem_head? quoted)
  · rw [List.length_append, List.length_cons]
    omega

/-- `parse_command` returns the error, or throws where the padding is too long. -/
theorem ReportsUnpaired.outcome (report : ReportsUnpaired inputCommand input current)
    (parsedCommand : ParsedCommand) :
    (caretPadding current input < 2 ^ 62 →
        ∃ msg, Parses inputCommand parsedCommand
          (.returned ⟨.INVALID_ARGUMENT, msg⟩ parsedCommand)) ∧
      (2 ^ 62 ≤ caretPadding current input → Parses inputCommand parsedCommand .lengthError) := by
  obtain ⟨command, parses⟩ := report.parses parsedCommand
  constructor
  · intro short
    rw [unpairedQuote, generateNiceErrorMsg, ← caretPadding, spaces, if_pos short] at parses
    exact ⟨_, parses⟩
  · intro long
    rw [unpairedQuote, generateNiceErrorMsg, ← caretPadding, spaces,
      if_neg (Nat.not_lt_of_le long)] at parses
    exact parses

end Report

/-! ## The computed places -/

section Places

variable {errorLoc : ℕ} {command : Bytes}

/-- A short line, or an early place: nothing wraps. -/
theorem places_of_early (positive : 0 < errorLoc) (inside : errorLoc < command.length)
    (early : command.length < 80 ∨ errorLoc < 77) :
    (∀ pair ∈ subtractions errorLoc command, pair.2 ≤ pair.1) ∧
      caretPadding errorLoc command + 1 = errorLoc ∧
      caretPadding errorLoc command < (shownCommand errorLoc command).1.length ∧
      shownStart errorLoc command = 0 := by
  have notLate : ¬ (80 ≤ command.length ∧ ¬ errorLoc < 77) := by omega
  have place : (shownCommand errorLoc command).2 = errorLoc := by
    unfold shownCommand
    by_cases long : 80 ≤ command.length
    · rw [if_pos long, if_pos (by omega)]
    · rw [if_neg long]
  have shown : errorLoc ≤ (shownCommand errorLoc command).1.length := by
    unfold shownCommand
    by_cases long : 80 ≤ command.length
    · rw [if_pos long, if_pos (by omega), List.length_append, substr, List.length_take,
        List.length_drop]
      omega
    · rw [if_neg long]
      exact inside.le
  have caret : caretPadding errorLoc command + 1 = errorLoc := by
    rw [caretPadding, place, sizeSub]
    omega
  refine ⟨?_, caret, by omega, ?_⟩
  · rw [subtractions, if_neg notLate, List.nil_append, place]
    exact List.forall_mem_singleton.mpr positive
  · exact if_neg fun late => notLate ⟨late.1, late.2.1⟩

/-- A long line and a late place: the padding is longer than any string. -/
theorem padding_of_late (inside : errorLoc < command.length) (long : 80 ≤ command.length)
    (late : 77 ≤ errorLoc) : 2 ^ 62 ≤ caretPadding errorLoc command := by
  rw [caretPadding, shownCommand, if_pos long, if_neg (Nat.not_lt_of_le late)]
  split
  · rename_i near
    simp only [sizeSub] at near ⊢
    omega
  · decide

end Places

/-- **No report is what it should be.** For every line on which `parse_command`
reports a missing closing quote, the caret does not stand under the place of the
error. The error is returned, with no subtraction that wraps and a padding shorter
than the line shown, exactly when the rest of the line has fewer than 80
characters or the place is below 77; there the caret stands one character before
the place. In all other cases `parse_command` throws. -/
theorem unpaired_report {inputCommand input : Bytes} {current : ℕ}
    (report : ReportsUnpaired inputCommand input current) (parsedCommand : ParsedCommand) :
    ¬ (ReturnsMessage inputCommand parsedCommand current input ∧ CaretUnderError current input) ∧
      (ReturnsMessage inputCommand parsedCommand current input ↔
        input.length < 80 ∨ current < 77) ∧
      (input.length < 80 ∨ current < 77 →
        shownStart current input + caretPadding current input + 1 = current) ∧
      (¬ (input.length < 80 ∨ current < 77) →
        Parses inputCommand parsedCommand .lengthError) := by
  obtain ⟨positive, inside⟩ := report.bounds
  obtain ⟨returns, throws⟩ := report.outcome parsedCommand
  have thrown (late : ¬ (input.length < 80 ∨ current < 77)) :
      Parses inputCommand parsedCommand .lengthError :=
    throws (padding_of_late inside (by omega) (by omega))
  have caret (early : input.length < 80 ∨ current < 77) :
      shownStart current input + caretPadding current input + 1 = current := by
    obtain ⟨-, before, -, start⟩ := places_of_early positive inside early
    rw [start, Nat.zero_add, before]
  have returned : ReturnsMessage inputCommand parsedCommand current input ↔
      input.length < 80 ∨ current < 77 := by
    constructor
    · rintro ⟨⟨msg, parses⟩, -⟩
      by_contra late
      cases Parses.unique parses (thrown late)
    · intro early
      obtain ⟨noWrap, before, shown, -⟩ := places_of_early positive inside early
      exact ⟨returns (by omega), noWrap, shown⟩
  refine ⟨?_, returned, caret, thrown⟩
  rintro ⟨message, under⟩
  have before := caret (returned.mp message)
  rw [CaretUnderError] at under
  omega

/-- A line whose rest has a quoted word of 82 characters and a second word. -/
def longLine : Bytes := utf8 "c \"" ++ (List.replicate 81 97 ++ utf8 " b")

theorem longLine_reports :
    ReportsUnpaired longLine (doubleQuote :: (List.replicate 81 97 ++ utf8 " b")) 82 where
  reached := by
    have rest : eraseFront (trimmed longLine) (some 2) =
        doubleQuote :: (List.replicate 81 97 ++ utf8 " b") := by decide
    exact ⟨1, [], by decide, by rw [rest]⟩
  spaced := by decide
  quoted := rfl
  unpaired := by decide

/-- Parsing this line throws. -/
theorem longLine_throws :
    ¬ ∀ inputCommand input current parsedCommand, ReportsUnpaired inputCommand input current →
      ReturnsMessage inputCommand parsedCommand current input ∧
        CaretUnderError current input := by
  intro all
  obtain ⟨⟨⟨msg, parses⟩, -⟩, -⟩ := all _ _ _ ([], []) longLine_reports
  obtain ⟨-, throws⟩ := longLine_reports.outcome ([], [])
  cases Parses.unique parses (throws (by decide))

/-- A short line with a quote that is not closed. -/
theorem unpaired_report_short :
    ∃ msg, Parses (utf8 "command \"abc def") ([], [])
      (.returned ⟨.INVALID_ARGUMENT, msg⟩ ([], [])) := by
  have rest : eraseFront (trimmed (utf8 "command \"abc def")) (some 8) = utf8 "\"abc def" := by
    decide
  have report : ReportsUnpaired (utf8 "command \"abc def") (utf8 "\"abc def") 4 :=
    ⟨⟨7, [], by decide, by rw [rest]⟩, by decide, by decide, by decide⟩
  exact ((unpaired_report report ([], [])).2.1.mpr (.inl (by decide))).1

end P2PFileSync
