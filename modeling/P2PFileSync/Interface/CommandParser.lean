import Mathlib.Logic.Relation
import P2PFileSync.Foundations.Bytes
import P2PFileSync.Foundations.StdString

/-!
# Parsing a command line

`parse_command` trims the line, takes the text before the first space as the
command and cuts the rest into arguments, one for each iteration of its loop.
`parseIteration` is one iteration, `parseArguments` the loop with a bound on the
number of iterations; `none` is a loop that has not ended within the bound.

An iteration whose argument begins with a double quote and finds the second one
stores a part of the line but erases nothing, so that the next iteration is the
same again. Main result: `parseCommand_terminates_iff`.
-/

set_option autoImplicit false

namespace P2PFileSync

open StdString

/-! ## The model -/

/-- `enum StatusCode`; `INTERNAL` has the value of `NOT_FOUND`. -/
inductive StatusCode where
  | OK
  | NOT_FOUND
  | UNAVAILABLE
  | INVALID_ARGUMENT
  deriving DecidableEq, Repr

structure Status where
  code : StatusCode
  msg : Bytes
  deriving DecidableEq

def Status.OK : Status := ⟨.OK, utf8 "Return Ok without error!"⟩

/-- A command and its arguments. -/
abbrev ParsedCommand := Bytes × List Bytes

/-- `' '` -/
def space : UInt8 := 32

/-- `'\"'` -/
def doubleQuote : UInt8 := 34

/-- `'\n'` -/
def newline : UInt8 := 10

/-- The difference of two values of type `size_t`. -/
def sizeSub (a b : ℕ) : ℕ := (2 ^ 64 + a - b) % 2 ^ 64

/-- `std::string(n, ' ')`; `none` is a `std::length_error`. -/
def spaces (n : ℕ) : Option Bytes := if n < 2 ^ 62 then some (List.replicate n space) else none

/-- The line `generate_nice_error_msg` shows and the place it points to. -/
def shownCommand (errorLoc : ℕ) (command : Bytes) : Bytes × ℕ :=
  if 80 ≤ command.length then
    if errorLoc < 77 then (substr command 0 77 ++ utf8 "...", errorLoc)
    else if sizeSub command.length errorLoc < 77 then
      (substr command (sizeSub command.length 77) command.length,
        sizeSub (sizeSub errorLoc command.length) 77)
    else ([], 0)
  else (command, errorLoc)

/-- `generate_nice_error_msg`; `none` is a `std::length_error`. -/
def generateNiceErrorMsg (errorMsg : Bytes) (errorLoc : ℕ) (command : Bytes) : Option Bytes :=
  (spaces (sizeSub (shownCommand errorLoc command).2 1)).map fun indent =>
    utf8 "\x1b[47;31mError:" ++ errorMsg ++ utf8 "\x1b[0m\n" ++
      (shownCommand errorLoc command).1 ++ [newline] ++ indent ++ utf8 "^\n"

/-- How `parse_command` ends early. -/
inductive ParseFailure where
  | returned (status : Status)
  | lengthError
  deriving DecidableEq

/-- The failure for a double quote without a second one. -/
def unpairedQuote (quoterStart : ℕ) (input : Bytes) : ParseFailure :=
  match generateNiceErrorMsg (utf8 "could not found pair of double quotes") quoterStart input with
  | none => .lengthError
  | some msg => .returned ⟨.INVALID_ARGUMENT, msg⟩

/-- What an iteration of the argument loop does: it leaves the loop, or goes
round again with another rest of the line and the arguments stored so far. -/
inductive Iteration where
  | leave (arguments : Except ParseFailure (List Bytes))
  | again (input : Bytes) (result : List Bytes)

/-- The test of the loop and its body; where the test fails, the argument stored
behind the loop. -/
def parseIteration (input : Bytes) (result : List Bytes) : Iteration :=
  match find input space 0 with
  | none => .leave (.ok (result ++ [input]))
  | some current =>
      if input.head? = some doubleQuote then
        match find input doubleQuote (current + 1) with
        | none => .leave (.error (unpairedQuote current input))
        | some closing => .again input (result ++ [substr input current closing])
      else .again (eraseFront input (some (current + 1))) (result ++ [substr input 0 current])

/-- The argument loop, for at most `fuel` iterations. -/
def parseArguments : ℕ → Bytes → List Bytes → Option (Except ParseFailure (List Bytes))
  | 0, _, _ => none
  | fuel + 1, input, result =>
      match parseIteration input result with
      | .leave arguments => some arguments
      | .again input result => parseArguments fuel input result

/-- The three trimming steps. -/
def trimmed (inputCommand : Bytes) : Bytes :=
  let input := eraseFront inputCommand (findFirstNotOf inputCommand space)
  let input := eraseAfter input (findLastNotOf input space)
  eraseAfter input (findLastNotOf input newline)

/-- How `parse_command` ends: with a status and the output, or with a
`std::length_error`. -/
inductive ParseOutcome where
  | returned (status : Status) (parsedCommand : ParsedCommand)
  | lengthError
  deriving DecidableEq

/-- `parse_command`, with at most `fuel` iterations of its loop. -/
def parseCommand (fuel : ℕ) (inputCommand : Bytes) (parsedCommand : ParsedCommand) :
    Option ParseOutcome :=
  let input := trimmed inputCommand
  if input = [] then
    some (.returned ⟨.INVALID_ARGUMENT, utf8 "command must be not empty"⟩ parsedCommand)
  else
    match find input space 0 with
    | none => some (.returned .OK (input, []))
    | some current =>
        match parseArguments fuel (eraseFront input (some (current + 1))) [] with
        | none => none
        | some (.ok result) => some (.returned .OK (substr input 0 current, result))
        | some (.error (.returned status)) => some (.returned status parsedCommand)
        | some (.error .lengthError) => some .lengthError

/-! ## One iteration -/

theorem head?_append_space (word rest : Bytes) :
    (word ++ space :: rest).head? = some doubleQuote ↔ word.head? = some doubleQuote := by
  cases word with
  | nil =>
      rw [List.nil_append, List.head?_cons]
      decide
  | cons first word => rfl

section Iteration

variable {word rest : Bytes} {result : List Bytes}

/-- The rest without a space is the last argument. -/
theorem parseIteration_last (alone : space ∉ word) :
    parseIteration word result = .leave (.ok (result ++ [word])) := by
  rw [parseIteration, find_eq_none alone]

/-- A word that does not begin with a double quote is stored and erased. -/
theorem parseIteration_word (alone : space ∉ word) (plain : word.head? ≠ some doubleQuote) :
    parseIteration (word ++ space :: rest) result = .again rest (result ++ [word]) := by
  simp only [parseIteration, find_append_cons alone, head?_append_space, if_neg plain,
    eraseFront_append_cons, substr_append_cons]

/-- The search for the second double quote looks at what follows the first
space. -/
theorem find_doubleQuote_eq_none_iff :
    find (word ++ space :: rest) doubleQuote (word.length + 1) = none ↔ doubleQuote ∉ rest := by
  have behind : (word ++ space :: rest).drop (word.length + 1) = rest :=
    eraseFront_append_cons word rest space
  rw [find_eq_none_iff, behind]

theorem parseIteration_unpaired (alone : space ∉ word) (quoted : word.head? = some doubleQuote)
    (unpaired : doubleQuote ∉ rest) :
    parseIteration (word ++ space :: rest) result =
      .leave (.error (unpairedQuote word.length (word ++ space :: rest))) := by
  simp only [parseIteration, find_append_cons alone, head?_append_space, if_pos quoted,
    find_doubleQuote_eq_none_iff.mpr unpaired]

/-- The branch that stores a part of the line and erases nothing. -/
theorem parseIteration_paired (alone : space ∉ word) (quoted : word.head? = some doubleQuote)
    (paired : doubleQuote ∈ rest) :
    ∃ stored, parseIteration (word ++ space :: rest) result =
      .again (word ++ space :: rest) (result ++ [stored]) := by
  cases found : find (word ++ space :: rest) doubleQuote (word.length + 1) with
  | none => exact absurd paired (find_doubleQuote_eq_none_iff.mp found)
  | some closing =>
      refine ⟨substr (word ++ space :: rest) word.length closing, ?_⟩
      simp only [parseIteration, find_append_cons alone, head?_append_space, if_pos quoted, found]

end Iteration

/-! ## The words on which the loop stalls -/

/-- The first of the words that begins with a double quote is followed by a word
with a double quote in it. -/
def Stalls (words : List Bytes) : Prop :=
  ∃ before word rest, words = before ++ word :: rest ∧
    (∀ plain ∈ before, plain.head? ≠ some doubleQuote) ∧ word.head? = some doubleQuote ∧
      ∃ later ∈ rest, doubleQuote ∈ later

theorem not_stalls_nil : ¬ Stalls [] := by
  rintro ⟨before, word, rest, split, _⟩
  exact absurd split.symm (List.append_ne_nil_of_right_ne_nil _ (List.cons_ne_nil _ _))

theorem stalls_cons_plain {word : Bytes} (plain : word.head? ≠ some doubleQuote)
    (words : List Bytes) : Stalls (word :: words) ↔ Stalls words := by
  constructor
  · rintro ⟨before, first, rest, split, passed, quoted, paired⟩
    cases before with
    | nil =>
        obtain ⟨rfl, _⟩ := List.cons.inj split
        exact absurd quoted plain
    | cons _ before =>
        obtain ⟨_, tail⟩ := List.cons.inj split
        exact ⟨before, first, rest, tail,
          fun w member => passed w (List.mem_cons_of_mem _ member), quoted, paired⟩
  · rintro ⟨before, first, rest, rfl, passed, quoted, paired⟩
    exact ⟨word :: before, first, rest, rfl, List.forall_mem_cons.mpr ⟨plain, passed⟩, quoted,
      paired⟩

theorem stalls_cons_quoted {word : Bytes} (quoted : word.head? = some doubleQuote)
    (words : List Bytes) : Stalls (word :: words) ↔ ∃ later ∈ words, doubleQuote ∈ later := by
  constructor
  · rintro ⟨before, first, rest, split, passed, _, paired⟩
    cases before with
    | nil =>
        obtain ⟨_, rfl⟩ := List.cons.inj split
        exact paired
    | cons other before =>
        obtain ⟨rfl, _⟩ := List.cons.inj split
        exact absurd quoted (passed word List.mem_cons_self)
  · intro paired
    exact ⟨[], word, words, rfl, List.forall_mem_nil _, quoted, paired⟩

/-- A character other than the separator is in a text when it is in one of its
words. -/
theorem exists_mem_splitOn_iff {c separator : UInt8} (different : c ≠ separator) (text : Bytes) :
    (∃ word ∈ text.splitOn separator, c ∈ word) ↔ c ∈ text := by
  induction text with
  | nil => simp
  | cons x text ih =>
      rw [List.splitOn_cons_eq_if_modifyHead, List.mem_cons, ← ih]
      obtain ⟨word, words, split⟩ := List.exists_cons_of_ne_nil (List.splitOn_ne_nil separator text)
      by_cases isSeparator : x = separator
      · simp [isSeparator, different]
      · simp [isSeparator, split, or_assoc]

/-! ## The loop -/

/-- The loop goes round from one rest of the line, with its stored arguments, to
the next. -/
def Iterates (s t : Bytes × List Bytes) : Prop := parseIteration s.1 s.2 = .again t.1 t.2

/-- No iteration of the loop on `input` leaves the rest of the line unchanged and
goes round again. -/
def NeverStuck (input : Bytes) : Prop :=
  ∀ s, Relation.ReflTransGen Iterates (input, []) s →
    ∀ result, parseIteration s.1 s.2 ≠ .again s.1 result

/-- What an iteration does with words that do not stall it: it leaves the loop,
or erases the first of them. -/
theorem parseIteration_of_not_stalls {input : Bytes} (runs : ¬ Stalls (input.splitOn space))
    (result : List Bytes) :
    (∃ arguments, parseIteration input result = .leave arguments) ∨
      ∃ word rest, input = word ++ space :: rest ∧ ¬ Stalls (rest.splitOn space) ∧
        parseIteration input result = .again rest (result ++ [word]) := by
  by_cases spaced : space ∈ input
  · obtain ⟨word, rest, rfl, alone⟩ := List.eq_append_cons_of_mem spaced
    rw [List.splitOn_append_cons_self_of_not_mem alone] at runs
    by_cases quoted : word.head? = some doubleQuote
    · rw [stalls_cons_quoted quoted, exists_mem_splitOn_iff (by decide)] at runs
      exact .inl ⟨_, parseIteration_unpaired alone quoted runs⟩
    · rw [stalls_cons_plain quoted] at runs
      exact .inr ⟨word, rest, rfl, runs, parseIteration_word alone quoted⟩
  · exact .inl ⟨_, parseIteration_last spaced⟩

theorem parseArguments_of_not_stalls {input : Bytes} (runs : ¬ Stalls (input.splitOn space))
    (result : List Bytes) {fuel : ℕ} (enough : input.length < fuel) :
    ∃ arguments, parseArguments fuel input result = some arguments := by
  induction fuel generalizing input result with
  | zero => exact absurd enough (Nat.not_lt_zero _)
  | succ fuel ih =>
      rw [parseArguments]
      obtain ⟨arguments, leaves⟩ | ⟨word, rest, rfl, next, goes⟩ :=
        parseIteration_of_not_stalls runs result
      · rw [leaves]
        exact ⟨arguments, rfl⟩
      · rw [goes]
        rw [List.length_append, List.length_cons] at enough
        exact ih next (result ++ [word]) (by omega)

theorem parseArguments_of_stalls {input : Bytes} (stalls : Stalls (input.splitOn space))
    (fuel : ℕ) (result : List Bytes) : parseArguments fuel input result = none := by
  induction fuel generalizing input result with
  | zero => rfl
  | succ fuel ih =>
      rw [parseArguments]
      by_cases spaced : space ∈ input
      · obtain ⟨word, rest, rfl, alone⟩ := List.eq_append_cons_of_mem spaced
        have words := List.splitOn_append_cons_self_of_not_mem alone rest
        by_cases quoted : word.head? = some doubleQuote
        · have paired := stalls
          rw [words, stalls_cons_quoted quoted, exists_mem_splitOn_iff (by decide)] at paired
          obtain ⟨stored, again⟩ :
              ∃ stored, parseIteration (word ++ space :: rest) result =
                .again (word ++ space :: rest) (result ++ [stored]) :=
            parseIteration_paired alone quoted paired
          rw [again]
          exact ih stalls _
        · rw [words, stalls_cons_plain quoted] at stalls
          rw [parseIteration_word alone quoted]
          exact ih stalls _
      · rw [List.splitOn_eq_singleton spaced] at stalls
        by_cases quoted : input.head? = some doubleQuote
        · obtain ⟨later, member, _⟩ := (stalls_cons_quoted quoted []).mp stalls
          cases member
        · exact absurd ((stalls_cons_plain quoted []).mp stalls) not_stalls_nil

theorem neverStuck_of_not_stalls {input : Bytes} (runs : ¬ Stalls (input.splitOn space)) :
    NeverStuck input := by
  intro s reached
  have invariant : ¬ Stalls (s.1.splitOn space) := by
    induction reached with
    | refl => exact runs
    | @tail s t _ goes ih =>
        obtain ⟨_, leaves⟩ | ⟨_, rest, _, next, again⟩ := parseIteration_of_not_stalls ih s.2
        · rw [Iterates, leaves] at goes
          cases goes
        · rw [Iterates, again, Iteration.again.injEq] at goes
          rw [← goes.1]
          exact next
  intro result stuck
  obtain ⟨_, leaves⟩ | ⟨word, rest, split, _, again⟩ := parseIteration_of_not_stalls invariant s.2
  · rw [leaves] at stuck
    cases stuck
  · rw [again, Iteration.again.injEq] at stuck
    have shorter := congrArg List.length (stuck.1.trans split)
    rw [List.length_append, List.length_cons] at shorter
    omega

/-! ## The whole command line -/

theorem parseCommand_of_empty {inputCommand : Bytes} (empty : trimmed inputCommand = [])
    (fuel : ℕ) (parsedCommand : ParsedCommand) :
    parseCommand fuel inputCommand parsedCommand =
      some (.returned ⟨.INVALID_ARGUMENT, utf8 "command must be not empty"⟩ parsedCommand) := by
  rw [parseCommand, if_pos empty]

theorem parseCommand_alone {inputCommand : Bytes} (content : trimmed inputCommand ≠ [])
    (alone : space ∉ trimmed inputCommand) (fuel : ℕ) (parsedCommand : ParsedCommand) :
    parseCommand fuel inputCommand parsedCommand =
      some (.returned .OK (trimmed inputCommand, [])) := by
  simp only [parseCommand, if_neg content, find_eq_none alone]

/-- How `parse_command` ends, given how its loop does. -/
def finish (command : Bytes) (parsedCommand : ParsedCommand) :
    Except ParseFailure (List Bytes) → ParseOutcome
  | .ok result => .returned .OK (command, result)
  | .error (.returned status) => .returned status parsedCommand
  | .error .lengthError => .lengthError

theorem parseCommand_arguments {inputCommand command rest : Bytes}
    (split : trimmed inputCommand = command ++ space :: rest) (alone : space ∉ command)
    (fuel : ℕ) (parsedCommand : ParsedCommand) :
    parseCommand fuel inputCommand parsedCommand =
      (parseArguments fuel rest []).map (finish command parsedCommand) := by
  have content : command ++ space :: rest ≠ [] :=
    List.append_ne_nil_of_right_ne_nil _ (List.cons_ne_nil _ _)
  simp only [parseCommand, split, if_neg content, find_append_cons alone, eraseFront_append_cons,
    substr_append_cons]
  cases parseArguments fuel rest [] with
  | none => rfl
  | some arguments =>
      cases arguments with
      | ok result => rfl
      | error failure => cases failure <;> rfl

/-- **When `parse_command` terminates.** It does, and no iteration of its loop
leaves the rest of the line unchanged and goes round again, exactly when the
first argument word that begins with a double quote is not followed by a word
with a double quote in it. -/
theorem parseCommand_terminates_iff (inputCommand : Bytes) (parsedCommand : ParsedCommand) :
    ((∃ fuel outcome, parseCommand fuel inputCommand parsedCommand = some outcome) ∧
        ∀ current, find (trimmed inputCommand) space 0 = some current →
          NeverStuck (eraseFront (trimmed inputCommand) (some (current + 1)))) ↔
      ¬ Stalls ((trimmed inputCommand).splitOn space).tail := by
  by_cases spaced : space ∈ trimmed inputCommand
  · obtain ⟨command, rest, split, alone⟩ := List.eq_append_cons_of_mem spaced
    rw [split, find_append_cons alone, List.splitOn_append_cons_self_of_not_mem alone,
      List.tail_cons]
    simp only [parseCommand_arguments split alone]
    constructor
    · rintro ⟨⟨fuel, outcome, ends⟩, _⟩ stalls
      rw [parseArguments_of_stalls stalls] at ends
      cases ends
    · intro runs
      constructor
      · obtain ⟨arguments, ends⟩ := parseArguments_of_not_stalls runs [] (Nat.lt_succ_self _)
        exact ⟨rest.length + 1, finish command parsedCommand arguments, by rw [ends]; rfl⟩
      · rintro current ⟨⟩
        rw [eraseFront_append_cons]
        exact neverStuck_of_not_stalls runs
  · rw [List.splitOn_eq_singleton spaced, List.tail_cons, find_eq_none spaced]
    refine iff_of_true ⟨⟨0, ?_⟩, fun _ impossible => by cases impossible⟩ not_stalls_nil
    by_cases empty : trimmed inputCommand = []
    · exact ⟨_, parseCommand_of_empty empty 0 parsedCommand⟩
    · exact ⟨_, parseCommand_alone empty spaced 0 parsedCommand⟩

/-- The line of the first disabled test with a quoted argument. -/
theorem quoter_argument_never_ends :
    ¬ ∃ fuel outcome, parseCommand fuel (utf8 "command \"quoter argument\"") ([], []) =
      some outcome := by
  have split : trimmed (utf8 "command \"quoter argument\"") =
      utf8 "command" ++ space :: utf8 "\"quoter argument\"" := by decide
  have words : (utf8 "\"quoter argument\"").splitOn space =
      [utf8 "\"quoter", utf8 "argument\""] := by decide
  have stalls : Stalls [utf8 "\"quoter", utf8 "argument\""] :=
    (stalls_cons_quoted (by decide) _).mpr ⟨_, List.mem_singleton_self _, by decide⟩
  rintro ⟨fuel, outcome, ends⟩
  rw [parseCommand_arguments split (by decide), parseArguments_of_stalls (words ▸ stalls)] at ends
  cases ends

end P2PFileSync
