import P2PFileSync.Interface.CommandParser

/-!
# Command lines and what they parse to

A line without double quotes is cut at every single space
(`parseCommand_unquoted`). The newline that ends every line the interface reads
keeps the spaces before it from being trimmed (`parses_delivered_iff`). A line
with an argument in double quotes that contains a space is never parsed at all
(`rendered_never_parses`).
-/

set_option autoImplicit false

namespace P2PFileSync

open StdString

/-! ## The bound on the loop -/

theorem parseArguments_mono {fuel more : ℕ} {input : Bytes} {result : List Bytes}
    {arguments : Except ParseFailure (List Bytes)} (le : fuel ≤ more)
    (ends : parseArguments fuel input result = some arguments) :
    parseArguments more input result = some arguments := by
  induction fuel generalizing more input result with
  | zero => cases ends
  | succ fuel ih =>
      obtain ⟨more, rfl⟩ := Nat.exists_eq_add_of_le' (Nat.le_trans (Nat.le_add_left 1 fuel) le)
      rw [parseArguments] at ends ⊢
      cases goes : parseIteration input result with
      | leave outcome =>
          rw [goes] at ends
          exact ends
      | again input result =>
          rw [goes] at ends
          exact ih (Nat.le_of_succ_le_succ le) ends

/-- `parse_command` ends with the outcome. -/
def Parses (inputCommand : Bytes) (parsedCommand : ParsedCommand) (outcome : ParseOutcome) :
    Prop :=
  ∃ fuel, parseCommand fuel inputCommand parsedCommand = some outcome

/-- Only the trimmed line counts. -/
theorem parseCommand_congr {line other : Bytes} (same : trimmed line = trimmed other) (fuel : ℕ)
    (parsedCommand : ParsedCommand) :
    parseCommand fuel line parsedCommand = parseCommand fuel other parsedCommand := by
  rw [parseCommand, parseCommand, same]

/-- The fuel matters only for the loop. -/
theorem parseCommand_of_loop {fuel more : ℕ} {inputCommand : Bytes}
    {parsedCommand : ParsedCommand} {outcome : ParseOutcome}
    (loops : ∀ command rest arguments, trimmed inputCommand = command ++ space :: rest →
      parseArguments fuel rest [] = some arguments → parseArguments more rest [] = some arguments)
    (ends : parseCommand fuel inputCommand parsedCommand = some outcome) :
    parseCommand more inputCommand parsedCommand = some outcome := by
  by_cases spaced : space ∈ trimmed inputCommand
  · obtain ⟨command, rest, split, alone⟩ := List.eq_append_cons_of_mem spaced
    rw [parseCommand_arguments split alone, Option.map_eq_some_iff] at ends ⊢
    obtain ⟨arguments, loop, same⟩ := ends
    exact ⟨arguments, loops command rest arguments split loop, same⟩
  · rw [← ends, parseCommand, parseCommand, find_eq_none spaced]

theorem parseCommand_mono {fuel more : ℕ} {inputCommand : Bytes} {parsedCommand : ParsedCommand}
    {outcome : ParseOutcome} (le : fuel ≤ more)
    (ends : parseCommand fuel inputCommand parsedCommand = some outcome) :
    parseCommand more inputCommand parsedCommand = some outcome :=
  parseCommand_of_loop (fun _ _ _ _ loop => parseArguments_mono le loop) ends

theorem Parses.unique {inputCommand : Bytes} {parsedCommand : ParsedCommand}
    {outcome other : ParseOutcome} (parses : Parses inputCommand parsedCommand outcome)
    (also : Parses inputCommand parsedCommand other) : outcome = other := by
  obtain ⟨fuel, ends⟩ := parses
  obtain ⟨more, ends_other⟩ := also
  have first := parseCommand_mono (Nat.le_max_left fuel more) ends
  have second := parseCommand_mono (Nat.le_max_right fuel more) ends_other
  exact Option.some.inj (first.symm.trans second)

/-! ## Trimming -/

theorem trimmed_eq (inputCommand : Bytes) :
    trimmed inputCommand = ((inputCommand.dropWhile (· == space)).rdropWhile
      (· == space)).rdropWhile (· == newline) := by
  rw [trimmed, eraseAfter_findLastNotOf, eraseAfter_findLastNotOf, eraseFront_findFirstNotOf]

theorem mem_of_mem_trimmed {c : UInt8} {inputCommand : Bytes} (member : c ∈ trimmed inputCommand) :
    c ∈ inputCommand := by
  rw [trimmed_eq] at member
  have kept := (List.rdropWhile_prefix _ _).subset ((List.rdropWhile_prefix _ _).subset member)
  exact (List.dropWhile_suffix _).subset kept

theorem rdropWhile_eq_self {text : Bytes} {c : UInt8} (last : text.getLast? ≠ some c) :
    text.rdropWhile (· == c) = text := by
  rw [List.rdropWhile_eq_self_iff]
  intro content same
  apply last
  rw [List.getLast?_eq_some_getLast content, eq_of_beq same]

theorem dropWhile_eq_self {text : Bytes} {c : UInt8} (first : text.head? ≠ some c) :
    text.dropWhile (· == c) = text := by
  cases text with
  | nil => rfl
  | cons x text =>
      refine List.dropWhile_cons_of_neg ?_
      intro same
      exact first (congrArg some (eq_of_beq same))

theorem trimmed_eq_self {text : Bytes} (first : text.head? ≠ some space)
    (last : text.getLast? ≠ some space) (ending : text.getLast? ≠ some newline) :
    trimmed text = text := by
  rw [trimmed_eq, dropWhile_eq_self first, rdropWhile_eq_self last, rdropWhile_eq_self ending]

theorem length_trimmed_le (inputCommand : Bytes) :
    (trimmed inputCommand).length ≤ inputCommand.length := by
  rw [trimmed_eq]
  calc (((inputCommand.dropWhile _).rdropWhile _).rdropWhile _).length
      ≤ ((inputCommand.dropWhile _).rdropWhile _).length := (List.rdropWhile_prefix _ _).length_le
    _ ≤ (inputCommand.dropWhile _).length := (List.rdropWhile_prefix _ _).length_le
    _ ≤ inputCommand.length := (List.dropWhile_suffix _).length_le

/-- A loop that ends does so in fewer iterations than its input has characters, and
one more. -/
theorem parseArguments_of_ends {fuel more : ℕ} {rest : Bytes}
    {arguments : Except ParseFailure (List Bytes)} (enough : rest.length < more)
    (loop : parseArguments fuel rest [] = some arguments) :
    parseArguments more rest [] = some arguments := by
  have runs : ¬ Stalls (rest.splitOn space) := by
    intro stalls
    rw [parseArguments_of_stalls stalls] at loop
    cases loop
  obtain ⟨others, ends⟩ := parseArguments_of_not_stalls runs [] enough
  have first := parseArguments_mono (Nat.le_max_left fuel more) loop
  have second := parseArguments_mono (Nat.le_max_right fuel more) ends
  rw [ends, ← second, first]

/-- The length of the line bounds the iterations of a loop that ends. -/
theorem parses_iff {inputCommand : Bytes} {parsedCommand : ParsedCommand}
    {outcome : ParseOutcome} :
    Parses inputCommand parsedCommand outcome ↔
      parseCommand (inputCommand.length + 1) inputCommand parsedCommand = some outcome := by
  refine ⟨?_, fun ends => ⟨_, ends⟩⟩
  rintro ⟨fuel, ends⟩
  refine parseCommand_of_loop (fun command rest arguments split loop => ?_) ends
  have shorter : rest.length < inputCommand.length + 1 := by
    have whole := length_trimmed_le inputCommand
    rw [split, List.length_append, List.length_cons] at whole
    omega
  exact parseArguments_of_ends shorter loop

/-! ## Lines without double quotes -/

theorem parseArguments_unquoted {input : Bytes} (unquoted : doubleQuote ∉ input)
    (result : List Bytes) {fuel : ℕ} (enough : input.length < fuel) :
    parseArguments fuel input result = some (.ok (result ++ input.splitOn space)) := by
  induction fuel generalizing input result with
  | zero => exact absurd enough (Nat.not_lt_zero _)
  | succ fuel ih =>
      rw [parseArguments]
      by_cases spaced : space ∈ input
      · obtain ⟨word, rest, rfl, alone⟩ := List.eq_append_cons_of_mem spaced
        rw [List.mem_append, List.mem_cons, not_or, not_or] at unquoted
        obtain ⟨notInWord, _, notInRest⟩ := unquoted
        have plain : word.head? ≠ some doubleQuote :=
          fun quoted => notInWord (List.mem_of_mem_head? quoted)
        rw [List.length_append, List.length_cons] at enough
        rw [parseIteration_word alone plain, List.splitOn_append_cons_self_of_not_mem alone]
        show parseArguments fuel rest _ = _
        rw [ih notInRest _ (by omega), List.append_assoc, List.singleton_append]
      · rw [parseIteration_last spaced, List.splitOn_eq_singleton spaced]

/-- A trimmed line that is not empty is cut at every space. -/
theorem parseCommand_cuts {inputCommand : Bytes} (unquoted : doubleQuote ∉ inputCommand)
    (content : trimmed inputCommand ≠ []) (parsedCommand : ParsedCommand) :
    ∃ command arguments, command :: arguments = (trimmed inputCommand).splitOn space ∧
      ∀ fuel, (trimmed inputCommand).length < fuel →
        parseCommand fuel inputCommand parsedCommand =
          some (.returned .OK (command, arguments)) := by
  by_cases spaced : space ∈ trimmed inputCommand
  · obtain ⟨command, rest, split, alone⟩ := List.eq_append_cons_of_mem spaced
    have notInRest : doubleQuote ∉ rest := by
      intro member
      apply unquoted
      apply mem_of_mem_trimmed
      rw [split]
      exact List.mem_append_right _ (List.mem_cons_of_mem _ member)
    refine ⟨command, rest.splitOn space, ?_, ?_⟩
    · rw [split, List.splitOn_append_cons_self_of_not_mem alone]
    · intro fuel enough
      rw [split, List.length_append, List.length_cons] at enough
      rw [parseCommand_arguments split alone,
        parseArguments_unquoted notInRest [] (by omega), List.nil_append]
      rfl
  · refine ⟨trimmed inputCommand, [], (List.splitOn_eq_singleton spaced).symm, ?_⟩
    intro fuel _
    exact parseCommand_alone content spaced fuel parsedCommand

/-- **A line without double quotes.** If nothing is left after the trimming, the
command is refused and the output is not touched. Otherwise the command and its
arguments are the trimmed line cut at every single space. -/
theorem parseCommand_unquoted (inputCommand : Bytes) (unquoted : doubleQuote ∉ inputCommand)
    (parsedCommand : ParsedCommand) :
    (trimmed inputCommand = [] → ∀ fuel, parseCommand fuel inputCommand parsedCommand =
        some (.returned ⟨.INVALID_ARGUMENT, utf8 "command must be not empty"⟩ parsedCommand)) ∧
      (trimmed inputCommand ≠ [] → ∃ command arguments,
        (∀ fuel, (trimmed inputCommand).length < fuel →
          parseCommand fuel inputCommand parsedCommand =
            some (.returned .OK (command, arguments))) ∧
        command :: arguments = (trimmed inputCommand).splitOn space ∧
        [space].intercalate (command :: arguments) = trimmed inputCommand) := by
  constructor
  · intro empty fuel
    exact parseCommand_of_empty empty fuel parsedCommand
  · intro content
    obtain ⟨command, arguments, cut, ends⟩ := parseCommand_cuts unquoted content parsedCommand
    refine ⟨command, arguments, ends, cut, ?_⟩
    rw [cut, List.intercalate_splitOn]

/-- The line of a login command, with a space too many. -/
theorem parseCommand_unquoted_login :
    doubleQuote ∉ utf8 " USER LOGIN  admin " ∧
      ∃ fuel, parseCommand fuel (utf8 " USER LOGIN  admin ") ([], []) =
        some (.returned .OK (utf8 "USER", [utf8 "LOGIN", [], utf8 "admin"])) := by
  have unquoted : doubleQuote ∉ utf8 " USER LOGIN  admin " := by decide
  refine ⟨unquoted, 20, ?_⟩
  obtain ⟨command, arguments, ends, cut, _⟩ :=
    (parseCommand_unquoted _ unquoted ([], [])).2 (by decide)
  have words : (trimmed (utf8 " USER LOGIN  admin ")).splitOn space =
      [utf8 "USER", utf8 "LOGIN", [], utf8 "admin"] := by decide
  rw [words] at cut
  obtain ⟨rfl, rfl⟩ := List.cons.inj cut
  exact ends 20 (by decide)

/-! ## The line as the interface delivers it -/

/-- `m` spaces, a line, `n` spaces and the newline. -/
def delivered (m : ℕ) (line : Bytes) (n : ℕ) : Bytes :=
  List.replicate m space ++ (line ++ (List.replicate n space ++ [newline]))

theorem dropWhile_replicate_append (m : ℕ) (text : Bytes) :
    (List.replicate m space ++ text).dropWhile (· == space) = text.dropWhile (· == space) :=
  List.dropWhile_append_of_pos fun c member => by
    rw [List.eq_of_mem_replicate member, beq_self_eq_true]

/-- The newline hides the spaces before it from the second trimming step. -/
theorem trimmed_delivered {line : Bytes} (content : line ≠ []) (oneLine : newline ∉ line)
    (first : line.head? ≠ some space) (m n : ℕ) :
    trimmed (delivered m line n) = line ++ List.replicate n space := by
  have stays : (line ++ (List.replicate n space ++ [newline])).head? ≠ some space := by
    rwa [List.head?_append_of_ne_nil _ content]
  have ends : (line ++ (List.replicate n space ++ [newline])).getLast? = some newline := by
    rw [← List.append_assoc, List.getLast?_concat]
  have hidden : (line ++ (List.replicate n space ++ [newline])).getLast? ≠ some space := by
    rw [ends]
    decide
  have rest : (line ++ List.replicate n space).getLast? ≠ some newline := by
    intro last
    rcases List.mem_append.mp (List.mem_of_getLast? last) with inLine | inSpaces
    · exact oneLine inLine
    · exact absurd (List.eq_of_mem_replicate inSpaces) (by decide)
  rw [trimmed_eq, delivered, dropWhile_replicate_append, dropWhile_eq_self stays,
    rdropWhile_eq_self hidden, ← List.append_assoc,
    List.rdropWhile_concat_pos _ _ _ (by decide), rdropWhile_eq_self rest]

theorem trimmed_delivered_nil (m n : ℕ) : trimmed (delivered m [] n) = [] := by
  rw [trimmed_eq, delivered, List.nil_append, dropWhile_replicate_append,
    dropWhile_replicate_append]
  rfl

theorem doubleQuote_notMem_delivered {line : Bytes} (unquoted : doubleQuote ∉ line) (m n : ℕ) :
    doubleQuote ∉ delivered m line n := by
  intro member
  simp only [delivered, List.mem_append, List.mem_singleton, List.mem_replicate] at member
  rcases member with ⟨_, impossible⟩ | inLine | ⟨_, impossible⟩ | impossible
  · exact absurd impossible (by decide)
  · exact unquoted inLine
  · exact absurd impossible (by decide)
  · exact absurd impossible (by decide)

/-- Two lines without double quotes that parse alike are trimmed to the same text. -/
theorem trimmed_eq_of_parses {line other : Bytes} (unquoted : doubleQuote ∉ line)
    (other_unquoted : doubleQuote ∉ other) (content : trimmed line ≠ [])
    (other_content : trimmed other ≠ []) {parsedCommand : ParsedCommand}
    (same : ∀ outcome, Parses other parsedCommand outcome → Parses line parsedCommand outcome) :
    trimmed line = trimmed other := by
  obtain ⟨command, arguments, cut, ends⟩ := parseCommand_cuts unquoted content parsedCommand
  obtain ⟨command', arguments', cut', ends'⟩ :=
    parseCommand_cuts other_unquoted other_content parsedCommand
  have parses : Parses line parsedCommand (.returned .OK (command, arguments)) :=
    ⟨_, ends _ (Nat.lt_succ_self _)⟩
  have parses' : Parses line parsedCommand (.returned .OK (command', arguments')) :=
    same _ ⟨_, ends' _ (Nat.lt_succ_self _)⟩
  cases Parses.unique parses parses'
  have texts := congrArg [space].intercalate (cut.symm.trans cut')
  rwa [List.intercalate_splitOn, List.intercalate_splitOn] at texts

/-- **The spaces before the newline.** A line between spaces and the newline
parses as the line alone exactly when there is no space before the newline, or
the line is empty. -/
theorem parses_delivered_iff (line : Bytes) (m n : ℕ) (unquoted : doubleQuote ∉ line)
    (oneLine : newline ∉ line) (first : line.head? ≠ some space)
    (last : line.getLast? ≠ some space) :
    (∀ parsedCommand outcome,
        Parses (delivered m line n) parsedCommand outcome ↔ Parses line parsedCommand outcome) ↔
      n = 0 ∨ line = [] := by
  by_cases content : line = []
  · refine iff_of_true ?_ (.inr content)
    intro parsedCommand outcome
    have same : trimmed (delivered m [] n) = trimmed [] := trimmed_delivered_nil m n
    rw [content, Parses, Parses]
    simp only [parseCommand_congr same]
  · have alone : trimmed line = line :=
      trimmed_eq_self first last fun ending => oneLine (List.mem_of_getLast? ending)
    have whole := trimmed_delivered content oneLine first m n
    constructor
    · intro same
      have delivered_content : trimmed (delivered m line n) ≠ [] := by
        rw [whole]
        exact List.append_ne_nil_of_left_ne_nil content _
      have texts := trimmed_eq_of_parses unquoted (doubleQuote_notMem_delivered unquoted m n)
        (by rwa [alone]) delivered_content fun outcome => (same ([], []) outcome).mp
      rw [alone, whole] at texts
      have lengths := congrArg List.length texts
      rw [List.length_append, List.length_replicate] at lengths
      exact .inl (by omega)
    · rintro (rfl | empty)
      · rw [List.replicate_zero, List.append_nil] at whole
        intro parsedCommand outcome
        rw [Parses, Parses]
        simp only [parseCommand_congr (whole.trans alone.symm)]
      · exact absurd empty content

/-- A space before the line and none behind it. -/
theorem parses_delivered_list :
    Parses (delivered 1 (utf8 "LIST") 0) ([], []) (.returned .OK (utf8 "LIST", [])) :=
  ((parses_delivered_iff (utf8 "LIST") 1 0 (by decide) (by decide) (by decide)
    (by decide)).mpr (.inl rfl) _ _).mpr ⟨0, by decide⟩

/-- One space before the newline gives the command an empty argument. -/
theorem space_before_newline_parsed :
    ¬ ∀ parsedCommand outcome, Parses (delivered 0 (utf8 "LIST") 1) parsedCommand outcome ↔
      Parses (utf8 "LIST") parsedCommand outcome := by
  intro same
  have padded : Parses (delivered 0 (utf8 "LIST") 1) ([], [])
      (.returned .OK (utf8 "LIST", [[]])) := ⟨2, by decide⟩
  have alone : Parses (utf8 "LIST") ([], []) (.returned .OK (utf8 "LIST", [])) := ⟨0, by decide⟩
  exact absurd (Parses.unique alone ((same _ _).mp padded)) (by decide)

/-! ## Quoted arguments -/

/-- An argument as it is written on a command line. -/
def renderArgument (argument : Bytes) : Bytes :=
  if space ∈ argument then doubleQuote :: (argument ++ [doubleQuote]) else argument

/-- A command and its arguments as a command line. -/
def render (command : Bytes) (arguments : List Bytes) : Bytes :=
  [space].intercalate (command :: arguments.map renderArgument)

/-- A command word, and arguments that need double quotes only for spaces. -/
structure Renderable (command : Bytes) (arguments : List Bytes) : Prop where
  command_ne_nil : command ≠ []
  command_word : space ∉ command ∧ doubleQuote ∉ command ∧ newline ∉ command
  arguments_ne_nil : ∀ argument ∈ arguments, argument ≠ []
  arguments_plain : ∀ argument ∈ arguments, doubleQuote ∉ argument ∧ newline ∉ argument
  spaced : ∃ argument ∈ arguments, space ∈ argument

theorem exists_intercalate_cons (separator : UInt8) (word : Bytes) (words : List Bytes) :
    ∃ rest, [separator].intercalate (word :: words) = word ++ rest := by
  cases words with
  | nil => exact ⟨[], by rw [List.intercalate_singleton, List.append_nil]⟩
  | cons next words => exact ⟨_, by rw [List.intercalate_cons_cons, List.append_assoc]⟩

/-- The first argument with a space stalls the loop. -/
theorem stalls_arguments {arguments : List Bytes}
    (plain : ∀ argument ∈ arguments, doubleQuote ∉ argument)
    (spaced : ∃ argument ∈ arguments, space ∈ argument) :
    Stalls (([space].intercalate (arguments.map renderArgument)).splitOn space) := by
  induction arguments with
  | nil =>
      obtain ⟨argument, member, _⟩ := spaced
      cases member
  | cons argument arguments ih =>
      rw [List.map_cons]
      by_cases quoted : space ∈ argument
      · obtain ⟨word, later, split, alone⟩ := List.eq_append_cons_of_mem quoted
        obtain ⟨rest, line⟩ := exists_intercalate_cons space (renderArgument argument)
          (arguments.map renderArgument)
        have word_alone : space ∉ doubleQuote :: word := by
          rw [List.mem_cons, not_or]
          exact ⟨by decide, alone⟩
        have cut : renderArgument argument ++ rest =
            (doubleQuote :: word) ++ space :: (later ++ doubleQuote :: rest) := by
          rw [renderArgument, if_pos quoted, split]
          simp
        rw [line, cut, List.splitOn_append_cons_self_of_not_mem word_alone,
          stalls_cons_quoted rfl, exists_mem_splitOn_iff (by decide)]
        exact List.mem_append_right _ List.mem_cons_self
      · have rest_spaced : ∃ argument ∈ arguments, space ∈ argument := by
          obtain ⟨other, member, found⟩ := spaced
          rcases List.mem_cons.mp member with rfl | member
          · exact absurd found quoted
          · exact ⟨other, member, found⟩
        have more : arguments.map renderArgument ≠ [] := by
          rintro empty
          obtain ⟨other, member, _⟩ := rest_spaced
          rw [List.map_eq_nil_iff.mp empty] at member
          cases member
        have unquoted : argument.head? ≠ some doubleQuote :=
          fun first => plain argument List.mem_cons_self (List.mem_of_mem_head? first)
        rw [renderArgument, if_neg quoted, List.intercalate_cons_of_ne_nil more, List.append_assoc,
          List.singleton_append, List.splitOn_append_cons_self_of_not_mem quoted,
          stalls_cons_plain unquoted]
        exact ih (fun other member => plain other (List.mem_cons_of_mem _ member)) rest_spaced

theorem getLast?_intercalate_ne {words : List Bytes} {separator c : UInt8}
    (content : ∀ word ∈ words, word ≠ [] ∧ word.getLast? ≠ some c) :
    ([separator].intercalate words).getLast? ≠ some c := by
  induction words with
  | nil =>
      intro impossible
      cases impossible
  | cons word words ih =>
      cases words with
      | nil =>
          rw [List.intercalate_singleton]
          exact (content word List.mem_cons_self).2
      | cons next words =>
          obtain ⟨rest, line⟩ := exists_intercalate_cons separator next words
          have next_ne_nil := (content next (List.mem_cons_of_mem _ List.mem_cons_self)).1
          have filled : [separator].intercalate (next :: words) ≠ [] := by
            rw [line]
            exact List.append_ne_nil_of_left_ne_nil next_ne_nil rest
          rw [List.intercalate_cons_cons, List.getLast?_append_of_ne_nil _ filled]
          exact ih fun other member => content other (List.mem_cons_of_mem _ member)

theorem getLast?_renderArgument_ne {argument : Bytes} {c : UInt8} (different : c ≠ doubleQuote)
    (missing : c = space ∨ c ∉ argument) : (renderArgument argument).getLast? ≠ some c := by
  intro last
  by_cases quoted : space ∈ argument
  · rw [renderArgument, if_pos quoted, ← List.cons_append, List.getLast?_concat] at last
    exact different (Option.some.inj last).symm
  · rw [renderArgument, if_neg quoted] at last
    have member := List.mem_of_getLast? last
    rcases missing with rfl | missing
    · exact quoted member
    · exact missing member

theorem renderArgument_ne_nil {argument : Bytes} (content : argument ≠ []) :
    renderArgument argument ≠ [] := by
  rw [renderArgument]
  split
  · exact List.cons_ne_nil _ _
  · exact content

section Render

variable {command : Bytes} {arguments : List Bytes}

theorem Renderable.getLast?_render_ne (renderable : Renderable command arguments) {c : UInt8}
    (different : c ≠ doubleQuote) (notInCommand : c ∉ command)
    (missing : ∀ argument ∈ arguments, c = space ∨ c ∉ argument) :
    (render command arguments).getLast? ≠ some c := by
  apply getLast?_intercalate_ne
  intro word member
  rcases List.mem_cons.mp member with rfl | member
  · exact ⟨renderable.command_ne_nil, fun last => notInCommand (List.mem_of_getLast? last)⟩
  · obtain ⟨argument, inArguments, rfl⟩ := List.mem_map.mp member
    exact ⟨renderArgument_ne_nil (renderable.arguments_ne_nil argument inArguments),
      getLast?_renderArgument_ne different (missing argument inArguments)⟩

/-- Nothing is trimmed from a rendered line. -/
theorem Renderable.trimmed_render (renderable : Renderable command arguments) :
    trimmed (render command arguments) = render command arguments := by
  obtain ⟨noSpace, _, noNewline⟩ := renderable.command_word
  refine trimmed_eq_self ?_ ?_ ?_
  · obtain ⟨rest, line⟩ := exists_intercalate_cons space command (arguments.map renderArgument)
    rw [render, line, List.head?_append_of_ne_nil _ renderable.command_ne_nil]
    exact fun first => noSpace (List.mem_of_mem_head? first)
  · exact renderable.getLast?_render_ne (by decide) noSpace fun _ _ => .inl rfl
  · exact renderable.getLast?_render_ne (by decide) noNewline
      fun argument member => .inr (renderable.arguments_plain argument member).2

theorem Renderable.render_eq (renderable : Renderable command arguments) :
    render command arguments =
      command ++ space :: [space].intercalate (arguments.map renderArgument) := by
  obtain ⟨argument, member, _⟩ := renderable.spaced
  have more : arguments.map renderArgument ≠ [] :=
    List.ne_nil_of_mem (List.mem_map_of_mem member)
  rw [render, List.intercalate_cons_of_ne_nil more, List.append_assoc, List.singleton_append]

/-- A rendered command line parses to what it was rendered from. -/
def RoundTrips (command : Bytes) (arguments : List Bytes) (parsedCommand : ParsedCommand) : Prop :=
  Parses (render command arguments) parsedCommand (.returned .OK (command, arguments))

/-- **No quoted argument round-trips.** A command line with an argument that
contains a space, written in double quotes, is never parsed: the loop stores
without end and returns neither the command and its arguments nor anything
else. -/
theorem rendered_never_parses (renderable : Renderable command arguments)
    (parsedCommand : ParsedCommand) :
    ¬ RoundTrips command arguments parsedCommand ∧
      ∀ outcome, ¬ Parses (render command arguments) parsedCommand outcome := by
  have never : ∀ outcome, ¬ Parses (render command arguments) parsedCommand outcome := by
    rintro outcome ⟨fuel, ends⟩
    have split := renderable.trimmed_render.trans renderable.render_eq
    have stalls := stalls_arguments (fun argument member =>
      (renderable.arguments_plain argument member).1) renderable.spaced
    rw [parseCommand_arguments split renderable.command_word.1,
      parseArguments_of_stalls stalls] at ends
    cases ends
  exact ⟨never _, never⟩

end Render

theorem renderable_quoter_argument :
    Renderable (utf8 "command") [utf8 "quoter argument"] where
  command_ne_nil := by decide
  command_word := by decide
  arguments_ne_nil := by decide
  arguments_plain := by decide
  spaced := ⟨_, List.mem_singleton_self _, by decide⟩

/-- The line of the test `single_quoter_argument`. -/
theorem quoter_argument_never_parses :
    ¬ RoundTrips (utf8 "command") [utf8 "quoter argument"] ([], []) :=
  (rendered_never_parses renderable_quoter_argument ([], [])).1

/-- The line of the test `multiple_quoter_argument`. -/
theorem quoter_arguments_not_returned :
    ¬ RoundTrips (utf8 "command") [utf8 "quoter argument1", utf8 "quoter argument2"] ([], []) := by
  have split : trimmed (render (utf8 "command")
      [utf8 "quoter argument1", utf8 "quoter argument2"]) = utf8 "command" ++ space ::
        utf8 "\"quoter argument1\" \"quoter argument2\"" := by decide
  have words : (utf8 "\"quoter argument1\" \"quoter argument2\"").splitOn space =
      utf8 "\"quoter" :: [utf8 "argument1\"", utf8 "\"quoter", utf8 "argument2\""] := by decide
  have stalls : Stalls ((utf8 "\"quoter argument1\" \"quoter argument2\"").splitOn space) := by
    rw [words, stalls_cons_quoted (by decide)]
    exact ⟨_, List.mem_cons_self, by decide⟩
  rintro ⟨fuel, ends⟩
  rw [parseCommand_arguments split (by decide), parseArguments_of_stalls stalls] at ends
  cases ends

end P2PFileSync
