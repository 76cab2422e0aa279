import Mathlib.Data.List.ReduceOption
import P2PFileSync.Interface.ConnectionContainer

/-!
# The lines of a connection

The thread reads a byte at a time and hands what it has to `parse_command` at each
newline and at the end of file. A timeout reads again and leaves the buffer as it
is, so the strings depend on the bytes alone: they are the lines of the stream, and
the rest that no newline ends.

A line on which `parse_command` or `execute_command` does not return is the last
one the thread hands over, and so is a line whose reply is written to a peer that
has closed the connection. `splitsLines_iff` says when every line is handed over,
for every placement of the timeouts, whatever each test of the running flag finds
and whatever each write finds; `prefix_of_passes` that nothing else ever is.

Main result: `splitsLines_iff`.
-/

set_option autoImplicit false

namespace P2PFileSync

/-! ## The lines of a stream -/

/-- The first line begins with the byte. -/
def consFirst (c : UInt8) : List Bytes → List Bytes
  | [] => [[c]]
  | line :: more => (c :: line) :: more

/-- The lines of a stream, each with its newline, and the rest that no newline
ends. -/
def lines : Bytes → List Bytes
  | [] => []
  | c :: stream => if c = newline then [c] :: lines stream else consFirst c (lines stream)

theorem flatten_consFirst (c : UInt8) (ls : List Bytes) :
    (consFirst c ls).flatten = c :: ls.flatten := by
  cases ls with
  | nil => rfl
  | cons line more => rfl

theorem flatten_lines (stream : Bytes) : (lines stream).flatten = stream := by
  induction stream with
  | nil => rfl
  | cons c stream ih =>
      rw [lines]
      split
      · rw [List.flatten_cons, ih, List.singleton_append]
      · rw [flatten_consFirst, ih]

/-- A line that its newline ends. -/
theorem lines_terminated {line : Bytes} (oneLine : newline ∉ line) (stream : Bytes) :
    lines (line ++ newline :: stream) = (line ++ [newline]) :: lines stream := by
  induction line with
  | nil => exact if_pos rfl
  | cons c line ih =>
      have different := List.ne_of_not_mem_cons oneLine
      have rest := List.not_mem_of_not_mem_cons oneLine
      rw [List.cons_append, lines, if_neg different.symm, ih rest, consFirst, List.cons_append]

/-- The rest of a stream. -/
theorem lines_unterminated {line : Bytes} (oneLine : newline ∉ line) (content : line ≠ []) :
    lines line = [line] := by
  induction line with
  | nil => exact absurd rfl content
  | cons c line ih =>
      have different := List.ne_of_not_mem_cons oneLine
      have rest := List.not_mem_of_not_mem_cons oneLine
      rw [lines, if_neg different.symm]
      cases line with
      | nil => rfl
      | cons next line => rw [ih rest (List.cons_ne_nil _ _), consFirst]

example : lines (utf8 "LIST\n\nEXIT") = [utf8 "LIST\n", utf8 "\n", utf8 "EXIT"] := by decide

namespace ConnectionContainer

universe u

variable {σ : Type u}

/-! ## What is delivered to the thread -/

/-- What the reads give, one byte or a timeout (`none`) each and then the end of
file for ever; what each test of the running flag finds; and whether each write
finds that the peer has the connection open. -/
structure Feed where
  reads : List (Option UInt8)
  flags : ℕ → Bool
  peerOpen : ℕ → Bool

namespace Feed

/-- The bytes that the client has sent. -/
def stream (feed : Feed) : Bytes := feed.reads.reduceOption

def nextRead (feed : Feed) : ReadResult :=
  match feed.reads with
  | [] => .eof
  | none :: _ => .timeout
  | some b :: _ => .byte b

/-- What is left after a step at the place. -/
def after (feed : Feed) (place : ConnectionPlace) : Feed :=
  match place with
  | .testFlag => { feed with flags := fun n => feed.flags (n + 1) }
  | .prompt | .execute => { feed with peerOpen := fun n => feed.peerOpen (n + 1) }
  | .read => { feed with reads := feed.reads.tail }
  | _ => feed

end Feed

/-- A step of the thread on what is delivered to it, or none if it is never
completed. -/
def drive (executeCommand : σ → ParsedCommand → Option (σ × Bytes))
    (s : ConnectionContainer σ × Feed) : ConnectionContainer σ × Feed :=
  match { s.1 with runningFlag := s.2.flags 0 }.runStep executeCommand
      ⟨s.2.nextRead, s.2.peerOpen 0⟩ with
  | some next => (next, s.2.after s.1.place)
  | none => s

/-! ## The property -/

/-- The strings handed to `parse_command`. -/
def parsed (history : List ConnectionEvent) : List Bytes :=
  history.filterMap fun
    | .parse command => some command
    | _ => none

/-- From this state on the thread hands over these strings and no more, however
long it runs. -/
def PassesFrom (executeCommand : σ → ParsedCommand → Option (σ × Bytes))
    (s : ConnectionContainer σ × Feed) (strings : List Bytes) : Prop :=
  ∃ n₀, ∀ n ≥ n₀, parsed ((drive executeCommand)^[n] s).1.history = parsed s.1.history ++ strings

/-- The strings that the thread hands over when this is delivered to it. -/
def Passes (executeCommand : σ → ParsedCommand → Option (σ × Bytes)) (session : σ) (feed : Feed)
    (strings : List Bytes) : Prop :=
  PassesFrom executeCommand (start session, feed) strings

/-- The strings handed over are the lines of the stream; they make up the whole of
it, and they do not depend on where the timeouts are. -/
structure SplitsLines (executeCommand : σ → ParsedCommand → Option (σ × Bytes)) (session : σ)
    (feed : Feed) : Prop where
  passes : Passes executeCommand session feed (lines feed.stream)
  whole : ∀ strings, Passes executeCommand session feed strings → strings.flatten = feed.stream
  timing : ∀ other : Feed, other.flags = feed.flags → other.peerOpen = feed.peerOpen →
    other.stream = feed.stream → ∀ strings,
      Passes executeCommand session feed strings ↔ Passes executeCommand session other strings

/-- `parse_command` returns on the line and, on a command, `execute_command` does;
this is the session afterwards. -/
def Answers (executeCommand : σ → ParsedCommand → Option (σ × Bytes)) (session : σ) (line : Bytes)
    (later : σ) : Prop :=
  ∃ status parsedCommand, Parses line ([], []) (.returned status parsedCommand) ∧
    if status.code = .OK then ∃ reply, executeCommand session parsedCommand = some (later, reply)
    else later = session

/-- The test of the flag before each line finds it set, each line but the last is
answered, and the peer has the connection open at the prompt before each line and at
the reply to each but the last. -/
def Uninterrupted (executeCommand : σ → ParsedCommand → Option (σ × Bytes)) :
    (ℕ → Bool) → (ℕ → Bool) → σ → List Bytes → Prop
  | _, _, _, [] => True
  | flags, peerOpen, session, line :: rest =>
      flags 0 = true ∧ peerOpen 0 = true ∧ (rest ≠ [] →
        peerOpen 1 = true ∧ ∃ later, Answers executeCommand session line later ∧
          Uninterrupted executeCommand (fun n => flags (n + 1)) (fun n => peerOpen (n + 2))
            later rest)

variable {executeCommand : σ → ParsedCommand → Option (σ × Bytes)}

/-! ## Steps on what is delivered -/

theorem parsed_append (before after : List ConnectionEvent) :
    parsed (before ++ after) = parsed before ++ parsed after :=
  List.filterMap_append

/-- An event that hands nothing over. -/
theorem parsed_concat (history : List ConnectionEvent) {event : ConnectionEvent}
    (silent : parsed [event] = []) : parsed (history ++ [event]) = parsed history := by
  rw [parsed_append, silent, List.append_nil]

theorem drive_of_runStep {s : ConnectionContainer σ × Feed} {next : ConnectionContainer σ}
    (taken : { s.1 with runningFlag := s.2.flags 0 }.runStep executeCommand
      ⟨s.2.nextRead, s.2.peerOpen 0⟩ = some next) :
    drive executeCommand s = (next, s.2.after s.1.place) := by
  rw [drive, taken]

theorem drive_of_runStep_none {s : ConnectionContainer σ × Feed}
    (never : { s.1 with runningFlag := s.2.flags 0 }.runStep executeCommand
      ⟨s.2.nextRead, s.2.peerOpen 0⟩ = none) : drive executeCommand s = s := by
  rw [drive, never]

/-- One more step at the beginning. -/
theorem PassesFrom.of_drive {s next : ConnectionContainer σ × Feed} {new strings : List Bytes}
    (step : drive executeCommand s = next)
    (grown : parsed next.1.history = parsed s.1.history ++ new)
    (later : PassesFrom executeCommand next strings) :
    PassesFrom executeCommand s (new ++ strings) := by
  obtain ⟨n₀, ends⟩ := later
  refine ⟨n₀ + 1, fun n enough => ?_⟩
  obtain ⟨m, rfl⟩ := Nat.exists_eq_add_of_le' (Nat.le_trans (Nat.le_add_left 1 n₀) enough)
  rw [Function.iterate_succ_apply, step, ends m (Nat.le_of_succ_le_succ enough), grown,
    List.append_assoc]

/-- One more step that hands nothing over. -/
theorem PassesFrom.of_silent_drive {s next : ConnectionContainer σ × Feed} {strings : List Bytes}
    (step : drive executeCommand s = next)
    (same : parsed next.1.history = parsed s.1.history)
    (later : PassesFrom executeCommand next strings) : PassesFrom executeCommand s strings := by
  have grown : parsed next.1.history = parsed s.1.history ++ [] := by
    rw [same, List.append_nil]
  exact PassesFrom.of_drive step grown later

/-- Only one list of strings is handed over. -/
theorem PassesFrom.unique {s : ConnectionContainer σ × Feed} {strings others : List Bytes}
    (passes : PassesFrom executeCommand s strings) (again : PassesFrom executeCommand s others) :
    strings = others := by
  obtain ⟨n, ends⟩ := passes
  obtain ⟨m, least⟩ := again
  have same := (ends (max n m) (le_max_left n m)).symm.trans (least _ (le_max_right n m))
  exact List.append_cancel_left same

/-- Nothing is handed over any more: the thread is past its loop, or there is
nothing left to read, or its step is never completed. -/
inductive Quiet (executeCommand : σ → ParsedCommand → Option (σ × Bytes)) :
    ConnectionContainer σ × Feed → Prop
  | leaving {c : ConnectionContainer σ} {feed : Feed}
      (place : c.place = .close ∨ c.place = .callback ∨ c.place = .exited) :
      Quiet executeCommand (c, feed)
  | ended {c : ConnectionContainer σ} {feed : Feed} (place : c.place ≠ .execute)
      (emptied : c.commandBuf = []) (stream : feed.stream = []) : Quiet executeCommand (c, feed)
  | stopped {s : ConnectionContainer σ × Feed} (never : drive executeCommand s = s) :
      Quiet executeCommand s

/-- A step from a quiet state. -/
theorem Quiet.drive {s : ConnectionContainer σ × Feed} (quiet : Quiet executeCommand s) :
    Quiet executeCommand (ConnectionContainer.drive executeCommand s) ∧
      parsed (ConnectionContainer.drive executeCommand s).1.history = parsed s.1.history := by
  cases quiet with
  | @leaving c feed place =>
      obtain ⟨_, runningFlag, commandBuf, session, callbackAlive, history⟩ := c
      rcases place with rfl | rfl | rfl
      · exact ⟨.leaving (.inr (.inl rfl)), parsed_concat history rfl⟩
      · cases callbackAlive with
        | true => exact ⟨.leaving (.inr (.inr rfl)), parsed_concat history rfl⟩
        | false => exact ⟨.stopped rfl, rfl⟩
      · exact ⟨.leaving (.inr (.inr rfl)), rfl⟩
  | @ended c feed place emptied stream =>
      obtain ⟨here, runningFlag, _, session, callbackAlive, history⟩ := c
      obtain ⟨reads, flags, peerOpen⟩ := feed
      obtain rfl := emptied
      cases here with
      | testFlag =>
          refine ⟨.ended ?_ rfl stream, rfl⟩
          show (if flags 0 = true then ConnectionPlace.prompt else .close) ≠ .execute
          split
          · rintro ⟨⟩
          · rintro ⟨⟩
      | prompt =>
          cases isOpen : peerOpen 0 with
          | true =>
              have written : ConnectionContainer.drive executeCommand
                  (⟨.prompt, runningFlag, [], session, callbackAlive, history⟩,
                    ⟨reads, flags, peerOpen⟩) =
                  (⟨.read, flags 0, [], session, callbackAlive,
                    history ++ [.write kTerminalMessage]⟩,
                    ⟨reads, flags, fun n => peerOpen (n + 1)⟩) :=
                drive_of_runStep ((prompt_eq_some_iff rfl).mpr ⟨isOpen, rfl⟩)
              rw [written]
              exact ⟨.ended (by rintro ⟨⟩) rfl stream, parsed_concat history rfl⟩
          | false =>
              have never : ConnectionContainer.drive executeCommand
                  (⟨.prompt, runningFlag, [], session, callbackAlive, history⟩,
                    ⟨reads, flags, peerOpen⟩) = _ :=
                drive_of_runStep_none (prompt_eq_none rfl isOpen)
              rw [never]
              exact ⟨.stopped never, rfl⟩
      | read =>
          cases reads with
          | nil => exact ⟨.ended (by rintro ⟨⟩) rfl rfl, parsed_concat history rfl⟩
          | cons result reads =>
              cases result with
              | none => exact ⟨.ended (by rintro ⟨⟩) rfl stream, parsed_concat history rfl⟩
              | some b => cases stream
      | testBuffer => exact ⟨.ended (by rintro ⟨⟩) rfl stream, rfl⟩
      | execute => exact absurd rfl place
      | close => exact ⟨.ended (by rintro ⟨⟩) rfl stream, parsed_concat history rfl⟩
      | callback =>
          cases callbackAlive with
          | true => exact ⟨.ended (by rintro ⟨⟩) rfl stream, parsed_concat history rfl⟩
          | false => exact ⟨.stopped rfl, rfl⟩
      | exited => exact ⟨.ended (by rintro ⟨⟩) rfl stream, rfl⟩
  | stopped never =>
      rw [never]
      exact ⟨.stopped never, rfl⟩

theorem Quiet.iterate {s : ConnectionContainer σ × Feed} (quiet : Quiet executeCommand s) (n : ℕ) :
    Quiet executeCommand ((ConnectionContainer.drive executeCommand)^[n] s) ∧
      parsed ((ConnectionContainer.drive executeCommand)^[n] s).1.history =
        parsed s.1.history := by
  induction n with
  | zero => exact ⟨quiet, rfl⟩
  | succ n ih =>
      obtain ⟨quiet, same⟩ := ih
      rw [Function.iterate_succ_apply']
      exact ⟨quiet.drive.1, quiet.drive.2.trans same⟩

/-- From a quiet state nothing is handed over. -/
theorem Quiet.passesFrom {s : ConnectionContainer σ × Feed} (quiet : Quiet executeCommand s) :
    PassesFrom executeCommand s [] := by
  refine ⟨0, fun n _ => ?_⟩
  rw [List.append_nil]
  exact (quiet.iterate n).2

/-! ## What is handed over -/

/-- The lines handed over: those before the first test of the flag that finds it
cleared and before the first write that finds the connection closed, up to the first
that is not answered. -/
def passedLines (executeCommand : σ → ParsedCommand → Option (σ × Bytes)) :
    (ℕ → Bool) → (ℕ → Bool) → σ → List Bytes → List Bytes
  | _, _, _, [] => []
  | flags, peerOpen, session, line :: rest =>
      if flags 0 = true ∧ peerOpen 0 = true then
        line :: match process executeCommand session line with
          | none => []
          | some (later, _) =>
              if peerOpen 1 = true then
                passedLines executeCommand (fun n => flags (n + 1)) (fun n => peerOpen (n + 2))
                  later rest
              else []
      else []

theorem passedLines_stopped {flags peerOpen : ℕ → Bool} {session : σ}
    (stopped : ¬ (flags 0 = true ∧ peerOpen 0 = true)) (ls : List Bytes) :
    passedLines executeCommand flags peerOpen session ls = [] := by
  cases ls with
  | nil => rfl
  | cons line rest => rw [passedLines, if_neg stopped]

section Reading

variable {runningFlag callbackAlive : Bool} {commandBuf : Bytes} {session : σ}
  {history : List ConnectionEvent} {reads : List (Option UInt8)} {flags peerOpen : ℕ → Bool}

/-- The buffer holds a line, and the lines after it will be handed over. -/
theorem passesFrom_testBuffer (content : commandBuf ≠ []) (rest : List Bytes)
    (later : ∀ runningFlag later history,
      PassesFrom executeCommand
        (⟨.testFlag, runningFlag, [], later, callbackAlive, history⟩,
          ⟨reads, flags, fun n => peerOpen (n + 1)⟩)
        (passedLines executeCommand flags (fun n => peerOpen (n + 1)) later rest)) :
    PassesFrom executeCommand
      (⟨.testBuffer, runningFlag, commandBuf, session, callbackAlive, history⟩,
        ⟨reads, flags, peerOpen⟩)
      (commandBuf :: match process executeCommand session commandBuf with
        | none => []
        | some (later, _) =>
            if peerOpen 0 = true then
              passedLines executeCommand flags (fun n => peerOpen (n + 1)) later rest
            else []) := by
  have taken : drive executeCommand
      (⟨.testBuffer, runningFlag, commandBuf, session, callbackAlive, history⟩,
        ⟨reads, flags, peerOpen⟩) =
        (⟨.execute, flags 0, commandBuf, session, callbackAlive,
          history ++ [.parse commandBuf]⟩, ⟨reads, flags, peerOpen⟩) :=
    drive_of_runStep (if_neg content)
  refine PassesFrom.of_drive taken (parsed_append history [.parse commandBuf]) ?_
  cases processes : process executeCommand session commandBuf with
  | none =>
      refine Quiet.passesFrom (.stopped (drive_of_runStep_none ?_))
      simp only [ConnectionContainer.runStep, processes, Option.bind_none]
  | some processed =>
      obtain ⟨next, reply⟩ := processed
      dsimp only
      split
      · rename_i isOpen
        have answered : drive executeCommand
            (⟨.execute, flags 0, commandBuf, session, callbackAlive,
              history ++ [.parse commandBuf]⟩, ⟨reads, flags, peerOpen⟩) =
            (⟨.testFlag, flags 0, [], next, callbackAlive,
              history ++ [.parse commandBuf] ++ [.write reply]⟩,
              ⟨reads, flags, fun n => peerOpen (n + 1)⟩) :=
          drive_of_runStep
            ((execute_eq_some_iff rfl).mpr ⟨next, reply, processes, isOpen, rfl⟩)
        exact PassesFrom.of_silent_drive answered (parsed_concat _ rfl) (later _ _ _)
      · rename_i closed
        refine Quiet.passesFrom (.stopped (drive_of_runStep_none ?_))
        simp only [ConnectionContainer.runStep, processes, Option.bind_some, if_neg closed]

/-- A test of the flag, from what is handed over after the prompt. -/
theorem passesFrom_testFlag
    (reading : flags 0 = true → peerOpen 0 = true → ∀ runningFlag history,
      PassesFrom executeCommand
        (⟨.read, runningFlag, [], session, callbackAlive, history⟩,
          ⟨reads, fun n => flags (n + 1), fun n => peerOpen (n + 1)⟩)
        (passedLines executeCommand flags peerOpen session (lines reads.reduceOption))) :
    PassesFrom executeCommand
      (⟨.testFlag, runningFlag, [], session, callbackAlive, history⟩, ⟨reads, flags, peerOpen⟩)
      (passedLines executeCommand flags peerOpen session (lines reads.reduceOption)) := by
  cases found : flags 0 with
  | true =>
      have tested : drive executeCommand
          (⟨.testFlag, runningFlag, [], session, callbackAlive, history⟩,
            ⟨reads, flags, peerOpen⟩) =
          (⟨.prompt, flags 0, [], session, callbackAlive, history⟩,
            ⟨reads, fun n => flags (n + 1), peerOpen⟩) := by
        apply drive_of_runStep
        simp only [ConnectionContainer.runStep, found, if_true]
      refine PassesFrom.of_silent_drive tested rfl ?_
      cases isOpen : peerOpen 0 with
      | true =>
          have written : drive executeCommand
              (⟨.prompt, flags 0, [], session, callbackAlive, history⟩,
                ⟨reads, fun n => flags (n + 1), peerOpen⟩) =
              (⟨.read, flags 1, [], session, callbackAlive,
                history ++ [.write kTerminalMessage]⟩,
                ⟨reads, fun n => flags (n + 1), fun n => peerOpen (n + 1)⟩) :=
            drive_of_runStep ((prompt_eq_some_iff rfl).mpr ⟨isOpen, rfl⟩)
          exact PassesFrom.of_silent_drive written (parsed_concat history rfl)
            (reading found isOpen _ _)
      | false =>
          have closed : ¬ peerOpen 0 = true := by
            rw [isOpen]
            exact Bool.false_ne_true
          rw [passedLines_stopped fun both => closed both.2]
          exact Quiet.passesFrom (.stopped (drive_of_runStep_none (prompt_eq_none rfl isOpen)))
  | false =>
      have cleared : ¬ flags 0 = true := by
        rw [found]
        exact Bool.false_ne_true
      have tested : drive executeCommand
          (⟨.testFlag, runningFlag, [], session, callbackAlive, history⟩,
            ⟨reads, flags, peerOpen⟩) =
          (⟨.close, flags 0, [], session, callbackAlive, history⟩,
            ⟨reads, fun n => flags (n + 1), peerOpen⟩) := by
        apply drive_of_runStep
        simp only [ConnectionContainer.runStep, if_neg cleared]
      rw [passedLines_stopped fun both => cleared both.1]
      exact PassesFrom.of_silent_drive tested rfl (Quiet.passesFrom (.leaving (.inl rfl)))

/-- The reading of a line, and all that follows. The buffer holds what has been read
of the line; a timeout leaves it as it is. -/
theorem passesFrom_read (flags peerOpen : ℕ → Bool) (set : flags 0 = true)
    (isOpen : peerOpen 0 = true) (oneLine : newline ∉ commandBuf) :
    PassesFrom executeCommand
      (⟨.read, runningFlag, commandBuf, session, callbackAlive, history⟩,
        ⟨reads, fun n => flags (n + 1), fun n => peerOpen (n + 1)⟩)
      (passedLines executeCommand flags peerOpen session
        (lines (commandBuf ++ reads.reduceOption))) := by
  induction reads generalizing runningFlag commandBuf session history flags peerOpen with
  | nil =>
      rw [List.reduceOption_nil, List.append_nil]
      by_cases content : commandBuf = []
      · subst content
        exact Quiet.passesFrom (.ended (by rintro ⟨⟩) rfl rfl)
      · rw [lines_unterminated oneLine content, passedLines, if_pos ⟨set, isOpen⟩]
        refine PassesFrom.of_silent_drive rfl (parsed_concat history rfl) ?_
        exact passesFrom_testBuffer content [] fun _ _ _ =>
          Quiet.passesFrom (.ended (by rintro ⟨⟩) rfl rfl)
  | cons result reads ih =>
      cases result with
      | none =>
          exact PassesFrom.of_silent_drive rfl (parsed_concat history rfl)
            (ih flags peerOpen set isOpen oneLine)
      | some b =>
          rw [List.reduceOption_cons_of_some]
          by_cases ended : b = newline
          · subst ended
            have taken : drive executeCommand
                (⟨.read, runningFlag, commandBuf, session, callbackAlive, history⟩,
                  ⟨some newline :: reads, fun n => flags (n + 1), fun n => peerOpen (n + 1)⟩) =
                (⟨.testBuffer, flags 1, commandBuf ++ [newline], session, callbackAlive,
                  history ++ [.read (.byte newline)]⟩,
                  ⟨reads, fun n => flags (n + 1), fun n => peerOpen (n + 1)⟩) := rfl
            rw [lines_terminated oneLine, passedLines, if_pos ⟨set, isOpen⟩]
            refine PassesFrom.of_silent_drive taken (parsed_concat history rfl) ?_
            exact passesFrom_testBuffer (List.concat_ne_nil _ _) _ fun _ _ _ =>
              passesFrom_testFlag fun set isOpen _ _ =>
                ih (fun n => flags (n + 1)) (fun n => peerOpen (n + 2)) set isOpen List.not_mem_nil
          · have taken : drive executeCommand
                (⟨.read, runningFlag, commandBuf, session, callbackAlive, history⟩,
                  ⟨some b :: reads, fun n => flags (n + 1), fun n => peerOpen (n + 1)⟩) =
                (⟨.read, flags 1, commandBuf ++ [b], session, callbackAlive,
                  history ++ [.read (.byte b)]⟩,
                  ⟨reads, fun n => flags (n + 1), fun n => peerOpen (n + 1)⟩) := by
              apply drive_of_runStep
              simp only [ConnectionContainer.runStep, Feed.nextRead, if_neg ended, record]
            have still : newline ∉ commandBuf ++ [b] := by
              intro member
              rcases List.mem_append.mp member with before | last
              · exact oneLine before
              · exact ended (List.mem_singleton.mp last).symm
            rw [List.append_cons]
            exact PassesFrom.of_silent_drive taken (parsed_concat history rfl)
              (ih flags peerOpen set isOpen still)

end Reading

/-- What the thread hands over, whatever is delivered to it. -/
theorem passes_passedLines (executeCommand : σ → ParsedCommand → Option (σ × Bytes)) (session : σ)
    (feed : Feed) :
    Passes executeCommand session feed
      (passedLines executeCommand feed.flags feed.peerOpen session (lines feed.stream)) :=
  passesFrom_testFlag fun set isOpen _ _ =>
    passesFrom_read feed.flags feed.peerOpen set isOpen List.not_mem_nil

theorem passes_iff {session : σ} {feed : Feed} {strings : List Bytes} :
    Passes executeCommand session feed strings ↔
      strings =
        passedLines executeCommand feed.flags feed.peerOpen session (lines feed.stream) := by
  constructor
  · exact fun passes => passes.unique (passes_passedLines executeCommand session feed)
  · rintro rfl
    exact passes_passedLines executeCommand session feed

/-- The lines handed over are the first lines of the stream. -/
theorem passedLines_prefix (flags peerOpen : ℕ → Bool) (session : σ) (ls : List Bytes) :
    passedLines executeCommand flags peerOpen session ls <+: ls := by
  induction ls generalizing flags peerOpen session with
  | nil => exact List.prefix_rfl
  | cons line rest ih =>
      rw [passedLines]
      split
      · rw [List.prefix_cons_inj]
        split
        · exact List.nil_prefix
        · split
          · exact ih _ _ _
          · exact List.nil_prefix
      · exact List.nil_prefix

/-- **No line is split, merged or repeated**: whatever is delivered to the thread, it
hands over the first lines of the stream and nothing else. -/
theorem prefix_of_passes {session : σ} {feed : Feed} {strings : List Bytes}
    (passes : Passes executeCommand session feed strings) : strings <+: lines feed.stream := by
  rw [passes_iff.mp passes]
  exact passedLines_prefix _ _ _ _

/-! ## When every line is handed over -/

theorem answers_iff {session later : σ} {line : Bytes} :
    Answers executeCommand session line later ↔
      ∃ reply, process executeCommand session line = some (later, reply) := by
  simp only [process_eq_some_iff]
  constructor
  · rintro ⟨status, parsedCommand, returned, outcome⟩
    split at outcome
    · rename_i ok
      obtain ⟨reply, executes⟩ := outcome
      exact ⟨reply, status, parsedCommand, returned, by rwa [if_pos ok]⟩
    · rename_i failed
      exact ⟨status.msg, status, parsedCommand, returned, by rw [if_neg failed, outcome]⟩
  · rintro ⟨reply, status, parsedCommand, returned, outcome⟩
    refine ⟨status, parsedCommand, returned, ?_⟩
    split at outcome
    · rename_i ok
      exact (if_pos ok).mpr ⟨reply, outcome⟩
    · rename_i failed
      exact (if_neg failed).mpr (Prod.mk.inj outcome).1

/-- Every line is handed over when nothing interrupts the thread. -/
theorem passedLines_eq_iff (flags peerOpen : ℕ → Bool) (session : σ) (ls : List Bytes) :
    passedLines executeCommand flags peerOpen session ls = ls ↔
      Uninterrupted executeCommand flags peerOpen session ls := by
  induction ls generalizing flags peerOpen session with
  | nil => exact iff_of_true rfl trivial
  | cons line rest ih =>
      by_cases going : flags 0 = true ∧ peerOpen 0 = true
      · rw [passedLines, if_pos going, List.cons.injEq, and_iff_right rfl, Uninterrupted,
          and_iff_right going.1, and_iff_right going.2]
        simp only [answers_iff]
        cases rest with
        | nil =>
            refine iff_of_true ?_ fun impossible => absurd rfl impossible
            split
            · rfl
            · split <;> rfl
        | cons next rest =>
            rw [forall_prop_of_true (List.cons_ne_nil _ _)]
            cases processes : process executeCommand session line with
            | none =>
                refine iff_of_false (by rintro ⟨⟩) ?_
                rintro ⟨-, later, ⟨reply, impossible⟩, -⟩
                cases impossible
            | some processed =>
                obtain ⟨later, reply⟩ := processed
                by_cases isOpen : peerOpen 1 = true
                · dsimp only
                  rw [if_pos isOpen, ih, and_iff_right isOpen]
                  constructor
                  · exact fun uninterrupted => ⟨later, ⟨reply, rfl⟩, uninterrupted⟩
                  · rintro ⟨other, ⟨_, same⟩, uninterrupted⟩
                    cases same
                    exact uninterrupted
                · dsimp only
                  rw [if_neg isOpen]
                  exact iff_of_false (by rintro ⟨⟩) fun written => isOpen written.1
      · rw [passedLines_stopped going, Uninterrupted, ← and_assoc]
        exact iff_of_false (by rintro ⟨⟩) fun uninterrupted => going uninterrupted.1

/-- **When the strings handed to `parse_command` are the lines of the stream**:
exactly when the test of the running flag before each line finds it set, each line
but the last is answered, and the peer has the connection open at each write before
the last line is handed over. -/
theorem splitsLines_iff (executeCommand : σ → ParsedCommand → Option (σ × Bytes)) (session : σ)
    (feed : Feed) :
    SplitsLines executeCommand session feed ↔
      Uninterrupted executeCommand feed.flags feed.peerOpen session (lines feed.stream) := by
  rw [← passedLines_eq_iff]
  constructor
  · intro splits
    exact (passes_iff.mp splits.passes).symm
  · intro all
    refine ⟨passes_iff.mpr all.symm, fun strings passes => ?_,
      fun other flags peerOpen stream strings => ?_⟩
    · rw [passes_iff.mp passes, all, flatten_lines]
    · rw [passes_iff, passes_iff, flags, peerOpen, stream]

/-- A line whose argument is in double quotes, and a second line. -/
def quoterStream : Bytes := utf8 "command \"quoter argument\"\nLIST\n"

theorem second_line_not_passed :
    ¬ ∀ feed : Feed, SplitsLines returning () feed := by
  intro all
  have passes := passes_iff.mp
    (all ⟨quoterStream.map some, fun _ => true, fun _ => true⟩).passes
  exact absurd passes (by decide)

end ConnectionContainer

end P2PFileSync
