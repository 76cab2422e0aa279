import P2PFileSync.Interface.ConnectionLines
import P2PFileSync.ManagementInterface

/-!
# The sessions of the connections

The threads of the connections run at the same time, each with its own session and
its own buffer. Whatever the order of their steps, the session of a connection and
the replies written to it are those that its own lines lead to when they are
answered one after another (`connections_answered_alone`).

Here `execute_command` is any function of the session of its connection and the
command. The clock, the replies of the server and what `PEER` and `INFO` read of the
rest of the daemon are no part of a session: what is said here holds of a function
that fixes them.
-/

set_option autoImplicit false

namespace P2PFileSync

universe u

namespace ConnectionContainer

variable {σ : Type u}

/-! ## Lines and replies -/

/-- The lines one after another: the session afterwards, and the replies. -/
def answerAll (executeCommand : σ → ParsedCommand → Option (σ × Bytes)) :
    σ → List Bytes → Option (σ × List Bytes)
  | session, [] => some (session, [])
  | session, line :: rest => do
      let (later, reply) ← process executeCommand session line
      let (last, replies) ← answerAll executeCommand later rest
      return (last, reply :: replies)

/-- The command that a line is parsed to. -/
def commandOf (line : Bytes) : Option ParsedCommand :=
  match parseCommand (line.length + 1) line ([], []) with
  | some (.returned status command) => if status.code = .OK then some command else none
  | _ => none

/-- After an event: whether a line waits for its reply, and the replies so far. -/
def hear : Bool × List Bytes → ConnectionEvent → Bool × List Bytes
  | (_, replies), .parse _ => (true, replies)
  | (true, replies), .write text => (false, replies ++ [text])
  | heard, _ => heard

/-- Whether a line waits for its reply, and the replies: what was written after a
line and before the next prompt. -/
def heard (history : List ConnectionEvent) : Bool × List Bytes := history.foldl hear (false, [])

/-- The bytes that the thread has read. -/
def bytesRead (history : List ConnectionEvent) : Bytes :=
  history.filterMap fun
    | .read (.byte b) => some b
    | _ => none

/-- The line that is handed over and not yet answered. -/
def pending (c : ConnectionContainer σ) : List Bytes :=
  if c.place = .execute then [c.commandBuf] else []

/-- The session and the replies are those of the lines that were handed over, from
this session on; the lines and the buffer are what the thread has read. -/
structure AnsweredAlone (executeCommand : σ → ParsedCommand → Option (σ × Bytes)) (session : σ)
    (answered : List Bytes) (c : ConnectionContainer σ) : Prop where
  bytes : bytesRead c.history = answered.flatten ++ c.commandBuf
  lines : parsed c.history = answered ++ c.pending
  results : answerAll executeCommand session answered = some (c.session, (heard c.history).2)
  waits : (heard c.history).1 = decide (c.place = .execute)

variable {executeCommand : σ → ParsedCommand → Option (σ × Bytes)}

/-- One more line at the end. -/
theorem answerAll_concat {session later last : σ} {answered : List Bytes} {replies : List Bytes}
    {line reply : Bytes}
    (before : answerAll executeCommand session answered = some (later, replies))
    (processed : process executeCommand later line = some (last, reply)) :
    answerAll executeCommand session (answered ++ [line]) = some (last, replies ++ [reply]) := by
  induction answered generalizing session replies with
  | nil =>
      cases before
      simp [answerAll, processed]
  | cons first rest ih =>
      obtain ⟨⟨next, answer⟩, here, before⟩ := Option.bind_eq_some_iff.mp before
      obtain ⟨⟨end_, others⟩, there, outcome⟩ := Option.bind_eq_some_iff.mp before
      cases outcome
      simp [answerAll, here, ih there]

/-- A line that is processed is no command, or a command that is executed. -/
theorem process_cases {session later : σ} {line reply : Bytes}
    (processed : process executeCommand session line = some (later, reply)) :
    commandOf line = none ∧ later = session ∨
      ∃ command, commandOf line = some command ∧
        executeCommand session command = some (later, reply) := by
  unfold process at processed
  unfold commandOf
  split at processed
  · cases processed
  · cases processed
  · rename_i status command parses
    rw [parses]
    split at processed
    · rename_i isOk
      exact .inr ⟨command, if_pos isOk, processed⟩
    · rename_i notOk
      cases processed
      exact .inl ⟨if_neg notOk, rfl⟩

/-- An event that reads no byte. -/
theorem bytesRead_concat (history : List ConnectionEvent) {event : ConnectionEvent}
    (silent : bytesRead [event] = []) : bytesRead (history ++ [event]) = bytesRead history := by
  rw [bytesRead, List.filterMap_append]
  exact (congrArg _ silent).trans (List.append_nil _)

theorem heard_concat (history : List ConnectionEvent) (event : ConnectionEvent) :
    heard (history ++ [event]) = hear (heard history) event :=
  List.foldl_concat _ _ _ _

/-- A text that is written while no line waits, the prompt, is no reply. -/
theorem hear_write_idle {state : Bool × List Bytes} (idle : state.1 = false) (text : Bytes) :
    hear state (.write text) = state := by
  obtain ⟨waits, replies⟩ := state
  cases idle
  rfl

theorem hear_write_waiting {state : Bool × List Bytes} (waits : state.1 = true) (text : Bytes) :
    hear state (.write text) = (false, state.2 ++ [text]) := by
  obtain ⟨waiting, replies⟩ := state
  cases waits
  rfl

theorem hear_silent (state : Bool × List Bytes) {event : ConnectionEvent}
    (noText : ∀ text, event ≠ .write text) (noLine : ∀ command, event ≠ .parse command) :
    hear state event = state := by
  obtain ⟨waits, replies⟩ := state
  cases event with
  | write text => exact absurd rfl (noText text)
  | parse command => exact absurd rfl (noLine command)
  | read | flagCleared | close | callback => cases waits <;> rfl

/-! ## One step -/

namespace AnsweredAlone

variable {session : σ} {answered : List Bytes} {c next : ConnectionContainer σ}

theorem pending_of_idle (idle : c.place ≠ .execute) : c.pending = [] := if_neg idle

/-- A step outside of the commands that hands over no line and writes no reply. -/
theorem idle_step (alone : AnsweredAlone executeCommand session answered c)
    (before : c.place ≠ .execute) (after : next.place ≠ .execute)
    (bytes : bytesRead next.history = answered.flatten ++ next.commandBuf)
    (sameSession : next.session = c.session) (sameLines : parsed next.history = parsed c.history)
    (sameReplies : heard next.history = heard c.history) :
    AnsweredAlone executeCommand session answered next where
  bytes := bytes
  lines := by
    rw [sameLines, alone.lines, pending_of_idle before, pending_of_idle after]
  results := by
    rw [sameSession, sameReplies]
    exact alone.results
  waits := by
    rw [sameReplies, alone.waits, decide_eq_false before, decide_eq_false after]

theorem start (session : σ) :
    AnsweredAlone executeCommand session [] (ConnectionContainer.start session).releaseCallback :=
  ⟨rfl, rfl, rfl, rfl⟩

theorem clearFlag (alone : AnsweredAlone executeCommand session answered c) :
    AnsweredAlone executeCommand session answered c.clearFlag := by
  have replies : heard c.clearFlag.history = heard c.history := by
    rw [ConnectionContainer.clearFlag, heard_concat,
      hear_silent _ (by rintro _ ⟨⟩) (by rintro _ ⟨⟩)]
  refine ⟨?_, ?_, ?_, ?_⟩
  · rw [ConnectionContainer.clearFlag, bytesRead_concat _ rfl]
    exact alone.bytes
  · rw [ConnectionContainer.clearFlag, parsed_concat _ rfl]
    exact alone.lines
  · rw [replies]
    exact alone.results
  · rw [replies]
    exact alone.waits

/-- **One step** of the thread: a line is handed over, or the one that waits is
answered, or neither. -/
theorem step {given : CallResults} (alone : AnsweredAlone executeCommand session answered c)
    (outcome : c.runStep executeCommand given = some next) :
    ∃ later, AnsweredAlone executeCommand session later next := by
  cases place : c.place with
  | testFlag =>
      simp only [runStep, place, Option.some.injEq] at outcome
      subst outcome
      refine ⟨answered, alone.idle_step (by simp [place]) ?_ alone.bytes rfl rfl rfl⟩
      dsimp only
      split <;> rintro ⟨⟩
  | prompt =>
      obtain ⟨-, rfl⟩ := (prompt_eq_some_iff place).mp outcome
      refine ⟨answered, alone.idle_step (by simp [place]) (by rintro ⟨⟩)
        ((bytesRead_concat _ rfl).trans alone.bytes) rfl (parsed_concat _ rfl) ?_⟩
      have idle : (heard c.history).1 = false := by simp [alone.waits, place]
      exact (heard_concat _ _).trans (hear_write_idle idle _)
  | read =>
      obtain ⟨result, peerOpen⟩ := given
      have noReply : heard (c.history ++ [.read result]) = heard c.history :=
        (heard_concat _ _).trans (hear_silent _ (by rintro _ ⟨⟩) (by rintro _ ⟨⟩))
      simp only [runStep, place] at outcome
      cases result with
      | byte b =>
          obtain rfl := Option.some.inj outcome
          refine ⟨answered, alone.idle_step (by simp [place]) ?_ ?_ rfl (parsed_concat _ rfl)
            noReply⟩
          · dsimp only [record]
            split <;> rintro ⟨⟩
          · have grown : bytesRead (c.history ++ [.read (.byte b)]) = bytesRead c.history ++ [b] :=
              List.filterMap_append
            exact grown.trans (by rw [alone.bytes, List.append_assoc])
      | timeout | eof =>
          obtain rfl := Option.some.inj outcome
          exact ⟨answered, alone.idle_step (by simp [place]) (by rintro ⟨⟩)
            ((bytesRead_concat _ rfl).trans alone.bytes) rfl (parsed_concat _ rfl) noReply⟩
  | testBuffer =>
      simp only [runStep, place] at outcome
      split at outcome
      · obtain rfl := Option.some.inj outcome
        exact ⟨answered, alone.idle_step (by simp [place]) (by rintro ⟨⟩) alone.bytes rfl rfl rfl⟩
      · obtain rfl := Option.some.inj outcome
        have before : parsed c.history = answered := by
          rw [alone.lines, pending_of_idle (by simp [place]), List.append_nil]
        refine ⟨answered, (bytesRead_concat _ rfl).trans alone.bytes, ?_, ?_, ?_⟩
        · rw [record, parsed_append, before]
          rfl
        · simp only [record, heard_concat, hear]
          exact alone.results
        · simp only [record, heard_concat, hear]
          rfl
  | execute =>
      obtain ⟨later, reply, processed, -, rfl⟩ := (execute_eq_some_iff place).mp outcome
      have waits : (heard c.history).1 = true := by simp [alone.waits, place]
      have replies : heard (c.history ++ [.write reply]) =
          (false, (heard c.history).2 ++ [reply]) :=
        (heard_concat _ _).trans (hear_write_waiting waits _)
      refine ⟨answered ++ [c.commandBuf], ?_, ?_, ?_, ?_⟩
      · rw [record, bytesRead_concat _ rfl, alone.bytes]
        simp
      · rw [record, parsed_concat _ rfl, alone.lines, pending, if_pos place]
        simp [pending]
      · rw [record, replies]
        exact answerAll_concat alone.results processed
      · rw [record, replies]
        rfl
  | close =>
      simp only [runStep, place, Option.some.injEq] at outcome
      subst outcome
      exact ⟨answered, alone.idle_step (by simp [place]) (by rintro ⟨⟩)
        ((bytesRead_concat _ rfl).trans alone.bytes) rfl (parsed_concat _ rfl)
        ((heard_concat _ _).trans (hear_silent _ (by rintro _ ⟨⟩) (by rintro _ ⟨⟩)))⟩
  | callback =>
      simp only [runStep, place] at outcome
      obtain ⟨-, outcome⟩ := Option.ite_none_right_eq_some.mp outcome
      obtain rfl := Option.some.inj outcome
      exact ⟨answered, alone.idle_step (by simp [place]) (by rintro ⟨⟩)
        ((bytesRead_concat _ rfl).trans alone.bytes) rfl (parsed_concat _ rfl)
        ((heard_concat _ _).trans (hear_silent _ (by rintro _ ⟨⟩) (by rintro _ ⟨⟩)))⟩
  | exited =>
      simp only [runStep, place] at outcome
      cases outcome

end AnsweredAlone

end ConnectionContainer

namespace ManagementInterface

open ConnectionContainer

variable {σ : Type u} {executeCommand : σ → ParsedCommand → Option (σ × Bytes)}
  {session : ℕ → σ} {m : ManagementInterface σ} {fd : ℕ} {c : ConnectionContainer σ}

/-- What follows from it holds of every container in every run. -/
theorem holds_of_answeredAlone (property : ℕ → ConnectionContainer σ → Prop)
    (follows : ∀ {fd : ℕ} {answered : List Bytes} {c : ConnectionContainer σ},
      AnsweredAlone executeCommand (session fd) answered c → property fd c)
    (run : (system executeCommand session).Run (fun _ _ => True) start m) (has : m.Has fd c) :
    property fd c := by
  have alone : ∃ answered, AnsweredAlone executeCommand (session fd) answered c := by
    refine containers_hold (fun fd c =>
      ∃ answered, AnsweredAlone executeCommand (session fd) answered c) ?_ ?_ ?_ run has
    · intro fd
      exact ⟨[], .start _⟩
    · rintro fd c next given ⟨answered, alone⟩ ran
      exact alone.step ran
    · rintro fd c ⟨answered, alone⟩
      exact ⟨answered, alone.clearFlag⟩
  obtain ⟨answered, alone⟩ := alone
  exact follows alone

/-- **Connections do not disturb each other.** However the steps of the threads
interleave, and whatever the other connections send, the session of a connection
and the replies written to it are those of its own lines, answered one after
another from the session it started with. The lines are the bytes it has read, but
for those still in its buffer, and at most one of them is not answered yet. -/
theorem connections_answered_alone
    (run : (system executeCommand session).Run (fun _ _ => True) start m) (has : m.Has fd c) :
    ∃ answered, AnsweredAlone executeCommand (session fd) answered c :=
  holds_of_answeredAlone (fun fd c =>
    ∃ answered, AnsweredAlone executeCommand (session fd) answered c)
    (fun alone => ⟨_, alone⟩) run has

/-- The number of commands so far, and the name of the command. -/
def counting (commands : ℕ) (command : ParsedCommand) : Option (ℕ × Bytes) :=
  some (commands + 1, command.1)

/-- A step of the one connection, then one of the other. -/
def alternating (left right : List ReadResult) : List Action :=
  (List.zip left right).flatMap fun (atLeft, atRight) =>
    [.run 7 ⟨atLeft, true⟩, .run 8 ⟨atRight, true⟩]

/-- What the thread of a connection is given to read a line and to answer it. -/
def typed (line : Bytes) : List ReadResult :=
  [.eof, .eof] ++ line.map .byte ++ [.eof, .eof]

/-- Two connections that send a line each, their threads in turns. -/
theorem connections_answered_alone_two :
    ∃ (m : ManagementInterface ℕ) (c : ConnectionContainer ℕ),
      (system counting id).Run (fun _ _ => True) start m ∧ m.Has 8 c ∧
        c.session = 9 ∧ (heard c.history).2 = [utf8 "b"] ∧
        ∃ answered, AnsweredAlone counting 8 answered c := by
  have reached : (system counting id).exec (fun _ _ => True) start
      ([.accept 7, .emplace, .accept 8, .emplace] ++
        alternating (typed [97, newline]) (typed [98, newline])) = some _ := rfl
  have run := ActionSystem.run_of_exec reached
  exact ⟨_, _, run, .inl rfl, rfl, rfl, connections_answered_alone run (.inl rfl)⟩

end ManagementInterface

end P2PFileSync
