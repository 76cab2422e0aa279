import P2PFileSync.Foundations.ActionSystem
import P2PFileSync.Interface.CommandLines

/-!
# The thread of a connection

`ConnectionContainer::run` writes a prompt, reads one byte at a time up to a
newline or to the end of file, and hands what it has read to `parse_command` and
`execute_command`. The result of `read` is stored in an unsigned variable: a
timeout is a large count other than one, and the inner loop reads again.

Each test of the running flag and each call is one step of the thread; the flag
is cleared by another thread at any moment. What `execute_command` does is a
parameter.

A step is never completed (`none`) where `parse_command` or `execute_command` does
not return, where an exception leaves `run`, which is `noexcept`, and where a
`write` finds that the peer has closed the connection: nothing handles or ignores
SIGPIPE, which ends the process. The destroy callback is kept as a reference, and
to call it is undefined once the function it refers to is gone.
-/

set_option autoImplicit false

namespace P2PFileSync

universe u

/-! ## The model -/

/-- What a `read` of one byte gives: the byte, -1 or 0. -/
inductive ReadResult where
  | byte (b : UInt8)
  | timeout
  | eof
  deriving DecidableEq

/-- What the calls of a step find: what a `read` gives, and whether the peer of a
`write` still has the connection open. -/
structure CallResults where
  read : ReadResult
  peerOpen : Bool
  deriving DecidableEq

/-- What a connection does, and the clearing of its running flag. -/
inductive ConnectionEvent where
  | write (text : Bytes)
  | read (result : ReadResult)
  | parse (command : Bytes)
  | flagCleared
  | close
  | callback
  deriving DecidableEq

/-- The next step of the thread. -/
inductive ConnectionPlace where
  | testFlag
  | prompt
  | read
  | testBuffer
  | execute
  | close
  | callback
  | exited
  deriving DecidableEq

/-- The members of a `ConnectionContainer` and the local state of its thread, with
a record of what it has done. The session stands for all that `execute_command`
reads and writes, and `callbackAlive` says whether the function that
`_destroy_callback` refers to is still there. -/
structure ConnectionContainer (σ : Type u) where
  place : ConnectionPlace
  runningFlag : Bool
  commandBuf : Bytes
  session : σ
  callbackAlive : Bool
  history : List ConnectionEvent

namespace ConnectionContainer

variable {σ : Type u}

/-- The thread has just been started. -/
def start (session : σ) : ConnectionContainer σ where
  place := .testFlag
  runningFlag := true
  commandBuf := []
  session := session
  callbackAlive := true
  history := []

/-- The event happens, and the thread goes on at the place. -/
def record (c : ConnectionContainer σ) (event : ConnectionEvent) (place : ConnectionPlace) :
    ConnectionContainer σ :=
  { c with history := c.history ++ [event], place := place }

def kTerminalMessage : Bytes := utf8 "P2PFileSync>"

/-- What becomes of a command line: the session afterwards, and the text written.
`none` where `parse_command` or `execute_command` does not return, and where
`parse_command` throws. -/
def process (executeCommand : σ → ParsedCommand → Option (σ × Bytes)) (session : σ)
    (command : Bytes) : Option (σ × Bytes) :=
  match parseCommand (command.length + 1) command ([], []) with
  | none => none
  | some .lengthError => none
  | some (.returned status parsedCommand) =>
      if status.code = .OK then executeCommand session parsedCommand
      else some (session, status.msg)

/-- The next step of the thread. -/
def runStep (executeCommand : σ → ParsedCommand → Option (σ × Bytes)) (given : CallResults)
    (c : ConnectionContainer σ) : Option (ConnectionContainer σ) :=
  match c.place with
  | .testFlag => some { c with place := if c.runningFlag then .prompt else .close }
  | .prompt =>
      if given.peerOpen then some (c.record (.write kTerminalMessage) .read)
      else none
  | .read =>
      match given.read with
      | .byte b =>
          some { c.record (.read (.byte b)) (if b = newline then .testBuffer else .read) with
            commandBuf := c.commandBuf ++ [b] }
      -- -1 is a positive count other than one
      | .timeout => some (c.record (.read .timeout) .read)
      | .eof => some (c.record (.read .eof) .testBuffer)
  | .testBuffer =>
      if c.commandBuf = [] then some { c with place := .testFlag }
      else some (c.record (.parse c.commandBuf) .execute)
  | .execute =>
      (process executeCommand c.session c.commandBuf).bind fun (session, reply) =>
        if given.peerOpen then
          some { c.record (.write reply) .testFlag with commandBuf := [], session := session }
        else none
  | .close => some (c.record .close .callback)
  | .callback => if c.callbackAlive then some (c.record .callback .exited) else none
  | .exited => none

/-- The destructor's part before it waits for the thread. -/
def clearFlag (c : ConnectionContainer σ) : ConnectionContainer σ :=
  { c with runningFlag := false, history := c.history ++ [.flagCleared] }

/-- The function that `_destroy_callback` refers to is destroyed. -/
def releaseCallback (c : ConnectionContainer σ) : ConnectionContainer σ :=
  { c with callbackAlive := false }

inductive Action where
  | run (given : CallResults)
  | clearFlag
  | releaseCallback

/-- The thread, whoever clears its flag and whoever has its callback, in any order. -/
def system (executeCommand : σ → ParsedCommand → Option (σ × Bytes)) :
    ActionSystem (ConnectionContainer σ) Action where
  act c
    | .run given => c.runStep executeCommand given
    | .clearFlag => some c.clearFlag
    | .releaseCallback => some c.releaseCallback

/-- A command that returns at once. -/
def returning (session : Unit) (_ : ParsedCommand) : Option (Unit × Bytes) := some (session, [])

variable {executeCommand : σ → ParsedCommand → Option (σ × Bytes)} {c next : ConnectionContainer σ}

/-! ## One step -/

/-- A command line is processed when `parse_command` returns and, on a command,
`execute_command` does. -/
theorem process_eq_some_iff {session : σ} {command : Bytes} {processed : σ × Bytes} :
    process executeCommand session command = some processed ↔
      ∃ status parsedCommand,
        Parses command ([], []) (.returned status parsedCommand) ∧
          if status.code = .OK then executeCommand session parsedCommand = some processed
          else processed = (session, status.msg) := by
  have decided (status : Status) (parsedCommand : ParsedCommand) :
      (if status.code = .OK then executeCommand session parsedCommand
        else some (session, status.msg)) = some processed ↔
      if status.code = .OK then executeCommand session parsedCommand = some processed
        else processed = (session, status.msg) := by
    split
    · exact Iff.rfl
    · rw [Option.some.injEq, eq_comm]
  simp only [process, parses_iff]
  constructor
  · intro processes
    split at processes
    · cases processes
    · cases processes
    · rename_i status parsedCommand ends
      exact ⟨status, parsedCommand, ends, (decided status parsedCommand).mp processes⟩
  · rintro ⟨status, parsedCommand, ends, processes⟩
    rw [ends]
    exact (decided status parsedCommand).mpr processes

/-- The prompt is written to a peer that has the connection open. -/
theorem prompt_eq_some_iff {given : CallResults} (place : c.place = .prompt) :
    c.runStep executeCommand given = some next ↔
      given.peerOpen = true ∧ next = c.record (.write kTerminalMessage) .read := by
  simp only [runStep, place]
  split
  · rename_i isOpen
    rw [Option.some.injEq, and_iff_right isOpen, eq_comm]
  · rename_i closed
    exact iff_of_false (by rintro ⟨⟩) fun written => closed written.1

theorem prompt_eq_none {given : CallResults} (place : c.place = .prompt)
    (closed : given.peerOpen = false) : c.runStep executeCommand given = none := by
  simp only [runStep, place, closed, Bool.false_eq_true, if_false]

/-- A line is answered to a peer that has the connection open. -/
theorem execute_eq_some_iff {given : CallResults} (place : c.place = .execute) :
    c.runStep executeCommand given = some next ↔
      ∃ session reply, process executeCommand c.session c.commandBuf = some (session, reply) ∧
        given.peerOpen = true ∧
        next = { c.record (.write reply) .testFlag with commandBuf := [], session := session } := by
  simp only [runStep, place]
  constructor
  · intro outcome
    obtain ⟨⟨session, reply⟩, processed, written⟩ := Option.bind_eq_some_iff.mp outcome
    obtain ⟨isOpen, written⟩ := Option.ite_none_right_eq_some.mp written
    exact ⟨session, reply, processed, isOpen, (Option.some.inj written).symm⟩
  · rintro ⟨session, reply, processed, isOpen, rfl⟩
    rw [processed]
    exact if_pos isOpen

/-- Everything a step adds to the record: nothing, the result of a `read` at the
place where the thread reads, or an event that is no `read`. -/
theorem history_of_runStep {given : CallResults}
    (outcome : c.runStep executeCommand given = some next) :
    (next.runningFlag = c.runningFlag ∧ next.callbackAlive = c.callbackAlive) ∧
      (next.history = c.history ∨
        ∃ event, next.history = c.history ++ [event] ∧ event ≠ .flagCleared ∧
          ((c.place = .read ∧ event = .read given.read) ∨ ∀ other, event ≠ .read other)) := by
  cases place : c.place with
  | testFlag =>
      simp only [runStep, place, Option.some.injEq] at outcome
      subst outcome
      exact ⟨⟨rfl, rfl⟩, .inl rfl⟩
  | prompt =>
      obtain ⟨-, rfl⟩ := (prompt_eq_some_iff place).mp outcome
      exact ⟨⟨rfl, rfl⟩, .inr ⟨_, rfl, by rintro ⟨⟩, .inr (by rintro _ ⟨⟩)⟩⟩
  | read =>
      obtain ⟨result, peerOpen⟩ := given
      simp only [runStep, place] at outcome
      cases result with
      | byte b | timeout | eof =>
          obtain rfl := Option.some.inj outcome
          exact ⟨⟨rfl, rfl⟩, .inr ⟨_, rfl, by rintro ⟨⟩, .inl ⟨rfl, rfl⟩⟩⟩
  | testBuffer =>
      simp only [runStep, place] at outcome
      split at outcome
      · obtain rfl := Option.some.inj outcome
        exact ⟨⟨rfl, rfl⟩, .inl rfl⟩
      · obtain rfl := Option.some.inj outcome
        exact ⟨⟨rfl, rfl⟩, .inr ⟨_, rfl, by rintro ⟨⟩, .inr (by rintro _ ⟨⟩)⟩⟩
  | execute =>
      obtain ⟨session, reply, -, -, rfl⟩ := (execute_eq_some_iff place).mp outcome
      exact ⟨⟨rfl, rfl⟩, .inr ⟨_, rfl, by rintro ⟨⟩, .inr (by rintro _ ⟨⟩)⟩⟩
  | close =>
      simp only [runStep, place, Option.some.injEq] at outcome
      subst outcome
      exact ⟨⟨rfl, rfl⟩, .inr ⟨_, rfl, by rintro ⟨⟩, .inr (by rintro _ ⟨⟩)⟩⟩
  | callback =>
      simp only [runStep, place] at outcome
      obtain ⟨-, outcome⟩ := Option.ite_none_right_eq_some.mp outcome
      obtain rfl := Option.some.inj outcome
      exact ⟨⟨rfl, rfl⟩, .inr ⟨_, rfl, by rintro ⟨⟩, .inr (by rintro _ ⟨⟩)⟩⟩
  | exited =>
      simp only [runStep, place] at outcome
      cases outcome

end ConnectionContainer

end P2PFileSync
