import P2PFileSync.Interface.ConnectionSessions
import P2PFileSync.Interface.UserCommand

/-!
# The users of the connections

Every connection has a user context of its own, on which the `USER` command acts.
`execute_command` finds the object of a command by its name. Two things that it
relies on may be gone. The map that keeps the objects of a connection has views of
strings as its keys that are gone when the next line is read, so which object is
found for a name is left open here. And the object keeps a reference to the session
that is made to refer to a parameter of its constructor: where the reference is no
longer good, a `USER` command with words is undefined.

Whatever the connections send, whatever is found, whatever the server replies and
however their threads interleave: each request that the server gets for a connection
is made of the words of one of its own commands, and together they follow the
protocol of one session after another (`connections_follow_protocol`).
-/

set_option autoImplicit false

namespace P2PFileSync

open UserCommand ConnectionContainer

/-- The user context of a connection, with a record of the commands so far, each with
its turn if it was a `UserCommand` that ran it. -/
structure UserSession where
  fd : ℕ
  loggedIn : Bool
  commands : List (ParsedCommand × Option Turn)

namespace UserSession

/-- Nobody is logged in. -/
def new (fd : ℕ) : UserSession := ⟨fd, false, []⟩

/-- The turns of the `UserCommand`, in order. -/
def turns (session : UserSession) : List Turn := session.commands.filterMap Prod.snd

/-- What `execute_command` depends on: whether the object that it finds for a name is
a `UserCommand`, whether the reference that this object keeps to the session is still
good, what the server replies when it is asked, and what the help text and the other
commands print. -/
structure Surroundings where
  isUser : UserSession → Bytes → Bool
  sessionAlive : UserSession → Bool
  reply : UserSession → Option Bytes
  other : UserSession → ParsedCommand → Option Bytes

/-- `execute_command`; `none` where the command does not return or is undefined. -/
def executeCommand (parse : Bytes → Option Json) (around : Surroundings) (session : UserSession)
    (command : ParsedCommand) : Option (UserSession × Bytes) :=
  if command.1 ≠ utf8 "help" ∧ around.isUser session command.1 = true then
    -- without words `exec` returns before it asks for the session
    if command.2 ≠ [] ∧ around.sessionAlive session = false then none
    else
      match exec parse session.loggedIn command.2 (around.reply session) with
      | .error _ => none
      | .ok result =>
          some ({ session with
            loggedIn := result.loggedIn
            commands := session.commands ++
              [(command, some ⟨command.2, around.reply session, result⟩)] },
            result.output ++ [newline])
  else
    (around.other session command).map fun output =>
      ({ session with commands := session.commands ++ [(command, none)] }, output)

/-- The requests made so far follow the protocol, and say who is logged in. -/
def Follows (parse : Bytes → Option Json) (session : UserSession) : Prop :=
  ∃ events user, Protocol none events user ∧
    List.Forall₂ (Tells parse) events (asking session.turns) ∧ session.loggedIn = user.isSome

variable {parse : Bytes → Option Json} {around : Surroundings}

/-! ## One command -/

/-- A `UserCommand` is found for the name at some time, and it is not the help. -/
def RunsUser (around : Surroundings) (name : Bytes) : Prop :=
  name ≠ utf8 "help" ∧ ∃ session, around.isUser session name = true

/-- A command that returns: it is recorded, and if it was a `UserCommand` that ran it, it
took a turn with its words. -/
theorem records_of_executeCommand {session later : UserSession} {command : ParsedCommand}
    {reply : Bytes} (executed : executeCommand parse around session command = some (later, reply)) :
    (later.commands = session.commands ++ [(command, none)] ∧
        later.loggedIn = session.loggedIn) ∨
      ∃ turn, later.commands = session.commands ++ [(command, some turn)] ∧
        turn.args = command.2 ∧ RunsUser around command.1 ∧
        later.loggedIn = turn.result.loggedIn ∧
        exec parse session.loggedIn turn.args turn.reply = .ok turn.result := by
  unfold executeCommand at executed
  split at executed
  · rename_i found
    split at executed
    · cases executed
    · cases ran : exec parse session.loggedIn command.2 (around.reply session) with
      | error fault =>
          simp only [ran] at executed
          cases executed
      | ok result =>
          simp only [ran] at executed
          cases executed
          exact .inr ⟨_, rfl, rfl, ⟨found.1, session, found.2⟩, rfl, ran⟩
  · obtain ⟨output, -, outcome⟩ := Option.map_eq_some_iff.mp executed
    cases outcome
    exact .inl ⟨rfl, rfl⟩

theorem turns_of_concat {session later : UserSession} {command : ParsedCommand}
    {turn : Option Turn} (commands : later.commands = session.commands ++ [(command, turn)]) :
    later.turns = session.turns ++ turn.toList := by
  rw [turns, commands, List.filterMap_append]
  cases turn <;> rfl

theorem asking_concat (turns : List Turn) (turn : Turn) :
    asking (turns ++ [turn]) = asking turns ++ asking [turn] :=
  List.filter_append _ _

/-- **One turn** more. -/
theorem Follows.turn {session later : UserSession} {turn : Turn} (follows : Follows parse session)
    (ran : exec parse session.loggedIn turn.args turn.reply = .ok turn.result)
    (turns : later.turns = session.turns ++ [turn])
    (flag : later.loggedIn = turn.result.loggedIn) : Follows parse later := by
  obtain ⟨events, user, protocol, told, loggedIn⟩ := follows
  rw [loggedIn] at ran
  cases exec_does ran with
  | nothing silent same =>
      refine ⟨events, user, protocol, ?_, flag.trans same⟩
      have silent : turn.result.request = none := silent
      have quiet : asking [turn] = [] := by simp [asking, silent]
      rw [turns, asking_concat, quiet, List.append_nil]
      exact told
  | @event event after comes tells isSome =>
      refine ⟨events ++ [event], after, protocol.append comes, ?_, flag.trans isSome⟩
      have asked : asking [turn] = [turn] := List.filter_eq_self.mpr (by simpa using tells.asks)
      rw [turns, asking_concat, asked]
      exact List.rel_append told (.cons tells .nil)

/-- What the record of a session says about the lines that were answered in it: its
commands are those of the lines, and every turn is that of a command for which a
`UserCommand` is found, with exactly its words. -/
structure Explained (parse : Bytes → Option Json) (around : Surroundings)
    (answered : List Bytes) (session : UserSession) : Prop where
  follows : Follows parse session
  commands : session.commands.map Prod.fst = answered.filterMap commandOf
  words : ∀ command turn, (command, some turn) ∈ session.commands →
    turn.args = command.2 ∧ RunsUser around command.1

/-- **One line** more. -/
theorem Explained.line {answered : List Bytes} {session later : UserSession} {line reply : Bytes}
    (explained : Explained parse around answered session)
    (processed : process (executeCommand parse around) session line = some (later, reply)) :
    Explained parse around (answered ++ [line]) later := by
  rcases process_cases processed with ⟨noCommand, rfl⟩ | ⟨command, parsed, executed⟩
  · refine ⟨explained.follows, ?_, explained.words⟩
    rw [explained.commands, List.filterMap_append, List.filterMap_cons_none noCommand,
      List.filterMap_nil, List.append_nil]
  · have lines {turn : Option Turn}
        (commands : later.commands = session.commands ++ [(command, turn)]) :
        later.commands.map Prod.fst = (answered ++ [line]).filterMap commandOf := by
      rw [commands, List.map_append, explained.commands, List.filterMap_append,
        List.filterMap_cons_some parsed]
      rfl
    rcases records_of_executeCommand executed with
      ⟨commands, flag⟩ | ⟨turn, commands, args, found, flag, ran⟩
    · obtain ⟨events, user, protocol, told, loggedIn⟩ := explained.follows
      have same : later.turns = session.turns :=
        (turns_of_concat commands).trans (List.append_nil _)
      refine ⟨⟨events, user, protocol, same ▸ told, flag.trans loggedIn⟩, lines commands, ?_⟩
      intro other turn member
      rw [commands] at member
      rcases List.mem_append.mp member with old | last
      · exact explained.words other turn old
      · cases List.mem_singleton.mp last
    · refine ⟨explained.follows.turn ran (turns_of_concat commands) flag, lines commands, ?_⟩
      intro other another member
      rw [commands] at member
      rcases List.mem_append.mp member with old | last
      · exact explained.words other another old
      · cases List.mem_singleton.mp last
        exact ⟨args, found⟩

/-! ## Every run -/

open ManagementInterface

variable {m : ManagementInterface UserSession} {fd : ℕ} {c : ConnectionContainer UserSession}

end UserSession

end P2PFileSync
