import Mathlib.Data.List.AList
import P2PFileSync.Interface.ConnectionContainer

/-!
# The management interface

`ManagementInterface::accept_handler` accepts a connection, starts its thread by
constructing a `ConnectionContainer`, destroys the container that is kept under
the same descriptor, and keeps the new one. Destroying a container clears its
running flag and waits for its thread. The threads of the connections run at the
same time; at its end a thread closes its socket, whose descriptor `accept` may
then give out again, and its callback puts the descriptor on the destroy list.

A thread ends only when its flag is cleared, the flag is cleared only when the
descriptor comes again, and the descriptor comes again only when the thread has
ended. So while the daemon runs none of the three ever happens. What can happen to a
connection is that a line is never answered, or that a write finds that the peer has
closed it: then SIGPIPE ends the daemon (`no_connection_ends_alone`).

A container is taken to be constructed before its thread makes a step. The callback
that it keeps a reference to is an argument of its constructor, and gone when that
returns.
-/

set_option autoImplicit false

namespace P2PFileSync

universe u

/-- The members of `ManagementInterface` that `accept_handler` and the threads
use, the sockets of connections that are open, and the container that
`accept_handler` has constructed and not yet kept. -/
structure ManagementInterface (σ : Type u) where
  openFds : List ℕ
  threadManagementContainer : AList fun _ : ℕ => ConnectionContainer σ
  newContainer : Option (ℕ × ConnectionContainer σ)
  destroyList : List ℕ

/-- An entry after a replacement is the new one or an old one. -/
theorem mem_entries_replace {α β : Type*} [DecidableEq α] {a : α} {b : β}
    {entries : AList fun _ : α => β} {entry : Σ _ : α, β}
    (member : entry ∈ (entries.replace a b).entries) :
    entry = ⟨a, b⟩ ∨ entry ∈ entries.entries := by
  obtain ⟨l, nodup⟩ := entries
  simp only [AList.replace, List.kreplace] at member ⊢
  clear nodup
  induction l with
  | nil => cases member
  | cons first rest ih =>
      by_cases same : a = first.1
      · rw [List.lookmap_cons_some _ rest (if_pos same)] at member
        rcases List.mem_cons.mp member with new | old
        · exact .inl (by rw [new])
        · exact .inr (List.mem_cons_of_mem _ old)
      · rw [List.lookmap_cons_none _ rest (if_neg same)] at member
        rcases List.mem_cons.mp member with here | later
        · exact .inr (by rw [here]; exact List.mem_cons_self)
        · exact (ih later).imp_right (List.mem_cons_of_mem _)

namespace ManagementInterface

variable {σ : Type u}

/-- No connection so far. -/
def start : ManagementInterface σ := ⟨[], ∅, none, []⟩

/-- What a thread does to the interface when it makes a step from the place. -/
def effect (m : ManagementInterface σ) (fd : ℕ) : ConnectionPlace → ManagementInterface σ
  | .close => { m with openFds := m.openFds.erase fd }
  | .callback => { m with destroyList := m.destroyList ++ [fd] }
  | _ => m

theorem newContainer_effect (m : ManagementInterface σ) (fd : ℕ) (place : ConnectionPlace) :
    (m.effect fd place).newContainer = m.newContainer := by
  cases place <;> rfl

theorem threadManagementContainer_effect (m : ManagementInterface σ) (fd : ℕ)
    (place : ConnectionPlace) :
    (m.effect fd place).threadManagementContainer = m.threadManagementContainer := by
  cases place <;> rfl

/-- A step of the interface. -/
inductive Action where
  /-- `accept_handler` up to the construction of the container; `accept` gives
  the descriptor. -/
  | accept (newFd : ℕ)
  /-- The destructor of the old container, before it waits. -/
  | clearFlag
  /-- The end of that destructor: its thread has exited. -/
  | join
  /-- The end of `accept_handler`. -/
  | emplace
  /-- A step of the thread of a container that is kept. -/
  | run (fd : ℕ) (given : CallResults)
  /-- A step of the thread of the new container. -/
  | runNew (given : CallResults)

/-- One action; `accept` gives a descriptor that is not open. The session is the one
that a connection of the descriptor starts with. -/
def act (executeCommand : σ → ParsedCommand → Option (σ × Bytes)) (session : ℕ → σ)
    (m : ManagementInterface σ) : Action → Option (ManagementInterface σ)
  | .accept newFd =>
      if m.newContainer.isNone = true ∧ newFd ∉ m.openFds then
        some { m with
          openFds := newFd :: m.openFds
          newContainer := some (newFd,
            (ConnectionContainer.start (session newFd)).releaseCallback) }
      else none
  | .clearFlag =>
      m.newContainer.bind fun new =>
        (m.threadManagementContainer.lookup new.1).map fun old =>
          { m with
            threadManagementContainer :=
              m.threadManagementContainer.replace new.1 old.clearFlag }
  | .join =>
      m.newContainer.bind fun new =>
        (m.threadManagementContainer.lookup new.1).bind fun old =>
          if old.runningFlag = false ∧ old.place = .exited then
            some { m with
              threadManagementContainer := m.threadManagementContainer.erase new.1 }
          else none
  | .emplace =>
      m.newContainer.bind fun new =>
        match m.threadManagementContainer.lookup new.1 with
        | some _ => none
        | none =>
            some { m with
              threadManagementContainer := m.threadManagementContainer.insert new.1 new.2
              newContainer := none }
  | .run fd given =>
      (m.threadManagementContainer.lookup fd).bind fun c =>
        (c.runStep executeCommand given).map fun next =>
          { m.effect fd c.place with
            threadManagementContainer := m.threadManagementContainer.replace fd next }
  | .runNew given =>
      m.newContainer.bind fun new =>
        (new.2.runStep executeCommand given).map fun next =>
          { m.effect new.1 new.2.place with newContainer := some (new.1, next) }

def system (executeCommand : σ → ParsedCommand → Option (σ × Bytes)) (session : ℕ → σ) :
    ActionSystem (ManagementInterface σ) Action where
  act := act executeCommand session

variable {executeCommand : σ → ParsedCommand → Option (σ × Bytes)} {session : ℕ → σ}

/-! ## What every container keeps -/

/-- A container of the descriptor, kept or new. -/
def Has (m : ManagementInterface σ) (fd : ℕ) (c : ConnectionContainer σ) : Prop :=
  m.threadManagementContainer.lookup fd = some c ∨ m.newContainer = some (fd, c)

/-- A container after one action: it has just been started, it was there before, its
flag has been cleared, or its thread made a step. -/
theorem Has.before {m next : ManagementInterface σ} {a : Action}
    (taken : (system executeCommand session).act m a = some next) {fd : ℕ}
    {c : ConnectionContainer σ} (has : next.Has fd c) :
    c = (ConnectionContainer.start (session fd)).releaseCallback ∨ ∃ old, m.Has fd old ∧
      (c = old ∨ c = old.clearFlag ∨ ∃ given, old.runStep executeCommand given = some c) := by
  cases a with
  | accept newFd =>
      obtain ⟨-, outcome⟩ := Option.ite_none_right_eq_some.mp taken
      obtain rfl := Option.some.inj outcome
      rcases has with kept | new
      · exact .inr ⟨c, .inl kept, .inl rfl⟩
      · cases new
        exact .inl rfl
  | clearFlag =>
      obtain ⟨⟨newFd, new⟩, isNew, outcome⟩ := Option.bind_eq_some_iff.mp taken
      obtain ⟨old, found, rfl⟩ := Option.map_eq_some_iff.mp outcome
      rcases has with kept | new
      · rcases mem_entries_replace (AList.mem_lookup_iff.mp kept) with here | other
        · cases here
          exact .inr ⟨old, .inl found, .inr (.inl rfl)⟩
        · exact .inr ⟨c, .inl (AList.mem_lookup_iff.mpr other), .inl rfl⟩
      · exact .inr ⟨c, .inr new, .inl rfl⟩
  | join =>
      obtain ⟨⟨newFd, new⟩, isNew, outcome⟩ := Option.bind_eq_some_iff.mp taken
      obtain ⟨old, found, outcome⟩ := Option.bind_eq_some_iff.mp outcome
      obtain ⟨-, outcome⟩ := Option.ite_none_right_eq_some.mp outcome
      obtain rfl := Option.some.inj outcome
      rcases has with kept | new
      · by_cases same : fd = newFd
        · subst same
          rw [AList.lookup_erase] at kept
          cases kept
        · rw [AList.lookup_erase_ne same] at kept
          exact .inr ⟨c, .inl kept, .inl rfl⟩
      · exact .inr ⟨c, .inr new, .inl rfl⟩
  | emplace =>
      obtain ⟨⟨newFd, new⟩, isNew, outcome⟩ := Option.bind_eq_some_iff.mp taken
      cases found : m.threadManagementContainer.lookup newFd with
      | some old =>
          simp only [found] at outcome
          cases outcome
      | none =>
          simp only [found, Option.some.injEq] at outcome
          subst outcome
          rcases has with kept | none
          · by_cases same : fd = newFd
            · subst same
              rw [AList.lookup_insert] at kept
              cases kept
              exact .inr ⟨c, .inr isNew, .inl rfl⟩
            · rw [AList.lookup_insert_ne same] at kept
              exact .inr ⟨c, .inl kept, .inl rfl⟩
          · cases none
  | run ranFd given =>
      obtain ⟨old, found, outcome⟩ := Option.bind_eq_some_iff.mp taken
      obtain ⟨stepped, ran, rfl⟩ := Option.map_eq_some_iff.mp outcome
      rcases has with kept | new
      · rcases mem_entries_replace (AList.mem_lookup_iff.mp kept) with here | other
        · cases here
          exact .inr ⟨old, .inl found, .inr (.inr ⟨given, ran⟩)⟩
        · exact .inr ⟨c, .inl (AList.mem_lookup_iff.mpr other), .inl rfl⟩
      · simp only [newContainer_effect] at new
        exact .inr ⟨c, .inr new, .inl rfl⟩
  | runNew given =>
      obtain ⟨⟨newFd, old⟩, isNew, outcome⟩ := Option.bind_eq_some_iff.mp taken
      obtain ⟨stepped, ran, rfl⟩ := Option.map_eq_some_iff.mp outcome
      rcases has with kept | new
      · simp only [threadManagementContainer_effect] at kept
        exact .inr ⟨c, .inl kept, .inl rfl⟩
      · cases new
        exact .inr ⟨old, .inr isNew, .inr (.inr ⟨given, ran⟩)⟩

/-- What holds of a container at its start, and is kept by its thread and by the
clearing of its flag, holds of every container in every run. -/
theorem containers_hold (invariant : ℕ → ConnectionContainer σ → Prop)
    (starts : ∀ fd, invariant fd (ConnectionContainer.start (session fd)).releaseCallback)
    (steps : ∀ {fd : ℕ} {c next : ConnectionContainer σ} {given : CallResults}, invariant fd c →
      c.runStep executeCommand given = some next → invariant fd next)
    (clears : ∀ {fd : ℕ} {c : ConnectionContainer σ}, invariant fd c → invariant fd c.clearFlag)
    {m : ManagementInterface σ}
    (run : (system executeCommand session).Run (fun _ _ => True) start m) {fd : ℕ}
    {c : ConnectionContainer σ} (has : m.Has fd c) : invariant fd c := by
  have step : ∀ {s t : ManagementInterface σ} {a : Action},
      (∀ fd c, s.Has fd c → invariant fd c) → True →
        (system executeCommand session).act s a = some t → ∀ fd c, t.Has fd c → invariant fd c := by
    intro s t a before _ taken fd c has
    rcases has.before taken with rfl | ⟨old, had, rfl | rfl | ⟨given, ran⟩⟩
    · exact starts fd
    · exact before fd c had
    · exact clears (before fd old had)
    · exact steps (before fd old had) ran
  have none : ∀ fd c, (start : ManagementInterface σ).Has fd c → invariant fd c := by
    rintro fd c (kept | new)
    · cases kept
    · cases new
  exact run.preserves step none fd c has

/-! ## What a connection that runs does -/

/-- The thread is in its loop, with the flag set. -/
def Running (c : ConnectionContainer σ) : Prop :=
  c.runningFlag = true ∧ c.place ≠ .close ∧ c.place ≠ .callback ∧ c.place ≠ .exited

/-- While the flag is set the thread stays in its loop. -/
theorem Running.step {c next : ConnectionContainer σ} {given : CallResults}
    (running : Running c) (outcome : c.runStep executeCommand given = some next) :
    Running next := by
  obtain ⟨⟨flag, -⟩, -⟩ := ConnectionContainer.history_of_runStep outcome
  obtain ⟨set, notClose, notCallback, notExited⟩ := running
  refine ⟨flag.trans set, ?_⟩
  cases place : c.place with
  | testFlag =>
      simp only [ConnectionContainer.runStep, place, set, if_true, Option.some.injEq] at outcome
      subst outcome
      exact ⟨by rintro ⟨⟩, by rintro ⟨⟩, by rintro ⟨⟩⟩
  | prompt =>
      obtain ⟨-, rfl⟩ := (ConnectionContainer.prompt_eq_some_iff place).mp outcome
      exact ⟨by rintro ⟨⟩, by rintro ⟨⟩, by rintro ⟨⟩⟩
  | read =>
      obtain ⟨result, peerOpen⟩ := given
      simp only [ConnectionContainer.runStep, place] at outcome
      cases result with
      | byte b =>
          obtain rfl := Option.some.inj outcome
          dsimp only [ConnectionContainer.record]
          split <;> exact ⟨by rintro ⟨⟩, by rintro ⟨⟩, by rintro ⟨⟩⟩
      | timeout | eof =>
          obtain rfl := Option.some.inj outcome
          exact ⟨by rintro ⟨⟩, by rintro ⟨⟩, by rintro ⟨⟩⟩
  | testBuffer =>
      simp only [ConnectionContainer.runStep, place] at outcome
      split at outcome <;>
        · obtain rfl := Option.some.inj outcome
          exact ⟨by rintro ⟨⟩, by rintro ⟨⟩, by rintro ⟨⟩⟩
  | execute =>
      obtain ⟨_, _, -, -, rfl⟩ := (ConnectionContainer.execute_eq_some_iff place).mp outcome
      exact ⟨by rintro ⟨⟩, by rintro ⟨⟩, by rintro ⟨⟩⟩
  | close => exact absurd place notClose
  | callback => exact absurd place notCallback
  | exited => exact absurd place notExited

/-- The thread writes in its next step, the prompt or a reply. -/
def Writes (executeCommand : σ → ParsedCommand → Option (σ × Bytes))
    (c : ConnectionContainer σ) : Prop :=
  c.place = .prompt ∨
    (c.place = .execute ∧
      (ConnectionContainer.process executeCommand c.session c.commandBuf).isSome = true)

theorem Running.effect_eq {c : ConnectionContainer σ} (running : Running c)
    (m : ManagementInterface σ) (fd : ℕ) : m.effect fd c.place = m := by
  obtain ⟨-, notClose, notCallback, -⟩ := running
  cases place : c.place with
  | close => exact absurd place notClose
  | callback => exact absurd place notCallback
  | testFlag | prompt | read | testBuffer | execute | exited => rfl

theorem running_start (session : σ) :
    Running (ConnectionContainer.start session).releaseCallback :=
  ⟨rfl, by rintro ⟨⟩, by rintro ⟨⟩, by rintro ⟨⟩⟩

/-! ## No connection ends alone -/

/-- The descriptors of all containers, that of the new one first. -/
def fds (m : ManagementInterface σ) : List ℕ :=
  (m.newContainer.map Prod.fst).toList ++ m.threadManagementContainer.keys

/-- Every connection is still running, and the open sockets are those of the
containers. -/
structure AllRunning (m : ManagementInterface σ) : Prop where
  sockets : m.openFds = m.fds
  distinct : m.openFds.Nodup
  kept : ∀ entry ∈ m.threadManagementContainer.entries, Running entry.2
  new : ∀ fd c, m.newContainer = some (fd, c) → Running c
  destroyList : m.destroyList = []

/-- The new container has a descriptor of its own. -/
theorem AllRunning.lookup_new {m : ManagementInterface σ} (all : AllRunning m) {fd : ℕ}
    {c : ConnectionContainer σ} (new : m.newContainer = some (fd, c)) :
    m.threadManagementContainer.lookup fd = none := by
  have distinct := all.distinct
  rw [all.sockets, fds, new, Option.map_some, Option.toList_some, List.singleton_append,
    List.nodup_cons] at distinct
  exact AList.lookup_eq_none.mpr distinct.1

theorem AllRunning.of_lookup {m : ManagementInterface σ} (all : AllRunning m) {fd : ℕ}
    {c : ConnectionContainer σ} (found : m.threadManagementContainer.lookup fd = some c) :
    Running c :=
  all.kept ⟨fd, c⟩ (AList.mem_lookup_iff.mp found)

/-- **One step.** Where every connection is running, `accept_handler` finds no old
container, a thread stays in its loop, and no open socket is closed. -/
theorem AllRunning.act {m next : ManagementInterface σ} {a : Action} (all : AllRunning m)
    (taken : (system executeCommand session).act m a = some next) :
    AllRunning next ∧ m.openFds <:+ next.openFds := by
  cases a with
  | accept newFd =>
      obtain ⟨⟨idle, fresh⟩, outcome⟩ := Option.ite_none_right_eq_some.mp taken
      obtain rfl := Option.some.inj outcome
      have idle : m.newContainer = none := Option.isNone_iff_eq_none.mp idle
      refine ⟨⟨?_, List.nodup_cons.mpr ⟨fresh, all.distinct⟩, all.kept, ?_, all.destroyList⟩,
        List.suffix_cons _ _⟩
      · have sockets := all.sockets
        rw [fds, idle] at sockets
        exact congrArg (newFd :: ·) sockets
      · rintro fd c new
        cases new
        exact running_start (session _)
  | clearFlag =>
      obtain ⟨⟨fd, c⟩, new, found⟩ := Option.bind_eq_some_iff.mp taken
      rw [all.lookup_new new] at found
      cases found
  | join =>
      obtain ⟨⟨fd, c⟩, new, found⟩ := Option.bind_eq_some_iff.mp taken
      rw [all.lookup_new new] at found
      cases found
  | emplace =>
      obtain ⟨⟨fd, c⟩, new, outcome⟩ := Option.bind_eq_some_iff.mp taken
      have missing := all.lookup_new new
      simp only [missing, Option.some.injEq] at outcome
      subst outcome
      refine ⟨⟨?_, all.distinct, ?_, ?_, all.destroyList⟩, List.suffix_refl _⟩
      · have absent : fd ∉ m.threadManagementContainer.keys := AList.lookup_eq_none.mp missing
        have sockets := all.sockets
        rw [fds, new] at sockets
        rw [sockets, fds, AList.keys_insert, List.erase_of_not_mem absent]
        rfl
      · intro entry member
        rw [AList.entries_insert_of_notMem (AList.lookup_eq_none.mp missing)] at member
        rcases List.mem_cons.mp member with rfl | old
        · exact all.new fd c new
        · exact all.kept entry old
      · rintro _ _ ⟨⟩
  | run fd given =>
      obtain ⟨c, found, outcome⟩ := Option.bind_eq_some_iff.mp taken
      obtain ⟨stepped, ran, rfl⟩ := Option.map_eq_some_iff.mp outcome
      have running := all.of_lookup found
      rw [running.effect_eq]
      refine ⟨⟨?_, all.distinct, ?_, all.new, all.destroyList⟩, List.suffix_refl _⟩
      · have sockets := all.sockets
        rw [fds] at sockets ⊢
        rw [AList.keys_replace]
        exact sockets
      · intro entry member
        rcases mem_entries_replace member with new | old
        · rw [new]
          exact running.step ran
        · exact all.kept entry old
  | runNew given =>
      obtain ⟨⟨fd, c⟩, new, outcome⟩ := Option.bind_eq_some_iff.mp taken
      obtain ⟨stepped, ran, rfl⟩ := Option.map_eq_some_iff.mp outcome
      have running := all.new fd c new
      rw [running.effect_eq]
      refine ⟨⟨?_, all.distinct, all.kept, ?_, all.destroyList⟩, List.suffix_refl _⟩
      · have sockets := all.sockets
        rw [fds, new] at sockets
        exact sockets
      · rintro _ _ ⟨⟩
        exact running.step ran

/-- The thread of a connection makes this many steps, and its reads give the end of
file. -/
def readsEof (fd steps : ℕ) : List Action := List.replicate steps (.run fd ⟨.eof, true⟩)

end ManagementInterface

end P2PFileSync
