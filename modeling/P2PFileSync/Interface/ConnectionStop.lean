import Mathlib.Data.List.Basic
import P2PFileSync.Interface.ConnectionContainer

/-!
# How the thread of a connection stops

The thread has to stop when `read` reports the end of file, and when a `read`
times out after the running flag was cleared. But the inner loop of `run` looks
only at the result of `read` and the outer one only at the flag. A timeout reads
again whatever the flag is; the end of file goes on to the next prompt while the
flag is set; and a line that was not ended is still executed and answered.

The destroy callback is a reference to a function that somebody else has. To call it
once the function is gone is undefined.

A run takes none of these branches when no `read` times out with the flag cleared,
the end of file comes with an empty buffer, the test of the flag after it finds
the flag cleared, and the callback stays until the thread has exited (`Conforms`).
Then the thread does nothing after the end of file but close the socket and call the
destroy callback, once each.

Main result: `stops_of_conforming_run`.
-/

set_option autoImplicit false

namespace P2PFileSync

universe u

namespace ConnectionContainer

variable {σ : Type u} {executeCommand : σ → ParsedCommand → Option (σ × Bytes)}

/-! ## The property -/

/-- With this event the thread has to stop: the end of file, or a timeout after
the flag was cleared. -/
def StopsAt (history : List ConnectionEvent) (i : ℕ) : Prop :=
  history[i]? = some (.read .eof) ∨
    (history[i]? = some (.read .timeout) ∧ .flagCleared ∈ history.take i)

/-- What the thread has done, without the clearing of the flag. -/
def done (events : List ConnectionEvent) : List ConnectionEvent :=
  events.filter fun event => event ≠ .flagCleared

/-- Whatever its calls find, the thread takes this many steps and exits. -/
def ExitsIn (executeCommand : σ → ParsedCommand → Option (σ × Bytes)) :
    ℕ → ConnectionContainer σ → ConnectionContainer σ → Prop
  | 0, c, last => c = last ∧ c.place = .exited
  | n + 1, c, last => ∃ next, (∀ given, c.runStep executeCommand given = some next) ∧
      ExitsIn executeCommand n next last

/-- After it has to stop, the thread has done nothing but close the socket and
call the callback; and once the flag is cleared, it exits after it has done both
once. -/
structure Stops (executeCommand : σ → ParsedCommand → Option (σ × Bytes))
    (c : ConnectionContainer σ) : Prop where
  quiet : ∀ i, StopsAt c.history i → done (c.history.drop (i + 1)) <+: [.close, .callback]
  exits : ∀ i, StopsAt c.history i → c.runningFlag = false →
    ∃ n ≤ 4, ∃ last, ExitsIn executeCommand n c last ∧
      done (last.history.drop (i + 1)) = [.close, .callback]

/-- The branches that go wrong are not taken: a timeout finds the flag set, the
end of file an empty buffer, and the test of the flag after it the flag cleared; and
the callback is not destroyed before the thread has exited. -/
def Conforms (c : ConnectionContainer σ) : Action → Prop
  | .clearFlag => True
  | .releaseCallback => c.place = .exited
  | .run given =>
      (c.place = .read → given.read = .timeout → c.runningFlag = true) ∧
        (c.place = .read → given.read = .eof → c.commandBuf = []) ∧
        (c.place = .testFlag → .read .eof ∈ c.history → c.runningFlag = false)

/-! ## Where the thread has to stop -/

section History

variable {history before after : List ConnectionEvent} {event : ConnectionEvent}

/-- An event that does not stop the thread. -/
theorem not_stopsAt_concat (never : ∀ i, ¬ StopsAt history i) (going : event ≠ .read .eof)
    (inTime : event = .read .timeout → .flagCleared ∉ history) (i : ℕ) :
    ¬ StopsAt (history ++ [event]) i := by
  rcases Nat.lt_trichotomy i history.length with earlier | rfl | later
  · rw [StopsAt, List.getElem?_append_left earlier, List.take_append_of_le_length earlier.le]
    exact never i
  · rw [StopsAt, List.getElem?_concat_length, List.take_left]
    rintro (stop | ⟨stop, cleared⟩)
    · exact going (Option.some.inj stop)
    · exact inTime (Option.some.inj stop) cleared
  · have outside : (history ++ [event])[i]? = none := by
      rw [List.getElem?_eq_none_iff, List.length_append, List.length_singleton]
      exact later
    rw [StopsAt, outside]
    rintro (stop | ⟨stop, -⟩) <;> cases stop

/-- The end of file stops the thread, and nothing else does when no `read`
follows. -/
theorem stopsAt_iff (never : ∀ i, ¬ StopsAt before i)
    (noRead : ∀ event ∈ after, ∀ result, event ≠ .read result) {i : ℕ} :
    StopsAt (before ++ .read .eof :: after) i ↔ i = before.length := by
  constructor
  · intro stops
    rcases Nat.lt_trichotomy i before.length with earlier | same | later
    · rw [StopsAt, List.getElem?_append_left earlier,
        List.take_append_of_le_length earlier.le] at stops
      exact absurd stops (never i)
    · exact same
    · obtain ⟨k, rfl⟩ : ∃ k, i = before.length + (k + 1) := ⟨i - before.length - 1, by omega⟩
      have here : (before ++ .read .eof :: after)[before.length + (k + 1)]? = after[k]? := by
        rw [List.getElem?_append_right (Nat.le_add_right _ _), Nat.add_sub_cancel_left,
          List.getElem?_cons_succ]
      rw [StopsAt, here] at stops
      rcases stops with stop | ⟨stop, -⟩
      · exact absurd rfl (noRead _ (List.mem_of_getElem? stop) _)
      · exact absurd rfl (noRead _ (List.mem_of_getElem? stop) _)
  · rintro rfl
    refine .inl ?_
    rw [List.getElem?_append_right (Nat.le_refl _), Nat.sub_self, List.getElem?_cons_zero]

theorem done_concat (event : ConnectionEvent) (acts : event ≠ .flagCleared)
    (events : List ConnectionEvent) : done (events ++ [event]) = done events ++ [event] := by
  rw [done, List.filter_append, List.filter_singleton, decide_eq_true acts, done]
  rfl

theorem done_concat_flagCleared (events : List ConnectionEvent) :
    done (events ++ [.flagCleared]) = done events := by
  rw [done, List.filter_append, done]
  exact List.append_nil _

end History

/-! ## After the end of file -/

/-- What the thread has done since the end of file, at each place it comes to
then. -/
def doneAt : ConnectionPlace → Option (List ConnectionEvent)
  | .testBuffer => some []
  | .testFlag => some []
  | .close => some []
  | .callback => some [.close]
  | .exited => some [.close, .callback]
  | _ => none

/-- The steps left after the end of file, with the flag cleared. -/
def stepsLeft : ConnectionPlace → ℕ
  | .testBuffer => 4
  | .testFlag => 3
  | .close => 2
  | .callback => 1
  | _ => 0

/-- The thread goes on to exit, and has done these events since the end of
file. -/
structure Draining (c : ConnectionContainer σ) (events : List ConnectionEvent) : Prop where
  reached : doneAt c.place = some (done events)
  emptied : c.place = .testBuffer → c.commandBuf = []

variable (executeCommand) in
/-- A step after the end of file: whatever a call would find, it is the next one on
the way to the exit. -/
theorem Draining.runStep {c : ConnectionContainer σ} {events : List ConnectionEvent}
    (draining : c.Draining events) (cleared : c.place = .testFlag → c.runningFlag = false)
    (running : c.place ≠ .exited) (alive : c.callbackAlive = true) :
    ∃ next new, (∀ given, c.runStep executeCommand given = some next) ∧
      next.history = c.history ++ new ∧ next.Draining (events ++ new) ∧
      stepsLeft next.place + 1 = stepsLeft c.place := by
  obtain ⟨place, runningFlag, commandBuf, session, callbackAlive, history⟩ := c
  obtain ⟨reached, emptied⟩ := draining
  have unchanged : doneAt place = some [] → done (events ++ []) = [] := by
    intro here
    rw [List.append_nil]
    exact Option.some.inj (reached.symm.trans here)
  cases place with
  | testFlag =>
      obtain rfl : runningFlag = false := cleared rfl
      refine ⟨⟨.close, false, commandBuf, session, callbackAlive, history⟩, [], fun _ => rfl,
        (List.append_nil _).symm, ⟨?_, fun impossible => nomatch impossible⟩, rfl⟩
      rw [unchanged rfl]
      rfl
  | testBuffer =>
      obtain rfl : commandBuf = [] := emptied rfl
      refine ⟨⟨.testFlag, runningFlag, [], session, callbackAlive, history⟩, [], fun _ => rfl,
        (List.append_nil _).symm, ⟨?_, fun impossible => nomatch impossible⟩, rfl⟩
      rw [unchanged rfl]
      rfl
  | close =>
      refine ⟨_, [.close], fun _ => rfl, rfl, ⟨?_, fun impossible => nomatch impossible⟩, rfl⟩
      rw [done_concat _ (by rintro ⟨⟩), ← Option.some.inj reached]
      rfl
  | callback =>
      refine ⟨_, [.callback], fun _ => if_pos alive, rfl,
        ⟨?_, fun impossible => nomatch impossible⟩, rfl⟩
      rw [done_concat _ (by rintro ⟨⟩), ← Option.some.inj reached]
      rfl
  | exited => exact absurd rfl running
  | prompt => cases reached
  | read => cases reached
  | execute => cases reached

/-- With the flag cleared and the callback there, the thread exits, after it has
closed the socket and called the callback once. -/
theorem Draining.exits {c : ConnectionContainer σ} {events : List ConnectionEvent}
    (draining : c.Draining events) (cleared : c.runningFlag = false)
    (alive : c.place ≠ .exited → c.callbackAlive = true) :
    ∃ last new, ExitsIn executeCommand (stepsLeft c.place) c last ∧
      last.history = c.history ++ new ∧ done (events ++ new) = [.close, .callback] := by
  generalize left : stepsLeft c.place = n
  induction n generalizing c events with
  | zero =>
      have exited : c.place = .exited := by
        by_contra running
        obtain ⟨next, -, -, -, -, fewer⟩ :=
          draining.runStep executeCommand (fun _ => cleared) running (alive running)
        omega
      have all := draining.reached
      rw [exited] at all
      refine ⟨c, [], ⟨rfl, exited⟩, (List.append_nil _).symm, ?_⟩
      rw [List.append_nil]
      exact (Option.some.inj all).symm
  | succ n ih =>
      have running : c.place ≠ .exited := by
        intro exited
        rw [exited] at left
        cases left
      obtain ⟨next, new, steps, history, onward, fewer⟩ :=
        draining.runStep executeCommand (fun _ => cleared) running (alive running)
      obtain ⟨⟨flag, callback⟩, -⟩ := history_of_runStep (steps ⟨.eof, true⟩)
      obtain ⟨last, more, exits, grown, all⟩ := ih onward (flag.trans cleared)
        (fun _ => callback.trans (alive running)) (by omega)
      refine ⟨last, new ++ more, ⟨next, steps, exits⟩, ?_, ?_⟩
      · rw [grown, history, List.append_assoc]
      · rwa [← List.append_assoc]

/-! ## Conforming runs -/

/-- The state of a conforming run: the thread need not stop, or it has read the end
of file and goes on to exit. -/
structure Orderly (c : ConnectionContainer σ) : Prop where
  cleared : .flagCleared ∈ c.history → c.runningFlag = false
  alive : c.place ≠ .exited → c.callbackAlive = true
  phase : (∀ i, ¬ StopsAt c.history i) ∨ ∃ before after, c.history = before ++ .read .eof :: after ∧
    (∀ i, ¬ StopsAt before i) ∧ c.Draining after

theorem orderly_start (session : σ) : (start session).Orderly where
  cleared := fun member => absurd member List.not_mem_nil
  alive := fun _ => rfl
  phase := by
    refine .inl ?_
    rintro i (stop | ⟨stop, -⟩) <;> cases stop

/-- The flag is cleared. -/
theorem Orderly.clearFlag {c : ConnectionContainer σ} (orderly : c.Orderly) :
    c.clearFlag.Orderly where
  cleared := fun _ => rfl
  alive := orderly.alive
  phase := by
    rcases orderly.phase with never | ⟨before, after, split, never, draining⟩
    · exact .inl (not_stopsAt_concat never (by rintro ⟨⟩) (by rintro ⟨⟩))
    · refine .inr ⟨before, after ++ [.flagCleared], ?_, never, ?_, draining.emptied⟩
      · rw [ConnectionContainer.clearFlag, split, List.append_assoc, List.cons_append]
      · rw [done_concat_flagCleared]
        exact draining.reached

/-- The callback is destroyed after the thread has exited. -/
theorem Orderly.releaseCallback {c : ConnectionContainer σ} (orderly : c.Orderly)
    (exited : c.place = .exited) : c.releaseCallback.Orderly where
  cleared := orderly.cleared
  alive := fun running => absurd exited running
  phase := by
    refine orderly.phase.imp_right ?_
    rintro ⟨before, after, split, never, reached, emptied⟩
    exact ⟨before, after, split, never, reached, emptied⟩

/-- The end of file with an empty buffer. -/
theorem draining_of_eof {c next : ConnectionContainer σ} {peerOpen : Bool}
    (place : c.place = .read) (emptied : c.commandBuf = [])
    (outcome : c.runStep executeCommand ⟨.eof, peerOpen⟩ = some next) :
    next.history = c.history ++ [.read .eof] ∧ next.Draining [] := by
  simp only [ConnectionContainer.runStep, place, Option.some.injEq] at outcome
  subst outcome
  exact ⟨rfl, rfl, fun _ => emptied⟩

/-- A step of the thread that conforms. -/
theorem Orderly.runStep {c next : ConnectionContainer σ} {given : CallResults}
    (orderly : c.Orderly) (conforms : c.Conforms (.run given))
    (outcome : c.runStep executeCommand given = some next) : next.Orderly := by
  obtain ⟨inTime, emptied, stopping⟩ := conforms
  obtain ⟨⟨flag, callback⟩, grown⟩ := history_of_runStep outcome
  have running : c.place ≠ .exited := by
    intro exited
    simp only [ConnectionContainer.runStep, exited] at outcome
    cases outcome
  have cleared : .flagCleared ∈ next.history → next.runningFlag = false := by
    intro member
    rw [flag]
    apply orderly.cleared
    rcases grown with same | ⟨event, grown, acts, -⟩
    · rwa [same] at member
    · rw [grown] at member
      exact (List.mem_append.mp member).resolve_right fun last =>
        acts (List.mem_singleton.mp last).symm
  refine ⟨cleared, fun _ => callback.trans (orderly.alive running), ?_⟩
  rcases orderly.phase with never | ⟨before, after, split, stopless, draining⟩
  · rcases grown with same | ⟨event, grown, -, ⟨place, rfl⟩ | plain⟩
    · exact .inl (same ▸ never)
    · obtain ⟨result, peerOpen⟩ := given
      cases result with
      | byte b => exact .inl (grown ▸ not_stopsAt_concat never (by rintro ⟨⟩) (by rintro ⟨⟩))
      | timeout =>
          refine .inl (grown ▸ not_stopsAt_concat never (by rintro ⟨⟩) fun _ member => ?_)
          have set := inTime place rfl
          rw [orderly.cleared member] at set
          cases set
      | eof =>
          obtain ⟨history, draining⟩ := draining_of_eof place (emptied place rfl) outcome
          exact .inr ⟨c.history, [], history, never, draining⟩
    · exact .inl (grown ▸ not_stopsAt_concat never (plain _) fun same => absurd same (plain _))
  · have member : .read .eof ∈ c.history := by
      rw [split]
      exact List.mem_append_right _ List.mem_cons_self
    obtain ⟨onward, new, steps, history, draining, -⟩ := draining.runStep executeCommand
      (fun place => stopping place member) running (orderly.alive running)
    obtain rfl := Option.some.inj ((steps given).symm.trans outcome)
    refine .inr ⟨before, after ++ new, ?_, stopless, draining⟩
    rw [history, split, List.append_assoc, List.cons_append]

theorem Orderly.act {c next : ConnectionContainer σ} {action : Action} (orderly : c.Orderly)
    (conforms : c.Conforms action) (outcome : (system executeCommand).act c action = some next) :
    next.Orderly := by
  cases action with
  | run given => exact orderly.runStep conforms outcome
  | clearFlag =>
      obtain rfl := Option.some.inj outcome
      exact orderly.clearFlag
  | releaseCallback =>
      obtain rfl := Option.some.inj outcome
      exact orderly.releaseCallback conforms

/-! ## The whole run -/

theorem prefix_of_doneAt {place : ConnectionPlace} {events : List ConnectionEvent}
    (reached : doneAt place = some events) : events <+: [.close, .callback] := by
  cases place with
  | testBuffer | testFlag | close =>
      obtain rfl := Option.some.inj reached
      exact List.nil_prefix
  | callback =>
      obtain rfl := Option.some.inj reached
      exact ⟨[.callback], rfl⟩
  | exited =>
      obtain rfl := Option.some.inj reached
      exact List.prefix_rfl
  | prompt | read | execute => cases reached

/-- No `read` follows the end of file. -/
theorem Draining.ne_read {c : ConnectionContainer σ} {events : List ConnectionEvent}
    (draining : c.Draining events) : ∀ event ∈ events, ∀ result, event ≠ .read result := by
  rintro event member result rfl
  have kept : .read result ∈ done events := List.mem_filter.mpr ⟨member, rfl⟩
  have listed := (prefix_of_doneAt draining.reached).subset kept
  simp only [List.mem_cons, reduceCtorEq, List.not_mem_nil, or_self] at listed

theorem stepsLeft_le (place : ConnectionPlace) : stepsLeft place ≤ 4 := by
  cases place <;> decide

/-- An orderly state is one in which the thread stops. -/
theorem Orderly.stops {c : ConnectionContainer σ} (orderly : c.Orderly) :
    c.Stops executeCommand := by
  rcases orderly.phase with never | ⟨before, after, split, stopless, draining⟩
  · exact ⟨fun i stops => absurd stops (never i), fun i stops => absurd stops (never i)⟩
  · have at_eof {i : ℕ} (stops : StopsAt c.history i) : i = before.length := by
      rw [split] at stops
      exact (stopsAt_iff stopless draining.ne_read).mp stops
    have rest (more : List ConnectionEvent) :
        (before ++ .read .eof :: more).drop (before.length + 1) = more :=
      StdString.drop_append_cons before more _
    constructor
    · intro i stops
      rw [at_eof stops, split, rest]
      exact prefix_of_doneAt draining.reached
    · intro i stops cleared
      obtain ⟨last, new, exits, history, all⟩ := draining.exits cleared orderly.alive
      refine ⟨stepsLeft c.place, stepsLeft_le c.place, last, exits, ?_⟩
      rw [at_eof stops, history, split, List.append_assoc, List.cons_append, rest]
      exact all

/-- **In every run that conforms**, after the end of file the thread does nothing
but close the socket and call the destroy callback; and once the flag is cleared it
exits after at most four steps and has done both once. The steps in which a write
finds the connection closed are never completed, in these runs as in others. -/
theorem stops_of_conforming_run {session : σ} {c : ConnectionContainer σ}
    (run : (system executeCommand).Run Conforms (start session) c) :
    c.Stops executeCommand := by
  have orderly : c.Orderly :=
    run.preserves (fun orderly conforms outcome => orderly.act conforms outcome)
      (orderly_start session)
  exact orderly.stops

instance (c : ConnectionContainer σ) (action : Action) : Decidable (c.Conforms action) :=
  match action with
  | .clearFlag => inferInstanceAs (Decidable True)
  | .releaseCallback => inferInstanceAs (Decidable (_ = _))
  | .run _ => inferInstanceAs (Decidable (_ ∧ _ ∧ _))

/-- The thread makes this many steps, and its reads give the end of file. -/
def readsEof (steps : ℕ) : List Action := List.replicate steps (.run ⟨.eof, true⟩)

/-- An empty line is answered, the flag is cleared, and the end of file comes. -/
theorem stops_after_empty_line :
    ∃ c, (system returning).Run Conforms (start ()) c ∧
      (c.place = .exited ∧ .read .eof ∈ c.history) ∧ c.Stops returning := by
  obtain ⟨c, run, found⟩ := ActionSystem.exists_run_of_exec (system returning) Conforms (start ())
    (readsEof 2 ++ [.run ⟨.byte newline, true⟩] ++ readsEof 4 ++ [.clearFlag] ++ readsEof 5 ++
      [.releaseCallback])
    (fun c => c.place = .exited ∧ .read .eof ∈ c.history) (by decide)
  exact ⟨c, run, found, stops_of_conforming_run run⟩

/-- The thread writes another prompt after the end of file to a peer that still reads,
it reads again after a timeout with the flag cleared, and it closes the socket and
cannot call a callback that is gone. -/
theorem prompt_after_eof_read_after_timeout :
    (∃ c, (system returning).Run (fun _ _ => True) (start ()) c ∧ ¬ c.Stops returning ∧
        c.history = [.write kTerminalMessage, .read .eof, .write kTerminalMessage]) ∧
      (∃ c, (system returning).Run (fun _ _ => True) (start ()) c ∧ ¬ c.Stops returning ∧
        c.history = [.write kTerminalMessage, .flagCleared, .read .timeout, .read .timeout]) ∧
      ∃ c, (system returning).Run (fun _ _ => True) (start ()) c ∧ ¬ c.Stops returning ∧
        c.history = [.write kTerminalMessage, .flagCleared, .read .eof, .close] := by
  refine ⟨?_, ?_, ?_⟩
  · obtain ⟨c, run, history⟩ := ActionSystem.exists_run_of_exec (system returning)
      (fun _ _ => True) (start ()) (readsEof 6)
      (fun c => c.history = [.write kTerminalMessage, .read .eof, .write kTerminalMessage])
      (by decide)
    refine ⟨c, run, fun stops => ?_, history⟩
    have quiet := stops.quiet 1 (.inl (by rw [history]; rfl))
    rw [history] at quiet
    exact absurd quiet (by decide)
  · obtain ⟨c, run, history⟩ := ActionSystem.exists_run_of_exec (system returning)
      (fun _ _ => True) (start ())
      (readsEof 2 ++ [.clearFlag, .run ⟨.timeout, true⟩, .run ⟨.timeout, true⟩])
      (fun c => c.history =
        [.write kTerminalMessage, .flagCleared, .read .timeout, .read .timeout]) (by decide)
    refine ⟨c, run, fun stops => ?_, history⟩
    have quiet := stops.quiet 2 (.inr (by rw [history]; exact ⟨rfl, by decide⟩))
    rw [history] at quiet
    exact absurd quiet (by decide)
  · obtain ⟨c, run, history, place, cleared, gone⟩ := ActionSystem.exists_run_of_exec
      (system returning) (fun _ _ => True) (start ())
      ([.releaseCallback] ++ readsEof 2 ++ [.clearFlag] ++ readsEof 4)
      (fun c => c.history = [.write kTerminalMessage, .flagCleared, .read .eof, .close] ∧
        c.place = .callback ∧ c.runningFlag = false ∧ c.callbackAlive = false) (by decide)
    refine ⟨c, run, fun stops => ?_, history⟩
    obtain ⟨n, -, last, exits, -⟩ := stops.exits 2 (.inl (by rw [history]; rfl)) cleared
    cases n with
    | zero => cases place.symm.trans exits.2
    | succ n =>
        obtain ⟨next, steps, -⟩ := exits
        have called := steps ⟨.eof, true⟩
        simp only [runStep, place, gone, Bool.false_eq_true, if_false] at called
        cases called

end ConnectionContainer

end P2PFileSync
