import P2PFileSync.DataStruct.ThreadPool

/-!
# Waking the workers

A worker looks at the queue under `_mutex` and then waits, but neither `submit` nor
the destructor takes `_mutex`: a notification that is sent between the two wakes
nobody. `notifications_lost` has such runs of one worker.

In a run in which no notification that somebody needs falls between the two, no
task waits for workers that all sleep and no worker sleeps through the shutdown
(`wakes`); wherever one does, a run goes on to a state in which somebody sleeps
through it (`Exclusive.unnoticed_of_not_reaches`). A task is missed by a lone worker
only: with two workers it never is (`tasks_noticed`).
-/

set_option autoImplicit false

namespace P2PFileSync
namespace ThreadPool

variable {n m : ℕ}

/-! ## The statement -/

/-- The call has pushed its task and has not notified a worker yet. -/
def SubmitAt.notifying : SubmitAt → Bool
  | unlock | notify => true
  | _ => false

/-- No task waits while all workers sleep and no call is about to notify one. -/
def TasksNoticed (s : State n m) : Prop :=
  ¬ (s.taskQueue ≠ [] ∧ (∀ w, s.worker w = .blocked) ∧ ∀ i, (s.submit i).notifying = false)

/-- No worker sleeps once the destructor has notified all of them. -/
def ShutdownNoticed (s : State n m) : Prop :=
  ¬ (s.destructor = .joining ∧ ∃ w, s.worker w = .blocked)

/-- Every action but a wake-up without a notification. -/
def NotSpurious : State n m → Action n m → Prop
  | _, .wakeSpuriously _ => False
  | _, _ => True

/-- A notification of `submit` is not sent while every worker is about to wait,
unless there is no task or another call has still to notify a worker. The
destructor's is not sent while some worker is about to wait, and after it no worker
finds the queue empty. -/
def Reaches (s : State n m) : Action n m → Prop
  | .work w => s.destructor = .joining → s.worker w = .testEmpty → s.taskQueue ≠ []
  | .wakeSpuriously _ => True
  | .submit _ => True
  | .notifyOne i _ =>
      s.taskQueue = [] ∨ (∃ w, s.worker w ≠ .wait) ∨ ∃ j, j ≠ i ∧ (s.submit j).notifying = true
  | .destroy => s.destructor = .notifyAll → ∀ w, s.worker w ≠ .wait

instance (s : State n m) : Decidable (TasksNoticed s) := inferInstanceAs (Decidable (¬ _))

instance (s : State n m) : Decidable (ShutdownNoticed s) := inferInstanceAs (Decidable (¬ _))

instance (s : State n m) (a : Action n m) : Decidable (NotSpurious s a) :=
  match a with
  | .wakeSpuriously _ => .isFalse id
  | .work _ | .submit _ | .notifyOne _ _ | .destroy => .isTrue trivial

instance (s : State n m) (a : Action n m) : Decidable (Reaches s a) :=
  match a with
  | .work w =>
      inferInstanceAs
        (Decidable (s.destructor = .joining → s.worker w = .testEmpty → s.taskQueue ≠ []))
  | .wakeSpuriously _ => .isTrue trivial
  | .submit _ => .isTrue trivial
  | .notifyOne i _ =>
      inferInstanceAs
        (Decidable (s.taskQueue = [] ∨ (∃ w, s.worker w ≠ .wait) ∨
          ∃ j, j ≠ i ∧ (s.submit j).notifying = true))
  | .destroy => inferInstanceAs (Decidable (s.destructor = .notifyAll → ∀ w, s.worker w ≠ .wait))

/-! ## Workers that will look at the queue -/

/-- The worker neither sleeps nor is about to. -/
def WorkerAt.awake : WorkerAt m → Bool
  | wait | blocked => false
  | _ => true

theorem WorkerAt.wait_or_blocked {place : WorkerAt m} (asleep : place.awake = false) :
    place = .wait ∨ place = .blocked := by
  cases place with
  | wait => exact .inl rfl
  | blocked => exact .inr rfl
  | _ => cases asleep

/-- A worker that is awake falls asleep by finding the queue empty only. -/
theorem Moves.awake {s : State n m} {place next : WorkerAt m} (moves : Moves s place next)
    (content : place = .testEmpty → s.taskQueue ≠ []) (awake : place.awake = true) :
    next.awake = true := by
  cases moves with
  | foundEmpty empty => exact absurd empty (content rfl)
  | wait => cases awake
  | _ => rfl

theorem awake_moveWorker {s : State n m} {w : Fin n} {next : WorkerAt m}
    (awake : (s.worker w).awake = true → next.awake = true) (x : Fin n)
    (before : (s.worker x).awake = true) : ((s.moveWorker w next).worker x).awake = true := by
  by_cases same : x = w
  · subst same
    rw [State.moveWorker_worker_self]
    exact awake before
  · rw [State.moveWorker_worker_ne s same]
    exact before

/-- What an action of a worker leaves as it is. -/
structure WorkerFrame (s : State n m) (w : Fin n) (t : State n m) : Prop where
  submit : t.submit = s.submit
  destructor : t.destructor = s.destructor
  taskQueue : t.taskQueue ≠ [] → s.taskQueue ≠ []
  awake : (s.worker w = .testEmpty → s.taskQueue ≠ []) →
    ∀ x, (s.worker x).awake = true → (t.worker x).awake = true

theorem WorkerStep.frame {s t : State n m} {w : Fin n} (step : WorkerStep s w t) :
    WorkerFrame s w t := by
  cases step with
  | moves here moves =>
      refine ⟨rfl, rfl, id, fun content => awake_moveWorker ?_⟩
      subst here
      exact moves.awake content
  | moveFront here queue =>
      refine ⟨rfl, rfl, ?_, fun _ => awake_moveWorker fun _ => rfl⟩
      intro _ empty
      rw [queue] at empty
      cases empty
  | popFront here queue =>
      refine ⟨rfl, rfl, ?_, fun _ => awake_moveWorker fun _ => rfl⟩
      intro _ empty
      rw [queue] at empty
      cases empty
  | runTask | fault => exact ⟨rfl, rfl, id, fun _ => awake_moveWorker fun _ => rfl⟩

/-! ## Tasks are attended to -/

/-- While there is a task, a call is about to notify a worker, or a worker is
awake. -/
def Attended (s : State n m) : Prop :=
  s.taskQueue ≠ [] →
    (∃ i, (s.submit i).notifying = true) ∨ ∃ w, (s.worker w).awake = true

theorem Attended.tasksNoticed {s : State n m} (attended : Attended s) : TasksNoticed s := by
  rintro ⟨content, blocked, silent⟩
  rcases attended content with ⟨i, notifying⟩ | ⟨w, awake⟩
  · rw [silent i] at notifying
    cases notifying
  · rw [blocked w] at awake
    cases awake

theorem attended_initial : Attended (initial n m) := fun content => absurd rfl content

theorem Attended.workerStep {s t : State n m} (attended : Attended s) {w : Fin n}
    (taken : ThreadPool.workerStep s w = some t) : Attended t := by
  have frame := (workerStep_cases taken).frame
  intro content
  have before := frame.taskQueue content
  rcases attended before with ⟨i, notifying⟩ | ⟨x, awake⟩
  · exact .inl ⟨i, frame.submit ▸ notifying⟩
  · exact .inr ⟨x, frame.awake (fun _ => before) x awake⟩

theorem Attended.submitStep {s t : State n m} (attended : Attended s) {i : Fin m}
    (taken : ThreadPool.submitStep s i = some t) : Attended t := by
  rcases submitStep_cases taken with ⟨here, rfl⟩ | ⟨here, rfl⟩ | ⟨here, rfl⟩
  · intro content
    rcases attended content with ⟨j, notifying⟩ | awake
    · have other : j ≠ i := by
        rintro rfl
        rw [here] at notifying
        cases notifying
      refine .inl ⟨j, ?_⟩
      rw [State.moveSubmit_submit_ne s other]
      exact notifying
    · exact .inr awake
  · refine fun _ => .inl ⟨i, ?_⟩
    change ((s.moveSubmit i .unlock).submit i).notifying = true
    rw [State.moveSubmit_submit_self]
    rfl
  · refine fun _ => .inl ⟨i, ?_⟩
    rw [State.moveSubmit_submit_self]
    rfl

/-- A notification keeps a task attended to unless all workers are about to wait: a
worker that sleeps is woken. -/
theorem attended_of_notifyStep {s t : State n m} {i : Fin m} {woken : Option (Fin n)}
    (reaches : Reaches s (.notifyOne i woken))
    (taken : ThreadPool.notifyStep s i woken = some t) : Attended t := by
  obtain ⟨_, effect⟩ := notifyStep_cases taken
  rcases effect with ⟨w, _, _, rfl⟩ | ⟨nobody, rfl⟩
  · refine fun _ => .inr ⟨w, ?_⟩
    rw [State.moveWorker_worker_self]
    rfl
  · intro content
    rcases reaches with empty | ⟨w, notWaiting⟩ | ⟨j, other, notifying⟩
    · exact absurd empty content
    · refine .inr ⟨w, ?_⟩
      by_contra asleep
      rcases WorkerAt.wait_or_blocked (Bool.eq_false_iff.mpr asleep) with waiting | blocked
      · exact notWaiting waiting
      · exact nobody w blocked
    · refine .inl ⟨j, ?_⟩
      rw [State.moveSubmit_submit_ne s other]
      exact notifying

theorem awake_wakeAll {s : State n m} {w : Fin n} (awake : (s.worker w).awake = true) :
    (s.wakeAll.worker w).awake = true := by
  rcases s.wakeAll_worker w with ⟨_, woken⟩ | ⟨_, same⟩
  · rw [woken]
    rfl
  · rw [same]
    exact awake

theorem Attended.destroyStep {s t : State n m} (attended : Attended s)
    (taken : ThreadPool.destroyStep s = some t) : Attended t := by
  rcases destroyStep_cases taken with ⟨_, rfl⟩ | ⟨_, rfl⟩
  · exact attended
  · exact fun content => (attended content).imp_right fun ⟨w, awake⟩ => ⟨w, awake_wakeAll awake⟩

/-! ## The shutdown -/

/-- Once the destructor has notified all workers, they are awake. -/
def Dismissed (s : State n m) : Prop :=
  s.destructor = .joining → ∀ w, (s.worker w).awake = true

theorem Dismissed.shutdownNoticed {s : State n m} (dismissed : Dismissed s) :
    ShutdownNoticed s := by
  rintro ⟨joining, w, blocked⟩
  have awake := dismissed joining w
  rw [blocked] at awake
  cases awake

theorem dismissed_initial : Dismissed (initial n m) := fun joining => by cases joining

theorem Dismissed.workerStep {s t : State n m} (dismissed : Dismissed s) {w : Fin n}
    (reaches : Reaches s (.work w)) (taken : ThreadPool.workerStep s w = some t) :
    Dismissed t := by
  have frame := (workerStep_cases taken).frame
  intro joining x
  rw [frame.destructor] at joining
  exact frame.awake (reaches joining) x (dismissed joining x)

theorem Dismissed.notifyStep {s t : State n m} (dismissed : Dismissed s) {i : Fin m}
    {woken : Option (Fin n)} (taken : ThreadPool.notifyStep s i woken = some t) :
    Dismissed t := by
  obtain ⟨_, effect⟩ := notifyStep_cases taken
  rcases effect with ⟨w, _, _, rfl⟩ | ⟨_, rfl⟩
  · exact fun joining x => awake_moveWorker (fun _ => rfl) x (dismissed joining x)
  · exact dismissed

theorem Dismissed.destroyStep {s t : State n m} (reaches : Reaches s .destroy)
    (taken : ThreadPool.destroyStep s = some t) : Dismissed t := by
  rcases destroyStep_cases taken with ⟨_, rfl⟩ | ⟨notifyAll, rfl⟩
  · exact fun joining => by cases joining
  · intro _ w
    change (s.wakeAll.worker w).awake = true
    rcases s.wakeAll_worker w with ⟨_, woken⟩ | ⟨notBlocked, same⟩
    · rw [woken]
      rfl
    · rw [same]
      by_contra asleep
      rcases WorkerAt.wait_or_blocked (Bool.eq_false_iff.mpr asleep) with waiting | blocked
      · exact reaches notifyAll w waiting
      · exact notBlocked blocked

/-! ## One worker at a time looks at the queue -/

/-- At most one worker holds `_mutex`. -/
def Exclusive (s : State n m) : Prop :=
  ∀ w x, (s.worker w).holdsMutex = true → (s.worker x).holdsMutex = true → w = x

theorem exclusive_initial : Exclusive (initial n m) := fun _ _ holds => by cases holds

/-- A worker comes to hold `_mutex` only when nobody does. -/
theorem Moves.holdsMutex {s : State n m} {place next : WorkerAt m} (moves : Moves s place next)
    (holds : next.holdsMutex = true) : place.holdsMutex = true ∨ s.MutexFree := by
  cases moves with
  | lockMutex free | relock free => exact .inr free
  | foundEmpty | foundTask => exact .inl rfl
  | _ => cases holds

theorem Exclusive.moveWorker {s : State n m} (exclusive : Exclusive s) {w : Fin n}
    {next : WorkerAt m}
    (taken : next.holdsMutex = true → (s.worker w).holdsMutex = true ∨ s.MutexFree) :
    Exclusive (s.moveWorker w next) := by
  have alone : ∀ y, y ≠ w → next.holdsMutex = true → (s.worker y).holdsMutex ≠ true := by
    intro y other nextHolds holds
    rcases taken nextHolds with before | free
    · exact other (exclusive y w holds before)
    · rw [free y] at holds
      cases holds
  intro x y xHolds yHolds
  by_cases isX : x = w
  · by_cases isY : y = w
    · rw [isX, isY]
    · rw [isX, State.moveWorker_worker_self] at xHolds
      rw [State.moveWorker_worker_ne s isY] at yHolds
      exact absurd yHolds (alone y isY xHolds)
  · rw [State.moveWorker_worker_ne s isX] at xHolds
    by_cases isY : y = w
    · rw [isY, State.moveWorker_worker_self] at yHolds
      exact absurd xHolds (alone x isX yHolds)
    · rw [State.moveWorker_worker_ne s isY] at yHolds
      exact exclusive x y xHolds yHolds

theorem Exclusive.workerStep {s t : State n m} (exclusive : Exclusive s) {w : Fin n}
    (taken : ThreadPool.workerStep s w = some t) : Exclusive t := by
  cases workerStep_cases taken with
  | moves here moves =>
      subst here
      exact exclusive.moveWorker moves.holdsMutex
  | moveFront | popFront | runTask | fault =>
      exact exclusive.moveWorker fun holds => by cases holds

theorem Exclusive.wakeAll {s : State n m} (exclusive : Exclusive s) : Exclusive s.wakeAll := by
  have before : ∀ w, (s.wakeAll.worker w).holdsMutex = true → (s.worker w).holdsMutex = true := by
    intro w holds
    rcases s.wakeAll_worker w with ⟨_, woken⟩ | ⟨_, same⟩
    · rw [woken] at holds
      cases holds
    · rw [same] at holds
      exact holds
  exact fun w x wHolds xHolds => exclusive w x (before w wHolds) (before x xHolds)

/-- With two workers, one of them is not about to wait. -/
theorem Exclusive.exists_ne_wait {s : State n m} (exclusive : Exclusive s) (two : 2 ≤ n) :
    ∃ w, s.worker w ≠ .wait := by
  by_contra none
  push Not at none
  have same := exclusive ⟨0, by omega⟩ ⟨1, by omega⟩ (by rw [none]; rfl) (by rw [none]; rfl)
  cases same

/-! ## Runs -/

theorem Attended.step {s t : State n m} {a : Action n m} (attended : Attended s)
    (reaches : ∀ i woken, a = .notifyOne i woken → Reaches s a)
    (taken : (system n m).act s a = some t) : Attended t := by
  cases a with
  | work w => exact attended.workerStep taken
  | wakeSpuriously w =>
      obtain ⟨_, rfl⟩ := wakeSpuriously_cases taken
      exact fun content => (attended content).imp_right
        fun ⟨x, awake⟩ => ⟨x, awake_moveWorker (fun _ => rfl) x awake⟩
  | submit i => exact attended.submitStep taken
  | notifyOne i woken => exact attended_of_notifyStep (reaches i woken rfl) taken
  | destroy => exact attended.destroyStep taken

theorem Dismissed.step {s t : State n m} {a : Action n m} (dismissed : Dismissed s)
    (reaches : Reaches s a) (taken : (system n m).act s a = some t) : Dismissed t := by
  cases a with
  | work w => exact dismissed.workerStep reaches taken
  | wakeSpuriously w =>
      obtain ⟨_, rfl⟩ := wakeSpuriously_cases taken
      exact fun joining x => awake_moveWorker (fun _ => rfl) x (dismissed joining x)
  | submit i =>
      rcases submitStep_cases taken with ⟨_, rfl⟩ | ⟨_, rfl⟩ | ⟨_, rfl⟩ <;> exact dismissed
  | notifyOne i woken => exact dismissed.notifyStep taken
  | destroy => exact Dismissed.destroyStep reaches taken

theorem Exclusive.step {s t : State n m} {a : Action n m} (exclusive : Exclusive s)
    (taken : (system n m).act s a = some t) : Exclusive t := by
  cases a with
  | work w => exact exclusive.workerStep taken
  | wakeSpuriously w =>
      obtain ⟨_, rfl⟩ := wakeSpuriously_cases taken
      exact exclusive.moveWorker fun holds => by cases holds
  | submit i =>
      rcases submitStep_cases taken with ⟨_, rfl⟩ | ⟨_, rfl⟩ | ⟨_, rfl⟩ <;> exact exclusive
  | notifyOne i woken =>
      obtain ⟨_, effect⟩ := notifyStep_cases taken
      rcases effect with ⟨w, _, _, rfl⟩ | ⟨_, rfl⟩
      · exact Exclusive.moveWorker (s := s.moveSubmit i .done) exclusive
          fun holds => by cases holds
      · exact exclusive
  | destroy =>
      rcases destroyStep_cases taken with ⟨_, rfl⟩ | ⟨_, rfl⟩
      · exact exclusive
      · exact exclusive.wakeAll

/-- What every run of a pool keeps that has two workers. -/
structure Served (s : State n m) : Prop where
  exclusive : Exclusive s
  attended : Attended s

theorem Served.step (two : 2 ≤ n) {s t : State n m} {a : Action n m} (served : Served s)
    (taken : (system n m).act s a = some t) : Served t where
  exclusive := served.exclusive.step taken
  attended := by
    refine served.attended.step ?_ taken
    rintro i woken rfl
    exact .inr (.inl (served.exclusive.exists_ne_wait two))

/-- With two workers or more no task is left to workers that all sleep, whatever the
order of the actions. -/
theorem tasks_noticed (two : 2 ≤ n) {s : State n m}
    (run : (system n m).Run (fun _ _ => True) (initial n m) s) : TasksNoticed s := by
  have served : Served s :=
    ActionSystem.Run.preserves (fun served _ taken => served.step two taken) run
      ⟨exclusive_initial, attended_initial⟩
  exact served.attended.tasksNoticed

/-! ## The condition is exact -/

theorem workerStep_wait {s : State n m} {w : Fin n} (here : s.worker w = .wait) :
    workerStep s w = some (s.moveWorker w .blocked) := by
  simp only [workerStep, here]

theorem not_shutdownNoticed_of_blocked {s : State n m} (joining : s.destructor = .joining)
    (w : Fin n) : ¬ ShutdownNoticed (s.moveWorker w .blocked) :=
  fun noticed => noticed ⟨joining, w, State.moveWorker_worker_self s w _⟩

/-- A task that is notified while all workers, that is, the only one, are about to
wait stays. -/
theorem Exclusive.not_tasksNoticed {s : State n m} (exclusive : Exclusive s) {i : Fin m}
    (content : s.taskQueue ≠ []) (waiting : ∀ w, s.worker w = .wait)
    (silent : ∀ j, j ≠ i → (s.submit j).notifying = false) (w : Fin n) :
    ¬ TasksNoticed ((s.moveSubmit i .done).moveWorker w .blocked) := by
  refine fun noticed => noticed ⟨content, fun x => ?_, fun j => ?_⟩
  · have only : x = w := exclusive x w (by rw [waiting]; rfl) (by rw [waiting]; rfl)
    rw [only, State.moveWorker_worker_self]
  · change ((s.moveSubmit i .done).submit j).notifying = false
    by_cases same : j = i
    · rw [same, State.moveSubmit_submit_self]
      rfl
    · rw [State.moveSubmit_submit_ne s same]
      exact silent j same

/-- Where an action is taken that breaks the condition, the workers it misses go to
sleep. -/
theorem Exclusive.unnoticed_of_not_reaches (positive : 0 < n) {s t : State n m}
    (exclusive : Exclusive s) {a : Action n m} (taken : (system n m).act s a = some t)
    (missed : ¬ Reaches s a) :
    ∃ u, (system n m).Run NotSpurious s u ∧ ¬ (TasksNoticed u ∧ ShutdownNoticed u) := by
  cases a with
  | work w =>
      rw [Reaches] at missed
      push Not at missed
      obtain ⟨joining, here, empty⟩ := missed
      have looks : ThreadPool.workerStep s w = some (s.moveWorker w .wait) := by
        simp only [ThreadPool.workerStep, here, if_pos empty]
      have waits := workerStep_wait (s.moveWorker_worker_self w .wait)
      exact ⟨_, .tail (.single ⟨.work w, trivial, looks⟩) ⟨.work w, trivial, waits⟩,
        fun noticed =>
          not_shutdownNoticed_of_blocked (s := s.moveWorker w .wait) joining w noticed.2⟩
  | wakeSpuriously | submit => exact absurd trivial missed
  | notifyOne i woken =>
      rw [Reaches] at missed
      push Not at missed
      obtain ⟨content, waiting, silent⟩ := missed
      obtain ⟨_, effect⟩ := notifyStep_cases taken
      rcases effect with ⟨w, _, blocked, _⟩ | ⟨_, rfl⟩
      · cases (waiting w).symm.trans blocked
      · have waits := workerStep_wait (s := s.moveSubmit i .done) (waiting ⟨0, positive⟩)
        refine ⟨_, .tail (.single ⟨.notifyOne i woken, trivial, taken⟩)
          ⟨.work ⟨0, positive⟩, trivial, waits⟩, fun noticed => ?_⟩
        exact exclusive.not_tasksNoticed content waiting
          (fun j other => Bool.eq_false_iff.mpr (silent j other)) _ noticed.1
  | destroy =>
      rw [Reaches] at missed
      push Not at missed
      obtain ⟨notifyAll, w, waiting⟩ := missed
      rcases destroyStep_cases taken with ⟨clearFlag, _⟩ | ⟨_, rfl⟩
      · cases notifyAll.symm.trans clearFlag
      · have still : s.wakeAll.worker w = .wait := by
          rcases s.wakeAll_worker w with ⟨blocked, _⟩ | ⟨_, same⟩
          · cases waiting.symm.trans blocked
          · exact same.trans waiting
        have waits := workerStep_wait (s := { s.wakeAll with destructor := .joining }) still
        exact ⟨_, .tail (.single ⟨.destroy, trivial, taken⟩) ⟨.work w, trivial, waits⟩,
          fun noticed => not_shutdownNoticed_of_blocked rfl w noticed.2⟩

/-- **Workers are woken.** In a run whose notifications are not sent while those who
need them are about to wait, no task is left to workers that all sleep and no worker
sleeps through the shutdown. -/
theorem wakes {s : State n m} (run : (system n m).Run Reaches (initial n m) s) :
    TasksNoticed s ∧ ShutdownNoticed s :=
  ⟨(ActionSystem.Run.preserves (fun attended reaches taken =>
      attended.step (fun _ _ _ => reaches) taken) run attended_initial).tasksNoticed,
    (ActionSystem.Run.preserves Dismissed.step run dismissed_initial).shutdownNoticed⟩

/-- A worker waits, is woken for a task, runs it and leaves after the shutdown. -/
def taskAndShutdown (w : Fin n) (i : Fin m) : List (Action n m) :=
  List.replicate 4 (.work w) ++ [.submit i, .submit i, .submit i, .notifyOne i (some w)] ++
  List.replicate 8 (.work w) ++ [.destroy, .destroy, .work w]

theorem wakes_one_task : ∃ s : State 1 1,
    s.ran = [(0, some 0)] ∧ s.worker 0 = .exited ∧ TasksNoticed s ∧ ShutdownNoticed s := by
  obtain ⟨s, run, ran, exited⟩ := (system 1 1).exists_run_of_exec Reaches (initial 1 1)
    (taskAndShutdown 0 0) (fun s => s.ran = [(0, some 0)] ∧ s.worker 0 = .exited) (by decide)
  exact ⟨s, ran, exited, wakes run⟩

/-- A task is pushed and notified after the worker has seen the queue empty and
before it waits. -/
def submitBeforeWait (w : Fin n) (i : Fin m) : List (Action n m) :=
  List.replicate 3 (.work w) ++ [.submit i, .submit i, .submit i, .notifyOne i none, .work w]

/-- The destructor notifies all workers after the worker has seen the queue empty
and before it waits. -/
def destroyBeforeWait (w : Fin n) : List (Action n m) :=
  List.replicate 3 (.work w) ++ [.destroy, .destroy, .work w]

/-- The task stays in the queue of a pool that sleeps, and the destructor joins a
worker that sleeps. -/
theorem notifications_lost :
    (∃ s : State 1 1, (system 1 1).Run NotSpurious (initial 1 1) s ∧ ¬ TasksNoticed s) ∧
      ∃ s : State 1 0, (system 1 0).Run NotSpurious (initial 1 0) s ∧ ¬ ShutdownNoticed s :=
  ⟨(system 1 1).exists_run_of_exec NotSpurious (initial 1 1) (submitBeforeWait 0 0)
      (fun s => ¬ TasksNoticed s) (by decide),
    (system 1 0).exists_run_of_exec NotSpurious (initial 1 0) (destroyBeforeWait 0)
      (fun s => ¬ ShutdownNoticed s) (by decide)⟩

end ThreadPool
end P2PFileSync
