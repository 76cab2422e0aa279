import Mathlib.Data.Fin.VecNotation
import Mathlib.Data.Fintype.Basic
import P2PFileSync.Foundations.ActionSystem

/-!
# The thread pool

`ThreadPool` has workers, which take tasks from a queue, and calls of `submit`,
which put them in. Two mutexes are involved: `m_mutex`, taken exclusively by
`submit` and shared by the workers, and `_mutex`, under which a worker looks
whether the queue is empty and waits.

Each worker, each call of `submit` and the destructor is at a place of its code,
and an action takes one of them to its next place. A lock is held by whoever is
at a place between taking and releasing it.

The state also records, for the statements about it, which worker took the task
out of an element of the queue, which worker ran what and which worker removed
which element.
-/

set_option autoImplicit false

namespace P2PFileSync
namespace ThreadPool

/-! ## Places -/

/-- Where a worker is in its loop, named after what it does next. A task that was
moved out is `none` when the element held none any more. -/
inductive WorkerAt (m : ℕ) where
  /-- Reads `_running_flag`. -/
  | readFlag
  /-- Takes `_mutex`. -/
  | lockMutex
  /-- Holds `_mutex` and asks whether the queue is empty. -/
  | testEmpty
  /-- Holds `_mutex`, found the queue empty, and calls `wait`. -/
  | wait
  /-- Blocked in `wait`. -/
  | blocked
  /-- Woken, takes `_mutex` again. -/
  | relock
  /-- Holds `_mutex` and releases it. -/
  | unlockMutex
  /-- Takes `m_mutex`, shared. -/
  | lockShared
  /-- Holds `m_mutex` and asks whether the queue is empty. -/
  | testFront
  /-- Holds `m_mutex` and moves the task out of the front. -/
  | moveFront
  /-- Holds `m_mutex` and removes the front. -/
  | popFront (task : Option (Fin m))
  /-- Holds `m_mutex` and releases it, with a task. -/
  | unlockTask (task : Option (Fin m))
  /-- Runs the task. -/
  | runTask (task : Option (Fin m))
  /-- Holds `m_mutex` and releases it, without a task. -/
  | unlockEmpty
  /-- Holds `m_mutex` and has called `front` or `pop` on an empty queue, which is
  undefined. -/
  | fault
  | exited
  deriving DecidableEq, Repr

/-- Where a call of `submit` is. -/
inductive SubmitAt where
  /-- Takes `m_mutex`, exclusively. -/
  | lock
  /-- Holds `m_mutex` and pushes the task. -/
  | push
  /-- Holds `m_mutex` and releases it. -/
  | unlock
  /-- Calls `notify_one`. -/
  | notify
  | done
  deriving DecidableEq, Repr

/-- Where the destructor is. -/
inductive DestructorAt where
  /-- Clears `_running_flag`. -/
  | clearFlag
  /-- Calls `notify_all`. -/
  | notifyAll
  /-- Joins the workers. -/
  | joining
  deriving DecidableEq, Repr

/-- The worker holds `_mutex`. -/
def WorkerAt.holdsMutex {m : ℕ} : WorkerAt m → Bool
  | testEmpty | wait | unlockMutex => true
  | _ => false

/-- The worker holds `m_mutex`, shared. -/
def WorkerAt.holdsShared {m : ℕ} : WorkerAt m → Bool
  | testFront | moveFront | popFront _ | unlockTask _ | unlockEmpty | fault => true
  | _ => false

/-- The call holds `m_mutex`, exclusively. -/
def SubmitAt.holdsUnique : SubmitAt → Bool
  | push | unlock => true
  | _ => false

/-! ## States -/

/-- An element of the queue: the task it was pushed with, and the worker that
moved the task out of it. -/
structure Entry (n m : ℕ) where
  task : Fin m
  movedBy : Option (Fin n)
  deriving DecidableEq, Repr

/-- What `std::move` takes out of the element. -/
def Entry.content {n m : ℕ} (entry : Entry n m) : Option (Fin m) :=
  if entry.movedBy = none then some entry.task else none

/-- The element afterwards. -/
def Entry.moved {n m : ℕ} (entry : Entry n m) (w : Fin n) : Entry n m :=
  if entry.movedBy = none then { entry with movedBy := some w } else entry

/-- A pool of `n` workers and `m` calls of `submit`. -/
structure State (n m : ℕ) where
  worker : Fin n → WorkerAt m
  submit : Fin m → SubmitAt
  destructor : DestructorAt
  runningFlag : Bool
  taskQueue : List (Entry n m)
  /-- What was run, and by which worker. -/
  ran : List (Fin n × Option (Fin m))
  /-- What was removed from the queue, and by which worker. -/
  popped : List (Fin n × Entry n m)

/-- A pool just made, and the calls of `submit` to come. -/
def initial (n m : ℕ) : State n m where
  worker := fun _ => .readFlag
  submit := fun _ => .lock
  destructor := .clearFlag
  runningFlag := true
  taskQueue := []
  ran := []
  popped := []

namespace State

variable {n m : ℕ} (s : State n m)

/-- No worker holds `_mutex`. -/
def MutexFree : Prop := ∀ w, (s.worker w).holdsMutex = false

/-- No call of `submit` holds `m_mutex`. -/
def NoUnique : Prop := ∀ i, (s.submit i).holdsUnique = false

/-- No worker holds `m_mutex`. -/
def NoShared : Prop := ∀ w, (s.worker w).holdsShared = false

instance : Decidable s.MutexFree := inferInstanceAs (Decidable (∀ _, _))

instance : Decidable s.NoUnique := inferInstanceAs (Decidable (∀ _, _))

instance : Decidable s.NoShared := inferInstanceAs (Decidable (∀ _, _))

/-- The worker is at another place. -/
def moveWorker (w : Fin n) (place : WorkerAt m) : State n m :=
  { s with worker := Function.update s.worker w place }

/-- The call is at another place. -/
def moveSubmit (i : Fin m) (place : SubmitAt) : State n m :=
  { s with submit := Function.update s.submit i place }

@[simp] theorem moveWorker_worker_self (w : Fin n) (place : WorkerAt m) :
    (s.moveWorker w place).worker w = place := Function.update_self _ _ _

theorem moveWorker_worker_ne {w x : Fin n} (other : x ≠ w) (place : WorkerAt m) :
    (s.moveWorker w place).worker x = s.worker x := Function.update_of_ne other _ _

/-- Whoever is at another place than the one moved to is not the worker that
moved. -/
theorem worker_of_moveWorker {w x : Fin n} {place other : WorkerAt m} (different : place ≠ other)
    (here : (s.moveWorker w place).worker x = other) : x ≠ w ∧ s.worker x = other := by
  by_cases same : x = w
  · subst same
    rw [moveWorker_worker_self] at here
    exact absurd here different
  · rw [moveWorker_worker_ne s same] at here
    exact ⟨same, here⟩

@[simp] theorem moveSubmit_submit_self (i : Fin m) (place : SubmitAt) :
    (s.moveSubmit i place).submit i = place := Function.update_self _ _ _

theorem moveSubmit_submit_ne {i j : Fin m} (other : j ≠ i) (place : SubmitAt) :
    (s.moveSubmit i place).submit j = s.submit j := Function.update_of_ne other _ _

/-- Whoever was blocked in `wait` is woken. -/
def wakeAll : State n m :=
  { s with worker := fun w => if s.worker w = .blocked then .relock else s.worker w }

theorem wakeAll_worker (w : Fin n) :
    (s.worker w = .blocked ∧ s.wakeAll.worker w = .relock) ∨
      (s.worker w ≠ .blocked ∧ s.wakeAll.worker w = s.worker w) := by
  by_cases blocked : s.worker w = .blocked
  · exact .inl ⟨blocked, if_pos blocked⟩
  · exact .inr ⟨blocked, if_neg blocked⟩

end State

/-! ## Actions -/

/-- An action of a thread. `notify_one` wakes a blocked worker if there is one; a
wake-up without a notification is an action of its own. -/
inductive Action (n m : ℕ) where
  | work (w : Fin n)
  | wakeSpuriously (w : Fin n)
  | submit (i : Fin m)
  | notifyOne (i : Fin m) (woken : Option (Fin n))
  | destroy
  deriving DecidableEq, Repr

variable {n m : ℕ}

/-- The next action of a worker. It waits for a lock that is held. On an empty queue
`front` and `pop` are undefined: nothing is said of what the worker does then. -/
def workerStep (s : State n m) (w : Fin n) : Option (State n m) :=
  match s.worker w with
  | .readFlag => some (s.moveWorker w (if s.runningFlag then .lockMutex else .exited))
  | .lockMutex => if s.MutexFree then some (s.moveWorker w .testEmpty) else none
  | .testEmpty => some (s.moveWorker w (if s.taskQueue = [] then .wait else .unlockMutex))
  | .wait => some (s.moveWorker w .blocked)
  | .blocked => none
  | .relock => if s.MutexFree then some (s.moveWorker w .unlockMutex) else none
  | .unlockMutex => some (s.moveWorker w .lockShared)
  | .lockShared => if s.NoUnique then some (s.moveWorker w .testFront) else none
  | .testFront => some (s.moveWorker w (if s.taskQueue = [] then .unlockEmpty else .moveFront))
  | .moveFront =>
      match s.taskQueue with
      | [] => some (s.moveWorker w .fault)
      | front :: rest =>
          some { s.moveWorker w (.popFront front.content) with taskQueue := front.moved w :: rest }
  | .popFront task =>
      match s.taskQueue with
      | [] => some (s.moveWorker w .fault)
      | front :: rest =>
          some { s.moveWorker w (.unlockTask task) with
            taskQueue := rest
            popped := s.popped ++ [(w, front)] }
  | .unlockTask task => some (s.moveWorker w (.runTask task))
  | .runTask task => some { s.moveWorker w .readFlag with ran := s.ran ++ [(w, task)] }
  | .unlockEmpty => some (s.moveWorker w .readFlag)
  | .fault => none
  | .exited => none

/-- The next action of a call of `submit`, up to `notify_one`. -/
def submitStep (s : State n m) (i : Fin m) : Option (State n m) :=
  match s.submit i with
  | .lock => if s.NoUnique ∧ s.NoShared then some (s.moveSubmit i .push) else none
  | .push => some { s.moveSubmit i .unlock with taskQueue := s.taskQueue ++ [⟨i, none⟩] }
  | .unlock => some (s.moveSubmit i .notify)
  | .notify => none
  | .done => none

/-- `notify_one`, with the worker it wakes. -/
def notifyStep (s : State n m) (i : Fin m) (woken : Option (Fin n)) : Option (State n m) :=
  if s.submit i = .notify then
    match woken with
    | some w =>
        if s.worker w = .blocked then some ((s.moveSubmit i .done).moveWorker w .relock) else none
    | none => if ∀ w, s.worker w ≠ .blocked then some (s.moveSubmit i .done) else none
  else none

/-- The next action of the destructor, up to the joins. -/
def destroyStep (s : State n m) : Option (State n m) :=
  match s.destructor with
  | .clearFlag => some { s with runningFlag := false, destructor := .notifyAll }
  | .notifyAll => some { s.wakeAll with destructor := .joining }
  | .joining => none

/-- The pool as a system of actions. -/
def system (n m : ℕ) : ActionSystem (State n m) (Action n m) where
  act := fun s a =>
    match a with
    | .work w => workerStep s w
    | .wakeSpuriously w =>
        if s.worker w = .blocked then some (s.moveWorker w .relock) else none
    | .submit i => submitStep s i
    | .notifyOne i woken => notifyStep s i woken
    | .destroy => destroyStep s

/-! ## What an action does -/

/-- The ways in which a worker goes on without touching the queue. -/
inductive Moves (s : State n m) : WorkerAt m → WorkerAt m → Prop where
  | goOn (running : s.runningFlag = true) : Moves s .readFlag .lockMutex
  | exit (stopped : s.runningFlag = false) : Moves s .readFlag .exited
  | lockMutex (free : s.MutexFree) : Moves s .lockMutex .testEmpty
  | foundEmpty (empty : s.taskQueue = []) : Moves s .testEmpty .wait
  | foundTask (content : s.taskQueue ≠ []) : Moves s .testEmpty .unlockMutex
  | wait : Moves s .wait .blocked
  | relock (free : s.MutexFree) : Moves s .relock .unlockMutex
  | unlockMutex : Moves s .unlockMutex .lockShared
  | lockShared (free : s.NoUnique) : Moves s .lockShared .testFront
  | noFront (empty : s.taskQueue = []) : Moves s .testFront .unlockEmpty
  | front (content : s.taskQueue ≠ []) : Moves s .testFront .moveFront
  | unlockTask (task : Option (Fin m)) : Moves s (.unlockTask task) (.runTask task)
  | unlockEmpty : Moves s .unlockEmpty .readFlag

/-- Everything an action of a worker can do. -/
inductive WorkerStep (s : State n m) (w : Fin n) : State n m → Prop where
  | moves {place next : WorkerAt m} (here : s.worker w = place) (moves : Moves s place next) :
      WorkerStep s w (s.moveWorker w next)
  | moveFront {front : Entry n m} {rest : List (Entry n m)} (here : s.worker w = .moveFront)
      (queue : s.taskQueue = front :: rest) :
      WorkerStep s w
        { s.moveWorker w (.popFront front.content) with taskQueue := front.moved w :: rest }
  | popFront {task : Option (Fin m)} {front : Entry n m} {rest : List (Entry n m)}
      (here : s.worker w = .popFront task) (queue : s.taskQueue = front :: rest) :
      WorkerStep s w
        { s.moveWorker w (.unlockTask task) with
          taskQueue := rest
          popped := s.popped ++ [(w, front)] }
  | runTask {task : Option (Fin m)} (here : s.worker w = .runTask task) :
      WorkerStep s w { s.moveWorker w .readFlag with ran := s.ran ++ [(w, task)] }
  | fault (here : s.worker w = .moveFront ∨ ∃ task, s.worker w = .popFront task)
      (queue : s.taskQueue = []) : WorkerStep s w (s.moveWorker w .fault)

theorem workerStep_cases {s t : State n m} {w : Fin n} (taken : workerStep s w = some t) :
    WorkerStep s w t := by
  unfold workerStep at taken
  cases here : s.worker w with
  | readFlag =>
      rw [here] at taken
      cases flag : s.runningFlag with
      | true =>
          simp only [flag, if_true, Option.some.injEq] at taken
          exact taken ▸ .moves here (.goOn flag)
      | false =>
          simp only [flag, Bool.false_eq_true, if_false, Option.some.injEq] at taken
          exact taken ▸ .moves here (.exit flag)
  | lockMutex =>
      by_cases free : s.MutexFree
      · simp only [here, if_pos free, Option.some.injEq] at taken
        exact taken ▸ .moves here (.lockMutex free)
      · simp only [here, if_neg free] at taken
        cases taken
  | testEmpty =>
      by_cases empty : s.taskQueue = []
      · simp only [here, if_pos empty, Option.some.injEq] at taken
        exact taken ▸ .moves here (.foundEmpty empty)
      · simp only [here, if_neg empty, Option.some.injEq] at taken
        exact taken ▸ .moves here (.foundTask empty)
  | wait =>
      simp only [here, Option.some.injEq] at taken
      exact taken ▸ .moves here .wait
  | blocked =>
      simp only [here] at taken
      cases taken
  | relock =>
      by_cases free : s.MutexFree
      · simp only [here, if_pos free, Option.some.injEq] at taken
        exact taken ▸ .moves here (.relock free)
      · simp only [here, if_neg free] at taken
        cases taken
  | unlockMutex =>
      simp only [here, Option.some.injEq] at taken
      exact taken ▸ .moves here .unlockMutex
  | lockShared =>
      by_cases free : s.NoUnique
      · simp only [here, if_pos free, Option.some.injEq] at taken
        exact taken ▸ .moves here (.lockShared free)
      · simp only [here, if_neg free] at taken
        cases taken
  | testFront =>
      by_cases empty : s.taskQueue = []
      · simp only [here, if_pos empty, Option.some.injEq] at taken
        exact taken ▸ .moves here (.noFront empty)
      · simp only [here, if_neg empty, Option.some.injEq] at taken
        exact taken ▸ .moves here (.front empty)
  | moveFront =>
      cases queue : s.taskQueue with
      | nil =>
          simp only [here, queue, Option.some.injEq] at taken
          exact taken ▸ .fault (.inl here) queue
      | cons front rest =>
          simp only [here, queue, Option.some.injEq] at taken
          exact taken ▸ .moveFront here queue
  | popFront task =>
      cases queue : s.taskQueue with
      | nil =>
          simp only [here, queue, Option.some.injEq] at taken
          exact taken ▸ .fault (.inr ⟨task, here⟩) queue
      | cons front rest =>
          simp only [here, queue, Option.some.injEq] at taken
          exact taken ▸ .popFront here queue
  | unlockTask task =>
      simp only [here, Option.some.injEq] at taken
      exact taken ▸ .moves here (.unlockTask task)
  | runTask task =>
      simp only [here, Option.some.injEq] at taken
      exact taken ▸ .runTask here
  | unlockEmpty =>
      simp only [here, Option.some.injEq] at taken
      exact taken ▸ .moves here .unlockEmpty
  | fault | exited =>
      simp only [here] at taken
      cases taken

/-- A wake-up without a notification is that of a blocked worker. -/
theorem wakeSpuriously_cases {s t : State n m} {w : Fin n}
    (taken : (system n m).act s (.wakeSpuriously w) = some t) :
    s.worker w = .blocked ∧ t = s.moveWorker w .relock := by
  by_cases blocked : s.worker w = .blocked
  · simp only [system, if_pos blocked, Option.some.injEq] at taken
    exact ⟨blocked, taken.symm⟩
  · simp only [system, if_neg blocked] at taken
    cases taken

/-- Everything an action of a call of `submit` before `notify_one` can do. -/
theorem submitStep_cases {s t : State n m} {i : Fin m} (taken : submitStep s i = some t) :
    (s.submit i = .lock ∧ t = s.moveSubmit i .push) ∨
      (s.submit i = .push ∧
        t = { s.moveSubmit i .unlock with taskQueue := s.taskQueue ++ [⟨i, none⟩] }) ∨
      (s.submit i = .unlock ∧ t = s.moveSubmit i .notify) := by
  unfold submitStep at taken
  cases here : s.submit i with
  | lock =>
      by_cases free : s.NoUnique ∧ s.NoShared
      · simp only [here, if_pos free, Option.some.injEq] at taken
        exact .inl ⟨rfl, taken.symm⟩
      · simp only [here, if_neg free] at taken
        cases taken
  | push =>
      simp only [here, Option.some.injEq] at taken
      exact .inr (.inl ⟨rfl, taken.symm⟩)
  | unlock =>
      simp only [here, Option.some.injEq] at taken
      exact .inr (.inr ⟨rfl, taken.symm⟩)
  | notify | done =>
      simp only [here] at taken
      cases taken

/-- Everything `notify_one` can do: it wakes a blocked worker, or there is
none. -/
theorem notifyStep_cases {s t : State n m} {i : Fin m} {woken : Option (Fin n)}
    (taken : notifyStep s i woken = some t) :
    s.submit i = .notify ∧
      ((∃ w, woken = some w ∧ s.worker w = .blocked ∧
          t = (s.moveSubmit i .done).moveWorker w .relock) ∨
        ((∀ w, s.worker w ≠ .blocked) ∧ t = s.moveSubmit i .done)) := by
  unfold notifyStep at taken
  by_cases here : s.submit i = .notify
  · rw [if_pos here] at taken
    refine ⟨here, ?_⟩
    cases woken with
    | some w =>
        by_cases blocked : s.worker w = .blocked
        · simp only [if_pos blocked, Option.some.injEq] at taken
          exact .inl ⟨w, rfl, blocked, taken.symm⟩
        · simp only [if_neg blocked] at taken
          cases taken
    | none =>
        by_cases nobody : ∀ w, s.worker w ≠ .blocked
        · simp only [if_pos nobody, Option.some.injEq] at taken
          exact .inr ⟨nobody, taken.symm⟩
        · simp only [if_neg nobody] at taken
          cases taken
  · rw [if_neg here] at taken
    cases taken

/-- Everything an action of the destructor can do. -/
theorem destroyStep_cases {s t : State n m} (taken : destroyStep s = some t) :
    (s.destructor = .clearFlag ∧
        t = { s with runningFlag := false, destructor := .notifyAll }) ∨
      (s.destructor = .notifyAll ∧ t = { s.wakeAll with destructor := .joining }) := by
  unfold destroyStep at taken
  cases here : s.destructor with
  | clearFlag =>
      simp only [here, Option.some.injEq] at taken
      exact .inl ⟨rfl, taken.symm⟩
  | notifyAll =>
      simp only [here, Option.some.injEq] at taken
      exact .inr ⟨rfl, taken.symm⟩
  | joining =>
      simp only [here] at taken
      cases taken

end ThreadPool
end P2PFileSync
