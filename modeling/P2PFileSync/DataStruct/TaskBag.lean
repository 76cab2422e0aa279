import P2PFileSync.DataStruct.TaskHandOver
import P2PFileSync.Foundations.TokenSystem

/-!
# The tasks of the pool, in any order

To those who call it the thread pool is a bag of tasks: a call of `submit` puts a
task in, and at any time one of the tasks is taken out and run. This is how the
model of the network uses it.

What is seen of a run of the pool is when a task is pushed and when one is run. In a
run in which no worker moves the front out of an empty queue or between the two steps
of another, it is what is seen of a run of the bag (`pool_refines_bag`). With one
worker it is, in every run, what is seen of a first-in first-out queue: the tasks are
run in the order in which they were pushed (`one_worker_refines_queue`).
-/

set_option autoImplicit false

namespace P2PFileSync
namespace ThreadPool

universe u

variable {n m : ℕ} {σ : Type u}

/-! ## What is seen of the pool -/

/-- A task is pushed or run, `none` if it was moved out before, or something is taken
from an empty queue. -/
inductive Event (m : ℕ) where
  | submit (task : Fin m)
  | run (task : Option (Fin m))
  | fault
  deriving DecidableEq, Repr

/-- What is seen of an action. -/
def observe (s : State n m) : Action n m → Option (Event m)
  | .submit i => if s.submit i = .push then some (.submit i) else none
  | .work w =>
      match s.worker w with
      | .runTask task => some (.run task)
      | .moveFront | .popFront _ => if s.taskQueue = [] then some .fault else none
      | _ => none
  | .wakeSpuriously _ | .notifyOne _ _ | .destroy => none

/-- The tasks that are pushed, in this order. -/
def pushes (trace : List (Event m)) : List (Fin m) :=
  trace.filterMap fun
    | .submit task => some task
    | _ => none

/-- The tasks that are run, in this order. -/
def runs (trace : List (Event m)) : List (Fin m) :=
  trace.filterMap fun
    | .run task => task
    | _ => none

/-! ## The bag -/

/-- The tasks that wait are tokens, and running one has an effect on what the tasks
share. -/
def bag (effect : σ → Fin m → σ) : TokenSystem σ (Fin m) where
  fire state task := some (effect state task, [])

/-- A step of the bag: a task that does not wait is put in, or one that waits is taken
out and run. -/
inductive BagStep (effect : σ → Fin m → σ) :
    TokenSystem.Config σ (Fin m) → Event m → TokenSystem.Config σ (Fin m) → Prop where
  | submit {state : σ} {tasks : List (Fin m)} {task : Fin m} (new : task ∉ tasks) :
      BagStep effect ⟨state, tasks⟩ (.submit task) ⟨state, tasks ++ [task]⟩
  | run {c d : TokenSystem.Config σ (Fin m)} {task : Fin m}
      (fires : (bag effect).Fires c task d) : BagStep effect c (.run (some task)) d

/-- Runs of the bag, with what is seen of them. -/
abbrev BagRun (effect : σ → Fin m → σ) :
    TokenSystem.Config σ (Fin m) → List (Event m) → TokenSystem.Config σ (Fin m) → Prop :=
  ActionSystem.Labelled (BagStep effect)

/-- The tasks that were run, in this order. -/
def ranTasks (s : State n m) : List (Fin m) := s.ran.filterMap Prod.snd

/-- The state of the bag that a state of the pool stands for: the tasks that were
run had their effect, and every task that was pushed waits or was run. -/
structure StandsFor (effect : σ → Fin m → σ) (start : σ) (s : State n m)
    (c : TokenSystem.Config σ (Fin m)) : Prop where
  state : c.state = (ranTasks s).foldl effect start
  tasks : ∀ i, c.tokens.count i + (ranTasks s).count i = if (s.submit i).pushed then 1 else 0

/-! ## What an action changes -/

theorem count_ranTasks (s : State n m) (i : Fin m) :
    (ranTasks s).count i = (s.ran.map Prod.snd).count (some i) := by
  rw [ranTasks]
  induction s.ran with
  | nil => rfl
  | cons run rest ih =>
      obtain ⟨w, task⟩ := run
      cases task with
      | none => simpa using ih
      | some j => simp [List.count_cons, ih]

/-- What an action changes, with what is seen of it. -/
inductive Changes (s t : State n m) : Option (Event m) → Prop where
  | neither (ran : t.ran = s.ran) (pushed : ∀ i, (t.submit i).pushed = (s.submit i).pushed) :
      Changes s t none
  | push {i : Fin m} (here : s.submit i = .push) (ran : t.ran = s.ran)
      (submit : t.submit = Function.update s.submit i .unlock) : Changes s t (some (.submit i))
  | run {w : Fin n} {task : Option (Fin m)} (here : s.worker w = .runTask task)
      (ran : t.ran = s.ran ++ [(w, task)]) (submit : t.submit = s.submit) :
      Changes s t (some (.run task))
  | fault {w : Fin n} (there : t.worker w = .fault) (ran : t.ran = s.ran) :
      Changes s t (some .fault)

theorem Changes.of_seen {s t : State n m} {a : Action n m} {seen : Option (Event m)}
    (same : observe s a = seen) (changes : Changes s t seen) : Changes s t (observe s a) :=
  same ▸ changes

theorem Moves.observe {s : State n m} {w : Fin n} {place next : WorkerAt m}
    (moves : Moves s place next) (here : s.worker w = place) :
    ThreadPool.observe s (.work w) = none := by
  cases moves <;> simp only [ThreadPool.observe, here]

theorem changes_of_act {s t : State n m} {a : Action n m}
    (taken : (system n m).act s a = some t) : Changes s t (observe s a) := by
  cases a with
  | work w =>
      cases workerStep_cases taken with
      | moves here moves => exact .of_seen (moves.observe here) (.neither rfl fun _ => rfl)
      | moveFront here queue =>
          refine .of_seen ?_ (.neither rfl fun _ => rfl)
          simp only [observe, here, queue, reduceCtorEq, if_false]
      | popFront here queue =>
          refine .of_seen ?_ (.neither rfl fun _ => rfl)
          simp only [observe, here, queue, reduceCtorEq, if_false]
      | runTask here => exact .of_seen (by simp only [observe, here]) (.run here rfl rfl)
      | fault here queue =>
          refine .of_seen ?_ (.fault (s.moveWorker_worker_self w _) rfl)
          rcases here with here | ⟨task, here⟩
          · simp only [observe, here, queue, if_true]
          · simp only [observe, here, queue, if_true]
  | wakeSpuriously w =>
      obtain ⟨-, rfl⟩ := wakeSpuriously_cases taken
      exact .neither rfl fun _ => rfl
  | submit i =>
      rcases submitStep_cases taken with ⟨here, rfl⟩ | ⟨here, rfl⟩ | ⟨here, rfl⟩
      · refine .of_seen ?_ (.neither rfl (pushed_moveSubmit (by rw [here]; rfl)))
        simp only [observe, here, reduceCtorEq, if_false]
      · exact .of_seen (by simp only [observe, here, if_true]) (.push here rfl rfl)
      · refine .of_seen ?_ (.neither rfl (pushed_moveSubmit (by rw [here]; rfl)))
        simp only [observe, here, reduceCtorEq, if_false]
  | notifyOne i woken =>
      obtain ⟨here, ⟨w, -, -, rfl⟩ | ⟨-, rfl⟩⟩ := notifyStep_cases taken
      · exact .neither rfl (pushed_moveSubmit (by rw [here]; rfl))
      · exact .neither rfl (pushed_moveSubmit (by rw [here]; rfl))
  | destroy =>
      rcases destroyStep_cases taken with ⟨-, rfl⟩ | ⟨-, rfl⟩ <;> exact .neither rfl fun _ => rfl

/-- The tasks that are seen to be run are those that the state records. -/
theorem Changes.ranTasks {s t : State n m} {seen : Option (Event m)}
    (changes : Changes s t seen) :
    ThreadPool.ranTasks t = ThreadPool.ranTasks s ++ runs seen.toList := by
  have same (ran : t.ran = s.ran) : ThreadPool.ranTasks t = ThreadPool.ranTasks s ++ [] := by
    rw [List.append_nil, ThreadPool.ranTasks, ran, ThreadPool.ranTasks]
  cases changes with
  | neither ran | push here ran | fault there ran => exact same ran
  | @run w task here ran =>
      rw [ThreadPool.ranTasks, ran, List.filterMap_append]
      cases task <;> rfl

theorem runs_append (before after : List (Event m)) : runs (before ++ after) =
    runs before ++ runs after :=
  List.filterMap_append

theorem ranTasks_of_traced {guard : State n m → Action n m → Prop} {s t : State n m}
    {trace : List (Event m)} (run : (system n m).Traced guard observe s trace t) :
    ranTasks t = ranTasks s ++ runs trace := by
  induction run with
  | refl => exact (List.append_nil _).symm
  | head _ taken _ ih =>
      rw [ih, (changes_of_act taken).ranTasks, runs_append, List.append_assoc]

/-! ## Every run -/

variable {effect : σ → Fin m → σ} {start : σ}

theorem standsFor_initial : StandsFor effect start (initial n m) ⟨start, []⟩ :=
  ⟨rfl, fun _ => rfl⟩

theorem State.holders_pos {s : State n m} {w : Fin n} {i : Fin m}
    (held : (s.worker w).held = some i) : 0 < s.holders i := by
  have one : (if (s.worker w).held = some i then 1 else 0) ≤ s.holders i :=
    Finset.single_le_sum (f := fun w => if (s.worker w).held = some i then 1 else 0)
      (fun _ _ => Nat.zero_le _) (Finset.mem_univ w)
  rwa [if_pos held] at one

/-- A task that a worker holds waits in the bag. -/
theorem StandsFor.mem_of_held {s : State n m} {c : TokenSystem.Config σ (Fin m)}
    (stands : StandsFor effect start s c) (accounted : Accounted s) {w : Fin n} {i : Fin m}
    (held : (s.worker w).held = some i) : i ∈ c.tokens := by
  have holds := State.holders_pos held
  have whole := accounted.account i
  have tasks := stands.tasks i
  rw [State.account, ← count_ranTasks] at whole
  exact List.count_pos_iff.mp (by omega)

/-- **One action** of the pool is the step of the bag that is seen, or none. -/
theorem StandsFor.step {s t : State n m} {c : TokenSystem.Config σ (Fin m)}
    {seen : Option (Event m)} (stands : StandsFor effect start s c) (before : Accounted s)
    (after : Accounted t) (changes : Changes s t seen) :
    ∃ d, ActionSystem.Matches (BagStep effect) c seen d ∧ StandsFor effect start t d := by
  cases changes with
  | neither ran pushed =>
      have same : ranTasks t = ranTasks s := congrArg (List.filterMap Prod.snd) ran
      refine ⟨c, .hidden, ?_, ?_⟩
      · rw [same]
        exact stands.state
      · intro i
        rw [same, pushed i]
        exact stands.tasks i
  | @push i here ran submit =>
      have same : ranTasks t = ranTasks s := congrArg (List.filterMap Prod.snd) ran
      have none : c.tokens.count i + (ranTasks s).count i = 0 := by
        rw [stands.tasks, here]
        rfl
      have new : i ∉ c.tokens := List.count_eq_zero.mp (by omega)
      refine ⟨⟨c.state, c.tokens ++ [i]⟩, .seen (.submit new), ?_, ?_⟩
      · rw [same]
        exact stands.state
      · intro j
        rw [same, submit, List.count_append]
        by_cases this : j = i
        · subst this
          rw [Function.update_self, List.count_singleton_self]
          change _ = 1
          omega
        · have other : [i].count j = 0 := List.count_eq_zero.mpr (by simpa using this)
          rw [Function.update_of_ne this, other, Nat.add_zero]
          exact stands.tasks j
  | @run w task here ran submit =>
      obtain ⟨i, rfl⟩ := Option.ne_none_iff_exists'.mp (before.holding w task (.inr here))
      have held : (s.worker w).held = some i := by
        rw [here]
        rfl
      have more : ranTasks t = ranTasks s ++ [i] := (Changes.run here ran submit).ranTasks
      have waits := stands.mem_of_held before held
      have outcome : (bag effect).fire c.state i = some (effect c.state i, []) := rfl
      obtain ⟨d, fires, state, -⟩ := TokenSystem.exists_fires waits outcome
      have tasks := fires.perm outcome
      refine ⟨d, .seen (.run fires), ?_, ?_⟩
      · rw [state, stands.state, more, List.foldl_concat]
      · intro j
        have counts := tasks.count_eq j
        rw [List.append_nil, ← List.singleton_append, List.count_append] at counts
        rw [more, submit, List.count_append, ← stands.tasks j]
        omega
  | @fault w there => exact absurd there (after.no_fault w)

/-- **The pool is a bag of tasks.** In a run in which no worker moves the front out while
the queue is empty, or while another has moved it out and not removed it yet, what is
seen of the pool is what is seen of a run of the bag: every task that is run was
pushed before and waits until then. The tasks have the same effect on what they
share, and a task waits in the bag at the end exactly if it was pushed and not run. -/
theorem pool_refines_bag {s : State n m} {trace : List (Event m)}
    (run : (system n m).Traced MovesAlone observe (initial n m) trace s)
    (effect : σ → Fin m → σ) (start : σ) :
    ranTasks s = runs trace ∧
      ∃ c, BagRun effect ⟨start, []⟩ trace c ∧ StandsFor effect start s c := by
  refine ⟨ranTasks_of_traced run, ?_⟩
  refine ActionSystem.Traced.simulates Orderly.step ?_ run orderly_initial standsFor_initial
  intro s t a c orderly alone taken stands
  exact stands.step orderly.accounted (orderly.step alone taken).accounted (changes_of_act taken)

/-- The first worker takes the first task, and runs it after the second worker has
taken and run the second one. -/
def overtaking (w x : Fin n) : List (Action n m) :=
  List.replicate 9 (.work w) ++ List.replicate 10 (.work x) ++ [.work w]

theorem pool_refines_bag_two :
    ∃ s : State 2 2, ranTasks s = [1, 0] ∧
      ∃ c, BagRun (fun (done : List (Fin 2)) i => done ++ [i]) ⟨[], []⟩
          [.submit 0, .submit 1, .run (some 1), .run (some 0)] c ∧
        StandsFor (fun done i => done ++ [i]) [] s c := by
  obtain ⟨s, run, ran⟩ := (system 2 2).exists_traced_of_exec MovesAlone observe (initial 2 2)
    (pushBoth 0 1 ++ overtaking 0 1) (fun s => ranTasks s = [1, 0]) (by decide)
  exact ⟨s, ran, (pool_refines_bag run _ _).2⟩

/-! ## One worker -/

/-- A step of a queue of tasks: one is put in at the back, or the one at the front is
taken out and run. -/
inductive QueueStep (effect : σ → Fin m → σ) :
    TokenSystem.Config σ (Fin m) → Event m → TokenSystem.Config σ (Fin m) → Prop where
  | submit {state : σ} {tasks : List (Fin m)} {task : Fin m} :
      QueueStep effect ⟨state, tasks⟩ (.submit task) ⟨state, tasks ++ [task]⟩
  | run {state : σ} {task : Fin m} {tasks : List (Fin m)} :
      QueueStep effect ⟨state, task :: tasks⟩ (.run (some task)) ⟨effect state task, tasks⟩

/-- Runs of the queue, with what is seen of them. -/
abbrev QueueRun (effect : σ → Fin m → σ) :
    TokenSystem.Config σ (Fin m) → List (Event m) → TokenSystem.Config σ (Fin m) → Prop :=
  ActionSystem.Labelled (QueueStep effect)

/-- What goes into a queue comes out of it in order. -/
theorem QueueRun.pushes_eq {c d : TokenSystem.Config σ (Fin m)} {trace : List (Event m)}
    (run : QueueRun effect c trace d) : c.tokens ++ pushes trace = runs trace ++ d.tokens := by
  induction run with
  | refl => exact List.append_nil _
  | head first _ ih =>
      cases first with
      | submit => exact (List.append_cons _ _ _).trans ih
      | run => exact congrArg (List.cons _) ih

/-- The tasks that wait for the one worker: the one it holds, and those in the queue. -/
def waiting (s : State 1 m) : List (Fin m) :=
  (s.worker 0).held.toList ++ s.taskQueue.map Entry.task

/-- The state of the queue that a state of the pool with one worker stands for. -/
def queueState (effect : σ → Fin m → σ) (start : σ) (s : State 1 m) :
    TokenSystem.Config σ (Fin m) :=
  ⟨(ranTasks s).foldl effect start, waiting s⟩

theorem queueState_eq {s t : State 1 m} (ran : t.ran = s.ran)
    (held : (t.worker 0).held = (s.worker 0).held)
    (queue : t.taskQueue.map Entry.task = s.taskQueue.map Entry.task) :
    queueState effect start t = queueState effect start s := by
  rw [queueState, queueState, waiting, waiting, ranTasks, ranTasks, ran, held, queue]

/-- An action that is not seen leaves the queue as it is. -/
theorem matches_hidden {s t : State 1 m} {seen : Option (Event m)} (hidden : seen = none)
    (same : queueState effect start t = queueState effect start s) :
    ActionSystem.Matches (QueueStep effect) (queueState effect start s) seen
      (queueState effect start t) := by
  rw [hidden, same]
  exact .hidden

theorem queueState_push {s t : State 1 m} {i : Fin m} (ran : t.ran = s.ran)
    (held : (t.worker 0).held = (s.worker 0).held)
    (queue : t.taskQueue = s.taskQueue ++ [⟨i, none⟩]) :
    QueueStep effect (queueState effect start s) (.submit i) (queueState effect start t) := by
  have after : waiting t = waiting s ++ [i] := by
    rw [waiting, waiting, held, queue, List.map_append, List.append_assoc]
    rfl
  have same : ranTasks t = ranTasks s := congrArg (List.filterMap Prod.snd) ran
  rw [queueState, queueState, after, same]
  exact .submit

theorem queueState_run {s t : State 1 m} {i : Fin m}
    (here : (s.worker 0).held = some i) (ran : ranTasks t = ranTasks s ++ [i])
    (held : (t.worker 0).held = none) (queue : t.taskQueue = s.taskQueue) :
    QueueStep effect (queueState effect start s) (.run (some i)) (queueState effect start t) := by
  have before : waiting s = i :: t.taskQueue.map Entry.task := by
    rw [waiting, here, queue]
    rfl
  have after : waiting t = t.taskQueue.map Entry.task := by
    rw [waiting, held]
    rfl
  rw [queueState, queueState, before, after, ran, List.foldl_concat]
  exact .run

theorem held_wakeAll (s : State n m) (w : Fin n) :
    (s.wakeAll.worker w).held = (s.worker w).held := by
  rcases s.wakeAll_worker w with ⟨blocked, woken⟩ | ⟨-, same⟩
  · rw [blocked, woken]
    rfl
  · rw [same]

/-- **One action** of a pool with one worker is the step of the queue that is seen, or
none. -/
theorem queueState_step {s t : State 1 m} {a : Action 1 m} (one : OneWorker s)
    (taken : (system 1 m).act s a = some t) :
    ActionSystem.Matches (QueueStep effect) (queueState effect start s) (observe s a)
      (queueState effect start t) := by
  cases a with
  | work w =>
      obtain rfl : w = 0 := Subsingleton.elim _ _
      cases workerStep_cases taken with
      | moves here moves =>
          refine matches_hidden (moves.observe here) (queueState_eq rfl ?_ rfl)
          rw [State.moveWorker_worker_self, here]
          exact moves.sameTasks.held
      | @moveFront front rest here queue =>
          refine matches_hidden ?_ (queueState_eq rfl ?_ ?_)
          · simp only [observe, here, queue, reduceCtorEq, if_false]
          · change ((s.moveWorker 0 _).worker 0).held = _
            rw [State.moveWorker_worker_self, here]
            rfl
          · rw [queue, List.map_cons, List.map_cons, Entry.moved_task]
      | @popFront task front rest here queue =>
          obtain ⟨first, others, same, -, rfl⟩ := one.orderly.accounted.popping 0 task here
          obtain ⟨rfl, rfl⟩ := List.cons.inj (queue.symm.trans same)
          have before : waiting s = front.task :: rest.map Entry.task := by
            rw [waiting, here, queue]
            rfl
          have after : ((s.moveWorker 0 (.unlockTask (some front.task))).worker 0).held =
              some front.task := by
            rw [State.moveWorker_worker_self]
            rfl
          refine matches_hidden ?_ ?_
          · simp only [observe, here, queue, reduceCtorEq, if_false]
          · rw [queueState, queueState, before, waiting]
            dsimp only
            rw [after]
            rfl
      | @runTask task here =>
          obtain ⟨i, rfl⟩ :=
            Option.ne_none_iff_exists'.mp (one.orderly.accounted.holding 0 task (.inr here))
          have seen : observe s (.work 0) = some (.run (some i)) := by
            simp only [observe, here]
          have changes := changes_of_act taken
          rw [seen] at changes ⊢
          refine .seen (queueState_run ?_ changes.ranTasks ?_ rfl)
          · rw [here]
            rfl
          · change ((s.moveWorker 0 _).worker 0).held = _
            rw [State.moveWorker_worker_self]
            rfl
      | fault =>
          exact absurd (State.moveWorker_worker_self s 0 _)
            ((one.step taken).orderly.accounted.no_fault 0)
  | wakeSpuriously w =>
      obtain rfl : w = 0 := Subsingleton.elim _ _
      obtain ⟨blocked, rfl⟩ := wakeSpuriously_cases taken
      refine matches_hidden rfl (queueState_eq rfl ?_ rfl)
      rw [State.moveWorker_worker_self, blocked]
      rfl
  | submit i =>
      rcases submitStep_cases taken with ⟨here, rfl⟩ | ⟨here, rfl⟩ | ⟨here, rfl⟩
      · exact matches_hidden (by simp only [observe, here, reduceCtorEq, if_false]) rfl
      · have seen : observe s (.submit i) = some (.submit i) := by
          simp only [observe, here, if_true]
        rw [seen]
        exact .seen (queueState_push rfl rfl rfl)
      · exact matches_hidden (by simp only [observe, here, reduceCtorEq, if_false]) rfl
  | notifyOne i woken =>
      obtain ⟨here, ⟨w, -, blocked, rfl⟩ | ⟨-, rfl⟩⟩ := notifyStep_cases taken
      · obtain rfl : w = 0 := Subsingleton.elim _ _
        refine matches_hidden rfl (queueState_eq rfl ?_ rfl)
        rw [State.moveWorker_worker_self, blocked]
        rfl
      · exact matches_hidden rfl rfl
  | destroy =>
      rcases destroyStep_cases taken with ⟨-, rfl⟩ | ⟨-, rfl⟩
      · exact matches_hidden rfl rfl
      · exact matches_hidden rfl (queueState_eq rfl (held_wakeAll s 0) rfl)

/-- **One worker runs the tasks in the order in which they were pushed.** Whatever the
order of the actions, what is seen of a pool with one worker is what is seen of a
run of a queue: the tasks pushed, in this order, are those that were run, in the
order in which they were, and after them those that wait. -/
theorem one_worker_refines_queue {s : State 1 m} {trace : List (Event m)}
    (run : (system 1 m).Traced (fun _ _ => True) observe (initial 1 m) trace s)
    (effect : σ → Fin m → σ) (start : σ) :
    QueueRun effect ⟨start, []⟩ trace ⟨(ranTasks s).foldl effect start, waiting s⟩ ∧
      ranTasks s = runs trace ∧ pushes trace = ranTasks s ++ waiting s := by
  have matched : ∀ {s t : State 1 m} {a : Action 1 m} {c : TokenSystem.Config σ (Fin m)},
      OneWorker s → True → (system 1 m).act s a = some t → c = queueState effect start s →
        ∃ d, ActionSystem.Matches (QueueStep effect) c (observe s a) d ∧
          d = queueState effect start t := by
    rintro s t a c one - taken rfl
    exact ⟨_, queueState_step one taken, rfl⟩
  have first : (⟨start, []⟩ : TokenSystem.Config σ (Fin m)) =
      queueState effect start (initial 1 m) := rfl
  obtain ⟨_, queueRun, rfl⟩ := run.simulates (fun one _ taken => one.step taken) matched
    oneWorker_initial first
  have ran : ranTasks s = runs trace := ranTasks_of_traced run
  refine ⟨queueRun, ran, ?_⟩
  rw [ran]
  exact QueueRun.pushes_eq queueRun

theorem one_worker_refines_queue_two :
    ∃ s : State 1 2, ranTasks s = [0] ∧ waiting s = [1] ∧
      QueueRun (fun (done : List (Fin 2)) i => done ++ [i]) ⟨[], []⟩
        [.submit 0, .submit 1, .run (some 0)]
        ⟨(ranTasks s).foldl (fun done i => done ++ [i]) [], waiting s⟩ := by
  obtain ⟨s, run, ran, waits⟩ := (system 1 2).exists_traced_of_exec (fun _ _ => True) observe
    (initial 1 2) (pushBoth 0 1 ++ List.replicate 10 (.work 0))
    (fun s => ranTasks s = [0] ∧ waiting s = [1]) (by decide)
  exact ⟨s, ran, waits, (one_worker_refines_queue run _ _).1⟩

end ThreadPool
end P2PFileSync
