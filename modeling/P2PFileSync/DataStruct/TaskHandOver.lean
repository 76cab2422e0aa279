import Mathlib.Algebra.BigOperators.Group.Finset.Basic
import P2PFileSync.DataStruct.ThreadPool

/-!
# Handing over a task

Workers hold `m_mutex` shared while they look whether the queue is empty, move the
front task out and remove the element, so two of them can be at this at once. A
worker that moves the front out when another has, and has not removed it yet, takes
nothing out of the element, and removes the next one with the task still in it
(`task_lost`). One that finds a task and comes to the front when another has
removed the last one calls `front` on an empty queue.

In a run in which neither happens every task is run at most once, no worker runs an
emptied task or takes anything from an empty queue, and every worker removes what it
moved out (`hands_over`). With one worker that is every run
(`one_worker_hands_over`), and no other run is safe
(`Orderly.not_handsOver_of_not_alone`).
-/

set_option autoImplicit false

namespace P2PFileSync
namespace ThreadPool

variable {n m : ℕ}

/-! ## The statement -/

/-- Every submitted task was run at most once, no worker ran a task that had been
moved out before, every element was removed by the worker that moved its task out,
and no worker took anything from an empty queue. -/
structure HandsOver (s : State n m) : Prop where
  ran_once : ∀ i, (s.ran.map Prod.snd).count (some i) ≤ 1
  ran_content : ∀ run ∈ s.ran, run.2 ≠ none
  popped_own : ∀ removal ∈ s.popped, removal.2.movedBy = some removal.1
  no_fault : ∀ w, s.worker w ≠ .fault

/-- The worker has moved the front out and not removed it yet. -/
def WorkerAt.popping : WorkerAt m → Bool
  | popFront _ => true
  | _ => false

/-- A worker moves the front out while the queue is not empty and no worker has moved
it out and not removed it yet. -/
def MovesAlone (s : State n m) : Action n m → Prop
  | .work w =>
      s.worker w = .moveFront → s.taskQueue ≠ [] ∧ ∀ x, (s.worker x).popping = false
  | _ => True

/-! ## The account of the tasks -/

/-- The task a worker has removed from the queue and has not run yet. -/
def WorkerAt.held : WorkerAt m → Option (Fin m)
  | unlockTask task => task
  | runTask task => task
  | _ => none

/-- The call has pushed its task. -/
def SubmitAt.pushed : SubmitAt → Bool
  | unlock | notify | done => true
  | _ => false

namespace State

/-- The number of workers that hold the task. -/
def holders (s : State n m) (i : Fin m) : ℕ :=
  ∑ w, if (s.worker w).held = some i then 1 else 0

/-- How often a task is in the queue, with a worker, or run. -/
def account (s : State n m) (i : Fin m) : ℕ :=
  (s.taskQueue.map Entry.task).count i + s.holders i + (s.ran.map Prod.snd).count (some i)

/-- What a worker that moves adds to the holders of a task and takes away. -/
theorem holders_moveWorker (s : State n m) (w : Fin n) (place : WorkerAt m) (i : Fin m) :
    (s.moveWorker w place).holders i + (if (s.worker w).held = some i then 1 else 0) =
      s.holders i + if place.held = some i then 1 else 0 := by
  have others : ∑ x ∈ Finset.univ.erase w,
        (if ((s.moveWorker w place).worker x).held = some i then 1 else 0) =
      ∑ x ∈ Finset.univ.erase w, if (s.worker x).held = some i then 1 else 0 := by
    apply Finset.sum_congr rfl
    intro x member
    rw [moveWorker_worker_ne _ (Finset.ne_of_mem_erase member)]
  have after := Finset.add_sum_erase Finset.univ
    (fun x => if ((s.moveWorker w place).worker x).held = some i then 1 else 0)
    (Finset.mem_univ w)
  have before := Finset.add_sum_erase Finset.univ
    (fun x => if (s.worker x).held = some i then 1 else 0) (Finset.mem_univ w)
  simp only [moveWorker_worker_self] at after
  rw [holders, holders]
  omega

end State

/-- What holds in every run in which fronts are moved out once: each pushed task is
in one place, and a worker about to remove the front has moved it out. -/
structure Accounted (s : State n m) : Prop where
  account : ∀ i, s.account i = if (s.submit i).pushed then 1 else 0
  popping : ∀ w task, s.worker w = .popFront task → ∃ front rest,
    s.taskQueue = front :: rest ∧ front.movedBy = some w ∧ task = some front.task
  holding : ∀ w task, s.worker w = .unlockTask task ∨ s.worker w = .runTask task → task ≠ none
  ran_content : ∀ run ∈ s.ran, run.2 ≠ none
  popped_own : ∀ removal ∈ s.popped, removal.2.movedBy = some removal.1
  no_fault : ∀ w, s.worker w ≠ .fault

theorem Accounted.handsOver {s : State n m} (accounted : Accounted s) : HandsOver s where
  ran_once := by
    intro i
    have whole := accounted.account i
    rw [State.account] at whole
    split at whole <;> omega
  ran_content := accounted.ran_content
  popped_own := accounted.popped_own
  no_fault := accounted.no_fault

theorem accounted_initial : Accounted (initial n m) where
  account := by
    intro i
    simp [State.account, State.holders, initial, WorkerAt.held, SubmitAt.pushed]
  popping := fun _ _ impossible => by cases impossible
  holding := by
    rintro _ _ (impossible | impossible) <;> cases impossible
  ran_content := List.forall_mem_nil _
  popped_own := List.forall_mem_nil _
  no_fault := by rintro _ ⟨⟩

/-! ## Actions that leave the tasks where they are -/

/-- A worker at the second place has the tasks it had at the first. -/
structure SameTasks (place next : WorkerAt m) : Prop where
  held : next.held = place.held
  popping : ∀ task, next = .popFront task → place = .popFront task
  holding : ∀ task, next = .unlockTask task ∨ next = .runTask task →
    place = .unlockTask task ∨ place = .runTask task
  fault : next = .fault → place = .fault

theorem SameTasks.refl (place : WorkerAt m) : SameTasks place place :=
  ⟨rfl, fun _ => id, fun _ => id, id⟩

theorem Moves.sameTasks {s : State n m} {place next : WorkerAt m} (moves : Moves s place next) :
    SameTasks place next := by
  cases moves with
  | unlockTask task =>
      refine ⟨rfl, (fun _ impossible => by cases impossible), ?_, by rintro ⟨⟩⟩
      rintro _ (impossible | same)
      · cases impossible
      · cases same
        exact .inl rfl
  | _ =>
      refine ⟨rfl, (fun _ impossible => by cases impossible), ?_, by rintro ⟨⟩⟩
      rintro _ (impossible | impossible) <;> cases impossible

theorem sameTasks_woken : SameTasks (.blocked : WorkerAt m) .relock := by
  refine ⟨rfl, (fun _ impossible => by cases impossible), ?_, by rintro ⟨⟩⟩
  rintro _ (impossible | impossible) <;> cases impossible

theorem sameTasks_moveWorker {s : State n m} {w : Fin n} {next : WorkerAt m}
    (same : SameTasks (s.worker w) next) (x : Fin n) :
    SameTasks (s.worker x) ((s.moveWorker w next).worker x) := by
  by_cases here : x = w
  · subst here
    rw [State.moveWorker_worker_self]
    exact same
  · rw [State.moveWorker_worker_ne _ here]
    exact .refl _

/-- The account does not change when the queue and the history do not, every worker
has the tasks it had and no call pushes. -/
theorem Accounted.relocate {s t : State n m} (accounted : Accounted s)
    (taskQueue : t.taskQueue = s.taskQueue) (ran : t.ran = s.ran) (popped : t.popped = s.popped)
    (pushed : ∀ i, (t.submit i).pushed = (s.submit i).pushed)
    (same : ∀ w, SameTasks (s.worker w) (t.worker w)) : Accounted t where
  account := by
    intro i
    have holders : t.holders i = s.holders i := by
      apply Finset.sum_congr rfl
      intro w _
      rw [(same w).held]
    rw [pushed, ← accounted.account i, State.account, State.account, taskQueue, ran, holders]
  popping := by
    intro w task here
    rw [taskQueue]
    exact accounted.popping w task ((same w).popping task here)
  holding := fun w task here => accounted.holding w task ((same w).holding task here)
  ran_content := by
    rw [ran]
    exact accounted.ran_content
  popped_own := by
    rw [popped]
    exact accounted.popped_own
  no_fault := fun w fault => accounted.no_fault w ((same w).fault fault)

/-! ## Actions on the queue -/

theorem Accounted.no_fault_moveWorker {s : State n m} (accounted : Accounted s) {w : Fin n}
    {next : WorkerAt m} (defined : next ≠ .fault) (x : Fin n) :
    (s.moveWorker w next).worker x ≠ .fault := fun fault =>
  accounted.no_fault x (s.worker_of_moveWorker defined fault).2

theorem holders_moveWorker_of_held {s : State n m} {w : Fin n} {place : WorkerAt m}
    (same : place.held = (s.worker w).held) (i : Fin m) :
    (s.moveWorker w place).holders i = s.holders i := by
  have moved := s.holders_moveWorker w place i
  rw [same] at moved
  omega

theorem Entry.moved_task (entry : Entry n m) (w : Fin n) : (entry.moved w).task = entry.task := by
  rw [Entry.moved]
  split <;> rfl

/-- A worker takes the task out of a front that still has it. -/
theorem Accounted.moveFront {s : State n m} (accounted : Accounted s) {w : Fin n}
    {front : Entry n m} {rest : List (Entry n m)} (here : s.worker w = .moveFront)
    (queue : s.taskQueue = front :: rest) (fresh : front.movedBy = none) :
    Accounted
      { s.moveWorker w (.popFront front.content) with taskQueue := front.moved w :: rest } where
  account := by
    intro i
    have same : (WorkerAt.popFront front.content).held = (s.worker w).held := by
      rw [here]
      rfl
    change ((front.moved w :: rest).map Entry.task).count i +
      (s.moveWorker w (.popFront front.content)).holders i +
        (s.ran.map Prod.snd).count (some i) = if (s.submit i).pushed then 1 else 0
    rw [holders_moveWorker_of_held same, ← accounted.account i, State.account, queue,
      List.map_cons, List.map_cons, Entry.moved_task]
  popping := by
    intro x task popping
    by_cases same : x = w
    · subst same
      simp only [State.moveWorker_worker_self, WorkerAt.popFront.injEq] at popping
      refine ⟨front.moved x, rest, rfl, ?_, ?_⟩
      · rw [Entry.moved, if_pos fresh]
      · rw [← popping, Entry.content, if_pos fresh, Entry.moved, if_pos fresh]
    · have before : s.worker x = .popFront task := by
        rw [← State.moveWorker_worker_ne s same]
        exact popping
      obtain ⟨front', rest', queue', moved, _⟩ := accounted.popping x task before
      rw [queue] at queue'
      cases queue'
      rw [fresh] at moved
      cases moved
  holding := by
    rintro x task (holding | holding)
    · exact accounted.holding x task (.inl (s.worker_of_moveWorker (by rintro ⟨⟩) holding).2)
    · exact accounted.holding x task (.inr (s.worker_of_moveWorker (by rintro ⟨⟩) holding).2)
  ran_content := accounted.ran_content
  popped_own := accounted.popped_own
  no_fault := accounted.no_fault_moveWorker (by rintro ⟨⟩)

/-- The task of a front that is removed goes from the queue to the worker. -/
theorem State.account_popFront {s : State n m} {w : Fin n} {front : Entry n m}
    {rest : List (Entry n m)} {popped : List (Fin n × Entry n m)}
    (nothing : (s.worker w).held = none) (queue : s.taskQueue = front :: rest) (i : Fin m) :
    State.account
      { s.moveWorker w (.unlockTask (some front.task)) with
        taskQueue := rest
        popped := popped } i = s.account i := by
  have moved := s.holders_moveWorker w (.unlockTask (some front.task)) i
  change (rest.map Entry.task).count i +
    (s.moveWorker w (.unlockTask (some front.task))).holders i +
      (s.ran.map Prod.snd).count (some i) = _
  rw [State.account, queue, List.map_cons, List.count_cons]
  rw [nothing, if_neg (by rintro ⟨⟩)] at moved
  simp only [WorkerAt.held, Option.some.injEq] at moved
  by_cases isTask : front.task = i
  · simp only [isTask, if_true, beq_self_eq_true] at moved ⊢
    omega
  · simp only [isTask, if_false, beq_false_of_ne isTask, Bool.false_eq_true] at moved ⊢
    omega

/-- The worker that took the task out of the front removes it. -/
theorem Accounted.popFront {s : State n m} (accounted : Accounted s) {w : Fin n}
    {task : Option (Fin m)} {front : Entry n m} {rest : List (Entry n m)}
    (here : s.worker w = .popFront task) (queue : s.taskQueue = front :: rest) :
    Accounted
      { s.moveWorker w (.unlockTask task) with
        taskQueue := rest
        popped := s.popped ++ [(w, front)] } := by
  obtain ⟨front', rest', queue', own, rfl⟩ := accounted.popping w task here
  rw [queue] at queue'
  cases queue'
  refine ⟨?_, ?_, ?_, accounted.ran_content, ?_, accounted.no_fault_moveWorker (by rintro ⟨⟩)⟩
  · intro i
    have nothing : (s.worker w).held = none := by
      rw [here]
      rfl
    rw [State.account_popFront nothing queue]
    exact accounted.account i
  · -- only the worker that moved the front out is about to remove it
    intro x other popping
    obtain ⟨different, before⟩ := s.worker_of_moveWorker (by rintro ⟨⟩) popping
    obtain ⟨front', rest', queue', moved, _⟩ := accounted.popping x other before
    rw [queue] at queue'
    cases queue'
    rw [own] at moved
    exact absurd (Option.some.inj moved).symm different
  · intro x other holding
    by_cases same : x = w
    · subst same
      simp only [State.moveWorker_worker_self] at holding
      rcases holding with isTask | impossible
      · cases isTask
        rintro ⟨⟩
      · cases impossible
    · simp only [State.moveWorker_worker_ne s same] at holding
      exact accounted.holding x other holding
  · intro removal member
    rcases List.mem_append.mp member with old | new
    · exact accounted.popped_own removal old
    · cases List.mem_singleton.mp new
      exact own

/-- A worker runs its task. -/
theorem Accounted.runTask {s : State n m} (accounted : Accounted s) {w : Fin n}
    {task : Option (Fin m)} (here : s.worker w = .runTask task) :
    Accounted { s.moveWorker w .readFlag with ran := s.ran ++ [(w, task)] } where
  account := by
    intro i
    have moved := s.holders_moveWorker w .readFlag i
    have whole := accounted.account i
    change (s.taskQueue.map Entry.task).count i + (s.moveWorker w .readFlag).holders i +
      ((s.ran ++ [(w, task)]).map Prod.snd).count (some i) = if (s.submit i).pushed then 1 else 0
    rw [here] at moved
    simp only [WorkerAt.held, reduceCtorEq, if_false] at moved
    rw [← whole, State.account, List.map_append, List.count_append, List.map_singleton,
      List.count_singleton]
    by_cases isTask : task = some i
    · simp only [isTask, if_true, beq_self_eq_true] at moved ⊢
      omega
    · simp only [isTask, if_false, beq_false_of_ne isTask, Bool.false_eq_true] at moved ⊢
      omega
  popping := by
    intro x other popping
    exact accounted.popping x other (s.worker_of_moveWorker (by rintro ⟨⟩) popping).2
  holding := by
    rintro x other (holding | holding)
    · exact accounted.holding x other (.inl (s.worker_of_moveWorker (by rintro ⟨⟩) holding).2)
    · exact accounted.holding x other (.inr (s.worker_of_moveWorker (by rintro ⟨⟩) holding).2)
  ran_content := by
    intro run member
    rcases List.mem_append.mp member with old | new
    · exact accounted.ran_content run old
    · cases List.mem_singleton.mp new
      exact accounted.holding w task (.inr here)
  popped_own := accounted.popped_own
  no_fault := accounted.no_fault_moveWorker (by rintro ⟨⟩)

/-- A call pushes its task. -/
theorem Accounted.push {s : State n m} (accounted : Accounted s) {i : Fin m}
    (here : s.submit i = .push) :
    Accounted { s.moveSubmit i .unlock with taskQueue := s.taskQueue ++ [⟨i, none⟩] } where
  account := by
    intro j
    have whole := accounted.account j
    change ((s.taskQueue ++ [(⟨i, none⟩ : Entry n m)]).map Entry.task).count j + s.holders j +
      (s.ran.map Prod.snd).count (some j) =
        if ((s.moveSubmit i .unlock).submit j).pushed then 1 else 0
    rw [State.account] at whole
    rw [List.map_append, List.count_append, List.map_singleton, List.count_singleton]
    by_cases same : j = i
    · subst same
      rw [here] at whole
      simp only [SubmitAt.pushed, Bool.false_eq_true, if_false] at whole
      simp only [State.moveSubmit_submit_self, SubmitAt.pushed, if_true, beq_self_eq_true]
      omega
    · rw [State.moveSubmit_submit_ne s same, ← whole]
      simp only [beq_false_of_ne (Ne.symm same), Bool.false_eq_true, if_false]
      omega
  popping := by
    intro w task popping
    obtain ⟨front, rest, queue, moved, content⟩ := accounted.popping w task popping
    refine ⟨front, rest ++ [⟨i, none⟩], ?_, moved, content⟩
    rw [queue, List.cons_append]
  holding := accounted.holding
  ran_content := accounted.ran_content
  popped_own := accounted.popped_own
  no_fault := accounted.no_fault

/-! ## Elements that were emptied -/

/-- Only the front is ever emptied, and only while a worker is about to remove it. -/
structure Unmoved (s : State n m) : Prop where
  whole : (∀ w, (s.worker w).popping = false) → ∀ entry ∈ s.taskQueue, entry.movedBy = none
  tail : ∀ entry ∈ s.taskQueue.tail, entry.movedBy = none

theorem unmoved_initial : Unmoved (initial n m) where
  whole := fun _ => List.forall_mem_nil _
  tail := List.forall_mem_nil _

/-- The queue stays as it is, and who was about to remove the front still is. -/
theorem Unmoved.relocate {s t : State n m} (unmoved : Unmoved s)
    (taskQueue : t.taskQueue = s.taskQueue)
    (popping : ∀ w, (s.worker w).popping = true → (t.worker w).popping = true) : Unmoved t where
  whole := by
    intro nobody
    rw [taskQueue]
    refine unmoved.whole fun w => ?_
    by_contra here
    have still := popping w (Bool.eq_true_of_not_eq_false here)
    rw [nobody w] at still
    cases still
  tail := by
    rw [taskQueue]
    exact unmoved.tail

theorem Unmoved.moveWorker {s : State n m} (unmoved : Unmoved s) {w : Fin n}
    (notPopping : (s.worker w).popping = false) (next : WorkerAt m) :
    Unmoved (s.moveWorker w next) := by
  refine unmoved.relocate rfl fun x here => ?_
  have other : x ≠ w := by
    rintro rfl
    rw [notPopping] at here
    cases here
  rw [State.moveWorker_worker_ne s other]
  exact here

theorem Unmoved.push {s : State n m} (unmoved : Unmoved s) (i : Fin m) :
    Unmoved { s.moveSubmit i .unlock with taskQueue := s.taskQueue ++ [⟨i, none⟩] } where
  whole := by
    intro nobody entry member
    rcases List.mem_append.mp member with old | new
    · exact unmoved.whole nobody entry old
    · rw [List.mem_singleton.mp new]
  tail := by
    intro entry member
    have inside := unmoved.tail entry
    cases queue : s.taskQueue with
    | nil =>
        simp only [queue, List.nil_append, List.tail_cons] at member
        cases member
    | cons front rest =>
        simp only [queue, List.tail_cons] at inside
        simp only [queue, List.cons_append, List.tail_cons] at member
        rcases List.mem_append.mp member with old | new
        · exact inside old
        · rw [List.mem_singleton.mp new]

theorem Unmoved.workerStep {s t : State n m} (unmoved : Unmoved s) {w : Fin n}
    (alone : MovesAlone s (.work w)) (taken : ThreadPool.workerStep s w = some t) :
    Unmoved t := by
  cases workerStep_cases taken with
  | moves here moves =>
      refine unmoved.moveWorker ?_ _
      rw [here]
      cases moves <;> rfl
  | @moveFront front rest here queue =>
      refine ⟨?_, ?_⟩
      · intro nobody
        have popping := nobody w
        simp only [State.moveWorker_worker_self] at popping
        cases popping
      · intro entry member
        exact unmoved.whole (alone here).2 entry (queue ▸ List.mem_cons_of_mem _ member)
  | @popFront task front rest here queue =>
      have unmovedRest : ∀ entry ∈ rest, entry.movedBy = none := by
        have inside := unmoved.tail
        rw [queue] at inside
        exact inside
      exact ⟨fun _ => unmovedRest, fun entry member =>
        unmovedRest entry (List.mem_of_mem_tail member)⟩
  | runTask here =>
      have moved : Unmoved (s.moveWorker w .readFlag) := by
        refine unmoved.moveWorker ?_ _
        rw [here]
        rfl
      exact ⟨moved.whole, moved.tail⟩
  | fault here queue =>
      refine ⟨fun _ entry member => ?_, fun entry member => ?_⟩
      · exact absurd (queue ▸ member) List.not_mem_nil
      · exact absurd (queue ▸ List.mem_of_mem_tail member) List.not_mem_nil

theorem Unmoved.step {s t : State n m} {a : Action n m} (unmoved : Unmoved s)
    (alone : MovesAlone s a) (taken : (system n m).act s a = some t) : Unmoved t := by
  cases a with
  | work w => exact unmoved.workerStep alone taken
  | wakeSpuriously w =>
      obtain ⟨blocked, rfl⟩ := wakeSpuriously_cases taken
      refine unmoved.moveWorker ?_ _
      rw [blocked]
      rfl
  | submit i =>
      rcases submitStep_cases taken with ⟨_, rfl⟩ | ⟨_, rfl⟩ | ⟨_, rfl⟩
      · exact ⟨unmoved.whole, unmoved.tail⟩
      · exact unmoved.push i
      · exact ⟨unmoved.whole, unmoved.tail⟩
  | notifyOne i woken =>
      have notified : Unmoved (s.moveSubmit i .done) := ⟨unmoved.whole, unmoved.tail⟩
      obtain ⟨_, effect⟩ := notifyStep_cases taken
      rcases effect with ⟨w, _, blocked, rfl⟩ | ⟨_, rfl⟩
      · refine notified.moveWorker ?_ _
        change (s.worker w).popping = false
        rw [blocked]
        rfl
      · exact notified
  | destroy =>
      rcases destroyStep_cases taken with ⟨_, rfl⟩ | ⟨_, rfl⟩
      · exact ⟨unmoved.whole, unmoved.tail⟩
      · refine unmoved.relocate rfl fun w here => ?_
        change (s.wakeAll.worker w).popping = true
        rcases s.wakeAll_worker w with ⟨blocked, _⟩ | ⟨_, same⟩
        · rw [blocked] at here
          cases here
        · rw [same]
          exact here

/-! ## Every action -/

theorem Accounted.workerStep {s t : State n m} (accounted : Accounted s) (unmoved : Unmoved s)
    {w : Fin n} (alone : MovesAlone s (.work w)) (taken : ThreadPool.workerStep s w = some t) :
    Accounted t := by
  cases workerStep_cases taken with
  | moves here moves =>
      subst here
      exact accounted.relocate rfl rfl rfl (fun _ => rfl) (sameTasks_moveWorker moves.sameTasks)
  | @moveFront front rest here queue =>
      have fresh : front.movedBy = none :=
        unmoved.whole (alone here).2 front (queue ▸ List.mem_cons_self)
      exact accounted.moveFront here queue fresh
  | popFront here queue => exact accounted.popFront here queue
  | runTask here => exact accounted.runTask here
  | fault here queue =>
      rcases here with here | ⟨task, here⟩
      · exact absurd queue (alone here).1
      · obtain ⟨front, rest, content, -⟩ := accounted.popping w task here
        cases queue.symm.trans content

/-- A call that goes on between two places on the same side of the push. -/
theorem pushed_moveSubmit {s : State n m} {i : Fin m} {place : SubmitAt}
    (same : place.pushed = (s.submit i).pushed) (j : Fin m) :
    ((s.moveSubmit i place).submit j).pushed = (s.submit j).pushed := by
  by_cases here : j = i
  · subst here
    rw [State.moveSubmit_submit_self, same]
  · rw [State.moveSubmit_submit_ne s here]

theorem Accounted.submitStep {s t : State n m} (accounted : Accounted s) {i : Fin m}
    (taken : ThreadPool.submitStep s i = some t) : Accounted t := by
  rcases submitStep_cases taken with ⟨here, rfl⟩ | ⟨here, rfl⟩ | ⟨here, rfl⟩
  · refine accounted.relocate rfl rfl rfl (pushed_moveSubmit ?_) fun _ => .refl _
    rw [here]
    rfl
  · exact accounted.push here
  · refine accounted.relocate rfl rfl rfl (pushed_moveSubmit ?_) fun _ => .refl _
    rw [here]
    rfl

theorem Accounted.notifyStep {s t : State n m} (accounted : Accounted s) {i : Fin m}
    {woken : Option (Fin n)} (taken : ThreadPool.notifyStep s i woken = some t) :
    Accounted t := by
  obtain ⟨here, effect⟩ := notifyStep_cases taken
  have side : SubmitAt.done.pushed = (s.submit i).pushed := by
    rw [here]
    rfl
  rcases effect with ⟨w, _, blocked, rfl⟩ | ⟨_, rfl⟩
  · refine accounted.relocate rfl rfl rfl (pushed_moveSubmit side)
      (sameTasks_moveWorker (s := s.moveSubmit i .done) ?_)
    change SameTasks (s.worker w) .relock
    rw [blocked]
    exact sameTasks_woken
  · exact accounted.relocate rfl rfl rfl (pushed_moveSubmit side) fun _ => .refl _

theorem Accounted.destroyStep {s t : State n m} (accounted : Accounted s)
    (taken : ThreadPool.destroyStep s = some t) : Accounted t := by
  rcases destroyStep_cases taken with ⟨_, rfl⟩ | ⟨_, rfl⟩
  · exact accounted.relocate rfl rfl rfl (fun _ => rfl) fun _ => .refl _
  · refine accounted.relocate rfl rfl rfl (fun _ => rfl) ?_
    intro w
    change SameTasks (s.worker w) (s.wakeAll.worker w)
    rcases s.wakeAll_worker w with ⟨blocked, woken⟩ | ⟨_, same⟩
    · rw [blocked, woken]
      exact sameTasks_woken
    · rw [same]
      exact .refl _

theorem Accounted.step {s t : State n m} {a : Action n m} (accounted : Accounted s)
    (unmoved : Unmoved s) (alone : MovesAlone s a) (taken : (system n m).act s a = some t) :
    Accounted t := by
  cases a with
  | work w => exact accounted.workerStep unmoved alone taken
  | wakeSpuriously w =>
      obtain ⟨blocked, rfl⟩ := wakeSpuriously_cases taken
      refine accounted.relocate rfl rfl rfl (fun _ => rfl) (sameTasks_moveWorker ?_)
      rw [blocked]
      exact sameTasks_woken
  | submit i => exact accounted.submitStep taken
  | notifyOne i woken => exact accounted.notifyStep taken
  | destroy => exact accounted.destroyStep taken

/-! ## Runs -/

/-- What a run keeps whose workers move the front out one at a time. -/
structure Orderly (s : State n m) : Prop where
  accounted : Accounted s
  unmoved : Unmoved s

theorem orderly_initial : Orderly (initial n m) := ⟨accounted_initial, unmoved_initial⟩

theorem Orderly.step {s t : State n m} {a : Action n m} (orderly : Orderly s)
    (alone : MovesAlone s a) (taken : (system n m).act s a = some t) : Orderly t where
  accounted := orderly.accounted.step orderly.unmoved alone taken
  unmoved := orderly.unmoved.step alone taken

theorem orderly_of_run {s : State n m} (run : (system n m).Run MovesAlone (initial n m) s) :
    Orderly s :=
  ActionSystem.Run.preserves Orderly.step run orderly_initial

/-! ## One worker -/

/-- A worker that goes to the front has found a task there. -/
def FrontSeen (s : State n m) : Prop := ∀ w, s.worker w = .moveFront → s.taskQueue ≠ []

theorem FrontSeen.relocate {s t : State n m} (seen : FrontSeen s)
    (taskQueue : s.taskQueue ≠ [] → t.taskQueue ≠ [])
    (worker : ∀ w, t.worker w = .moveFront → s.worker w = .moveFront) : FrontSeen t :=
  fun w here => taskQueue (seen w (worker w here))

/-- What one worker finds at the front, nobody takes away. -/
theorem FrontSeen.step [Subsingleton (Fin n)] {s t : State n m} {a : Action n m}
    (seen : FrontSeen s) (taken : (system n m).act s a = some t) : FrontSeen t := by
  have moved {u : State n m} (w : Fin n) {next : WorkerAt m} (frontSeen : FrontSeen u)
      (elsewhere : next ≠ .moveFront) : FrontSeen (u.moveWorker w next) :=
    frontSeen.relocate id fun x here => (u.worker_of_moveWorker elsewhere here).2
  cases a with
  | work w =>
      cases workerStep_cases taken with
      | @moves place next here moves =>
          by_cases front : next = .moveFront
          · subst front
            cases moves with
            | front content => exact fun _ _ => content
          · exact moved w seen front
      | moveFront here queue | popFront here queue | runTask here =>
          intro x atFront
          obtain rfl : x = w := Subsingleton.elim _ _
          cases (State.moveWorker_worker_self s x _).symm.trans atFront
      | fault here queue => exact moved w seen (by rintro ⟨⟩)
  | wakeSpuriously w =>
      obtain ⟨-, rfl⟩ := wakeSpuriously_cases taken
      exact moved w seen (by rintro ⟨⟩)
  | submit i =>
      rcases submitStep_cases taken with ⟨-, rfl⟩ | ⟨-, rfl⟩ | ⟨-, rfl⟩
      · exact seen
      · exact seen.relocate (fun _ => List.concat_ne_nil _ _) fun _ here => here
      · exact seen
  | notifyOne i woken =>
      obtain ⟨-, ⟨w, -, -, rfl⟩ | ⟨-, rfl⟩⟩ := notifyStep_cases taken
      · exact moved (u := s.moveSubmit i .done) w seen (by rintro ⟨⟩)
      · exact seen
  | destroy =>
      rcases destroyStep_cases taken with ⟨-, rfl⟩ | ⟨-, rfl⟩
      · exact seen
      · refine seen.relocate id fun w here => ?_
        rcases s.wakeAll_worker w with ⟨-, woken⟩ | ⟨-, same⟩
        · cases woken.symm.trans here
        · exact same.symm.trans here

/-- One worker finds the front as it has seen it, and nobody else is there. -/
theorem FrontSeen.movesAlone [Subsingleton (Fin n)] {s : State n m} (seen : FrontSeen s)
    (a : Action n m) : MovesAlone s a := by
  cases a with
  | work w =>
      intro here
      refine ⟨seen w here, fun x => ?_⟩
      rw [Subsingleton.elim x w, here]
      rfl
  | _ => trivial

/-- What every run of a pool with one worker keeps. -/
structure OneWorker (s : State n m) : Prop where
  orderly : Orderly s
  seen : FrontSeen s

theorem oneWorker_initial : OneWorker (initial n m) :=
  ⟨orderly_initial, by rintro _ ⟨⟩⟩

theorem OneWorker.step [Subsingleton (Fin n)] {s t : State n m} {a : Action n m}
    (one : OneWorker s) (taken : (system n m).act s a = some t) : OneWorker t where
  orderly := one.orderly.step (one.seen.movesAlone a) taken
  seen := one.seen.step taken

/-- With one worker tasks are handed over, whatever the order of the actions. -/
theorem one_worker_hands_over [Subsingleton (Fin n)] {s : State n m}
    (run : (system n m).Run (fun _ _ => True) (initial n m) s) : HandsOver s := by
  have one : OneWorker s := run.preserves (fun one _ taken => one.step taken) oneWorker_initial
  exact one.orderly.accounted.handsOver

/-! ## The condition is exact -/

theorem exists_popFront {s : State n m} {w : Fin n} {task : Option (Fin m)} {front : Entry n m}
    {rest : List (Entry n m)} (here : s.worker w = .popFront task)
    (queue : s.taskQueue = front :: rest) :
    ∃ t, workerStep s w = some t ∧ t.popped = s.popped ++ [(w, front)] := by
  refine ⟨{ s.moveWorker w (.unlockTask task) with
    taskQueue := rest
    popped := s.popped ++ [(w, front)] }, ?_, rfl⟩
  simp only [workerStep, here, queue]

theorem not_handsOver_of_empty {s : State n m} {w : Fin n} (here : s.worker w = .moveFront)
    (empty : s.taskQueue = []) : ∃ t, workerStep s w = some t ∧ ¬ HandsOver t := by
  refine ⟨s.moveWorker w .fault, ?_, fun hands => ?_⟩
  · simp only [workerStep, here, empty]
  · exact hands.no_fault w (s.moveWorker_worker_self w _)

theorem WorkerAt.exists_popFront {place : WorkerAt m} (popping : place.popping = true) :
    ∃ task, place = .popFront task := by
  cases place with
  | popFront task => exact ⟨task, rfl⟩
  | _ => cases popping

/-- The condition is exact. A worker that comes to the front of an empty queue takes
something from it; and where one moves the front out after another one, its next
action removes an element that the other one moved out. -/
theorem Orderly.not_handsOver_of_not_alone {s : State n m} (orderly : Orderly s)
    {a : Action n m} (together : ¬ MovesAlone s a) :
    ∃ t, (system n m).Run (fun _ _ => True) s t ∧ ¬ HandsOver t := by
  cases a with
  | work w =>
      rw [MovesAlone, Classical.not_imp, not_and_or, ne_eq, not_not, not_forall] at together
      obtain ⟨here, empty | ⟨x, popping⟩⟩ := together
      · obtain ⟨t, taken, fails⟩ := not_handsOver_of_empty here empty
        exact ⟨t, .single ⟨.work w, trivial, taken⟩, fails⟩
      obtain ⟨task, there⟩ := WorkerAt.exists_popFront (Bool.eq_true_of_not_eq_false popping)
      obtain ⟨front, rest, queue, moved, _⟩ := orderly.accounted.popping x task there
      have stays : front.moved w = front := by
        rw [Entry.moved, if_neg (by rw [moved]; rintro ⟨⟩)]
      have moves : workerStep s w = some { s.moveWorker w (.popFront front.content) with
          taskQueue := front :: rest } := by
        simp only [workerStep, here, queue, stays]
      obtain ⟨t, removes, popped⟩ := exists_popFront (s.moveWorker_worker_self w _)
        (s := { s.moveWorker w (.popFront front.content) with taskQueue := front :: rest }) rfl
      refine ⟨t, .tail (.single ⟨.work w, trivial, moves⟩) ⟨.work w, trivial, removes⟩, ?_⟩
      intro hands
      have own := hands.popped_own (w, front) (popped ▸ List.mem_append_right _ List.mem_cons_self)
      rw [moved] at own
      cases own
      cases here.symm.trans there
  | _ => exact absurd trivial together

/-- **Tasks are handed over.** In a run in which no worker moves the front out while the
queue is empty, or while another has moved it out and not removed it yet, every task
is run at most once, no emptied task is run, each worker removes what it moved out
and nothing is taken from an empty queue. -/
theorem hands_over {s : State n m} (run : (system n m).Run MovesAlone (initial n m) s) :
    HandsOver s :=
  (orderly_of_run run).accounted.handsOver

instance (s : State n m) (a : Action n m) : Decidable (MovesAlone s a) :=
  match a with
  | .work w =>
      inferInstanceAs (Decidable (s.worker w = .moveFront →
        s.taskQueue ≠ [] ∧ ∀ x, (s.worker x).popping = false))
  | .wakeSpuriously _ => .isTrue trivial
  | .submit _ => .isTrue trivial
  | .notifyOne _ _ => .isTrue trivial
  | .destroy => .isTrue trivial

/-- Two calls of `submit`, one after the other, before any worker waits. -/
def pushBoth (i j : Fin m) : List (Action n m) :=
  [.submit i, .submit i, .submit i, .notifyOne i none,
    .submit j, .submit j, .submit j, .notifyOne j none]

/-- Both workers find a task at the front before either moves it out; then each
moves one out and removes it, and they run them together. -/
def sideBySide (w x : Fin n) : List (Action n m) :=
  List.replicate 6 (.work w) ++ List.replicate 6 (.work x) ++
    [.work w, .work w, .work x, .work x, .work w, .work x, .work x, .work w]

theorem hands_over_two :
    ∃ s : State 2 2, s.ran = [(1, some 1), (0, some 0)] ∧ s.taskQueue = [] ∧ HandsOver s := by
  obtain ⟨s, run, ran, queue⟩ := (system 2 2).exists_run_of_exec MovesAlone (initial 2 2)
    (pushBoth 0 1 ++ sideBySide 0 1)
    (fun s => s.ran = [(1, some 1), (0, some 0)] ∧ s.taskQueue = []) (by decide)
  exact ⟨s, ran, queue, hands_over run⟩

/-- Two calls of `submit`, and two workers that take the shared lock before either
has removed the front. -/
def bothAtFront (w x : Fin n) (i j : Fin m) : List (Action n m) :=
  pushBoth i j ++ List.replicate 6 (.work w) ++ List.replicate 6 (.work x) ++
    [.work w, .work x, .work w, .work x, .work w, .work x, .work w, .work x]

/-- The second worker takes nothing out of the front and removes the element after
it: it runs an emptied task, and the second task is lost. -/
theorem task_lost :
    ∃ s : State 2 2, (system 2 2).Run (fun _ _ => True) (initial 2 2) s ∧ ¬ HandsOver s ∧
      (∀ i, s.submit i = .done) ∧ s.taskQueue = [] ∧ ∀ run ∈ s.ran, run.2 ≠ some 1 := by
  obtain ⟨s, run, done, queue, ran, lost⟩ := (system 2 2).exists_run_of_exec (fun _ _ => True)
    (initial 2 2) (bothAtFront 0 1 0 1)
    (fun s => (∀ i, s.submit i = .done) ∧ s.taskQueue = [] ∧ (1, none) ∈ s.ran ∧
      ∀ run ∈ s.ran, run.2 ≠ some 1) (by decide)
  exact ⟨s, run, fun hands => hands.ran_content _ ran rfl, done, queue, lost⟩

end ThreadPool
end P2PFileSync
