import P2PFileSync.Foundations.RetryLoop

/-!
# The queue of linked nodes

A `CASQueue` starts without a node, and its tail is a reference to its head. The
first thing a push or a pop does is to follow the link of the node at the tail or
at the head, which is null, so the queue works only as long as it is not called
(`calls_correct_iff`). A pop that finds nodes gives none of them back either, for
head and tail are one cell (`pop_never_returns`).

The nodes live in a list that stands for the memory. A pointer is null or an index
of it, and a deleted node leaves a gap.
-/

set_option autoImplicit false

universe u

namespace P2PFileSync
namespace CASQueue

open RetryLoop

/-! ## The model -/

/-- A `Node*`. -/
abbrev NodePtr := Option ℕ

structure Node (T : Type u) where
  data : T
  ref : Int32
  next : NodePtr

/-- The memory, and the cell `_head`, which `_tail` is a reference to. -/
structure Queue (T : Type u) where
  memory : List (Option (Node T))
  head : NodePtr

namespace Queue

variable {T : Type u}

/-- `CASQueue()`. -/
def fresh : Queue T := ⟨[], none⟩

def tail (queue : Queue T) : NodePtr := queue.head

/-- The node at an address; `none` for a null pointer and a deleted node. -/
def node (queue : Queue T) (pointer : NodePtr) : Option (Node T) :=
  pointer.bind fun address => (queue.memory[address]?).join

/-- Writes a node. -/
def write (queue : Queue T) (pointer : NodePtr) (node : Option (Node T)) : Queue T :=
  match pointer with
  | none => queue
  | some address => { queue with memory := queue.memory.set address node }

/-- `pointer->next()`: the link of the node, which is counted unless it is null;
`none` where there is no node. -/
def next (queue : Queue T) (pointer : NodePtr) : Option (NodePtr × Queue T) :=
  (queue.node pointer).map fun node =>
    if node.next = none then (none, queue)
    else (node.next, queue.write pointer (some { node with ref := node.ref + 1 }))

/-- `pointer->next().compare_exchange_strong(expected, desired)`. -/
def exchangeNext (queue : Queue T) (pointer expected desired : NodePtr) :
    Option (Bool × Queue T) := do
  let (_, queue) ← queue.next pointer
  let node ← queue.node pointer
  let (stored, link, _) := compareExchangeStrong node.next expected desired
  return (stored, queue.write pointer (some { node with next := link }))

/-- `compare_exchange_strong` on the cell of the head and the tail: whether it
stored, the queue, and the expected value afterwards. -/
def exchangeHead (queue : Queue T) (expected desired : NodePtr) : Bool × Queue T × NodePtr :=
  let (stored, head, expected) := compareExchangeStrong queue.head expected desired
  (stored, { queue with head := head }, expected)

/-- A pass of the loop in `push`, with the new node allocated. -/
def pushPass (node : NodePtr) (queue : Queue T) : Attempt (Queue T) (Queue T) :=
  let tail := queue.tail
  match queue.next tail with
  | none => .undefined
  | some (next, queue) =>
      if tail = queue.tail then
        if next = none then
          match queue.exchangeNext queue.tail next node with
          | none => .undefined
          | some (true, queue) => .returned queue
          | some (false, queue) => .again (queue.exchangeHead tail node).2.1
        else
          let (_, queue, tail) := queue.exchangeHead tail next
          .again (queue.exchangeHead tail node).2.1
      else .again (queue.exchangeHead tail node).2.1

/-- `push`, for at most the given number of passes. -/
def push (passes : ℕ) (queue : Queue T) (data : T) : Attempt (Queue T) (Queue T) :=
  retry (pushPass (some queue.memory.length)) passes
    { queue with memory := queue.memory ++ [some ⟨data, 0, none⟩] }

/-- A pass of the loop in `pop`; the result is a null pointer or the data of a
node. -/
def popPass (queue : Queue T) : Attempt (Queue T) (Option T × Queue T) :=
  let tail := queue.tail
  match queue.next queue.head with
  | none => .undefined
  | some (next, queue) =>
      if queue.head = tail then
        if queue.head = none then .returned (none, queue)
        else .again (queue.exchangeHead tail next).2.1
      else
        match queue.node next with
        | none => .undefined
        | some node =>
            match queue.exchangeHead queue.head next with
            | (true, queue, _) => .returned (some node.data, queue.write next none)
            | (false, queue, _) => .again queue

/-- `pop`, for at most the given number of passes. -/
def pop (passes : ℕ) (queue : Queue T) : Attempt (Queue T) (Option T × Queue T) :=
  retry popPass passes queue

/-- `empty`. -/
def isEmpty (queue : Queue T) : Bool := queue.head = queue.tail

end Queue

/-- A call of the queue. -/
inductive Call (T : Type u) where
  | push (data : T)
  | pop

section Runs

variable {T : Type u}

/-- A call, with what it returns; a push returns nothing. -/
def Call.run (passes : ℕ) (queue : Queue T) :
    Call T → Attempt (Queue T) (List (Option T) × Queue T)
  | push data => (queue.push passes data).bind fun queue => .returned ([], queue)
  | pop => (queue.pop passes).bind fun (result, queue) => .returned ([result], queue)

/-- Calls made one after another: what the pops return, and the queue afterwards. -/
def runCalls (passes : ℕ) : Queue T → List (Call T) →
    Attempt (Queue T) (List (Option T) × Queue T)
  | queue, [] => .returned ([], queue)
  | queue, call :: calls =>
      (call.run passes queue).bind fun (result, queue) =>
        (runCalls passes queue calls).bind fun (results, queue) =>
          .returned (result ++ results, queue)

/-! ## The property -/

/-- A queue as the list of its values: what the pops return, and the values that
are left. -/
def specified : List T → List (Call T) → List (Option T) × List T
  | values, [] => ([], values)
  | values, .push data :: calls => specified (values ++ [data]) calls
  | values, .pop :: calls =>
      let (results, left) := specified values.tail calls
      (values.head? :: results, left)

/-- All calls return, the pops with the values of a queue, and the queue is empty
exactly if no value is left. -/
def Correct (calls : List (Call T)) : Prop :=
  ∃ passes queue, runCalls passes Queue.fresh calls =
      .returned ((specified [] calls).1, queue) ∧
    (queue.isEmpty = true ↔ (specified [] calls).2 = [])

/-! ## What the code does -/

/-- No null pointer and no deleted node is followed. -/
theorem next_null (queue : Queue T) : queue.next none = none := rfl

/-- Following a link leaves the head where it is. -/
theorem head_of_next {queue after : Queue T} {pointer next : NodePtr}
    (followed : queue.next pointer = some (next, after)) : after.head = queue.head := by
  obtain ⟨node, _, same⟩ := Option.map_eq_some_iff.mp followed
  split at same
  · cases same
    rfl
  · cases same
    cases pointer <;> rfl

/-- No pass of a pop returns: the head is the tail, and it has a node once its link
is followed. -/
theorem popPass_ne_returned (queue : Queue T) (result : Option T × Queue T) :
    queue.popPass ≠ .returned result := by
  rw [Queue.popPass, Queue.tail]
  cases followed : queue.next queue.head with
  | none =>
      intro impossible
      cases impossible
  | some found =>
      obtain ⟨next, after⟩ := found
      have kept := head_of_next followed
      have present : after.head ≠ none := by
        intro null
        rw [← kept, null, next_null] at followed
        cases followed
      change (if after.head = queue.head then _ else _) ≠ _
      rw [if_pos kept, if_neg present]
      intro impossible
      cases impossible

/-- **A pop returns from no state of the queue.** -/
theorem pop_never_returns (passes : ℕ) (queue : Queue T) (result : Option T × Queue T) :
    queue.pop passes ≠ .returned result :=
  retry_ne_returned popPass_ne_returned passes queue result

/-- A push on a queue without a node does not return. -/
theorem push_null_ne_returned (passes : ℕ) {queue : Queue T} (null : queue.head = none) (data : T)
    (after : Queue T) : queue.push passes data ≠ .returned after := by
  cases passes with
  | zero =>
      intro impossible
      cases impossible
  | succ passes =>
      rw [Queue.push, retry_of_undefined]
      · intro impossible
        cases impossible
      · rw [Queue.pushPass, Queue.tail, null, next_null]

/-- The queue is empty whatever it holds. -/
theorem isEmpty_eq_true (queue : Queue T) : queue.isEmpty = true := decide_eq_true rfl

/-- No call on a fresh queue returns. -/
theorem run_fresh_ne_returned (passes : ℕ) (call : Call T)
    (result : List (Option T) × Queue T) : call.run passes Queue.fresh ≠ .returned result := by
  intro returned
  cases call with
  | push data =>
      obtain ⟨after, pushed, _⟩ := Attempt.bind_eq_returned_iff.mp returned
      exact push_null_ne_returned passes rfl data after pushed
  | pop =>
      obtain ⟨popped, returns, _⟩ := Attempt.bind_eq_returned_iff.mp returned
      exact pop_never_returns passes Queue.fresh popped returns

/-- **The queue works only as long as it is not called.** -/
theorem calls_correct_iff (calls : List (Call T)) : Correct calls ↔ calls = [] := by
  cases calls with
  | nil =>
      refine iff_of_true ⟨0, Queue.fresh, rfl, ?_⟩ rfl
      exact iff_of_true (isEmpty_eq_true Queue.fresh) rfl
  | cons call calls =>
      refine iff_of_false ?_ (List.cons_ne_nil call calls)
      rintro ⟨passes, queue, ran, _⟩
      obtain ⟨result, first, _⟩ := Attempt.bind_eq_returned_iff.mp ran
      exact run_fresh_ne_returned passes call result first

/-- A value is pushed and taken out again. -/
theorem push_pop_not_correct : ¬ Correct [Call.push (7 : ℕ), Call.pop] := by
  rintro ⟨passes, queue, ran, _⟩
  obtain ⟨result, first, _⟩ := Attempt.bind_eq_returned_iff.mp ran
  exact run_fresh_ne_returned passes _ result first

end Runs

end CASQueue
end P2PFileSync
