import P2PFileSync.Foundations.TokenSystem

/-!
# Calls that test before they act

A call on a shared object makes its tests one at a time and then acts. Each test
and the act is one step, so other calls act in between. A call whose test fails
is refused.

When an act never makes a test fail that passed before, a call about to act
still passes every test it has made. The concurrent calls then give the results
and the object of the same calls made one after another, in the order in which
they return (`Run.sequential`), and no call acts on an object on which its act
is undefined (`Run.enabled`).
-/

set_option autoImplicit false

universe u v w x

/-- Calls that test an object `σ` before they act on it. An act is undefined
outside its domain. -/
structure CheckedCalls (σ : Type u) (Op : Type v) (Test : Type w) where
  passes : σ → Test → Bool
  tests : Op → List Test
  act : σ → Op → Option σ
  /-- No act makes a test fail that passed before. -/
  stable : ∀ {object next : σ} {op : Op} {test : Test}, act object op = some next →
    passes object test = true → passes next test = true
  /-- The tests of a call guard its act. -/
  guarded : ∀ {object : σ} {op : Op}, (tests op).all (passes object) = true →
    (act object op).isSome

namespace CheckedCalls

variable {σ : Type u} {Op : Type v} {Test : Type w} {ι : Type x}

/-! ## One call after another -/

/-- The calls of a list made one after another: their results and the object
afterwards. -/
def runAll (run : σ → Op → Option (Bool × σ)) : σ → List Op → Option (List Bool × σ)
  | object, [] => some ([], object)
  | object, op :: ops =>
      (run object op).bind fun (result, next) =>
        (runAll run next ops).map fun (results, last) => (result :: results, last)

/-- One more call at the end. -/
theorem runAll_concat {run : σ → Op → Option (Bool × σ)} {object next last : σ} {ops : List Op}
    {results : List Bool} {op : Op} {result : Bool}
    (before : runAll run object ops = some (results, next))
    (call : run next op = some (result, last)) :
    runAll run object (ops ++ [op]) = some (results ++ [result], last) := by
  induction ops generalizing object results with
  | nil =>
      obtain ⟨rfl, rfl⟩ := Prod.mk.inj (Option.some.inj before)
      simp only [List.nil_append, runAll, call, Option.bind_some, Option.map_some]
  | cons first ops ih =>
      obtain ⟨⟨firstResult, second⟩, outcome, rest⟩ := Option.bind_eq_some_iff.mp before
      obtain ⟨⟨others, _⟩, tail, same⟩ := Option.map_eq_some_iff.mp rest
      obtain ⟨rfl, rfl⟩ := Prod.mk.inj same
      simp only [List.cons_append, runAll, outcome, Option.bind_some, ih tail, Option.map_some]

variable (calls : CheckedCalls σ Op Test)

/-- A call made while no other call runs: the result, and the object
afterwards. -/
def call (object : σ) (op : Op) : Option (Bool × σ) :=
  if (calls.tests op).all (calls.passes object) = true then
    (calls.act object op).map fun next => (true, next)
  else some (false, object)

/-! ## Calls running at once -/

/-- A running call and the tests it has still to make. -/
structure Thread (ι : Type x) (Op : Type v) (Test : Type w) where
  id : ι
  op : Op
  remaining : List Test

/-- A call that has returned. -/
structure Returned (ι : Type x) (Op : Type v) where
  id : ι
  op : Op
  result : Bool

/-- The object, and the calls that have returned, in the order in which they
returned. -/
structure Shared (σ : Type u) (ι : Type x) (Op : Type v) where
  object : σ
  returned : List (Returned ι Op)

def Thread.call (thread : Thread ι Op Test) : ι × Op := (thread.id, thread.op)

def Returned.call (returned : Returned ι Op) : ι × Op := (returned.id, returned.op)

/-- The thread returns and leaves the object given. -/
def Shared.record (shared : Shared σ ι Op) (thread : Thread ι Op Test) (result : Bool)
    (object : σ) : Shared σ ι Op :=
  ⟨object, shared.returned ++ [⟨thread.id, thread.op, result⟩]⟩

/-- The next test of a thread, or its act; `none` where the act is undefined. -/
def step (shared : Shared σ ι Op) (thread : Thread ι Op Test) :
    Option (Shared σ ι Op × List (Thread ι Op Test)) :=
  match thread.remaining with
  | test :: remaining =>
      if calls.passes shared.object test = true then
        some (shared, [{ thread with remaining := remaining }])
      else some (shared.record thread false shared.object, [])
  | [] =>
      (calls.act shared.object thread.op).map fun next => (shared.record thread true next, [])

def system : TokenSystem (Shared σ ι Op) (Thread ι Op Test) := ⟨calls.step⟩

/-- All the calls at their first step. -/
def start (object : σ) (ops : List (ι × Op)) :
    TokenSystem.Config (Shared σ ι Op) (Thread ι Op Test) :=
  ⟨⟨object, []⟩, ops.map fun op => ⟨op.1, op.2, calls.tests op.2⟩⟩

variable {calls}

/-! ## One step -/

/-- The thread has passed the tests that it has not still to make. -/
structure Thread.Current (thread : Thread ι Op Test) (calls : CheckedCalls σ Op Test)
    (object : σ) : Prop where
  remaining : ∀ test ∈ thread.remaining, test ∈ calls.tests thread.op
  passed : ∀ test ∈ calls.tests thread.op,
    test ∈ thread.remaining ∨ calls.passes object test = true

/-- An act keeps the tests that a thread has passed. -/
theorem Thread.Current.act {thread : Thread ι Op Test} {object next : σ} {op : Op}
    (current : thread.Current calls object) (acts : calls.act object op = some next) :
    thread.Current calls next where
  remaining := current.remaining
  passed test made := (current.passed test made).imp_right (calls.stable acts)

/-- A call whose test fails is refused. -/
theorem call_of_fails {object : σ} {op : Op} {test : Test} (made : test ∈ calls.tests op)
    (fails : ¬ calls.passes object test = true) : calls.call object op = some (false, object) := by
  refine if_neg fun all => fails ?_
  exact List.all_eq_true.mp all test made

/-- Everything a step can do: the thread passes a test, or it returns what the
call made at this moment returns. -/
theorem step_cases {shared : Shared σ ι Op} {thread : Thread ι Op Test}
    (current : thread.Current calls shared.object) :
    (∃ moved : Thread ι Op Test, calls.step shared thread = some (shared, [moved]) ∧
      moved.call = thread.call ∧ moved.remaining.length < thread.remaining.length ∧
      moved.Current calls shared.object) ∨
    ∃ result next, calls.step shared thread = some (shared.record thread result next, []) ∧
      calls.call shared.object thread.op = some (result, next) ∧
      (next = shared.object ∨ calls.act shared.object thread.op = some next) := by
  obtain ⟨id, op, remaining⟩ := thread
  cases remaining with
  | cons test remaining =>
      by_cases passes : calls.passes shared.object test = true
      · refine .inl ⟨⟨id, op, remaining⟩, if_pos passes, rfl, Nat.lt_succ_self _, ?_, ?_⟩
        · intro other member
          exact current.remaining other (List.mem_cons_of_mem test member)
        · intro other made
          rcases current.passed other made with waiting | passed
          · rcases List.mem_cons.mp waiting with rfl | later
            · exact .inr passes
            · exact .inl later
          · exact .inr passed
      · exact .inr ⟨false, shared.object, if_neg passes,
          call_of_fails (current.remaining test List.mem_cons_self) passes, .inl rfl⟩
  | nil =>
      have all : (calls.tests op).all (calls.passes shared.object) = true := by
        apply List.all_eq_true.mpr
        intro test made
        exact (current.passed test made).resolve_left List.not_mem_nil
      obtain ⟨next, acts⟩ := Option.isSome_iff_exists.mp (calls.guarded all)
      refine .inr ⟨true, next, ?_, ?_, .inr acts⟩
      · simp only [step, acts, Option.map_some]
      · simp only [call, if_pos all, acts, Option.map_some]

/-! ## Every run -/

/-- Every call has returned or is running, and the calls that have returned gave
the results and the object that they give one after another. -/
structure Sequential (calls : CheckedCalls σ Op Test) (object : σ) (ops : List (ι × Op))
    (config : TokenSystem.Config (Shared σ ι Op) (Thread ι Op Test)) : Prop where
  current : ∀ thread ∈ config.tokens, thread.Current calls config.state.object
  conserved : (config.state.returned.map Returned.call ++ config.tokens.map Thread.call).Perm ops
  order : runAll calls.call object (config.state.returned.map Returned.op) =
    some (config.state.returned.map Returned.result, config.state.object)

theorem Sequential.start (object : σ) (ops : List (ι × Op)) :
    Sequential calls object ops (calls.start object ops) where
  current := by
    intro thread member
    obtain ⟨op, _, rfl⟩ := List.mem_map.mp member
    exact ⟨fun _ made => made, fun _ made => .inl made⟩
  conserved := by
    simp only [CheckedCalls.start, List.map_nil, List.nil_append, List.map_map]
    exact List.Perm.of_eq (List.map_id ops)
  order := rfl

/-- A step keeps the calls sequential. -/
theorem Sequential.step {object : σ} {ops : List (ι × Op)}
    {c d : TokenSystem.Config (Shared σ ι Op) (Thread ι Op Test)}
    (sequential : Sequential calls object ops c) (step : calls.system.Step c d) :
    Sequential calls object ops d := by
  obtain ⟨thread, fires⟩ := step
  obtain ⟨produced, outcome, members⟩ := fires.mem_tokens
  have pool := (fires.perm outcome).map Thread.call
  rcases step_cases (sequential.current thread fires.mem) with
    ⟨moved, moves, same, -, current⟩ | ⟨result, next, returns, called, kept⟩
  · obtain ⟨state, rfl⟩ := Prod.mk.inj (Option.some.inj (moves.symm.trans outcome))
    refine ⟨?_, ?_, state ▸ sequential.order⟩
    · intro other member
      rw [← state]
      rcases members other member with old | new
      · exact sequential.current other old
      · exact List.mem_singleton.mp new ▸ current
    · have unchanged : (d.tokens.map Thread.call).Perm (c.tokens.map Thread.call) := by
        rw [List.map_append, List.map_singleton, same] at pool
        exact (pool.trans (List.perm_append_singleton _ _)).cons_inv
      rw [← state]
      exact (unchanged.append_left _).trans sequential.conserved
  · obtain ⟨state, rfl⟩ := Prod.mk.inj (Option.some.inj (returns.symm.trans outcome))
    refine ⟨?_, ?_, ?_⟩
    · intro other member
      rw [← state]
      have current := sequential.current other
        ((members other member).resolve_right List.not_mem_nil)
      rcases kept with unchanged | acts
      · exact unchanged ▸ current
      · exact current.act acts
    · have shorter : (thread.call :: d.tokens.map Thread.call).Perm
          (c.tokens.map Thread.call) := by
        rwa [List.append_nil] at pool
      rw [← state, Shared.record, List.map_append, List.append_assoc]
      exact (shorter.append_left _).trans sequential.conserved
    · rw [← state, Shared.record, List.map_append, List.map_append]
      exact runAll_concat sequential.order called

variable {object : σ} {ops : List (ι × Op)}
  {config : TokenSystem.Config (Shared σ ι Op) (Thread ι Op Test)}

/-- **In every run, the calls that have returned gave the results and the object
that they give one after another, in the order in which they returned.** -/
theorem Run.sequential (run : calls.system.Run (calls.start object ops) config) :
    Sequential calls object ops config :=
  run.preserves (Sequential calls object ops) (fun _ _ sequential step => sequential.step step)
    (Sequential.start object ops)

/-- **In every run, the next step of every running call is defined.** -/
theorem Run.enabled (run : calls.system.Run (calls.start object ops) config) :
    ∀ thread ∈ config.tokens, (calls.step config.state thread).isSome := by
  intro thread member
  rcases step_cases ((Run.sequential run).current thread member) with
    ⟨moved, moves, -⟩ | ⟨result, next, returns, -⟩
  · rw [moves, Option.isSome_some]
  · rw [returns, Option.isSome_some]

/-- Every call returns: no run goes on for ever. -/
theorem acc_start (object : σ) (ops : List (ι × Op)) :
    Acc (fun d c => calls.system.Step c d) (calls.start object ops) := by
  have preserved : ∀ c d, Sequential calls object ops c → calls.system.Step c d →
      Sequential calls object ops d := fun _ _ sequential step => sequential.step step
  refine TokenSystem.acc_of_rank (fun thread => thread.remaining.length) preserved ?_
    (Sequential.start object ops)
  intro c sequential thread member state produced outcome new produces
  rcases step_cases (sequential.current thread member) with
    ⟨moved, moves, -, shorter, -⟩ | ⟨result, next, returns, -⟩
  · obtain ⟨-, rfl⟩ := Prod.mk.inj (Option.some.inj (moves.symm.trans outcome))
    exact List.mem_singleton.mp produces ▸ shorter
  · obtain ⟨-, rfl⟩ := Prod.mk.inj (Option.some.inj (returns.symm.trans outcome))
    cases produces

end CheckedCalls
