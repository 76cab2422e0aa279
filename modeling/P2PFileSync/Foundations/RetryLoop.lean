import Mathlib.Order.Basic

/-!
# Loops that try again

A loop without a condition makes passes until one of them returns. A pass changes
the state and tries again, returns a result, or does something undefined. With a
bound on the number of passes the loop is a function (`retry`), and what it
returns does not depend on a bound that is large enough (`retry_of_le`).

Such loops update an object with a compare-exchange, which stores a value only if
the object is the one expected.
-/

set_option autoImplicit false

universe u v w

namespace RetryLoop

/-- What a pass of a loop does. -/
inductive Attempt (σ : Type u) (α : Type v) where
  | again (state : σ)
  | returned (result : α)
  | undefined

/-- One attempt and, when it returns, another one with its result. -/
def Attempt.bind {σ : Type u} {α : Type v} {β : Type w} (first : Attempt σ α)
    (rest : α → Attempt σ β) : Attempt σ β :=
  match first with
  | .again state => .again state
  | .returned result => rest result
  | .undefined => .undefined

theorem Attempt.bind_eq_returned_iff {σ : Type u} {α : Type v} {β : Type w}
    {first : Attempt σ α} {rest : α → Attempt σ β} {last : β} :
    first.bind rest = .returned last ↔
      ∃ result, first = .returned result ∧ rest result = .returned last := by
  cases first with
  | returned result => simp [Attempt.bind]
  | again state => simp [Attempt.bind]
  | undefined => simp [Attempt.bind]

/-- What the loop does within the given number of passes. -/
def retry {σ : Type u} {α : Type v} (pass : σ → Attempt σ α) : ℕ → σ → Attempt σ α
  | 0, state => .again state
  | passes + 1, state =>
      match pass state with
      | .again next => retry pass passes next
      | .returned result => .returned result
      | .undefined => .undefined

section Retry

variable {σ : Type u} {α : Type v} {pass : σ → Attempt σ α} {state next : σ} {result : α}

theorem retry_of_again (passes : ℕ) (again : pass state = .again next) :
    retry pass (passes + 1) state = retry pass passes next := by
  rw [retry, again]

theorem retry_of_returned (passes : ℕ) (returned : pass state = .returned result) :
    retry pass (passes + 1) state = .returned result := by
  rw [retry, returned]

theorem retry_of_undefined (passes : ℕ) (undefined : pass state = .undefined) :
    retry pass (passes + 1) state = .undefined := by
  rw [retry, undefined]

/-- A loop that has returned makes no further pass. -/
theorem retry_of_le {passes more : ℕ} (returned : retry pass passes state = .returned result)
    (le : passes ≤ more) : retry pass more state = .returned result := by
  induction passes generalizing state more with
  | zero => cases returned
  | succ passes ih =>
      obtain ⟨more, rfl⟩ : ∃ n, more = n + 1 := ⟨more - 1, by omega⟩
      cases attempt : pass state with
      | again next =>
          rw [retry_of_again passes attempt] at returned
          rw [retry_of_again more attempt]
          exact ih returned (Nat.le_of_succ_le_succ le)
      | returned value =>
          rw [retry_of_returned passes attempt] at returned
          rw [retry_of_returned more attempt, returned]
      | undefined =>
          rw [retry_of_undefined passes attempt] at returned
          cases returned

/-- A loop none of whose passes returns does not return. -/
theorem retry_ne_returned (never : ∀ state result, pass state ≠ .returned result)
    (passes : ℕ) (state : σ) (result : α) : retry pass passes state ≠ .returned result := by
  induction passes generalizing state with
  | zero =>
      intro impossible
      cases impossible
  | succ passes ih =>
      cases attempt : pass state with
      | again next =>
          rw [retry_of_again passes attempt]
          exact ih next
      | returned value => exact absurd attempt (never state value)
      | undefined =>
          rw [retry_of_undefined passes attempt]
          intro impossible
          cases impossible

end Retry

section CompareExchange

variable {α : Type u} [DecidableEq α] {object expected : α}

/-- `compare_exchange_strong`: whether it stored, and the object and the expected
value afterwards. -/
def compareExchangeStrong (object expected desired : α) : Bool × α × α :=
  if object = expected then (true, desired, expected) else (false, object, object)

theorem compareExchangeStrong_self (object desired : α) :
    compareExchangeStrong object object desired = (true, desired, object) :=
  if_pos rfl

theorem compareExchangeStrong_of_ne (other : object ≠ expected) (desired : α) :
    compareExchangeStrong object expected desired = (false, object, object) :=
  if_neg other

end CompareExchange

end RetryLoop
