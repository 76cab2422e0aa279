import Mathlib.Logic.Relation

/-!
# Systems of named actions

An action system is a state and the actions that can be taken in it; an action
gives the next state, or cannot be taken. A run takes any actions in any order,
and a guard restricts the actions it takes.

What holds at the start and survives every action the guard allows holds in every
state a guarded run reaches (`Run.preserves`). A schedule is a list of actions and
is executable (`exec`).

An observer sees some of the actions of a run, as a list of labels. When every
action that is seen is a step of an abstract system with the same label, and the
others leave the abstract state as it is, the labels of every run are those of a
run of the abstract system (`Traced.simulates`).
-/

set_option autoImplicit false

universe u v w x

/-- States `σ` and actions `α`, with the state after an action. -/
structure ActionSystem (σ : Type u) (α : Type v) where
  act : σ → α → Option σ

namespace ActionSystem

variable {σ : Type u} {α : Type v} (sys : ActionSystem σ α)

/-- One action that the guard allows in the state. -/
def Step (guard : σ → α → Prop) (s t : σ) : Prop := ∃ a, guard s a ∧ sys.act s a = some t

/-- Finitely many actions, each allowed by the guard where it is taken. -/
abbrev Run (guard : σ → α → Prop) : σ → σ → Prop := Relation.ReflTransGen (sys.Step guard)

/-- The state after a schedule whose actions the guard allows. -/
def exec (guard : σ → α → Prop) [∀ s a, Decidable (guard s a)] (s : σ) : List α → Option σ
  | [] => some s
  | a :: schedule => if guard s a then (sys.act s a).bind fun t => exec guard t schedule else none

variable {sys}

/-- An invariant that survives every allowed action holds along a run. -/
theorem Run.preserves {guard : σ → α → Prop} {invariant : σ → Prop}
    (step : ∀ {s t : σ} {a : α}, invariant s → guard s a → sys.act s a = some t → invariant t)
    {s t : σ} (run : sys.Run guard s t) (start : invariant s) : invariant t := by
  induction run with
  | refl => exact start
  | tail _ last ih =>
      obtain ⟨a, allowed, taken⟩ := last
      exact step ih allowed taken

/-- A schedule that can be executed is a run. -/
theorem run_of_exec {guard : σ → α → Prop} [∀ s a, Decidable (guard s a)] {s t : σ}
    {schedule : List α} (executed : sys.exec guard s schedule = some t) : sys.Run guard s t := by
  induction schedule generalizing s with
  | nil =>
      cases executed
      exact .refl
  | cons a schedule ih =>
      rw [exec] at executed
      by_cases allowed : guard s a
      · rw [if_pos allowed] at executed
        obtain ⟨next, taken, rest⟩ := Option.bind_eq_some_iff.mp executed
        exact .head ⟨a, allowed, taken⟩ (ih rest)
      · rw [if_neg allowed] at executed
        cases executed

/-- What a schedule that can be executed leads to is reached by a run. -/
theorem exists_run_of_exec (sys : ActionSystem σ α) (guard : σ → α → Prop)
    [∀ s a, Decidable (guard s a)] (s : σ) (schedule : List α) (found : σ → Prop)
    [DecidablePred found]
    (executed : (sys.exec guard s schedule).any (fun t => decide (found t)) = true) :
    ∃ t, sys.Run guard s t ∧ found t := by
  obtain ⟨t, reached, holds⟩ := (Option.any_eq_true _ _).mp executed
  exact ⟨t, run_of_exec reached, of_decide_eq_true holds⟩

/-! ## What an observer sees -/

variable {β : Type w} {ε : Type x}

/-- Steps with labels, and their labels in order. -/
inductive Labelled (step : β → ε → β → Prop) : β → List ε → β → Prop where
  | refl (b : β) : Labelled step b [] b
  | head {b c d : β} {label : ε} {labels : List ε} (first : step b label c)
      (rest : Labelled step c labels d) : Labelled step b (label :: labels) d

variable (sys) in
/-- A run, with what an observer sees of its actions in order. -/
inductive Traced (guard : σ → α → Prop) (observe : σ → α → Option ε) : σ → List ε → σ → Prop where
  | refl (s : σ) : Traced guard observe s [] s
  | head {s t u : σ} {a : α} {labels : List ε} (allowed : guard s a) (taken : sys.act s a = some t)
      (rest : Traced guard observe t labels u) :
      Traced guard observe s ((observe s a).toList ++ labels) u

/-- What an observer sees is a step of an abstract system, and nothing is no step. -/
inductive Matches (step : β → ε → β → Prop) (b : β) : Option ε → β → Prop where
  | hidden : Matches step b none b
  | seen {c : β} {label : ε} (taken : step b label c) : Matches step b (some label) c

theorem Matches.labelled {step : β → ε → β → Prop} {b c d : β} {seen : Option ε}
    (same : Matches step b seen c) {labels : List ε} (rest : Labelled step c labels d) :
    Labelled step b (seen.toList ++ labels) d := by
  cases same with
  | hidden => exact rest
  | seen taken => exact .head taken rest

section Traced

variable {guard : σ → α → Prop} {observe : σ → α → Option ε}

/-- **Simulation.** Where every allowed action of a state with the invariant is
matched by the abstract system, the labels of a run are those of an abstract run. -/
theorem Traced.simulates {step : β → ε → β → Prop} {invariant : σ → Prop} {stands : σ → β → Prop}
    (keeps : ∀ {s t : σ} {a : α}, invariant s → guard s a → sys.act s a = some t → invariant t)
    (matched : ∀ {s t : σ} {a : α} {b : β}, invariant s → guard s a → sys.act s a = some t →
      stands s b → ∃ c, Matches step b (observe s a) c ∧ stands t c)
    {s t : σ} {labels : List ε} (run : sys.Traced guard observe s labels t) (start : invariant s)
    {b : β} (first : stands s b) : ∃ c, Labelled step b labels c ∧ stands t c := by
  induction run generalizing b with
  | refl => exact ⟨b, .refl b, first⟩
  | @head s t u a labels allowed taken _ ih =>
      obtain ⟨middle, same, next⟩ := matched start allowed taken first
      obtain ⟨last, rest, stands⟩ := ih (keeps start allowed taken) next
      exact ⟨last, same.labelled rest, stands⟩

variable (sys observe) in
/-- What an observer sees of a schedule. -/
def trace (s : σ) : List α → List ε
  | [] => []
  | a :: schedule =>
      (observe s a).toList ++
        match sys.act s a with
        | some t => trace t schedule
        | none => []

/-- A schedule that can be executed is a traced run. -/
theorem traced_of_exec [∀ s a, Decidable (guard s a)] {s t : σ} {schedule : List α}
    (executed : sys.exec guard s schedule = some t) :
    sys.Traced guard observe s (sys.trace observe s schedule) t := by
  induction schedule generalizing s with
  | nil =>
      cases executed
      exact .refl _
  | cons a schedule ih =>
      rw [exec] at executed
      by_cases allowed : guard s a
      · rw [if_pos allowed] at executed
        obtain ⟨next, taken, rest⟩ := Option.bind_eq_some_iff.mp executed
        rw [trace, taken]
        exact .head allowed taken (ih rest)
      · rw [if_neg allowed] at executed
        cases executed

/-- What a schedule that can be executed leads to, with what is seen of it. -/
theorem exists_traced_of_exec (sys : ActionSystem σ α) (guard : σ → α → Prop)
    [∀ s a, Decidable (guard s a)] (observe : σ → α → Option ε) (s : σ) (schedule : List α)
    (found : σ → Prop) [DecidablePred found]
    (executed : (sys.exec guard s schedule).any (fun t => decide (found t)) = true) :
    ∃ t, sys.Traced guard observe s (sys.trace observe s schedule) t ∧ found t := by
  obtain ⟨t, reached, holds⟩ := (Option.any_eq_true _ _).mp executed
  exact ⟨t, traced_of_exec reached, of_decide_eq_true holds⟩

end Traced

end ActionSystem
