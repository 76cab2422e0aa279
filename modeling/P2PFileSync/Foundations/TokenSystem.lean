import Mathlib.Logic.Hydra
import Mathlib.Logic.Relation
import Mathlib.Data.List.Perm.Basic

/-!
# Systems of tokens

A token system is a shared state and a pool of tokens. A step takes any token
of the pool, fires it against the state, and puts the tokens it produces back
into the pool. Messages in flight and tasks waiting in a queue are tokens; the
choice of the token is the choice of the schedule.

Two facts carry every argument about such a system.

* What holds at the start and survives every firing holds in every state a run
  reaches (`Run.preserves`).
* When every firing replaces a token by tokens of smaller rank, every run is
  finite, whatever the order of the firings and however many tokens a firing
  produces (`acc_of_rank`). The measure is the multiset of the ranks.

An open system has a second kind of step, in which the surroundings change the
state or add tokens (`OpenRun`). A schedule is executable (`exec`), so that a
run on concrete data can be computed.
-/

set_option autoImplicit false

universe u v

/-- A shared state `σ` and tokens `τ`. Firing a token gives the next state and
the tokens produced; a token may be unable to fire. -/
structure TokenSystem (σ : Type u) (τ : Type v) where
  fire : σ → τ → Option (σ × List τ)

namespace TokenSystem

/-- A state with the pool of tokens waiting to fire. -/
structure Config (σ : Type u) (τ : Type v) where
  state : σ
  tokens : List τ

variable {σ : Type u} {τ : Type v} (sys : TokenSystem σ τ)

/-! ## Steps and runs -/

/-- Fire the token at a position of the pool. -/
def fireAt (c : Config σ τ) (position : ℕ) : Option (Config σ τ) :=
  match c.tokens[position]? with
  | none => none
  | some token =>
      match sys.fire c.state token with
      | none => none
      | some (state, produced) => some ⟨state, c.tokens.eraseIdx position ++ produced⟩

/-- A step that fires the given token. -/
def Fires (c : Config σ τ) (token : τ) (d : Config σ τ) : Prop :=
  ∃ position, c.tokens[position]? = some token ∧ sys.fireAt c position = some d

/-- One step fires any token of the pool. -/
def Step (c d : Config σ τ) : Prop := ∃ token, sys.Fires c token d

/-- Finitely many steps, in any order of the tokens. -/
abbrev Run : Config σ τ → Config σ τ → Prop := Relation.ReflTransGen sys.Step

/-- No token of the pool can fire. -/
def Terminal (c : Config σ τ) : Prop := ∀ d, ¬ sys.Step c d

variable {sys}

/-- What a step does: one token leaves the pool and its products enter it. -/
theorem fireAt_eq_some {c d : Config σ τ} {position : ℕ} :
    sys.fireAt c position = some d ↔
      ∃ token state produced, c.tokens[position]? = some token ∧
        sys.fire c.state token = some (state, produced) ∧
        d = ⟨state, c.tokens.eraseIdx position ++ produced⟩ := by
  constructor
  · intro fired
    unfold fireAt at fired
    split at fired
    · cases fired
    · rename_i token found
      split at fired
      · cases fired
      · rename_i state produced outcome
        exact ⟨token, state, produced, found, outcome, (Option.some.inj fired).symm⟩
  · rintro ⟨token, state, produced, found, outcome, rfl⟩
    simp only [fireAt, found, outcome]

/-- A step, seen without positions: the pool is a permutation of the fired
token and the rest, and the rest keeps its place beside the products. -/
theorem Fires.elim {c d : Config σ τ} {token : τ} (fires : sys.Fires c token d) :
    ∃ rest produced, c.tokens.Perm (token :: rest) ∧
      sys.fire c.state token = some (d.state, produced) ∧ d.tokens = rest ++ produced := by
  obtain ⟨position, here, fired⟩ := fires
  obtain ⟨fired_token, state, produced, found, outcome, rfl⟩ := fireAt_eq_some.mp fired
  obtain rfl : token = fired_token := Option.some.inj (here.symm.trans found)
  obtain ⟨within, rfl⟩ := List.getElem?_eq_some_iff.mp found
  exact ⟨_, produced, (List.getElem_cons_eraseIdx_perm within).symm, outcome, rfl⟩

/-- The token fired was in the pool. -/
theorem Fires.mem {c d : Config σ τ} {token : τ} (fires : sys.Fires c token d) :
    token ∈ c.tokens := by
  obtain ⟨_, here, _⟩ := fires
  exact List.mem_of_getElem? here

/-- After a step the pool holds tokens from before and products of the token
fired. -/
theorem Fires.mem_tokens {c d : Config σ τ} {token : τ} (fires : sys.Fires c token d) :
    ∃ produced, sys.fire c.state token = some (d.state, produced) ∧
      ∀ new ∈ d.tokens, new ∈ c.tokens ∨ new ∈ produced := by
  obtain ⟨rest, produced, perm, outcome, tokens⟩ := fires.elim
  refine ⟨produced, outcome, ?_⟩
  intro new member
  rw [tokens] at member
  rcases List.mem_append.mp member with old | new
  · exact .inl (perm.mem_iff.mpr (List.mem_cons_of_mem _ old))
  · exact .inr new

/-- A token of the pool that is not fired stays in it. -/
theorem Fires.eq_or_mem {c d : Config σ τ} {token other : τ} (fires : sys.Fires c token d)
    (member : other ∈ c.tokens) : other = token ∨ other ∈ d.tokens := by
  obtain ⟨rest, produced, perm, -, tokens⟩ := fires.elim
  rw [tokens, List.mem_append]
  exact (List.mem_cons.mp (perm.mem_iff.mp member)).imp_right .inl

/-- The token fired and the pool afterwards are the pool before and the
products. -/
theorem Fires.perm {c d : Config σ τ} {token : τ} {state : σ} {produced : List τ}
    (fires : sys.Fires c token d) (outcome : sys.fire c.state token = some (state, produced)) :
    (token :: d.tokens).Perm (c.tokens ++ produced) := by
  obtain ⟨rest, _, perm, fired, tokens⟩ := fires.elim
  obtain ⟨-, rfl⟩ := Prod.mk.inj (Option.some.inj (outcome.symm.trans fired))
  rw [tokens, ← List.cons_append]
  exact perm.symm.append_right produced

/-- A token of the pool that can fire makes a step possible, and its products
enter the pool. -/
theorem exists_fires {c : Config σ τ} {token : τ} {state : σ} {produced : List τ}
    (member : token ∈ c.tokens) (outcome : sys.fire c.state token = some (state, produced)) :
    ∃ d, sys.Fires c token d ∧ d.state = state ∧ ∀ new ∈ produced, new ∈ d.tokens := by
  obtain ⟨position, found⟩ := List.getElem?_of_mem member
  exact ⟨_, ⟨position, found, fireAt_eq_some.mpr ⟨token, state, produced, found, outcome, rfl⟩⟩,
    rfl, fun _ fresh => List.mem_append_right _ fresh⟩

/-- When every token can fire, a terminal configuration has an empty pool. -/
theorem Terminal.tokens_eq_nil {c : Config σ τ} (terminal : sys.Terminal c)
    (enabled : ∀ token ∈ c.tokens, (sys.fire c.state token).isSome) : c.tokens = [] := by
  apply List.eq_nil_iff_forall_not_mem.mpr
  intro token member
  obtain ⟨⟨state, produced⟩, outcome⟩ := Option.isSome_iff_exists.mp (enabled token member)
  obtain ⟨d, fires, _⟩ := exists_fires member outcome
  exact terminal d ⟨token, fires⟩

/-! ## Invariants -/

/-- What every step preserves, every run preserves. -/
theorem Run.preserves {c d : Config σ τ} (run : sys.Run c d) (invariant : Config σ τ → Prop)
    (preserved : ∀ c d, invariant c → sys.Step c d → invariant d) (start : invariant c) :
    invariant d := by
  induction run with
  | refl => exact start
  | tail _ step ih => exact preserved _ _ ih step

/-! ## Open systems -/

/-- A step of an open system: a token fires that may fire, or the surroundings
act. -/
inductive OpenStep (sys : TokenSystem σ τ) (admits : σ → τ → Prop)
    (surroundings : Config σ τ → Config σ τ → Prop) : Config σ τ → Config σ τ → Prop where
  | fire {c d : Config σ τ} {token : τ} (admitted : admits c.state token)
      (fires : sys.Fires c token d) : OpenStep sys admits surroundings c d
  | act {c d : Config σ τ} (acts : surroundings c d) : OpenStep sys admits surroundings c d

/-- Finitely many steps of an open system. -/
abbrev OpenRun (sys : TokenSystem σ τ) (admits : σ → τ → Prop)
    (surroundings : Config σ τ → Config σ τ → Prop) : Config σ τ → Config σ τ → Prop :=
  Relation.ReflTransGen (sys.OpenStep admits surroundings)

variable {admits : σ → τ → Prop} {surroundings : Config σ τ → Config σ τ → Prop}

/-- What every firing and every act of the surroundings preserves, every run of
the open system preserves. -/
theorem OpenRun.preserves {c d : Config σ τ} (run : sys.OpenRun admits surroundings c d)
    (invariant : Config σ τ → Prop)
    (fire_preserves : ∀ c d token, invariant c → admits c.state token → sys.Fires c token d →
      invariant d)
    (act_preserves : ∀ c d, invariant c → surroundings c d → invariant d)
    (start : invariant c) : invariant d := by
  induction run with
  | refl => exact start
  | tail _ step ih =>
      cases step with
      | fire admitted fires => exact fire_preserves _ _ _ ih admitted fires
      | act acts => exact act_preserves _ _ ih acts

/-- Without surroundings, a run is a run of the open system that admits every
token. -/
theorem Run.openRun (admitted : ∀ s token, admits s token) {c d : Config σ τ}
    (run : sys.Run c d) : sys.OpenRun admits surroundings c d :=
  Relation.ReflTransGen.mono (fun _ _ ⟨_, fires⟩ => .fire (admitted _ _) fires) _ _ run

/-! ## Termination -/

/-- A step whose products all rank below the token fired cuts one head of the
multiset of ranks and grows back smaller ones. -/
theorem Step.cutExpand {rank : τ → ℕ} {c d : Config σ τ} (step : sys.Step c d)
    (decreasing : ∀ token ∈ c.tokens, ∀ state produced,
      sys.fire c.state token = some (state, produced) → ∀ new ∈ produced, rank new < rank token) :
    Relation.CutExpand (· < ·) (d.tokens.map rank : Multiset ℕ) (c.tokens.map rank) := by
  obtain ⟨token, fires⟩ := step
  have member : token ∈ c.tokens := fires.mem
  obtain ⟨rest, produced, perm, outcome, tokens⟩ := fires.elim
  refine ⟨(produced.map rank : List ℕ), rank token, ?_, ?_⟩
  · intro smaller found
    obtain ⟨new, produces, rfl⟩ := List.mem_map.mp (Multiset.mem_coe.mp found)
    exact decreasing token member _ _ outcome new produces
  · have pool : (c.tokens.map rank : Multiset ℕ) = rank token ::ₘ (rest.map rank : List ℕ) := by
      rw [Multiset.cons_coe, Multiset.coe_eq_coe]
      exact perm.map rank
    rw [pool, tokens, List.map_append, ← Multiset.coe_add, ← Multiset.singleton_add]
    ac_rfl

/-- **Termination by rank.** If an invariant is preserved and, where it holds,
every firing replaces a token by tokens of smaller rank, then no run that
starts in the invariant goes on for ever. -/
theorem acc_of_rank {invariant : Config σ τ → Prop} (rank : τ → ℕ)
    (preserved : ∀ c d, invariant c → sys.Step c d → invariant d)
    (decreasing : ∀ c, invariant c → ∀ token ∈ c.tokens, ∀ state produced,
      sys.fire c.state token = some (state, produced) → ∀ new ∈ produced, rank new < rank token)
    {c : Config σ τ} (start : invariant c) : Acc (fun d c => sys.Step c d) c := by
  have wellFounded : WellFounded (Relation.CutExpand ((· < ·) : ℕ → ℕ → Prop)) :=
    Nat.lt_wfRel.wf.cutExpand
  generalize heads : (c.tokens.map rank : Multiset ℕ) = ranks
  induction ranks using wellFounded.induction generalizing c with
  | _ ranks ih =>
      subst heads
      apply Acc.intro c
      intro d step
      exact ih _ (step.cutExpand (decreasing c start)) (preserved c d start step) rfl

/-- An accessible configuration starts no infinite run. -/
theorem no_infinite_run {c : Config σ τ} (accessible : Acc (fun d c => sys.Step c d) c) :
    ¬ ∃ run : ℕ → Config σ τ, run 0 = c ∧ ∀ n, sys.Step (run n) (run (n + 1)) := by
  induction accessible with
  | intro c _ ih =>
      rintro ⟨run, rfl, steps⟩
      exact ih (run 1) (steps 0) ⟨fun n => run (n + 1), rfl, fun n => steps (n + 1)⟩

/-- What every step preserves holds along an infinite run. -/
theorem infinite_run_preserves {run : ℕ → Config σ τ}
    (steps : ∀ n, sys.Step (run n) (run (n + 1))) (invariant : Config σ τ → Prop)
    (preserved : ∀ c d, invariant c → sys.Step c d → invariant d) (start : invariant (run 0))
    (n : ℕ) : invariant (run n) := by
  induction n with
  | zero => exact start
  | succ n ih => exact preserved _ _ ih (steps n)

/-- Where an invariant makes some step possible in every configuration, a run
goes on for ever. -/
theorem exists_infinite_run {invariant : Config σ τ → Prop}
    (preserved : ∀ c d, invariant c → sys.Step c d → invariant d)
    (enabled : ∀ c, invariant c → ∃ d, sys.Step c d) {c : Config σ τ} (start : invariant c) :
    ∃ run : ℕ → Config σ τ, run 0 = c ∧ ∀ n, sys.Step (run n) (run (n + 1)) := by
  choose next step using fun c : { c // invariant c } => enabled c.1 c.2
  let advance (c : { c // invariant c }) : { c // invariant c } :=
    ⟨next c, preserved _ _ c.2 (step c)⟩
  refine ⟨fun n => (advance^[n] ⟨c, start⟩).1, rfl, ?_⟩
  intro n
  show sys.Step (advance^[n] ⟨c, start⟩).1 (advance^[n + 1] ⟨c, start⟩).1
  rw [Function.iterate_succ_apply']
  exact step _

/-- From an accessible configuration some run ends. -/
theorem exists_terminal {c : Config σ τ} (accessible : Acc (fun d c => sys.Step c d) c) :
    ∃ d, sys.Run c d ∧ sys.Terminal d := by
  induction accessible with
  | intro c _ ih =>
      by_cases terminal : sys.Terminal c
      · exact ⟨c, .refl, terminal⟩
      · obtain ⟨d, step⟩ := not_forall_not.mp terminal
        obtain ⟨e, run, ended⟩ := ih d step
        exact ⟨e, .head step run, ended⟩

/-- Where an invariant makes a step possible that keeps it, as long as the pool
is not empty, some run from an accessible configuration empties the pool and
keeps the invariant. -/
theorem exists_emptied {invariant : Config σ τ → Prop}
    (advance : ∀ c, invariant c → c.tokens ≠ [] → ∃ d, sys.Step c d ∧ invariant d)
    {c : Config σ τ} (accessible : Acc (fun d c => sys.Step c d) c) (start : invariant c) :
    ∃ d, sys.Run c d ∧ invariant d ∧ d.tokens = [] := by
  induction accessible with
  | intro c _ ih =>
      by_cases empty : c.tokens = []
      · exact ⟨c, .refl, start, empty⟩
      · obtain ⟨d, step, kept⟩ := advance c start empty
        obtain ⟨e, run, ended⟩ := ih d step kept
        exact ⟨e, .head step run, ended⟩

/-! ## Executable schedules -/

variable (sys)

/-- Fire the tokens at the given positions, one after another. -/
def exec : List ℕ → Config σ τ → Option (Config σ τ)
  | [], c => some c
  | position :: schedule, c =>
      match sys.fireAt c position with
      | none => none
      | some d => exec schedule d

variable {sys}

/-- An executed schedule is a run. -/
theorem run_of_exec {schedule : List ℕ} {c d : Config σ τ}
    (executed : sys.exec schedule c = some d) : sys.Run c d := by
  induction schedule generalizing c with
  | nil =>
      cases executed
      exact .refl
  | cons position schedule ih =>
      unfold exec at executed
      split at executed
      · cases executed
      · rename_i next fired
        obtain ⟨token, _, _, found, _, _⟩ := fireAt_eq_some.mp fired
        exact .head ⟨token, position, found, fired⟩ (ih executed)

variable (sys) in
/-- Fire the tokens at the given positions, one after another, as long as they
may fire. -/
def execAdmitted (admits : σ → τ → Prop) [∀ s token, Decidable (admits s token)] :
    List ℕ → Config σ τ → Option (Config σ τ)
  | [], c => some c
  | position :: schedule, c =>
      match c.tokens[position]? with
      | none => none
      | some token =>
          if admits c.state token then
            (sys.fireAt c position).bind (execAdmitted admits schedule)
          else none

/-- A schedule that fires admitted tokens only is a run of the open system. -/
theorem openRun_of_execAdmitted [∀ s token, Decidable (admits s token)] {schedule : List ℕ}
    {c d : Config σ τ} (executed : sys.execAdmitted admits schedule c = some d) :
    sys.OpenRun admits surroundings c d := by
  induction schedule generalizing c with
  | nil =>
      cases executed
      exact .refl
  | cons position schedule ih =>
      unfold execAdmitted at executed
      split at executed
      · cases executed
      · rename_i token found
        split at executed
        · rename_i admitted
          obtain ⟨next, fired, rest⟩ := Option.bind_eq_some_iff.mp executed
          exact .head (.fire admitted ⟨position, found, fired⟩) (ih rest)
        · cases executed

end TokenSystem
