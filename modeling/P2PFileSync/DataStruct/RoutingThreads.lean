import P2PFileSync.DataStruct.RoutingTable
import P2PFileSync.Foundations.TokenSystem

/-!
# Calls on a routing table at once

`add_new_route` does its work under one lock. `try_update_table` compares the
ttls under the shared lock, gives it up, and compares them again under the
exclusive lock before it writes. Each section under a lock is one step, and the
steps of any number of calls interleave in any order.

A step leaves the table as it is or writes the route of its own call, and it
writes over a route only where its ttl is smaller (`route_of_fire`). So no route
is lost, no ttl increases, and the address and the ttl of a route come from one
call. A call that has found its destination has the smaller ttl, or is about to
compare again (`Settles`).

Main result: `concurrent_calls_keep_routes`.
-/

set_option autoImplicit false

namespace P2PFileSync

namespace RoutingTable

universe u

variable {T : Type u}

/-! ## The calls -/

/-- The arguments of `add_new_route` and `try_update_table`. -/
structure NewRoute (T : Type u) where
  dest : T
  newIp : IPAddress
  newTtl : Int32

/-- The entry written for the arguments: the `int` becomes a `uint32_t`. -/
def NewRoute.entry (route : NewRoute T) : IPAddress × UInt32 :=
  (route.newIp, route.newTtl.toUInt32)

inductive RouteCall (T : Type u) where
  | addNewRoute (route : NewRoute T)
  | tryUpdateTable (route : NewRoute T)

def RouteCall.route : RouteCall T → NewRoute T
  | .addNewRoute route => route
  | .tryUpdateTable route => route

/-- A call at its first section, or a `try_update_table` that has given up the
shared lock and waits for the exclusive one. -/
inductive RouteThread (T : Type u) where
  | begins (call : RouteCall T)
  | upgraded (route : NewRoute T)

def RouteThread.route : RouteThread T → NewRoute T
  | .begins call => call.route
  | .upgraded route => route

variable [DecidableEq T]

/-- The section of `try_update_table` under the exclusive lock. The iterator kept
from the first section still stands for the entry of the destination, since the
map erases nothing; `none` where there is no such entry. -/
def updateEntry (table : RoutingTable T) (route : NewRoute T) :
    Option (Bool × RoutingTable T) :=
  (table.routingMap.lookup route.dest).map fun (_, ttl) =>
    if ttl > route.newTtl.toUInt32 then
      (true, ⟨table.routingMap.insert route.dest (route.newIp, route.newTtl.toUInt32)⟩)
    else (false, table)

/-- The next section of a thread. -/
def fire (table : RoutingTable T) : RouteThread T → Option (RoutingTable T × List (RouteThread T))
  | .begins (.addNewRoute route) =>
      some ((table.addNewRoute route.dest route.newIp route.newTtl.toUInt32).2, [])
  | .begins (.tryUpdateTable route) =>
      match table.routingMap.lookup route.dest with
      | none => some (table, [])
      | some (_, ttl) =>
          if ttl > route.newTtl.toUInt32 then some (table, [.upgraded route])
          else some (table, [])
  | .upgraded route => (table.updateEntry route).map fun (_, next) => (next, [])

def system : TokenSystem (RoutingTable T) (RouteThread T) := ⟨fire⟩

/-- All the calls at their first section. -/
def start (table : RoutingTable T) (calls : List (RouteCall T)) :
    TokenSystem.Config (RoutingTable T) (RouteThread T) :=
  ⟨table, calls.map .begins⟩

/-! ## One section -/

variable {table next : RoutingTable T} {thread : RouteThread T} {produced : List (RouteThread T)}

/-- The section under the exclusive lock does what a whole call would do. -/
theorem updateEntry_of_some {route : NewRoute T} {entry : IPAddress × UInt32}
    (known : table.route route.dest = some entry) :
    table.updateEntry route =
      some (table.tryUpdateTable route.dest route.newIp route.newTtl.toUInt32) := by
  unfold RoutingTable.route at known
  simp only [updateEntry, tryUpdateTable, known, Option.map_some]

/-- The table has the route of the thread, and had none or one with a greater
ttl. -/
structure Writes (table : RoutingTable T) (route : NewRoute T) (next : RoutingTable T) :
    Prop where
  written : next.route route.dest = some route.entry
  smaller : ∀ entry, table.route route.dest = some entry → route.entry.2 ≤ entry.2
  others : ∀ other, other ≠ route.dest → next.route other = table.route other

theorem addNewRoute_cases (table : RoutingTable T) (route : NewRoute T) :
    (table.addNewRoute route.dest route.newIp route.newTtl.toUInt32).2 = table ∨
      table.Writes route (table.addNewRoute route.dest route.newIp route.newTtl.toUInt32).2 := by
  cases known : table.route route.dest with
  | none =>
      refine .inr ⟨route_addNewRoute_of_none known _ _, ?_, ?_⟩
      · intro entry found
        rw [known] at found
        cases found
      · intro other different
        exact route_addNewRoute_ne different _ _
  | some entry =>
      rw [addNewRoute_of_some known]
      exact .inl rfl

/-- A call of `try_update_table` on a known destination leaves the smaller of the
two ttls. -/
theorem tryUpdateTable_cases {route : NewRoute T} {entry : IPAddress × UInt32}
    (known : table.route route.dest = some entry) :
    ((table.tryUpdateTable route.dest route.newIp route.newTtl.toUInt32).2 = table ∧
        entry.2 ≤ route.entry.2) ∨
      table.Writes route (table.tryUpdateTable route.dest route.newIp route.newTtl.toUInt32).2 := by
  by_cases smaller : route.newTtl.toUInt32 < entry.2
  · refine .inr ⟨?_, ?_, ?_⟩
    · rw [route_tryUpdateTable_of_some known, if_pos smaller]
      rfl
    · intro stored found
      obtain rfl := Option.some.inj (found.symm.trans known)
      exact UInt32.le_of_lt smaller
    · intro other different
      exact route_tryUpdateTable_ne different _ _
  · refine .inl ⟨?_, UInt32.not_lt.mp smaller⟩
    unfold RoutingTable.route at known
    simp only [tryUpdateTable, known, if_neg smaller]

/-- Everything a section can do: it leaves the table as it is or writes the route
of its call, and its thread returns or waits for the exclusive lock. -/
theorem route_of_fire (outcome : table.fire thread = some (next, produced)) :
    (next = table ∨ table.Writes thread.route next) ∧
      (produced = [] ∨
        thread = .begins (.tryUpdateTable thread.route) ∧ produced = [.upgraded thread.route]) := by
  cases thread with
  | begins call =>
      cases call with
      | addNewRoute route =>
          obtain ⟨rfl, rfl⟩ := Prod.mk.inj (Option.some.inj outcome)
          exact ⟨addNewRoute_cases table route, .inl rfl⟩
      | tryUpdateTable route =>
          rw [fire] at outcome
          split at outcome
          · obtain ⟨rfl, rfl⟩ := Prod.mk.inj (Option.some.inj outcome)
            exact ⟨.inl rfl, .inl rfl⟩
          · split at outcome
            · obtain ⟨rfl, rfl⟩ := Prod.mk.inj (Option.some.inj outcome)
              exact ⟨.inl rfl, .inr ⟨rfl, rfl⟩⟩
            · obtain ⟨rfl, rfl⟩ := Prod.mk.inj (Option.some.inj outcome)
              exact ⟨.inl rfl, .inl rfl⟩
  | upgraded route =>
      obtain ⟨answer, updated, same⟩ := Option.map_eq_some_iff.mp outcome
      obtain ⟨rfl, rfl⟩ := Prod.mk.inj same
      refine ⟨?_, .inl rfl⟩
      obtain ⟨entry, known, -⟩ := Option.map_eq_some_iff.mp updated
      rw [updateEntry_of_some known] at updated
      obtain rfl := Option.some.inj updated
      exact (tryUpdateTable_cases known).imp_left And.left

theorem route_of_produced (outcome : table.fire thread = some (next, produced))
    {new : RouteThread T} (member : new ∈ produced) : new.route = thread.route := by
  rcases (route_of_fire outcome).2 with rfl | ⟨-, rfl⟩
  · cases member
  · rw [List.mem_singleton.mp member]
    rfl

/-- A section keeps the route of every destination, or one with a smaller ttl. -/
theorem route_le_of_fire (outcome : table.fire thread = some (next, produced)) {dest : T}
    {entry : IPAddress × UInt32} (known : table.route dest = some entry) :
    ∃ newer, next.route dest = some newer ∧ newer.2 ≤ entry.2 := by
  rcases (route_of_fire outcome).1 with rfl | writes
  · exact ⟨entry, known, UInt32.le_refl _⟩
  · by_cases same : dest = thread.route.dest
    · rw [same] at known ⊢
      exact ⟨_, writes.written, writes.smaller entry known⟩
    · exact ⟨entry, (writes.others dest same).trans known, UInt32.le_refl _⟩

/-- The section under the exclusive lock leaves a ttl not above that of its
call. -/
theorem route_le_of_upgraded {route : NewRoute T}
    (outcome : table.fire (.upgraded route) = some (next, produced)) :
    ∃ entry, next.route route.dest = some entry ∧ entry.2 ≤ route.entry.2 := by
  obtain ⟨answer, updated, same⟩ := Option.map_eq_some_iff.mp outcome
  obtain ⟨rfl, -⟩ := Prod.mk.inj same
  obtain ⟨entry, known, -⟩ := Option.map_eq_some_iff.mp updated
  rw [updateEntry_of_some known] at updated
  obtain rfl := Option.some.inj updated
  rcases tryUpdateTable_cases known with ⟨unchanged, le⟩ | writes
  · refine ⟨entry, ?_, le⟩
    rw [unchanged]
    exact known
  · exact ⟨_, writes.written, UInt32.le_refl _⟩

/-- A call of `try_update_table` that finds its destination has a ttl that is not
below the stored one, or waits for the exclusive lock. -/
theorem settles_of_test {route : NewRoute T} {entry : IPAddress × UInt32}
    (known : table.route route.dest = some entry)
    (outcome : table.fire (.begins (.tryUpdateTable route)) = some (next, produced)) :
    next = table ∧ (entry.2 ≤ route.entry.2 ∨ .upgraded route ∈ produced) := by
  unfold RoutingTable.route at known
  simp only [fire, known] at outcome
  split at outcome
  · obtain ⟨rfl, rfl⟩ := Prod.mk.inj (Option.some.inj outcome)
    exact ⟨rfl, .inr (List.mem_singleton_self _)⟩
  · rename_i greater
    obtain ⟨rfl, rfl⟩ := Prod.mk.inj (Option.some.inj outcome)
    exact ⟨rfl, .inl (UInt32.not_lt.mp greater)⟩

/-! ## Every run -/

open TokenSystem

variable {c d : Config (RoutingTable T) (RouteThread T)} {calls : List (RouteCall T)}

/-- No route is lost in a run, and no ttl increases. -/
theorem route_le_of_run (run : system.Run c d) {dest : T} {entry : IPAddress × UInt32}
    (known : c.state.route dest = some entry) :
    ∃ newer, d.state.route dest = some newer ∧ newer.2 ≤ entry.2 := by
  induction run with
  | refl => exact ⟨entry, known, UInt32.le_refl _⟩
  | tail _ step ih =>
      obtain ⟨newer, found, le⟩ := ih
      obtain ⟨thread, fires⟩ := step
      obtain ⟨produced, outcome, -⟩ := fires.mem_tokens
      obtain ⟨newest, here, smaller⟩ := route_le_of_fire outcome found
      exact ⟨newest, here, UInt32.le_trans smaller le⟩

/-- The calls running are calls that were made, those that wait for the exclusive
lock have a route to write over, and each route was there before or is that of
one call. -/
structure FromCalls (table : RoutingTable T) (calls : List (RouteCall T))
    (config : Config (RoutingTable T) (RouteThread T)) : Prop where
  threads : ∀ thread ∈ config.tokens, ∃ call ∈ calls, call.route = thread.route
  upgradable : ∀ route, .upgraded route ∈ config.tokens →
    (config.state.route route.dest).isSome
  routes : ∀ dest entry, config.state.route dest = some entry →
    table.route dest = some entry ∨
      ∃ call ∈ calls, call.route.dest = dest ∧ call.route.entry = entry

theorem fromCalls_start (table : RoutingTable T) (calls : List (RouteCall T)) :
    FromCalls table calls (start table calls) where
  threads := by
    intro thread member
    obtain ⟨call, made, rfl⟩ := List.mem_map.mp member
    exact ⟨call, made, rfl⟩
  upgradable := by
    intro route member
    obtain ⟨call, -, impossible⟩ := List.mem_map.mp member
    cases impossible
  routes := fun _ _ found => .inl found

/-- A call waits for the exclusive lock only where it has found its
destination. -/
theorem isSome_of_produced {route : NewRoute T}
    (outcome : table.fire thread = some (next, produced)) (member : .upgraded route ∈ produced) :
    (table.route route.dest).isSome := by
  rcases (route_of_fire outcome).2 with rfl | ⟨test, rfl⟩
  · cases member
  · obtain ⟨rfl⟩ := List.mem_singleton.mp member
    rw [test] at outcome
    cases known : table.route thread.route.dest with
    | some entry => rfl
    | none =>
        unfold RoutingTable.route at known
        simp only [fire, known] at outcome
        cases outcome

theorem FromCalls.step (fromCalls : FromCalls table calls c) (step : system.Step c d) :
    FromCalls table calls d := by
  obtain ⟨thread, fires⟩ := step
  obtain ⟨produced, outcome, members⟩ := fires.mem_tokens
  obtain ⟨made, isCall, same⟩ := fromCalls.threads thread fires.mem
  refine ⟨?_, ?_, ?_⟩
  · intro other member
    rcases members other member with old | new
    · exact fromCalls.threads other old
    · exact ⟨made, isCall, same.trans (route_of_produced outcome new).symm⟩
  · intro route member
    have before : (c.state.route route.dest).isSome := by
      rcases members _ member with old | new
      · exact fromCalls.upgradable route old
      · exact isSome_of_produced outcome new
    obtain ⟨entry, known⟩ := Option.isSome_iff_exists.mp before
    obtain ⟨newer, found, -⟩ := route_le_of_fire outcome known
    rw [found, Option.isSome_some]
  · intro dest entry found
    rcases (route_of_fire outcome).1 with unchanged | writes
    · exact fromCalls.routes dest entry (unchanged ▸ found)
    · by_cases own : dest = thread.route.dest
      · rw [own, writes.written] at found
        obtain rfl := Option.some.inj found
        exact .inr ⟨made, isCall, by rw [same, own], by rw [same]⟩
      · exact fromCalls.routes dest entry ((writes.others dest own).symm.trans found)

theorem fromCalls_of_run (run : system.Run (start table calls) c) : FromCalls table calls c :=
  run.preserves (FromCalls table calls) (fun _ _ fromCalls step => fromCalls.step step)
    (fromCalls_start table calls)

/-- The next section of every running call is defined. -/
theorem FromCalls.enabled (fromCalls : FromCalls table calls c) :
    ∀ thread ∈ c.tokens, (c.state.fire thread).isSome := by
  intro thread member
  cases thread with
  | begins call =>
      cases call with
      | addNewRoute route => rfl
      | tryUpdateTable route =>
          rw [fire]
          split
          · rfl
          · split <;> rfl
  | upgraded route =>
      obtain ⟨entry, known⟩ := Option.isSome_iff_exists.mp (fromCalls.upgradable route member)
      rw [fire, updateEntry_of_some known]
      rfl

/-- The destination of the route has a ttl not above that of the route, or a call
with this route waits for the exclusive lock. -/
def Settles (route : NewRoute T) (config : Config (RoutingTable T) (RouteThread T)) : Prop :=
  (∃ entry, config.state.route route.dest = some entry ∧ entry.2 ≤ route.entry.2) ∨
    .upgraded route ∈ config.tokens

theorem Settles.step {route : NewRoute T} (settles : Settles route c) (step : system.Step c d) :
    Settles route d := by
  obtain ⟨thread, fires⟩ := step
  obtain ⟨produced, outcome, -⟩ := fires.mem_tokens
  rcases settles with ⟨entry, known, le⟩ | waits
  · obtain ⟨newer, found, smaller⟩ := route_le_of_fire outcome known
    exact .inl ⟨newer, found, UInt32.le_trans smaller le⟩
  · rcases fires.eq_or_mem waits with rfl | still
    · exact .inl (route_le_of_upgraded outcome)
    · exact .inr still

/-- A call of `try_update_table` that finds its destination is settled from then
on. -/
theorem settles_of_fires {route : NewRoute T}
    (fires : system.Fires c (.begins (.tryUpdateTable route)) d)
    (found : c.state.canDelivered route.dest = true) : Settles route d := by
  obtain ⟨entry, known⟩ := Option.isSome_iff_exists.mp found
  obtain ⟨rest, produced, -, outcome, tokens⟩ := fires.elim
  obtain ⟨unchanged, le | waits⟩ := settles_of_test known outcome
  · exact .inl ⟨entry, unchanged ▸ known, le⟩
  · refine .inr ?_
    rw [tokens]
    exact List.mem_append_right rest waits

/-- **In every run of concurrent calls** a route once present is found by
`get_next_peer` ever after and its ttl never increases, the address and the ttl
of a route were there at the start or come from one call, no section is
undefined, and when all calls have returned, the ttl is not above that of any
call of `try_update_table` that found the destination. -/
theorem concurrent_calls_keep_routes (run : system.Run (start table calls) c)
    (later : system.Run c d) :
    (∀ dest, c.state.canDelivered dest = true → ∃ peer, d.state.getNextPeer dest = some peer) ∧
      (∀ dest entry, c.state.route dest = some entry →
        ∃ newer, d.state.route dest = some newer ∧ newer.2 ≤ entry.2) ∧
      (∀ dest entry, d.state.route dest = some entry → table.route dest = some entry ∨
        ∃ call ∈ calls, call.route.dest = dest ∧ call.route.entry = entry) ∧
      (∀ thread ∈ d.tokens, (d.state.fire thread).isSome) ∧
      ∀ route next last, system.Fires c (.begins (.tryUpdateTable route)) next →
        c.state.canDelivered route.dest = true → system.Run next last → last.tokens = [] →
        ∃ entry, last.state.route route.dest = some entry ∧
          entry.2 ≤ route.newTtl.toUInt32 := by
  have fromCalls := fromCalls_of_run (run.trans later)
  refine ⟨?_, fun _ _ known => route_le_of_run later known, fromCalls.routes, fromCalls.enabled, ?_⟩
  · intro dest found
    obtain ⟨entry, known⟩ := Option.isSome_iff_exists.mp found
    obtain ⟨newer, still, -⟩ := route_le_of_run later known
    exact ⟨newer.1, by rw [getNextPeer, show d.state.routingMap.lookup dest = _ from still]; rfl⟩
  · intro route next last fires found rest finished
    have settles : Settles route last :=
      rest.preserves (Settles route) (fun _ _ settles step => settles.step step)
        (settles_of_fires fires found)
    rcases settles with known | waits
    · exact known
    · rw [finished] at waits
      cases waits

/-- A route of ttl 5 is added, and two calls with the ttls 3 and 4 pass their
tests. The second one is refused when it compares again. -/
theorem route_after_interleaved_updates :
    ∃ c d, system.Run (start (⟨∅⟩ : RoutingTable ℕ) [.addNewRoute ⟨1, ⟨true, 1, []⟩, 5⟩,
        .tryUpdateTable ⟨1, ⟨true, 2, []⟩, 3⟩, .tryUpdateTable ⟨1, ⟨true, 3, []⟩, 4⟩]) c ∧
      system.Run c d ∧ c.state.canDelivered 1 = true ∧ d.tokens = [] ∧
      ∃ peer, d.state.getNextPeer 1 = some peer := by
  have first : system.exec [0] (start (⟨∅⟩ : RoutingTable ℕ)
      [.addNewRoute ⟨1, ⟨true, 1, []⟩, 5⟩, .tryUpdateTable ⟨1, ⟨true, 2, []⟩, 3⟩,
        .tryUpdateTable ⟨1, ⟨true, 3, []⟩, 4⟩]) =
      some ⟨((⟨∅⟩ : RoutingTable ℕ).addNewRoute 1 ⟨true, 1, []⟩ 5).2,
        [.begins (.tryUpdateTable ⟨1, ⟨true, 2, []⟩, 3⟩),
          .begins (.tryUpdateTable ⟨1, ⟨true, 3, []⟩, 4⟩)]⟩ := rfl
  have second : system.exec [0, 0, 0, 0]
      ⟨((⟨∅⟩ : RoutingTable ℕ).addNewRoute 1 ⟨true, 1, []⟩ 5).2,
        [.begins (.tryUpdateTable ⟨1, ⟨true, 2, []⟩, 3⟩),
          .begins (.tryUpdateTable ⟨1, ⟨true, 3, []⟩, 4⟩)]⟩ =
      some ⟨(((⟨∅⟩ : RoutingTable ℕ).addNewRoute 1 ⟨true, 1, []⟩ 5).2.tryUpdateTable 1
        ⟨true, 2, []⟩ 3).2, []⟩ := rfl
  have run := run_of_exec first
  have later := run_of_exec second
  exact ⟨_, _, run, later, rfl, rfl, (concurrent_calls_keep_routes run later).1 1 rfl⟩

/-- The sections a thread may have to make after the next one. -/
def RouteThread.rank : RouteThread T → ℕ
  | .begins _ => 1
  | .upgraded _ => 0

/-- Every call returns: no run goes on for ever. -/
theorem acc_start (table : RoutingTable T) (calls : List (RouteCall T)) :
    Acc (fun d c => system.Step c d) (start table calls) := by
  have preserved : ∀ c d, FromCalls table calls c → system.Step c d → FromCalls table calls d :=
    fun _ _ fromCalls step => fromCalls.step step
  refine acc_of_rank RouteThread.rank preserved ?_ (fromCalls_start table calls)
  intro c _ thread _ state produced outcome new produces
  rcases (route_of_fire outcome).2 with rfl | ⟨test, rfl⟩
  · cases produces
  · rw [List.mem_singleton.mp produces, test]
    exact Nat.zero_lt_one

end RoutingTable

end P2PFileSync
