import Mathlib.Data.List.AList
import P2PFileSync.Utils.IPAddress

/-!
# The routing table

`RoutingTable<T>` maps a destination to the address of the next hop and to the
ttl of the message the route was learnt from. `add_new_route` adds a route to an
unknown destination; `try_update_table` replaces a route by one with a smaller
ttl.

The calls take the ttl as an `int` and the table keeps it as a `uint32_t`; the
conversions keep its bits and the comparison is one of unsigned numbers.
-/

set_option autoImplicit false

namespace P2PFileSync

universe u

/-- `_routing_map`: at most one entry for a destination. -/
structure RoutingTable (T : Type u) where
  routingMap : AList fun _ : T => IPAddress × UInt32

namespace RoutingTable

variable {T : Type u} [DecidableEq T] (table : RoutingTable T)

/-- The address of the next hop; `none` where the code dereferences `end()`. -/
def getNextPeer (dest : T) : Option IPAddress := (table.routingMap.lookup dest).map Prod.fst

def canDelivered (dest : T) : Bool := (table.routingMap.lookup dest).isSome

/-- The entries in the order of the iteration over the map. -/
def getRoutingTable : List (Σ _ : T, IPAddress × UInt32) := table.routingMap.entries

/-- The entry of a destination. -/
def route (dest : T) : Option (IPAddress × UInt32) := table.routingMap.lookup dest

/-- `add_new_route`: its answer, and the table afterwards. -/
def addNewRoute (dest : T) (newIp : IPAddress) (newTtl : UInt32) : Bool × RoutingTable T :=
  match table.routingMap.lookup dest with
  | none => (true, ⟨table.routingMap.insert dest (newIp, newTtl)⟩)
  | some _ => (false, table)

/-- `try_update_table`: its answer, and the table afterwards. -/
def tryUpdateTable (dest : T) (newIp : IPAddress) (newTtl : UInt32) : Bool × RoutingTable T :=
  match table.routingMap.lookup dest with
  | none => (false, table)
  | some (_, ttl) =>
      if newTtl < ttl then (true, ⟨table.routingMap.insert dest (newIp, newTtl)⟩)
      else (false, table)

variable {table}

/-- The two lookups agree: a destination that can be delivered has a next
hop. -/
theorem canDelivered_eq_true_iff {dest : T} :
    table.canDelivered dest = true ↔ ∃ peer, table.getNextPeer dest = some peer := by
  simp only [canDelivered, getNextPeer, Option.isSome_iff_exists, Option.map_eq_some_iff]
  constructor
  · rintro ⟨entry, found⟩
    exact ⟨entry.1, entry, found, rfl⟩
  · rintro ⟨_, entry, found, _⟩
    exact ⟨entry, found⟩

/-- A next hop belongs to an entry the iteration visits. -/
theorem exists_entry_of_getNextPeer {dest : T} {peer : IPAddress}
    (found : table.getNextPeer dest = some peer) :
    ∃ entry ∈ table.getRoutingTable, entry.1 = dest ∧ entry.2.1 = peer := by
  obtain ⟨value, lookup, rfl⟩ := Option.map_eq_some_iff.mp found
  exact ⟨⟨dest, value⟩, AList.mem_lookup_iff.mp lookup, rfl, rfl⟩

/-! ## Adding and updating -/

theorem canDelivered_eq_isSome (dest : T) :
    table.canDelivered dest = (table.route dest).isSome := rfl

theorem route_addNewRoute_of_none {dest : T} (unknown : table.route dest = none)
    (newIp : IPAddress) (newTtl : UInt32) :
    (table.addNewRoute dest newIp newTtl).2.route dest = some (newIp, newTtl) := by
  unfold route at unknown ⊢
  simp only [addNewRoute, unknown, AList.lookup_insert]

/-- An existing route stays as it is. -/
theorem addNewRoute_of_some {dest : T} {entry : IPAddress × UInt32}
    (known : table.route dest = some entry) (newIp : IPAddress) (newTtl : UInt32) :
    table.addNewRoute dest newIp newTtl = (false, table) := by
  unfold route at known
  simp only [addNewRoute, known]

/-- A route is replaced when the new ttl is smaller than the stored one. -/
theorem route_tryUpdateTable_of_some {dest : T} {entry : IPAddress × UInt32}
    (known : table.route dest = some entry) (newIp : IPAddress) (newTtl : UInt32) :
    (table.tryUpdateTable dest newIp newTtl).2.route dest =
      some (if newTtl < entry.2 then (newIp, newTtl) else entry) := by
  have found := known
  unfold route at known
  by_cases smaller : newTtl < entry.2
  · simp only [tryUpdateTable, known, if_pos smaller, route, AList.lookup_insert]
  · simp only [tryUpdateTable, known, if_neg smaller, found]

theorem route_addNewRoute_ne {dest other : T} (different : other ≠ dest) (newIp : IPAddress)
    (newTtl : UInt32) :
    (table.addNewRoute dest newIp newTtl).2.route other = table.route other := by
  unfold addNewRoute route
  split
  · exact AList.lookup_insert_ne different
  · rfl

theorem route_tryUpdateTable_ne {dest other : T} (different : other ≠ dest) (newIp : IPAddress)
    (newTtl : UInt32) :
    (table.tryUpdateTable dest newIp newTtl).2.route other = table.route other := by
  unfold tryUpdateTable route
  split
  · rfl
  · split
    · exact AList.lookup_insert_ne different
    · rfl

/-- Adding a route takes none away. -/
theorem isSome_route_addNewRoute {other : T} (known : (table.route other).isSome = true)
    (dest : T) (newIp : IPAddress) (newTtl : UInt32) :
    ((table.addNewRoute dest newIp newTtl).2.route other).isSome = true := by
  by_cases same : other = dest
  · obtain ⟨entry, found⟩ := Option.isSome_iff_exists.mp known
    rw [same] at found
    rw [addNewRoute_of_some found]
    exact known
  · rw [route_addNewRoute_ne same]
    exact known

/-- Updating a route takes none away. -/
theorem isSome_route_tryUpdateTable {other : T} (known : (table.route other).isSome = true)
    (dest : T) (newIp : IPAddress) (newTtl : UInt32) :
    ((table.tryUpdateTable dest newIp newTtl).2.route other).isSome = true := by
  by_cases same : other = dest
  · obtain ⟨entry, found⟩ := Option.isSome_iff_exists.mp known
    rw [same] at found ⊢
    rw [route_tryUpdateTable_of_some found, Option.isSome_some]
  · rw [route_tryUpdateTable_ne same]
    exact known

end RoutingTable

end P2PFileSync
