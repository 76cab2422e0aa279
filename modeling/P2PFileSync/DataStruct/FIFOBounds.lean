import Mathlib.Data.Finset.Card
import P2PFileSync.Foundations.CheckedCalls
import P2PFileSync.DataStruct.FIFOWindow

/-!
# What every sequence of calls keeps

The list and the set of a cache differ: the placeholders are in the list only,
and an eviction erases by value, so it may take an id out of the set that is
still in the list. What every call keeps is weaker than the window of
`FIFOWindow` and needs no distinct ids. The list is the end of the placeholders
and the ids answered false, and each id of the set is one of the last of these
(`Recent`).

Main result: `runAll_isCached_new`.
-/

set_option autoImplicit false

namespace P2PFileSync

namespace FIFOCache

universe u

variable {T : Type u}

/-- The ids of the calls that answered false, in the order of the calls. -/
def missed (ids : List T) (answers : List Bool) : List T :=
  ((ids.zip answers).filter fun call => !call.2).map Prod.fst

@[simp] theorem missed_cons_false (id : T) (ids : List T) (answers : List Bool) :
    missed (id :: ids) (false :: answers) = id :: missed ids answers := rfl

@[simp] theorem missed_cons_true (id : T) (ids : List T) (answers : List Bool) :
    missed (id :: ids) (true :: answers) = missed ids answers := rfl

theorem mem_of_mem_missed {ids : List T} {answers : List Bool} {id : T}
    (member : id ∈ missed ids answers) : id ∈ ids := by
  obtain ⟨call, kept, rfl⟩ := List.mem_map.mp member
  exact (List.of_mem_zip (List.mem_filter.mp kept).1).1

/-! ## The invariant -/

variable [Inhabited T]

/-- A cache of size `size` that answered false for `seen`: its list is the end of
the placeholders and these ids, and its set holds none but the last of them. -/
structure Recent (c : FIFOCache T) (size : ℕ) (seen : List T) : Prop where
  maxCacheSize : c.maxCacheSize = size
  cache : c.cache = (List.replicate size default ++ seen).drop seen.length
  recent : ∀ id ∈ c.cacheMap, id ∈ seen.rtake size

theorem recent_new (size : ℕ) : (new size : FIFOCache T).Recent size [] where
  maxCacheSize := rfl
  cache := by simp only [new, List.append_nil, List.length_nil, List.drop_zero]
  recent := by
    intro id member
    exact absurd member (Finset.notMem_empty id)

section Recent

variable {c : FIFOCache T} {size : ℕ} {seen : List T}

theorem Recent.length_cache (recent : c.Recent size seen) : c.cache.length = size := by
  rw [recent.cache, List.length_drop, List.length_append, List.length_replicate,
    Nat.add_sub_cancel]

/-- The last ids answered false are in the list. -/
theorem Recent.mem_cache (recent : c.Recent size seen) {id : T} (member : id ∈ seen.rtake size) :
    id ∈ c.cache := by
  rw [recent.cache, List.drop_append, List.length_replicate]
  exact List.mem_append_right _ member

theorem Recent.card_cacheMap [DecidableEq T] (recent : c.Recent size seen) :
    c.cacheMap.card ≤ size := by
  have window : c.cacheMap ⊆ (seen.rtake size).toFinset :=
    fun id member => List.mem_toFinset.mpr (recent.recent id member)
  calc c.cacheMap.card
      ≤ (seen.rtake size).toFinset.card := Finset.card_le_card window
    _ ≤ (seen.rtake size).length := List.toFinset_card_le _
    _ ≤ size := by
        rw [List.rtake, List.length_drop]
        omega

variable [DecidableEq T]

/-- An insertion keeps the set within the last ids answered false. -/
theorem Recent.of_mem_insert {id first : T} (recent : c.Recent (size + 1) seen)
    (evicted : (List.replicate (size + 1) default ++ seen)[seen.length]? = some first) :
    ∀ other ∈ insert id (c.cacheMap.erase first), other ∈ (seen ++ [id]).rtake (size + 1) := by
  intro other member
  rw [List.rtake_concat_succ, List.mem_append, List.mem_singleton]
  rcases Finset.mem_insert.mp member with same | kept
  · exact .inr same
  · refine .inl ?_
    have old := recent.recent other (Finset.mem_of_mem_erase kept)
    by_cases room : seen.length < size + 1
    · rw [rtake_of_length_le room.le] at old
      rwa [rtake_of_length_le (Nat.le_of_lt_succ room)]
    · obtain ⟨oldest, found, window⟩ := rtake_succ_of_lt (by omega : size < seen.length)
      rw [evicted_of_full (Nat.le_of_not_lt room), found] at evicted
      obtain rfl := Option.some.inj evicted
      rw [window] at old
      exact (List.mem_cons.mp old).resolve_left (Finset.ne_of_mem_erase kept)

/-- Everything a call can do. -/
theorem Recent.isCached (recent : c.Recent (size + 1) seen) (id : T) :
    (c.isCached id = some (true, c) ∧ id ∈ seen.rtake (size + 1)) ∨
      ∃ d, c.isCached id = some (false, d) ∧ d.Recent (size + 1) (seen ++ [id]) := by
  by_cases member : id ∈ c.cacheMap
  · exact .inl ⟨isCached_of_mem member, recent.recent id member⟩
  · obtain ⟨first, evicted, answer⟩ :=
      isCached_of_cache_eq recent.maxCacheSize recent.cache member
    exact .inr ⟨_, answer, recent.maxCacheSize, rfl, recent.of_mem_insert evicted⟩

/-! ## Every sequence of calls -/

/-- The calls for `ids`, one after another, keep the list and the set related. -/
theorem Recent.runAll (recent : c.Recent (size + 1) seen) (ids : List T) :
    ∃ answers d, CheckedCalls.runAll FIFOCache.isCached c ids = some (answers, d) ∧
      d.Recent (size + 1) (seen ++ missed ids answers) := by
  induction ids generalizing c seen with
  | nil => exact ⟨[], c, rfl, (List.append_nil seen).symm ▸ recent⟩
  | cons id ids ih =>
      rcases recent.isCached id with ⟨answer, -⟩ | ⟨next, answer, inserted⟩
      · obtain ⟨answers, d, rest, last⟩ := ih recent
        refine ⟨true :: answers, d, ?_, ?_⟩
        · simp only [CheckedCalls.runAll, answer, Option.bind_some, rest, Option.map_some]
        · rwa [missed_cons_true]
      · obtain ⟨answers, d, rest, last⟩ := ih inserted
        refine ⟨false :: answers, d, ?_, ?_⟩
        · simp only [CheckedCalls.runAll, answer, Option.bind_some, rest, Option.map_some]
        · rwa [missed_cons_false, List.append_cons]

end Recent

/-- **After every sequence of calls on a fresh cache** the list has exactly
`size` elements and the set at most `size`, each of which is in the list; and a
call that answers true was made for one of the last `size` ids answered false. -/
theorem runAll_isCached_new [DecidableEq T] {size : ℕ} (positive : 0 < size) (ids : List T) :
    ∃ answers c, CheckedCalls.runAll FIFOCache.isCached (new size) ids = some (answers, c) ∧
      c.cache.length = size ∧ c.cacheMap.card ≤ size ∧ (∀ id ∈ c.cacheMap, id ∈ c.cache) ∧
      ∀ id d, c.isCached id = some (true, d) →
        id ∈ (missed ids answers).rtake size ∧ id ∈ ids := by
  obtain ⟨size, rfl⟩ := Nat.exists_eq_succ_of_ne_zero positive.ne'
  obtain ⟨answers, c, run, recent⟩ := (recent_new (size + 1)).runAll ids
  rw [List.nil_append] at recent
  refine ⟨answers, c, run, recent.length_cache, recent.card_cacheMap, ?_, ?_⟩
  · intro id member
    exact recent.mem_cache (recent.recent id member)
  · intro id d answer
    have window := recent.recent id (eq_of_isCached_true answer).1
    exact ⟨window, mem_of_mem_missed (List.mem_of_mem_drop window)⟩

/-- A cache of size two, asked for the empty string twice. -/
theorem runAll_isCached_new_two : 0 < 2 ∧
    ∃ answers c, CheckedCalls.runAll FIFOCache.isCached (new 2) ["", "a", ""] = some (answers, c) ∧
      c.cache.length = 2 ∧ c.cacheMap.card ≤ 2 ∧ (∀ id ∈ c.cacheMap, id ∈ c.cache) ∧
      ∀ id d, c.isCached id = some (true, d) →
        id ∈ (missed ["", "a", ""] answers).rtake 2 ∧ id ∈ ["", "a", ""] :=
  ⟨by decide, runAll_isCached_new (by decide) ["", "a", ""]⟩

end FIFOCache

end P2PFileSync
