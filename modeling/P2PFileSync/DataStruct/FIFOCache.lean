import Mathlib.Data.Finset.Basic
import Mathlib.Data.List.Basic

/-!
# The cache of packets already seen

`FIFOCache<T>` keeps a list of ids and a hash set. `is_cached` asks whether an
id is in the set; if it is not, it evicts the first element of a full list,
adds the id to both, and answers false.

The constructor fills the list with default values that are not in the set, so
a fresh cache is already full and its first insertions evict placeholders.

With a cache size of zero the list is empty and full at once, and `is_cached`
calls `front` on it. That call is undefined, and the model returns `none`.
-/

set_option autoImplicit false

namespace P2PFileSync

universe u

/-- The members of `FIFOCache<T>`. -/
structure FIFOCache (T : Type u) where
  maxCacheSize : ℕ
  cache : List T
  cacheMap : Finset T

namespace FIFOCache

variable {T : Type u}

/-- The constructor: a list of `cacheSize` default values and an empty set. -/
def new [Inhabited T] (cacheSize : ℕ) : FIFOCache T where
  maxCacheSize := cacheSize
  cache := List.replicate cacheSize default
  cacheMap := ∅

variable [DecidableEq T]

/-- Whether the id was cached, and the cache afterwards; `none` when the call
reads the front of an empty list. -/
def isCached (c : FIFOCache T) (packetId : T) : Option (Bool × FIFOCache T) :=
  if packetId ∈ c.cacheMap then some (true, c)
  else if c.cache.length = c.maxCacheSize then
    match c.cache with
    | [] => none
    | first :: rest =>
        some (false, { c with
          cache := rest ++ [packetId]
          cacheMap := insert packetId (c.cacheMap.erase first) })
  else
    some (false, { c with
      cache := c.cache ++ [packetId]
      cacheMap := insert packetId c.cacheMap })

/-- The next insertion would read the front of an empty list. -/
def FrontUndefined (c : FIFOCache T) : Prop := c.maxCacheSize = 0 ∧ c.cache = []

instance (c : FIFOCache T) : Decidable c.FrontUndefined := inferInstanceAs (Decidable (_ ∧ _))

/-! ## One call -/

theorem isCached_of_mem {c : FIFOCache T} {packetId : T} (member : packetId ∈ c.cacheMap) :
    c.isCached packetId = some (true, c) := by
  rw [isCached, if_pos member]

/-- A call that answers true found the id and changed nothing. -/
theorem eq_of_isCached_true {c d : FIFOCache T} {packetId : T}
    (answer : c.isCached packetId = some (true, d)) : packetId ∈ c.cacheMap ∧ d = c := by
  by_cases member : packetId ∈ c.cacheMap
  · rw [isCached_of_mem member] at answer
    cases answer
    exact ⟨member, rfl⟩
  · rw [isCached, if_neg member] at answer
    split at answer
    · split at answer <;> cases answer
    · cases answer

/-- A call that answers false did not find the id; afterwards it is cached, and
nothing else was added. -/
theorem of_isCached_false {c d : FIFOCache T} {packetId : T}
    (answer : c.isCached packetId = some (false, d)) :
    packetId ∉ c.cacheMap ∧ packetId ∈ d.cacheMap ∧
      (∀ id ∈ d.cacheMap, id = packetId ∨ id ∈ c.cacheMap) ∧ d.maxCacheSize = c.maxCacheSize := by
  by_cases member : packetId ∈ c.cacheMap
  · rw [isCached_of_mem member] at answer
    cases answer
  · rw [isCached, if_neg member] at answer
    refine ⟨member, ?_⟩
    split at answer
    · split at answer
      · cases answer
      · cases answer
        refine ⟨Finset.mem_insert_self _ _, ?_, rfl⟩
        intro id inserted
        exact (Finset.mem_insert.mp inserted).imp_right Finset.mem_of_mem_erase
    · cases answer
      exact ⟨Finset.mem_insert_self _ _, fun id inserted => Finset.mem_insert.mp inserted, rfl⟩

/-- The only undefined call is an insertion into a cache of size zero. -/
theorem isCached_eq_none_iff {c : FIFOCache T} {packetId : T} :
    c.isCached packetId = none ↔ packetId ∉ c.cacheMap ∧ c.FrontUndefined := by
  unfold isCached FrontUndefined
  by_cases member : packetId ∈ c.cacheMap
  · simp [member]
  · by_cases full : c.cache.length = c.maxCacheSize
    · cases content : c.cache with
      | nil => simp_all
      | cons first rest => simp_all
    · have different : ¬ (c.maxCacheSize = 0 ∧ c.cache = []) := by
        rintro ⟨zero, empty⟩
        exact full (by rw [zero, empty, List.length_nil])
      simp [member, full, different]

/-- A new id is inserted, unless the size is zero. -/
theorem isCached_of_not_mem {c : FIFOCache T} {packetId : T} (new : packetId ∉ c.cacheMap)
    (defined : ¬ c.FrontUndefined) : ∃ d, c.isCached packetId = some (false, d) := by
  cases answer : c.isCached packetId with
  | none => exact absurd (isCached_eq_none_iff.mp answer).2 defined
  | some result =>
      obtain ⟨cached, d⟩ := result
      cases cached with
      | false => exact ⟨d, rfl⟩
      | true => exact absurd (eq_of_isCached_true answer).1 new

omit [DecidableEq T] in
theorem not_frontUndefined_of_pos {c : FIFOCache T} (positive : 0 < c.maxCacheSize) :
    ¬ c.FrontUndefined := fun undefined => Nat.ne_of_gt positive undefined.1

/-! ## What a cache remembers -/

/-- The cache of size `size` has taken in the ids of `passed`, in this order,
since it was made, and has evicted placeholders only. -/
structure Remembers [Inhabited T] (c : FIFOCache T) (size : ℕ) (passed : List T) : Prop where
  maxCacheSize : c.maxCacheSize = size
  cache : c.cache = List.replicate (size - passed.length) default ++ passed
  mem_cacheMap : ∀ id, id ∈ c.cacheMap ↔ id ∈ passed
  fits : passed.length ≤ size

variable [Inhabited T]

omit [DecidableEq T] in
theorem remembers_new (size : ℕ) : (new size : FIFOCache T).Remembers size [] where
  maxCacheSize := rfl
  cache := by simp only [new, List.length_nil, Nat.sub_zero, List.append_nil]
  mem_cacheMap := fun id => by simp only [new, Finset.notMem_empty, List.not_mem_nil]
  fits := Nat.zero_le _

/-- An insertion into a cache that still holds placeholders evicts one. -/
theorem isCached_of_placeholder {c : FIFOCache T} {size : ℕ} {passed : List T} {packetId : T}
    (maxCacheSize : c.maxCacheSize = size)
    (cache : c.cache = List.replicate (size - passed.length) default ++ passed)
    (room : passed.length < size) (missing : packetId ∉ c.cacheMap) :
    c.isCached packetId = some (false, { c with
      cache := List.replicate (size - (passed ++ [packetId]).length) default ++
        (passed ++ [packetId])
      cacheMap := insert packetId (c.cacheMap.erase default) }) := by
  obtain ⟨left, left_eq⟩ : ∃ left, size - passed.length = left + 1 :=
    Nat.exists_eq_succ_of_ne_zero (by omega)
  have next : size - (passed ++ [packetId]).length = left := by
    rw [List.length_append, List.length_singleton]
    omega
  have content : c.cache = default :: (List.replicate left default ++ passed) := by
    rw [cache, left_eq, List.replicate_succ, List.cons_append]
  have full : c.cache.length = c.maxCacheSize := by
    rw [cache, maxCacheSize, List.length_append, List.length_replicate]
    omega
  rw [isCached, if_neg missing, if_pos full, content, next]
  simp only [List.append_assoc]

/-- While fewer ids than the size were taken in, a new id other than the
placeholder is taken in and evicts a placeholder: nothing is forgotten. -/
theorem Remembers.insert {c : FIFOCache T} {size : ℕ} {passed : List T}
    (remembers : c.Remembers size passed) {packetId : T} (new : packetId ∉ passed)
    (room : passed.length < size) (real : default ∉ passed) :
    ∃ d, c.isCached packetId = some (false, d) ∧ d.Remembers size (passed ++ [packetId]) := by
  have missing : packetId ∉ c.cacheMap := fun found => new ((remembers.mem_cacheMap _).mp found)
  refine ⟨_, isCached_of_placeholder remembers.maxCacheSize remembers.cache room missing, ?_⟩
  refine ⟨remembers.maxCacheSize, rfl, ?_, ?_⟩
  · intro id
    simp only [Finset.mem_insert, Finset.mem_erase, remembers.mem_cacheMap, List.mem_append,
      List.mem_singleton]
    constructor
    · rintro (same | ⟨_, old⟩)
      · exact .inr same
      · exact .inl old
    · rintro (old | same)
      · exact .inr ⟨fun placeholder => real (placeholder ▸ old), old⟩
      · exact .inl same
  · rw [List.length_append, List.length_singleton]
    omega

/-- The cache of size `size` has taken in at most `count` ids since it was made,
has evicted placeholders only, and knows the ids in `seen`. The placeholder
itself may be taken in as an id; it is forgotten when a copy of it is
evicted. -/
structure Recalls (c : FIFOCache T) (size count : ℕ) (seen : T → Prop) : Prop where
  maxCacheSize : c.maxCacheSize = size
  cache : ∃ passed, passed.length ≤ count ∧
    c.cache = List.replicate (size - passed.length) default ++ passed
  mem_cacheMap : ∀ id, id ≠ default → (id ∈ c.cacheMap ↔ seen id)

omit [DecidableEq T] in
theorem recalls_new (size : ℕ) : (new size : FIFOCache T).Recalls size 0 fun _ => False where
  maxCacheSize := rfl
  cache := ⟨[], Nat.le_refl 0, by
    simp only [new, List.length_nil, Nat.sub_zero, List.append_nil]⟩
  mem_cacheMap := fun id _ => by simp only [new, Finset.notMem_empty]

omit [DecidableEq T] in
theorem Recalls.mono {c : FIFOCache T} {size count later : ℕ} {seen known : T → Prop}
    (recalls : c.Recalls size count seen) (more : count ≤ later)
    (same : ∀ id, id ≠ default → (seen id ↔ known id)) : c.Recalls size later known where
  maxCacheSize := recalls.maxCacheSize
  cache := by
    obtain ⟨passed, few, cache⟩ := recalls.cache
    exact ⟨passed, Nat.le_trans few more, cache⟩
  mem_cacheMap := fun id real => (recalls.mem_cacheMap id real).trans (same id real)

/-- While placeholders are left, any new id is taken in and no other id than the
placeholder is forgotten. -/
theorem Recalls.insert {c : FIFOCache T} {size count : ℕ} {seen : T → Prop}
    (recalls : c.Recalls size count seen) {packetId : T} (room : count < size)
    (missing : packetId ∉ c.cacheMap) :
    ∃ d, c.isCached packetId = some (false, d) ∧
      d.Recalls size (count + 1) fun id => seen id ∨ id = packetId := by
  obtain ⟨passed, few, cache⟩ := recalls.cache
  have inserted := isCached_of_placeholder recalls.maxCacheSize cache (by omega) missing
  refine ⟨_, inserted, recalls.maxCacheSize, ⟨passed ++ [packetId], ?_, rfl⟩, ?_⟩
  · rw [List.length_append, List.length_singleton]
    exact Nat.succ_le_succ few
  · intro id real
    simp only [Finset.mem_insert, Finset.mem_erase, ne_eq, real, not_false_eq_true, true_and,
      recalls.mem_cacheMap id real]
    exact or_comm

end FIFOCache

end P2PFileSync
