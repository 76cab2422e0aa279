import Mathlib.Data.List.DropRight
import P2PFileSync.DataStruct.FIFOCache

/-!
# A fresh cache against the window it stands for

The comment on `is_cached` describes a window: an id is cached when it is one of
the last `size` ids that were not. `AnswersAsWindow` says that a sequence of
calls is defined and answers so.

The code departs from the window in two ways. A cache of size zero reads the
front of an empty list. The placeholders of the constructor are default values,
and their eviction erases the default value from the set although it is still in
the list: an id that is itself the default value (the empty string) is forgotten
too early. `Forgotten` says when.

Main result: `answersAsWindow_new_iff`.
-/

set_option autoImplicit false

namespace P2PFileSync

universe u

variable {T : Type u}

/-! ## The window -/

/-- The ids not found so far, after a window of the last `size` of them was
asked for `id`. -/
def windowTake [DecidableEq T] (size : ℕ) (seen : List T) (id : T) : List T :=
  if id ∈ seen.rtake size then seen else seen ++ [id]

theorem mem_rtake_iff {seen : List T} {size : ℕ} {id : T} :
    id ∈ seen.rtake size ↔ ∃ i, seen[i]? = some id ∧ seen.length ≤ i + size := by
  rw [List.rtake, List.mem_iff_getElem?]
  constructor
  · rintro ⟨i, found⟩
    rw [List.getElem?_drop] at found
    exact ⟨_, found, by omega⟩
  · rintro ⟨i, found, recent⟩
    refine ⟨i - (seen.length - size), ?_⟩
    rw [List.getElem?_drop, ← found]
    congr 1
    omega

theorem rtake_of_length_le {seen : List T} {size : ℕ} (short : seen.length ≤ size) :
    seen.rtake size = seen := by
  rw [List.rtake, Nat.sub_eq_zero_of_le short, List.drop_zero]

theorem rtake_succ_of_lt {seen : List T} {size : ℕ} (long : size < seen.length) :
    ∃ first, seen[seen.length - (size + 1)]? = some first ∧
      seen.rtake (size + 1) = first :: seen.rtake size := by
  have position : seen.length - (size + 1) < seen.length := by omega
  have next : seen.length - (size + 1) + 1 = seen.length - size := by omega
  refine ⟨seen[seen.length - (size + 1)], List.getElem?_eq_getElem position, ?_⟩
  rw [List.rtake, List.drop_eq_getElem_cons position, next, List.rtake]

theorem getElem?_concat_of_lt {seen : List T} {i : ℕ} {id : T} (lt : i < seen.length) :
    (seen ++ [id])[i]? = seen[i]? := List.getElem?_append_left lt

theorem nodup_rtake_concat {size : ℕ} {seen : List T} {id : T}
    (nodup : (seen.rtake (size + 1)).Nodup) (missing : id ∉ seen.rtake (size + 1)) :
    ((seen ++ [id]).rtake (size + 1)).Nodup := by
  have sublist : (seen.rtake size).Sublist (seen.rtake (size + 1)) :=
    List.drop_sublist_drop_left _ (by omega)
  rw [List.rtake_concat_succ]
  refine List.Nodup.append (nodup.sublist sublist) (List.nodup_singleton id) ?_
  rw [List.disjoint_singleton]
  intro member
  exact missing (sublist.subset member)

/-! ## When the placeholder is forgotten -/

/-- The default value is in the window of the ids `seen`, but a placeholder was
evicted since it was taken in: it came while two placeholders or more were left,
and another id came after it. -/
def Forgotten [Inhabited T] (size : ℕ) (seen : List T) : Prop :=
  ∃ i, seen[i]? = some default ∧ i + 1 < size ∧ i + 1 < seen.length ∧ seen.length ≤ i + size

section Forgotten

variable [Inhabited T] {size : ℕ} {seen : List T}

theorem Forgotten.mem_rtake (forgotten : Forgotten size seen) : default ∈ seen.rtake size := by
  obtain ⟨i, found, _, _, recent⟩ := forgotten
  exact mem_rtake_iff.mpr ⟨i, found, recent⟩

/-- An insertion that evicts a placeholder forgets the default value. -/
theorem forgotten_concat_of_room (member : default ∈ seen) (room : seen.length < size) (id : T) :
    Forgotten size (seen ++ [id]) := by
  obtain ⟨i, found⟩ := List.mem_iff_getElem?.mp member
  obtain ⟨lt, _⟩ := List.getElem?_eq_some_iff.mp found
  refine ⟨i, (getElem?_concat_of_lt lt).trans found, ?_⟩
  rw [List.length_append, List.length_singleton]
  omega

/-- What a longer history has forgotten was in the window before. -/
theorem mem_rtake_of_forgotten_concat {id : T} (forgotten : Forgotten size (seen ++ [id])) :
    default ∈ seen.rtake size := by
  obtain ⟨i, found, _, later, recent⟩ := forgotten
  rw [List.length_append, List.length_singleton] at later recent
  rw [getElem?_concat_of_lt (by omega)] at found
  exact mem_rtake_iff.mpr ⟨i, found, by omega⟩

/-- An insertion into a full window forgets nothing that stays in it. -/
theorem forgotten_concat_of_full {id : T} (full : size < seen.length)
    (nodup : (seen.rtake (size + 1)).Nodup) (stays : default ∈ seen.rtake size) :
    Forgotten (size + 1) (seen ++ [id]) ↔ Forgotten (size + 1) seen := by
  obtain ⟨first, found_first, window⟩ := rtake_succ_of_lt full
  constructor
  · rintro ⟨i, found, room, later, recent⟩
    rw [List.length_append, List.length_singleton] at later recent
    rw [getElem?_concat_of_lt (by omega)] at found
    exact ⟨i, found, room, by omega, by omega⟩
  · rintro ⟨i, found, room, later, recent⟩
    have not_first : i ≠ seen.length - (size + 1) := by
      intro same
      rw [same, found_first] at found
      cases found
      rw [window] at nodup
      exact (List.nodup_cons.mp nodup).1 stays
    refine ⟨i, (getElem?_concat_of_lt (by omega)).trans found, room, ?_⟩
    rw [List.length_append, List.length_singleton]
    omega

end Forgotten

namespace FIFOCache

/-! ## The list of a cache -/

variable [Inhabited T]

/-- The element at the front while placeholders are left. -/
theorem evicted_of_room {size : ℕ} {seen : List T} (room : seen.length < size) :
    (List.replicate size default ++ seen)[seen.length]? = some default := by
  rw [List.getElem?_append_left (by rwa [List.length_replicate]),
    List.getElem?_replicate_of_lt room]

/-- The element at the front when no placeholder is left. -/
theorem evicted_of_full {size : ℕ} {seen : List T} (full : size ≤ seen.length) :
    (List.replicate size default ++ seen)[seen.length]? = seen[seen.length - size]? := by
  rw [List.getElem?_append_right (by rwa [List.length_replicate]), List.length_replicate]

/-- An insertion into a cache whose list is the end of the placeholders and the
ids `seen`. -/
theorem isCached_of_cache_eq [DecidableEq T] {c : FIFOCache T} {size : ℕ} {seen : List T} {id : T}
    (maxCacheSize : c.maxCacheSize = size + 1)
    (cache : c.cache = (List.replicate (size + 1) default ++ seen).drop seen.length)
    (missing : id ∉ c.cacheMap) :
    ∃ first, (List.replicate (size + 1) default ++ seen)[seen.length]? = some first ∧
      c.isCached id = some (false, { c with
        cache := (List.replicate (size + 1) default ++ (seen ++ [id])).drop (seen ++ [id]).length
        cacheMap := insert id (c.cacheMap.erase first) }) := by
  have position : seen.length < (List.replicate (size + 1) default ++ seen).length := by
    rw [List.length_append, List.length_replicate]
    omega
  have full : c.cache.length = c.maxCacheSize := by
    rw [cache, maxCacheSize, List.length_drop, List.length_append, List.length_replicate,
      Nat.add_sub_cancel]
  have content := cache
  rw [List.drop_eq_getElem_cons position] at content
  refine ⟨_, List.getElem?_eq_getElem position, ?_⟩
  rw [isCached, if_neg missing, if_pos full, content, List.length_append, List.length_singleton,
    ← List.append_assoc, List.drop_append_of_le_length position]

/-! ## The invariant -/

/-- The cache of size `size` has taken in the ids `seen`, each of them new to the
window: its list is the end of the placeholders and these ids, its set is the
window without a forgotten default value. -/
structure Windows (c : FIFOCache T) (size : ℕ) (seen : List T) : Prop where
  maxCacheSize : c.maxCacheSize = size
  cache : c.cache = (List.replicate size default ++ seen).drop seen.length
  mem_cacheMap : ∀ id, id ∈ c.cacheMap ↔
    id ∈ seen.rtake size ∧ (id = default → ¬ Forgotten size seen)
  nodup : (seen.rtake size).Nodup

theorem windows_new (size : ℕ) : (new size : FIFOCache T).Windows size [] where
  maxCacheSize := rfl
  cache := by simp only [new, List.append_nil, List.length_nil, List.drop_zero]
  mem_cacheMap := by
    intro id
    simp only [new, Finset.notMem_empty, List.rtake_nil, List.not_mem_nil, false_and]
  nodup := by
    rw [List.rtake_nil]
    exact List.nodup_nil

variable [DecidableEq T]

/-- The set after an insertion, while placeholders are left. -/
theorem Windows.mem_insert_of_room {c : FIFOCache T} {size : ℕ} {seen : List T}
    (windows : c.Windows (size + 1) seen) {id : T} (missing : id ∉ seen.rtake (size + 1))
    (room : seen.length < size + 1) (other : T) :
    other ∈ insert id (c.cacheMap.erase default) ↔
      other ∈ (seen ++ [id]).rtake (size + 1) ∧
        (other = default → ¬ Forgotten (size + 1) (seen ++ [id])) := by
  have all : seen.rtake (size + 1) = seen := rtake_of_length_le room.le
  have all_but_one : seen.rtake size = seen := rtake_of_length_le (by omega)
  rw [List.rtake_concat_succ, all_but_one, Finset.mem_insert, Finset.mem_erase,
    windows.mem_cacheMap, all, List.mem_append, List.mem_singleton]
  constructor
  · rintro (rfl | ⟨real, old, _⟩)
    · refine ⟨.inr rfl, ?_⟩
      rintro rfl forgotten
      exact missing (mem_rtake_of_forgotten_concat forgotten)
    · exact ⟨.inl old, fun placeholder => absurd placeholder real⟩
  · rintro ⟨old | same, kept⟩
    · by_cases real : other = default
      · rw [real] at old
        exact absurd (forgotten_concat_of_room old room id) (kept real)
      · exact .inr ⟨real, old, fun placeholder => absurd placeholder real⟩
    · exact .inl same

/-- The set after an insertion that evicts an id. -/
theorem Windows.mem_insert_of_full {c : FIFOCache T} {size : ℕ} {seen : List T}
    (windows : c.Windows (size + 1) seen) {id : T} (missing : id ∉ seen.rtake (size + 1))
    (full : size < seen.length) {first : T}
    (window : seen.rtake (size + 1) = first :: seen.rtake size) (other : T) :
    other ∈ insert id (c.cacheMap.erase first) ↔
      other ∈ (seen ++ [id]).rtake (size + 1) ∧
        (other = default → ¬ Forgotten (size + 1) (seen ++ [id])) := by
  have first_leaves : first ∉ seen.rtake size := by
    have nodup := windows.nodup
    rw [window] at nodup
    exact (List.nodup_cons.mp nodup).1
  have same_forgotten (stays : default ∈ seen.rtake size) :
      Forgotten (size + 1) (seen ++ [id]) ↔ Forgotten (size + 1) seen :=
    forgotten_concat_of_full full windows.nodup stays
  rw [List.rtake_concat_succ, Finset.mem_insert, Finset.mem_erase, windows.mem_cacheMap,
    List.mem_append, List.mem_singleton]
  constructor
  · rintro (rfl | ⟨not_first, old, kept⟩)
    · refine ⟨.inr rfl, ?_⟩
      rintro rfl forgotten
      exact missing (mem_rtake_of_forgotten_concat forgotten)
    · rw [window, List.mem_cons] at old
      have stays := old.resolve_left not_first
      refine ⟨.inl stays, ?_⟩
      rintro rfl
      rw [same_forgotten stays]
      exact kept rfl
  · rintro ⟨stays | same, kept⟩
    · refine .inr ⟨?_, ?_, ?_⟩
      · rintro rfl
        exact first_leaves stays
      · rw [window]
        exact List.mem_cons_of_mem _ stays
      · rintro rfl
        rw [← same_forgotten stays]
        exact kept rfl
    · exact .inl same

/-- An id that is new to the window is answered false and taken in. -/
theorem Windows.insert {c : FIFOCache T} {size : ℕ} {seen : List T}
    (windows : c.Windows (size + 1) seen) {id : T} (missing : id ∉ seen.rtake (size + 1)) :
    ∃ d, c.isCached id = some (false, d) ∧ d.Windows (size + 1) (seen ++ [id]) := by
  have unknown : id ∉ c.cacheMap := fun found => missing ((windows.mem_cacheMap id).mp found).1
  obtain ⟨first, evicted, answer⟩ :=
    isCached_of_cache_eq windows.maxCacheSize windows.cache unknown
  refine ⟨_, answer, windows.maxCacheSize, rfl, ?_, nodup_rtake_concat windows.nodup missing⟩
  by_cases room : seen.length < size + 1
  · rw [evicted_of_room room] at evicted
    obtain rfl := Option.some.inj evicted
    exact windows.mem_insert_of_room missing room
  · obtain ⟨oldest, found, window⟩ := rtake_succ_of_lt (by omega : size < seen.length)
    rw [evicted_of_full (Nat.le_of_not_lt room), found] at evicted
    obtain rfl := Option.some.inj evicted
    exact windows.mem_insert_of_full missing (by omega) window

/-! ## Sequences of calls -/

/-- The calls for `ids`, one after another on a cache that answered false for
`missed` so far: none reads an empty list, and each answers true exactly when
its id is among the last `size` ids answered false before. -/
def AnswersAsWindow (size : ℕ) (c : FIFOCache T) (missed : List T) : List T → Prop
  | [] => True
  | id :: ids =>
    match c.isCached id with
    | none => False
    | some (cached, d) =>
        (cached = true ↔ id ∈ missed.rtake size) ∧
          d.AnswersAsWindow size (if cached then missed else missed ++ [id]) ids

/-- A window that did not find `seen` so far is asked for `ids`, and never for
the default value at a time when that is forgotten. -/
def NeverForgotten (size : ℕ) (seen ids : List T) : Prop :=
  ∀ earlier later, ids = earlier ++ default :: later →
    ¬ Forgotten size (earlier.foldl (windowTake size) seen)

theorem neverForgotten_cons {size : ℕ} {seen : List T} {id : T} {ids : List T} :
    NeverForgotten size seen (id :: ids) ↔
      (id = default → ¬ Forgotten size seen) ∧
        NeverForgotten size (windowTake size seen id) ids := by
  constructor
  · intro never
    constructor
    · rintro rfl
      exact never [] ids rfl
    · rintro earlier later rfl
      exact never (id :: earlier) later rfl
  · rintro ⟨head, tail⟩ earlier later split
    cases earlier with
    | nil =>
        obtain ⟨same, _⟩ := List.cons.inj split
        exact head same
    | cons first earlier =>
        obtain ⟨rfl, rest⟩ := List.cons.inj split
        exact tail earlier later rest

omit [Inhabited T] in
theorem answersAsWindow_cons {c d : FIFOCache T} {size : ℕ} {missed : List T} {id : T}
    {cached : Bool} (answer : c.isCached id = some (cached, d)) (ids : List T) :
    c.AnswersAsWindow size missed (id :: ids) ↔
      (cached = true ↔ id ∈ missed.rtake size) ∧
        d.AnswersAsWindow size (if cached then missed else missed ++ [id]) ids := by
  rw [AnswersAsWindow, answer]

/-- A cache that follows its window goes on doing so exactly when the default
value is never asked for while it is forgotten. -/
theorem Windows.answersAsWindow_iff {c : FIFOCache T} {size : ℕ} {seen : List T}
    (windows : c.Windows (size + 1) seen) (ids : List T) :
    c.AnswersAsWindow (size + 1) seen ids ↔ NeverForgotten (size + 1) seen ids := by
  induction ids generalizing c seen with
  | nil =>
      refine iff_of_true trivial ?_
      intro earlier later split
      exact absurd split.symm (List.append_ne_nil_of_right_ne_nil _ (List.cons_ne_nil _ _))
  | cons id ids ih =>
      rw [neverForgotten_cons, windowTake]
      by_cases inWindow : id ∈ seen.rtake (size + 1)
      · rw [if_pos inWindow]
        by_cases found : id ∈ c.cacheMap
        · have kept := ((windows.mem_cacheMap id).mp found).2
          rw [answersAsWindow_cons (isCached_of_mem found), if_pos rfl, ih windows,
            and_iff_right (iff_of_true rfl inWindow), and_iff_right kept]
        · -- the code answers false for an id that is in the window
          have forgotten : ¬ (id = default → ¬ Forgotten (size + 1) seen) :=
            fun kept => found ((windows.mem_cacheMap id).mpr ⟨inWindow, kept⟩)
          obtain ⟨d, answer⟩ := isCached_of_not_mem found
            (not_frontUndefined_of_pos (by rw [windows.maxCacheSize]; exact Nat.succ_pos size))
          rw [answersAsWindow_cons answer]
          refine iff_of_false ?_ ?_
          · rintro ⟨agrees, _⟩
            exact absurd (agrees.mpr inWindow) Bool.false_ne_true
          · rintro ⟨kept, _⟩
            exact forgotten kept
      · obtain ⟨d, answer, next⟩ := windows.insert inWindow
        have kept : id = default → ¬ Forgotten (size + 1) seen := by
          rintro rfl forgotten
          exact inWindow forgotten.mem_rtake
        rw [if_neg inWindow, answersAsWindow_cons answer, if_neg Bool.false_ne_true, ih next,
          and_iff_right (iff_of_false Bool.false_ne_true inWindow), and_iff_right kept]

/-- **When a fresh cache is the window of the last `size` new ids.** The calls
for `ids` are defined and answer as the window does exactly when the size is
positive or there is no call, and the default value is never asked for while it
is in the window but forgotten. -/
theorem answersAsWindow_new_iff (size : ℕ) (ids : List T) :
    (new size).AnswersAsWindow size [] ids ↔
      (0 < size ∨ ids = []) ∧ NeverForgotten size [] ids := by
  cases size with
  | zero =>
      cases ids with
      | nil =>
          refine iff_of_true trivial ⟨.inr rfl, ?_⟩
          rintro earlier later _ ⟨i, _, impossible, _⟩
          omega
      | cons id ids =>
          have undefined : (new 0 : FIFOCache T).isCached id = none :=
            isCached_eq_none_iff.mpr ⟨Finset.notMem_empty id, rfl, rfl⟩
          refine iff_of_false ?_ ?_
          · rw [AnswersAsWindow, undefined]
            exact not_false
          · rintro ⟨positive | empty, _⟩
            · exact absurd positive (Nat.lt_irrefl 0)
            · cases empty
  | succ size =>
      rw [(windows_new (size + 1)).answersAsWindow_iff, and_iff_right (.inl (Nat.succ_pos size))]

/-- A cache of size three asked for the empty string, another string and the
empty string again; and a cache of size zero. -/
theorem not_window_empty_string :
    ¬ (new 3).AnswersAsWindow 3 [] ["", "a", ""] ∧ ¬ (new 0).AnswersAsWindow 0 [] ["a"] := by
  constructor
  · rintro ⟨_, _, agrees, _⟩
    exact absurd agrees (by decide)
  · exact id

end FIFOCache

end P2PFileSync
