import Mathlib.Data.List.Nodup
import P2PFileSync.ManagementApi.JsonValues
import P2PFileSync.ManagementApi.Replies

/-!
# Maps read from a document

`get_map<std::string>` is meant to skip the arrays and objects among the members of
its node, but it leaves the loop at the first one, and with it all members behind
it. Names and values are read as C strings, so they end at their first zero byte.

So on a node of strings, arrays and objects with distinct names the map holds the
string members exactly when none of them stands behind an array or object and none
has a zero byte in its name or value.

Main result: `getMap_exact_iff`.
-/

set_option autoImplicit false

namespace P2PFileSync

namespace JsonModel

/-! ## The property -/

/-- What a map is to hold: the string members, sorted by their names, and nothing
else. -/
def HoldsStrings (result : Except Fault (List (Bytes × Bytes))) (members : Members) : Prop :=
  ∃ entries, result = .ok entries ∧ entries.Pairwise (·.1 < ·.1) ∧
    ∀ name text, (name, text) ∈ entries ↔ (name, .string text) ∈ members

/-- Members with distinct names that are strings, arrays and objects. -/
structure StringsAndContainers (members : Members) : Prop where
  distinct : (members.map Prod.fst).Nodup
  kinds : ∀ member ∈ members, member.2.isContainer = true ∨ ∃ text, member.2 = .string text

/-- No string stands behind an array or object, and no name or value of a string has
a zero byte. -/
structure Unbroken (members : Members) : Prop where
  containersLast : ∀ member ∈ members.dropWhile (!·.2.isContainer), member.2.isContainer = true
  zeroFree : ∀ name text, (name, .string text) ∈ members → 0 ∉ name ∧ 0 ∉ text

/-! ## Sorted entries -/

section Sorted

variable {entries : List (Bytes × Bytes)} {entry : Bytes × Bytes}

/-- Behind the entries before a name there are none before it. -/
theorem not_lt_of_mem_dropWhile {key : Bytes} (sorted : entries.Pairwise (·.1 < ·.1))
    (member : entry ∈ entries.dropWhile (·.1 < key)) : ¬ entry.1 < key := by
  induction entries with
  | nil => cases member
  | cons first entries ih =>
      obtain ⟨later, rest⟩ := List.pairwise_cons.mp sorted
      rw [List.dropWhile_cons] at member
      split at member
      · exact ih rest member
      · rename_i notBefore
        have firstNot : ¬ first.1 < key := of_decide_eq_false (Bool.eq_false_iff.mpr notBefore)
        rcases List.mem_cons.mp member with rfl | behind
        · exact firstNot
        · exact fun before => firstNot (List.lt_trans (later entry behind) before)

theorem sorted_mapInsert (sorted : entries.Pairwise (·.1 < ·.1)) :
    (mapInsert entries entry).Pairwise (·.1 < ·.1) := by
  rw [mapInsert]
  split
  case isTrue present => exact sorted
  case isFalse absent =>
    have whole := List.takeWhile_append_dropWhile (p := (·.1 < entry.1)) (l := entries)
    have parts := sorted
    rw [← whole] at parts
    obtain ⟨front, back, across⟩ := List.pairwise_append.mp parts
    have behind : ∀ other ∈ entries.dropWhile (·.1 < entry.1), entry.1 < other.1 := by
      intro other member
      have different : entry.1 ≠ other.1 := by
        intro same
        exact absent (List.mem_map.mpr
          ⟨other, (List.dropWhile_suffix _).subset member, same.symm⟩)
      exact Std.lt_of_le_of_ne (not_lt_of_mem_dropWhile sorted member) different
    refine List.pairwise_append.mpr ⟨front, List.pairwise_cons.mpr ⟨behind, back⟩, ?_⟩
    intro other member later inRest
    rcases List.mem_cons.mp inRest with rfl | inBack
    · have before := List.mem_takeWhile_imp member
      exact of_decide_eq_true before
    · exact across other member later inBack

theorem sorted_foldl_mapInsert {texts : List (Bytes × Bytes)}
    (sorted : entries.Pairwise (·.1 < ·.1)) :
    (texts.foldl mapInsert entries).Pairwise (·.1 < ·.1) := by
  induction texts generalizing entries with
  | nil => exact sorted
  | cons first texts ih => exact ih (sorted_mapInsert sorted)

end Sorted

/-! ## What the loop reads -/

theorem zero_notMem_cString (text : Bytes) : 0 ∉ cString text := by
  rw [← cString_eq_self_iff, cString_cString]

theorem mem_namedTexts {members : Members} {name text : Bytes} :
    (name, text) ∈ namedTexts members ↔
      ∃ rawName rawText, (rawName, .string rawText) ∈ members.takeWhile (!·.2.isContainer) ∧
        name = cString rawName ∧ text = cString rawText := by
  rw [namedTexts, List.mem_filterMap]
  constructor
  · rintro ⟨⟨rawName, node⟩, member, read⟩
    cases node with
    | string rawText =>
        cases read
        exact ⟨rawName, rawText, member, rfl, rfl⟩
    | null | bool | integer | double | array | object => cases read
  · rintro ⟨rawName, rawText, member, rfl, rfl⟩
    exact ⟨(rawName, .string rawText), member, rfl⟩

section Node

variable {members : Members} {name text : Bytes}

theorem StringsAndContainers.stringsFirst (node : StringsAndContainers members) :
    StringsFirst members := by
  intro member inFront
  have plain := List.mem_takeWhile_imp inFront
  rcases node.kinds member ((List.takeWhile_prefix _).subset inFront) with container | isString
  · rw [container] at plain
    cases plain
  · exact isString

/-- A name has one text. -/
theorem StringsAndContainers.text_eq (node : StringsAndContainers members) {other : Bytes}
    (first : (name, .string text) ∈ members) (second : (name, .string other) ∈ members) :
    text = other := by
  have same := List.inj_on_of_nodup_map node.distinct first second rfl
  exact Json.string.inj (Prod.mk.inj same).2

/-- What the loop of `get_map` gives. -/
theorem StringsAndContainers.collectMap_entries (node : StringsAndContainers members) :
    ∃ entries, collectMap [] members = .ok entries ∧ entries.Pairwise (·.1 < ·.1) ∧
      ∀ name text, (name, text) ∈ entries ↔ (namedTexts members).lookup name = some text := by
  refine ⟨_, (collectMap_eq [] members).1 node.stringsFirst, sorted_foldl_mapInsert .nil, ?_⟩
  intro name text
  rw [mem_foldl_mapInsert]
  simp only [List.not_mem_nil, List.map_nil, not_false_eq_true, true_and, false_or]

theorem mem_of_lookup {texts : List (Bytes × Bytes)} (found : texts.lookup name = some text) :
    (name, text) ∈ texts := by
  obtain ⟨before, after, split, -⟩ := List.lookup_eq_some_iff.mp found
  rw [split]
  exact List.mem_append_right before List.mem_cons_self

/-- Where nothing is lost or changed, the members are unbroken. -/
theorem StringsAndContainers.unbroken (node : StringsAndContainers members)
    (exact : ∀ name text, (namedTexts members).lookup name = some text ↔
      (name, .string text) ∈ members) : Unbroken members := by
  have read : ∀ name text, (name, .string text) ∈ members → (name, text) ∈ namedTexts members :=
    fun name text member => mem_of_lookup ((exact name text).mpr member)
  have zeroFree : ∀ name text, (name, .string text) ∈ members → 0 ∉ name ∧ 0 ∉ text := by
    intro name text member
    obtain ⟨rawName, rawText, -, rfl, rfl⟩ := mem_namedTexts.mp (read name text member)
    exact ⟨zero_notMem_cString rawName, zero_notMem_cString rawText⟩
  refine ⟨fun member inBack => ?_, zeroFree⟩
  obtain ⟨name, value⟩ := member
  rcases node.kinds _ ((List.dropWhile_suffix _).subset inBack) with container | ⟨text, rfl⟩
  · exact container
  · -- a string in the back would have the name of one in the front
    obtain ⟨rawName, rawText, inFront, named, -⟩ := mem_namedTexts.mp
      (read name text ((List.dropWhile_suffix _).subset inBack))
    have clean := (zeroFree rawName rawText ((List.takeWhile_prefix _).subset inFront)).1
    rw [cString_eq_self_iff.mpr clean] at named
    have distinct := node.distinct
    rw [← List.takeWhile_append_dropWhile (p := (!·.2.isContainer)) (l := members),
      List.map_append] at distinct
    have apart := List.disjoint_of_nodup_append distinct
    exact absurd (List.mem_map.mpr ⟨_, inBack, rfl⟩)
      (apart (List.mem_map.mpr ⟨_, inFront, named.symm⟩))

/-- Unbroken members are all read, as they are. -/
theorem Unbroken.mem_namedTexts_iff (unbroken : Unbroken members) :
    (name, text) ∈ namedTexts members ↔ (name, .string text) ∈ members := by
  rw [mem_namedTexts]
  constructor
  · rintro ⟨rawName, rawText, inFront, rfl, rfl⟩
    have member := (List.takeWhile_prefix _).subset inFront
    obtain ⟨cleanName, cleanText⟩ := unbroken.zeroFree rawName rawText member
    rwa [cString_eq_self_iff.mpr cleanName, cString_eq_self_iff.mpr cleanText]
  · intro member
    obtain ⟨cleanName, cleanText⟩ := unbroken.zeroFree name text member
    refine ⟨name, text, ?_, (cString_eq_self_iff.mpr cleanName).symm,
      (cString_eq_self_iff.mpr cleanText).symm⟩
    rw [← List.takeWhile_append_dropWhile (p := (!·.2.isContainer)) (l := members)] at member
    refine (List.mem_append.mp member).resolve_right fun inBack => ?_
    cases unbroken.containersLast _ inBack

theorem StringsAndContainers.lookup_iff (node : StringsAndContainers members)
    (unbroken : Unbroken members) :
    (namedTexts members).lookup name = some text ↔ (name, .string text) ∈ members := by
  constructor
  · exact fun found => unbroken.mem_namedTexts_iff.mp (mem_of_lookup found)
  · intro member
    have present : (namedTexts members).lookup name ≠ none :=
      mem_names_iff.mp (List.mem_map.mpr ⟨_, unbroken.mem_namedTexts_iff.mpr member, rfl⟩)
    obtain ⟨other, found⟩ := Option.ne_none_iff_exists'.mp present
    have also := unbroken.mem_namedTexts_iff.mp (mem_of_lookup found)
    rw [found, node.text_eq also member]

/-- The loop of `get_map` reads the string members exactly when they are
unbroken. -/
theorem StringsAndContainers.holdsStrings_iff (node : StringsAndContainers members) :
    HoldsStrings (collectMap [] members) members ↔ Unbroken members := by
  obtain ⟨entries, collected, sorted, holds⟩ := node.collectMap_entries
  constructor
  · rintro ⟨others, same, -, exact⟩
    obtain rfl := Except.ok.inj (same.symm.trans collected)
    exact node.unbroken fun name text => (holds name text).symm.trans (exact name text)
  · intro unbroken
    exact ⟨entries, collected, sorted, fun name text =>
      (holds name text).trans (node.lookup_iff unbroken)⟩

end Node

/-- **When `get_map` returns exactly the string members** of a node of strings,
arrays and objects with distinct names: exactly when no string stands behind an
array or object and no string has a zero byte in its name or value. `peer_list`
returns those of the member `peers`. -/
theorem getMap_exact_iff {model : JsonModel} {node members : Members} {key : Bytes}
    (hasNode : HasNode model node) (found : node.lookup key = some (.object members))
    (kinds : StringsAndContainers members) :
    (HoldsStrings (model.getMap key) members ↔ Unbroken members) ∧
      (key = utf8 "peers" → (HoldsStrings model.peers members ↔ Unbroken members)) := by
  have read : model.getMap key = collectMap [] members := by
    rw [getMap_of_object hasNode.valueNode_eq, found]
    rfl
  have exact := kinds.holdsStrings_iff
  rw [← read] at exact
  refine ⟨exact, ?_⟩
  rintro rfl
  exact exact

/-- Two peers, and what else is known of them behind. -/
def peersFirst : Members :=
  [(utf8 "b", .string (utf8 "10.0.0.2:80")), (utf8 "a", .string (utf8 "10.0.0.1:80")),
    (utf8 "groups", .array [])]

/-- A list in front of a peer. -/
def listFirst : Members := [(utf8 "groups", .array []), (utf8 "a", .string (utf8 "10.0.0.1:80"))]

theorem peersFirst_kinds : StringsAndContainers peersFirst := by
  refine ⟨by decide, ?_⟩
  simp [peersFirst, Json.isContainer]

/-- Strings in front of an array are all returned. -/
theorem peersFirst_returned :
    HoldsStrings (peers ⟨.object [(utf8 "peers", .object peersFirst)], false⟩) peersFirst := by
  refine ((getMap_exact_iff (.request _) rfl peersFirst_kinds).2 rfl).mpr ⟨?_, ?_⟩
  · have back : peersFirst.dropWhile (!·.2.isContainer) = [(utf8 "groups", .array [])] := rfl
    rw [back]
    exact List.forall_mem_singleton.mpr rfl
  · intro name text member
    simp only [peersFirst, List.mem_cons, Prod.mk.injEq, Json.string.injEq, reduceCtorEq, and_false,
      List.not_mem_nil, or_false] at member
    rcases member with ⟨rfl, rfl⟩ | ⟨rfl, rfl⟩ <;> decide

/-- A peer behind a list is lost. -/
theorem peer_behind_list_lost :
    StringsAndContainers listFirst ∧
      ¬ HoldsStrings (peers ⟨.object [(utf8 "peers", .object listFirst)], false⟩) listFirst := by
  refine ⟨⟨by decide, by simp [listFirst, Json.isContainer]⟩, ?_⟩
  rintro ⟨entries, returned, -, exact⟩
  obtain rfl : [] = entries := Except.ok.inj returned
  have lost := (exact (utf8 "a") (utf8 "10.0.0.1:80")).mpr (by simp [listFirst])
  exact absurd lost List.not_mem_nil

end JsonModel

end P2PFileSync
