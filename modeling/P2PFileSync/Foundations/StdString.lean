import Mathlib.Data.List.DropRight
import Mathlib.Tactic.SplitIfs

/-!
# Members of `std::basic_string`

The searches give a position, and `none` for `npos`. The erasures and `substr`
take positions inside the string. Each search is described by the part of the
string it has passed, and the two trimming idioms are Mathlib's `dropWhile` and
`rdropWhile`.
-/

set_option autoImplicit false

namespace StdString

universe u

variable {α : Type u} [DecidableEq α]

/-- `find(c, pos)`: the first position of `c` from `pos` on. -/
def find (s : List α) (c : α) (pos : ℕ) : Option ℕ :=
  ((s.drop pos).findIdx? (· == c)).map (pos + ·)

/-- `find_first_not_of(c)`. -/
def findFirstNotOf (s : List α) (c : α) : Option ℕ := s.findIdx? (· != c)

/-- `find_last_not_of(c)`. -/
def findLastNotOf (s : List α) (c : α) : Option ℕ :=
  (s.reverse.findIdx? (· != c)).map (s.length - 1 - ·)

omit [DecidableEq α] in
/-- `erase(0, n)`; `npos` erases everything. -/
def eraseFront (s : List α) : Option ℕ → List α
  | none => []
  | some n => s.drop n

omit [DecidableEq α] in
/-- `erase(last + 1)`; `npos + 1` is zero, and everything is erased. -/
def eraseAfter (s : List α) : Option ℕ → List α
  | none => []
  | some last => s.take (last + 1)

omit [DecidableEq α] in
/-- `substr(pos, n)`. -/
def substr (s : List α) (pos n : ℕ) : List α := (s.drop pos).take n

/-! ## Searching -/

theorem find_eq_none_iff {s : List α} {c : α} {pos : ℕ} :
    find s c pos = none ↔ c ∉ s.drop pos := by
  rw [find, Option.map_eq_none_iff, List.findIdx?_eq_none_iff]
  constructor
  · intro differs member
    exact absurd (differs c member) (by simp)
  · intro missing x member
    exact beq_false_of_ne fun same => missing (same ▸ member)

theorem find_eq_none {s : List α} {c : α} (missing : c ∉ s) : find s c 0 = none :=
  find_eq_none_iff.mpr missing

theorem find_append_cons {front rest : List α} {c : α} (passed : c ∉ front) :
    find (front ++ c :: rest) c 0 = some front.length := by
  have none_before : front.findIdx? (· == c) = none :=
    List.findIdx?_eq_none_iff.mpr fun x member => beq_false_of_ne fun same => passed (same ▸ member)
  rw [find, List.drop_zero, List.findIdx?_append, none_before, List.findIdx?_cons, if_pos (by simp)]
  simp

omit [DecidableEq α] in
@[simp] theorem substr_append_cons (front rest : List α) (c : α) :
    substr (front ++ c :: rest) 0 front.length = front := by
  rw [substr, List.drop_zero, List.take_left]

omit [DecidableEq α] in
theorem drop_append_cons (front rest : List α) (c : α) :
    (front ++ c :: rest).drop (front.length + 1) = rest := by
  rw [List.drop_append, List.drop_of_length_le (Nat.le_succ _), List.nil_append,
    Nat.add_sub_cancel_left, List.drop_one, List.tail_cons]

omit [DecidableEq α] in
@[simp] theorem eraseFront_append_cons (front rest : List α) (c : α) :
    eraseFront (front ++ c :: rest) (some (front.length + 1)) = rest := by
  rw [eraseFront, drop_append_cons]

/-! ## Trimming -/

theorem eraseFront_findFirstNotOf (s : List α) (c : α) :
    eraseFront s (findFirstNotOf s c) = s.dropWhile (· == c) := by
  induction s with
  | nil => rfl
  | cons x s ih =>
      rw [findFirstNotOf, List.findIdx?_cons, List.dropWhile_cons]
      by_cases same : x = c
      · rw [if_neg (by simp [same]), if_pos (by simp [same]), ← ih, findFirstNotOf]
        cases s.findIdx? (· != c) with
        | none => rfl
        | some n => rfl
      · rw [if_pos (by simp [same]), if_neg (by simp [same])]
        rfl

theorem eraseAfter_findLastNotOf (s : List α) (c : α) :
    eraseAfter s (findLastNotOf s c) = s.rdropWhile (· == c) := by
  have reversed := eraseFront_findFirstNotOf s.reverse c
  rw [List.rdropWhile, ← reversed, findLastNotOf, findFirstNotOf]
  cases found : s.reverse.findIdx? (· != c) with
  | none => rfl
  | some n =>
      have inside := (List.findIdx?_eq_some_iff_getElem.mp found).1
      rw [List.length_reverse] at inside
      rw [Option.map_some, eraseAfter, eraseFront, List.drop_reverse, List.reverse_reverse]
      congr 1
      omega

end StdString
