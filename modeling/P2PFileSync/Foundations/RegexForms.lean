import Mathlib.Computability.RegularExpressions

/-!
# Forms of regular expressions

The forms in which programs write regular expressions, as Mathlib's: a class of
letters, a literal text, `?`, `+` and the counted repetition `{m,n}`.

Two properties of all words of an expression are computed from the expression:
which letters a word may have (`letters`), and that every word has a given letter
(`requires`).
-/

set_option autoImplicit false

namespace RegexForms

universe u

variable {α : Type u}

open RegularExpression

/-! ## The forms -/

/-- One letter of a class, `[...]`. -/
def oneOf (letters : List α) : RegularExpression α := letters.foldr (fun a r => char a + r) 0

/-- A text. -/
def literal (text : List α) : RegularExpression α := text.foldr (fun a r => char a * r) 1

/-- `r?` -/
def optional (r : RegularExpression α) : RegularExpression α := 1 + r

/-- `r+` -/
def oneOrMore (r : RegularExpression α) : RegularExpression α := r * r.star

/-- `r{m,n}` -/
def repeated (m n : ℕ) (r : RegularExpression α) : RegularExpression α :=
  r ^ m * optional r ^ (n - m)

variable {x : List α} {r : RegularExpression α}

theorem mem_oneOf {letters : List α} :
    x ∈ (oneOf letters).matches' ↔ ∃ a ∈ letters, x = [a] := by
  induction letters with
  | nil =>
      refine iff_of_false (Set.notMem_empty x) ?_
      rintro ⟨a, member, -⟩
      cases member
  | cons a letters ih =>
      rw [oneOf, List.foldr_cons, matches'_add, Language.mem_add, ← oneOf, ih,
        List.exists_mem_cons_iff]
      rfl

theorem mem_literal {text : List α} : x ∈ (literal text).matches' ↔ x = text := by
  induction text generalizing x with
  | nil => rfl
  | cons a text ih =>
      rw [literal, List.foldr_cons, matches'_mul, Language.mem_mul, ← literal]
      constructor
      · rintro ⟨_, rfl, rest, member, rfl⟩
        rw [ih.mp member]
        rfl
      · rintro rfl
        exact ⟨[a], rfl, text, ih.mpr rfl, rfl⟩

/-- One or more letters of a class. -/
theorem mem_oneOrMore_oneOf {letters : List α} :
    x ∈ (oneOrMore (oneOf letters)).matches' ↔ x ≠ [] ∧ ∀ a ∈ x, a ∈ letters := by
  rw [oneOrMore, matches'_mul, Language.mem_mul]
  constructor
  · rintro ⟨first, isFirst, rest, member, rfl⟩
    obtain ⟨a, inClass, rfl⟩ := mem_oneOf.mp isFirst
    obtain ⟨parts, rfl, each⟩ := Language.mem_kstar.mp member
    refine ⟨List.cons_ne_nil _ _, List.forall_mem_cons.mpr ⟨inClass, ?_⟩⟩
    intro b found
    obtain ⟨part, isPart, here⟩ := List.mem_flatten.mp found
    obtain ⟨c, known, rfl⟩ := mem_oneOf.mp (each part isPart)
    exact List.mem_singleton.mp here ▸ known
  · rintro ⟨nonempty, all⟩
    cases x with
    | nil => exact absurd rfl nonempty
    | cons a rest =>
        obtain ⟨first, later⟩ := List.forall_mem_cons.mp all
        refine ⟨[a], mem_oneOf.mpr ⟨a, first, rfl⟩, rest, ?_, rfl⟩
        refine Language.mem_kstar.mpr ⟨rest.map fun b => [b], ?_, ?_⟩
        · rw [← List.flatMap_def, List.flatMap_singleton']
        · intro part member
          obtain ⟨b, inRest, rfl⟩ := List.mem_map.mp member
          exact mem_oneOf.mpr ⟨b, later b inRest, rfl⟩

/-! ## Repeated letters -/

theorem mem_optional : x ∈ (optional r).matches' ↔ x = [] ∨ x ∈ r.matches' := Iff.rfl

/-- Words of a fixed number of letters of a class. -/
theorem mem_pow_oneOf {letters : List α} {n : ℕ} :
    x ∈ (oneOf letters ^ n).matches' ↔ x.length = n ∧ ∀ a ∈ x, a ∈ letters := by
  induction n generalizing x with
  | zero =>
      constructor
      · rintro rfl
        exact ⟨rfl, fun a member => absurd member List.not_mem_nil⟩
      · rintro ⟨empty, -⟩
        exact List.length_eq_zero_iff.mp empty
  | succ n ih =>
      rw [matches'_pow, pow_succ', Language.mem_mul, ← matches'_pow]
      simp only [mem_oneOf, ih]
      constructor
      · rintro ⟨_, ⟨a, inClass, rfl⟩, rest, ⟨rfl, later⟩, rfl⟩
        exact ⟨rfl, List.forall_mem_cons.mpr ⟨inClass, later⟩⟩
      · rintro ⟨length, all⟩
        cases x with
        | nil => cases length
        | cons a rest =>
            obtain ⟨inClass, later⟩ := List.forall_mem_cons.mp all
            exact ⟨[a], ⟨a, inClass, rfl⟩, rest, ⟨Nat.succ.inj length, later⟩, rfl⟩

/-- Words of at most so many letters of a class. -/
theorem mem_pow_optional_oneOf {letters : List α} {n : ℕ} :
    x ∈ (optional (oneOf letters) ^ n).matches' ↔ x.length ≤ n ∧ ∀ a ∈ x, a ∈ letters := by
  induction n generalizing x with
  | zero =>
      constructor
      · rintro rfl
        exact ⟨Nat.le_refl 0, fun a member => absurd member List.not_mem_nil⟩
      · rintro ⟨empty, -⟩
        exact List.length_eq_zero_iff.mp (Nat.le_zero.mp empty)
  | succ n ih =>
      rw [matches'_pow, pow_succ', Language.mem_mul, ← matches'_pow]
      simp only [mem_optional, mem_oneOf, ih]
      constructor
      · rintro ⟨_, rfl | ⟨a, inClass, rfl⟩, rest, ⟨length, later⟩, rfl⟩
        · exact ⟨Nat.le_succ_of_le length, later⟩
        · exact ⟨Nat.succ_le_succ length, List.forall_mem_cons.mpr ⟨inClass, later⟩⟩
      · rintro ⟨length, all⟩
        cases x with
        | nil => exact ⟨[], .inl rfl, [], ⟨Nat.zero_le n, all⟩, rfl⟩
        | cons a rest =>
            obtain ⟨inClass, later⟩ := List.forall_mem_cons.mp all
            exact ⟨[a], .inr ⟨a, inClass, rfl⟩, rest, ⟨Nat.le_of_succ_le_succ length, later⟩, rfl⟩

/-- `[...]{m,n}` -/
theorem mem_repeated_oneOf {letters : List α} {m n : ℕ} (le : m ≤ n) :
    x ∈ (repeated m n (oneOf letters)).matches' ↔
      m ≤ x.length ∧ x.length ≤ n ∧ ∀ a ∈ x, a ∈ letters := by
  rw [repeated, matches'_mul, Language.mem_mul]
  simp only [mem_pow_oneOf, mem_pow_optional_oneOf]
  constructor
  · rintro ⟨front, ⟨length, first⟩, back, ⟨atMost, later⟩, rfl⟩
    rw [List.length_append]
    exact ⟨by omega, by omega, List.forall_mem_append.mpr ⟨first, later⟩⟩
  · rintro ⟨atLeast, atMost, all⟩
    refine ⟨x.take m, ⟨List.length_take_of_le atLeast, ?_⟩, x.drop m, ⟨?_, ?_⟩,
      List.take_append_drop m x⟩
    · exact fun a member => all a (List.mem_of_mem_take member)
    · rw [List.length_drop]
      omega
    · exact fun a member => all a (List.mem_of_mem_drop member)

/-- `r{n,n}` -/
theorem matches_repeated_self (n : ℕ) (r : RegularExpression α) :
    (repeated n n r).matches' = r.matches' ^ n := by
  rw [repeated, matches'_mul, matches'_pow, matches'_pow, Nat.sub_self, pow_zero, mul_one]

/-! ## All words of an expression -/

/-- The letters that occur in an expression. -/
def letters : RegularExpression α → List α
  | .zero => []
  | .epsilon => []
  | .char a => [a]
  | .plus r s => letters r ++ letters s
  | .comp r s => letters r ++ letters s
  | .star r => letters r

/-- The words of an expression are made of its letters. -/
theorem mem_letters (member : x ∈ r.matches') : ∀ a ∈ x, a ∈ letters r := by
  induction r generalizing x with
  | zero => cases member
  | epsilon =>
      obtain rfl := member
      exact fun a inWord => absurd inWord List.not_mem_nil
  | char a =>
      obtain rfl := member
      exact fun b inWord => inWord
  | plus r s ihr ihs =>
      intro a inWord
      rcases member with left | right
      · exact List.mem_append_left _ (ihr left a inWord)
      · exact List.mem_append_right _ (ihs right a inWord)
  | comp r s ihr ihs =>
      obtain ⟨front, left, back, right, rfl⟩ := Language.mem_mul.mp member
      intro a inWord
      rcases List.mem_append.mp inWord with inFront | inBack
      · exact List.mem_append_left _ (ihr left a inFront)
      · exact List.mem_append_right _ (ihs right a inBack)
  | star r ih =>
      obtain ⟨parts, rfl, each⟩ := Language.mem_kstar.mp member
      intro a inWord
      obtain ⟨part, isPart, here⟩ := List.mem_flatten.mp inWord
      exact ih (each part isPart) a here

variable [DecidableEq α]

/-- Every word of the expression has the letter. -/
def requires (a : α) : RegularExpression α → Bool
  | .zero => true
  | .epsilon => false
  | .char b => a = b
  | .plus r s => requires a r && requires a s
  | .comp r s => requires a r || requires a s
  | .star _ => false

theorem mem_of_requires {a : α} (required : requires a r = true) (member : x ∈ r.matches') :
    a ∈ x := by
  induction r generalizing x with
  | zero => cases member
  | epsilon => cases required
  | char b =>
      obtain rfl := member
      exact List.mem_singleton.mpr (of_decide_eq_true required)
  | plus r s ihr ihs =>
      obtain ⟨left, right⟩ := (Bool.and_eq_true _ _).mp required
      exact member.elim (ihr left) (ihs right)
  | comp r s ihr ihs =>
      obtain ⟨front, inLeft, back, inRight, rfl⟩ := Language.mem_mul.mp member
      rcases (Bool.or_eq_true _ _).mp required with left | right
      · exact List.mem_append_left _ (ihr left inLeft)
      · exact List.mem_append_right _ (ihs right inRight)
  | star r ih => cases required

end RegexForms
