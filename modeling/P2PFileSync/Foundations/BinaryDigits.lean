import Mathlib.Data.Nat.Bitwise
import Mathlib.Data.Nat.Size

/-!
# Binary digits

Facts about the bits of numbers below a power of two: where they are clear, what
a mask of the upper ones tests, and where the highest one stands. A number has
`Nat.size` digits.
-/

set_option autoImplicit false

namespace BinaryDigits

/-! ## Numbers below a power of two -/

theorem testBit_of_lt {n k i : ℕ} (small : n < 2 ^ k) (above : k ≤ i) : n.testBit i = false :=
  Nat.testBit_lt_two_pow (Nat.lt_of_lt_of_le small (Nat.pow_le_pow_right (by decide) above))

/-- The number below a bit that is clear. -/
theorem lt_two_pow_of_clear {n k : ℕ} (small : n < 2 ^ (k + 1)) (clear : n.testBit k = false) :
    n < 2 ^ k := by
  apply Nat.lt_pow_two_of_testBit
  intro i large
  rcases Nat.eq_or_lt_of_le large with rfl | above
  · exact clear
  · exact testBit_of_lt small above

/-- Two numbers with the same highest bit differ by less than it. -/
theorem xor_lt_two_pow {m n k : ℕ} (first : m < 2 ^ (k + 1)) (second : n < 2 ^ (k + 1))
    (firstBit : m.testBit k = true) (secondBit : n.testBit k = true) : m ^^^ n < 2 ^ k := by
  apply Nat.lt_pow_two_of_testBit
  intro i large
  rw [Nat.testBit_xor]
  rcases Nat.eq_or_lt_of_le large with rfl | above
  · rw [firstBit, secondBit]
    rfl
  · rw [testBit_of_lt first above, testBit_of_lt second above]
    rfl

/-- A number below a power of two has no bit in common with a shifted one. -/
theorem and_shiftLeft_mod {n k : ℕ} (small : n < 2 ^ k) (m w : ℕ) :
    n &&& (m <<< k % 2 ^ w) = 0 := by
  apply Nat.eq_of_testBit_eq
  intro i
  rw [Nat.testBit_and, Nat.testBit_mod_two_pow, Nat.testBit_shiftLeft, Nat.zero_testBit]
  by_cases large : k ≤ i
  · simp [testBit_of_lt small large]
  · simp [large]

/-- A mask of the upper bits of a number with `w` of them. -/
theorem and_upper_eq_zero_iff {n w b : ℕ} (small : n < 2 ^ w) :
    n &&& (2 ^ b - 1) <<< (w - b) = 0 ↔ n < 2 ^ (w - b) := by
  constructor
  · intro clear
    apply Nat.lt_pow_two_of_testBit
    intro i above
    rcases Nat.lt_or_ge i w with inside | outside
    · have bit := congrArg (fun m : ℕ => m.testBit i) clear
      have masked : i - (w - b) < b := by omega
      simpa [Nat.testBit_and, Nat.testBit_shiftLeft, Nat.testBit_two_pow_sub_one, above, masked]
        using bit
    · exact testBit_of_lt small outside
  · intro low
    apply Nat.eq_of_testBit_eq
    intro i
    rw [Nat.testBit_and, Nat.testBit_shiftLeft, Nat.zero_testBit]
    by_cases above : w - b ≤ i
    · rw [testBit_of_lt low above, Bool.false_and]
    · simp [above]

/-! ## The number of digits -/

theorem size_shiftRight (n k : ℕ) : (n >>> k).size = n.size - k := by
  apply eq_of_forall_ge_iff
  intro m
  rw [Nat.size_le, Nat.shiftRight_eq_div_pow, Nat.div_lt_iff_lt_mul (Nat.two_pow_pos k),
    ← Nat.pow_add, ← Nat.size_le, Nat.sub_le_iff_le_add]

/-- The highest digit of a number is set. -/
theorem testBit_of_size {n k : ℕ} (digits : n.size = k + 1) :
    n.testBit k = true ∧ n < 2 ^ (k + 1) := by
  have small : n < 2 ^ (k + 1) := Nat.size_le.mp (Nat.le_of_eq digits)
  have large : 2 ^ k ≤ n := Nat.lt_size.mp (by omega)
  exact ⟨Nat.testBit_of_two_pow_le_and_two_pow_add_one_gt large small, small⟩

end BinaryDigits
