import P2PFileSync.Utils.PolynomialRemainder

/-!
# The amounts of the shifts

A shift of a word of 64 bits by less than 0 or by more than 63 places is
undefined. The functions of `PolynomialRemainder` are written here once more with
the amounts as the `int` values they are, and with shifts that test the amount. A
division is defined for every divisor but zero (`polymod_eq_none_iff`), and its
result is the remainder.

Main result: `polymod_polymmult_remainder`.
-/

set_option autoImplicit false

namespace P2PFileSync

namespace RabinChecksum

open Polynomial BitPolynomial Bitops

/-! ## The functions with the amounts tested -/

namespace Checked

/-- `x << n`; `none` where it is undefined. -/
def shiftLeft (x : UInt64) (n : ℤ) : Option UInt64 :=
  if 0 ≤ n ∧ n ≤ 63 then some (x <<< UInt64.ofNat n.toNat) else none

/-- `x >> n`; `none` where it is undefined. -/
def shiftRight (x : UInt64) (n : ℤ) : Option UInt64 :=
  if 0 ≤ n ∧ n ≤ 63 then some (x >>> UInt64.ofNat n.toNat) else none

/-- The test `n & 1 << i`. -/
def isSet (n : UInt64) (i : ℤ) : Option Bool :=
  (shiftLeft 1 i).map fun bit => n &&& bit ≠ 0

/-- The first loop of `polymod`, from the bit below the given one downwards. -/
def reduceHigh (d : UInt64) : ℕ → UInt64 × UInt64 → Option (UInt64 × UInt64)
  | 0, n => some n
  | i + 1, (nh, nl) =>
      (isSet nh i).bind fun set =>
        if set then
          (shiftRight d (63 - i)).bind fun right =>
            (shiftLeft d (i + 1)).bind fun left => reduceHigh d i (nh ^^^ right, nl ^^^ left)
        else reduceHigh d i (nh, nl)

/-- The second loop of `polymod`, from the bit below the given one down to the
bit `k`. -/
def reduceLow (d : UInt64) (k : ℤ) : ℕ → UInt64 → Option UInt64
  | 0, nl => some nl
  | i + 1, nl =>
      if k ≤ i then
        (isSet nl i).bind fun set =>
          if set then
            (shiftRight d (63 - i)).bind fun right => reduceLow d k i (nl ^^^ right)
          else reduceLow d k i nl
      else some nl

/-- The part of `polymod` for a high word that is not zero. -/
def clearHigh (nh nl d : UInt64) : Option (UInt64 × UInt64) :=
  if nh ≠ 0 then
    reduceHigh d 63 (if nh &&& 0x8000000000000000 ≠ 0 then (nh ^^^ d, nl) else (nh, nl))
  else some (nh, nl)

/-- `polymod`. For the divisor zero, `k` is `-1`. -/
def polymod (nh nl d : UInt64) : Option UInt64 :=
  let k : ℤ := fls64 d - 1
  (shiftLeft d (63 - k)).bind fun d =>
    (clearHigh nh nl d).bind fun n => reduceLow d k 64 n.2

/-- The loop of `polymmult` up to the given bit: the high and the low word. -/
def partialProduct (x y : UInt64) : ℕ → Option (UInt64 × UInt64)
  | 0 => some (0, if x &&& 1 ≠ 0 then y else 0)
  | i + 1 =>
      (partialProduct x y i).bind fun p =>
        (isSet x (i + 1)).bind fun set =>
          if set then
            (shiftRight y (64 - (i + 1))).bind fun right =>
              (shiftLeft y (i + 1)).map fun left => (p.1 ^^^ right, p.2 ^^^ left)
          else some p

/-- `polymmult`. -/
def polymmult (x y d : UInt64) : Option UInt64 :=
  (partialProduct x y 63).bind fun p => polymod p.1 p.2 d

/-! ## Amounts in range -/

theorem shiftLeft_eq {x : UInt64} {n : ℤ} {m : ℕ} (amount : n = m) (small : m < 64) :
    shiftLeft x n = some (x <<< UInt64.ofNat m) := by
  have range : 0 ≤ n ∧ n ≤ 63 := by omega
  rw [shiftLeft, if_pos range, amount, Int.toNat_natCast]

theorem shiftRight_eq {x : UInt64} {n : ℤ} {m : ℕ} (amount : n = m) (small : m < 64) :
    shiftRight x n = some (x >>> UInt64.ofNat m) := by
  have range : 0 ≤ n ∧ n ≤ 63 := by omega
  rw [shiftRight, if_pos range, amount, Int.toNat_natCast]

theorem isSet_eq {n : UInt64} {i : ℤ} {m : ℕ} (place : i = m) (small : m < 64) :
    isSet n i = some (RabinChecksum.isSet n m) := by
  rw [isSet, shiftLeft_eq place small]
  rfl

/-- The first loop shifts by `63 - i` and `i + 1` for bits `i` below 63. -/
theorem reduceHigh_eq (d : UInt64) {i : ℕ} (within : i ≤ 63) (n : UInt64 × UInt64) :
    reduceHigh d i n = some (RabinChecksum.reduceHigh d i n) := by
  induction i generalizing n with
  | zero => rfl
  | succ i ih =>
      obtain ⟨nh, nl⟩ := n
      have down : (63 : ℤ) - i = (63 - i : ℕ) := by omega
      have up : (i : ℤ) + 1 = (i + 1 : ℕ) := by omega
      rw [reduceHigh, isSet_eq rfl (by omega), Option.bind_some, shiftRight_eq down (by omega),
        shiftLeft_eq up (by omega), RabinChecksum.reduceHigh]
      cases RabinChecksum.isSet nh i with
      | false => exact ih (by omega) _
      | true => exact ih (by omega) _

theorem clearHigh_eq (nh nl d : UInt64) :
    clearHigh nh nl d = some (RabinChecksum.clearHigh nh nl d) := by
  rw [clearHigh, RabinChecksum.clearHigh]
  by_cases zero : nh ≠ 0
  · rw [if_pos zero, if_pos zero, reduceHigh_eq d (Nat.le_refl 63)]
  · rw [if_neg zero, if_neg zero]

/-- The second loop shifts by `63 - i` for bits `i` of the word. -/
theorem reduceLow_eq (d : UInt64) {k : ℤ} {m : ℕ} (degree : k = m) {i : ℕ} (within : i ≤ 64)
    (nl : UInt64) : reduceLow d k i nl = some (RabinChecksum.reduceLow d m i nl) := by
  subst degree
  induction i generalizing nl with
  | zero => rfl
  | succ i ih =>
      have down : (63 : ℤ) - i = (63 - i : ℕ) := by omega
      rw [reduceLow, RabinChecksum.reduceLow]
      by_cases reached : m ≤ i
      · rw [if_pos reached, if_pos (Int.ofNat_le.mpr reached), isSet_eq rfl (by omega),
          Option.bind_some, shiftRight_eq down (by omega)]
        cases RabinChecksum.isSet nl i with
        | false => exact ih (by omega) _
        | true => exact ih (by omega) _
      · rw [if_neg reached, if_neg (fun le => reached (Int.ofNat_le.mp le))]

/-- Multiplying shifts by `i` and `64 - i` for bits `i` from 1 to 63. -/
theorem partialProduct_eq (x y : UInt64) {i : ℕ} (within : i < 64) :
    partialProduct x y i = some (RabinChecksum.partialProduct x y i) := by
  induction i with
  | zero => rfl
  | succ i ih =>
      have up : (i : ℤ) + 1 = (i + 1 : ℕ) := by omega
      have down : (64 : ℤ) - (i + 1) = (64 - (i + 1) : ℕ) := by omega
      rw [partialProduct, ih (by omega), Option.bind_some, isSet_eq up within, Option.bind_some,
        shiftRight_eq down (by omega), shiftLeft_eq up within, RabinChecksum.partialProduct]
      cases RabinChecksum.isSet x (i + 1) with
      | false => rfl
      | true => rfl

/-- **A division is defined for every divisor but zero.** The highest bit `k` of
the divisor is one of the 64, so the divisor moves up by `63 - k`. -/
theorem polymod_eq {d : UInt64} (nonzero : d ≠ 0) (nh nl : UInt64) :
    polymod nh nl d = some (RabinChecksum.polymod nh nl d) := by
  obtain ⟨k, within, position, _, _⟩ := fls64_spec nonzero
  have degree : (fls64 d : ℤ) - 1 = k := by omega
  have up : (63 : ℤ) - k = (63 - k : ℕ) := by omega
  have same : fls64 d - 1 = k := by omega
  rw [polymod, degree, shiftLeft_eq up (by omega), Option.bind_some, clearHigh_eq,
    Option.bind_some, reduceLow_eq _ rfl (Nat.le_refl 64), RabinChecksum.polymod, same]

theorem polymod_eq_none_iff (nh nl d : UInt64) : polymod nh nl d = none ↔ d = 0 := by
  constructor
  · intro undefined
    by_contra nonzero
    rw [polymod_eq nonzero] at undefined
    cases undefined
  · intro zero
    rw [zero]
    rfl

theorem polymmult_eq {d : UInt64} (nonzero : d ≠ 0) (x y : UInt64) :
    polymmult x y d = some (RabinChecksum.polymmult x y d) := by
  rw [polymmult, partialProduct_eq x y (by decide), Option.bind_some, polymod_eq nonzero]
  rfl

end Checked

/-! ## The remainders -/

/-- **Division and multiplication.** By a divisor other than zero, no shift is
undefined, `polymod` is the remainder of the polynomial of its two words, and
`polymmult` that of the product without carries. -/
theorem polymod_polymmult_remainder {d : UInt64} (nonzero : d ≠ 0) :
    (∀ nh nl, ∃ remainder, Checked.polymod nh nl d = some remainder ∧
      IsRemainder (ofWord d) (ofWords (nh, nl)) (ofWord remainder)) ∧
      ∀ x y, ∃ remainder, Checked.polymmult x y d = some remainder ∧
        IsRemainder (ofWord d) (ofWord x * ofWord y) (ofWord remainder) := by
  constructor
  · intro nh nl
    exact ⟨polymod nh nl d, Checked.polymod_eq nonzero nh nl, polymod_isRemainder nonzero nh nl⟩
  · intro x y
    exact ⟨polymmult x y d, Checked.polymmult_eq nonzero x y, polymmult_isRemainder nonzero x y⟩

/-- By `X ^ 2 + 1`, the remainder of `X ^ 64` is one, and that of the square of
`X + 1` is zero. -/
theorem remainders_by_five :
    (Checked.polymod 1 0 5 = some 1 ∧ IsRemainder (ofWord 5) (ofWords (1, 0)) (ofWord 1)) ∧
      Checked.polymmult 3 3 5 = some 0 ∧
        IsRemainder (ofWord 5) (ofWord 3 * ofWord 3) (ofWord 0) := by
  obtain ⟨divides, multiplies⟩ := polymod_polymmult_remainder (d := 5) (by decide)
  have power : Checked.polymod 1 0 5 = some 1 := by decide +kernel
  have square : Checked.polymmult 3 3 5 = some 0 := by decide +kernel
  obtain ⟨one, found, powerRemainder⟩ := divides 1 0
  obtain ⟨zero, foundSquare, squareRemainder⟩ := multiplies 3 3
  have first : one = 1 := Option.some.inj (found.symm.trans power)
  have second : zero = 0 := Option.some.inj (foundSquare.symm.trans square)
  rw [first] at powerRemainder
  rw [second] at squareRemainder
  exact ⟨⟨power, powerRemainder⟩, square, squareRemainder⟩

end RabinChecksum

end P2PFileSync
