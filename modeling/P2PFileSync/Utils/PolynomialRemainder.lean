import P2PFileSync.Foundations.BitPolynomial
import P2PFileSync.Utils.Bitpos

/-!
# Remainders of polynomials

`polymod` divides a polynomial in two words by the polynomial of a word. The
divisor moves up until its highest bit is the highest bit of the word; the first
loop clears the high word and the second one the low word down to the degree of
the divisor. Each subtraction is of a multiple of the divisor and clears the
highest bit that is left, so what remains is the remainder
(`polymod_isRemainder`). `polymmult` multiplies without carries and divides
(`polymmult_isRemainder`).
-/

set_option autoImplicit false

namespace P2PFileSync

namespace RabinChecksum

open Polynomial BinaryDigits BitPolynomial Bitops

/-! ## The functions -/

/-- The test `n & 1 << i`. -/
def isSet (n : UInt64) (i : ℕ) : Bool := n &&& (1 <<< UInt64.ofNat i) ≠ 0

/-- The first loop of `polymod`, from the bit below the given one downwards, on
the high and the low word. -/
def reduceHigh (d : UInt64) : ℕ → UInt64 × UInt64 → UInt64 × UInt64
  | 0, n => n
  | i + 1, (nh, nl) =>
      reduceHigh d i
        (if isSet nh i then
          (nh ^^^ d >>> UInt64.ofNat (63 - i), nl ^^^ d <<< UInt64.ofNat (i + 1))
        else (nh, nl))

/-- The second loop of `polymod`, from the bit below the given one down to the
bit `k`, on the low word. -/
def reduceLow (d : UInt64) (k : ℕ) : ℕ → UInt64 → UInt64
  | 0, nl => nl
  | i + 1, nl =>
      if k ≤ i then
        reduceLow d k i (if isSet nl i then nl ^^^ d >>> UInt64.ofNat (63 - i) else nl)
      else nl

/-- The part of `polymod` for a high word that is not zero. -/
def clearHigh (nh nl d : UInt64) : UInt64 × UInt64 :=
  if nh ≠ 0 then
    reduceHigh d 63 (if nh &&& 0x8000000000000000 ≠ 0 then (nh ^^^ d, nl) else (nh, nl))
  else (nh, nl)

/-- `polymod`, for a divisor other than zero. -/
def polymod (nh nl d : UInt64) : UInt64 :=
  reduceLow (d <<< UInt64.ofNat (63 - (fls64 d - 1))) (fls64 d - 1) 64
    (clearHigh nh nl (d <<< UInt64.ofNat (63 - (fls64 d - 1)))).2

/-- The loop of `polymmult` up to the given bit: the high and the low word. -/
def partialProduct (x y : UInt64) : ℕ → UInt64 × UInt64
  | 0 => (0, if x &&& 1 ≠ 0 then y else 0)
  | i + 1 =>
      if isSet x (i + 1) then
        ((partialProduct x y i).1 ^^^ y >>> UInt64.ofNat (64 - (i + 1)),
          (partialProduct x y i).2 ^^^ y <<< UInt64.ofNat (i + 1))
      else partialProduct x y i

/-- `polymmult`. -/
def polymmult (x y d : UInt64) : UInt64 :=
  polymod (partialProduct x y 63).1 (partialProduct x y 63).2 d

/-! ## Reduction -/

section Reduction

variable {P : (ZMod 2)[X]} {d : UInt64}

/-- The test of a single bit. -/
theorem isSet_iff (n : UInt64) {i : ℕ} (small : i < 64) : isSet n i = n.toNat.testBit i := by
  rw [isSet, Bool.eq_iff_iff, decide_eq_true_iff]
  exact and_bit_ne_zero_iff n small

/-- The divisor, moved down to the highest bit that is left, clears that bit. -/
theorem toNat_clearBit (top : d.toNat.testBit 63 = true) {i : ℕ} (within : i < 64) {n : UInt64}
    (small : n.toNat < 2 ^ (i + 1)) (bit : n.toNat.testBit i = true) :
    (n ^^^ d >>> UInt64.ofNat (63 - i)).toNat < 2 ^ i := by
  have dropped : (d >>> UInt64.ofNat (63 - i)).toNat = d.toNat >>> (63 - i) :=
    toNat_shiftRight_word d (by omega)
  have highest : (d >>> UInt64.ofNat (63 - i)).toNat.testBit i = true := by
    have place : 63 - i + i = 63 := by omega
    rw [dropped, Nat.testBit_shiftRight, place, top]
  have below : (d >>> UInt64.ofNat (63 - i)).toNat < 2 ^ (i + 1) := by
    have width : 2 ^ (i + 1) * 2 ^ (63 - i) = 2 ^ 64 := by
      rw [← Nat.pow_add]
      congr 1
      omega
    rw [dropped, Nat.shiftRight_eq_div_pow, Nat.div_lt_iff_lt_mul (Nat.two_pow_pos _), width]
    exact d.toNat_lt
  rw [UInt64.toNat_xor]
  exact xor_lt_two_pow small below bit highest

/-- The first loop clears the high word and keeps the remainder by whatever
divides the word it subtracts. -/
theorem reduceHigh_spec (divides : P ∣ ofWord d) (top : d.toNat.testBit 63 = true) {i : ℕ}
    (within : i ≤ 63) {nh nl : UInt64} (small : nh.toNat < 2 ^ i) :
    (reduceHigh d i (nh, nl)).1 = 0 ∧
      AdjoinRoot.mk P (ofWords (reduceHigh d i (nh, nl))) = AdjoinRoot.mk P (ofWords (nh, nl)) := by
  induction i generalizing nh nl with
  | zero =>
      have zero : nh = 0 := UInt64.toNat_inj.mp (by simpa using small)
      exact ⟨zero, rfl⟩
  | succ i ih =>
      rw [reduceHigh, isSet_iff nh (by omega)]
      cases bit : nh.toNat.testBit i with
      | false =>
          rw [if_neg Bool.false_ne_true]
          exact ih (by omega) (lt_two_pow_of_clear small bit)
      | true =>
          have smaller := toNat_clearBit top (by omega) small bit
          -- what the shift of the divisor to the left drops goes to the high word
          have subtracted : ofWords (nh ^^^ d >>> UInt64.ofNat (63 - i),
              nl ^^^ d <<< UInt64.ofNat (i + 1)) =
              ofWords (nh, nl) + ofWord d * X ^ (i + 1) := by
            have amount : 64 - (i + 1) = 63 - i := by omega
            rw [ofWord_mul_X_pow d (Nat.succ_pos i) (by omega), amount]
            simp only [ofWords, ofWord_xor]
            ring
          rw [if_pos rfl]
          obtain ⟨cleared, same⟩ := ih (by omega) smaller
          refine ⟨cleared, same.trans ?_⟩
          rw [subtracted]
          exact mk_add_multiple (divides.mul_right _)

/-- The high word is cleared, whatever it was. -/
theorem clearHigh_spec (divides : P ∣ ofWord d) (top : d.toNat.testBit 63 = true)
    (nh nl : UInt64) :
    (clearHigh nh nl d).1 = 0 ∧
      AdjoinRoot.mk P (ofWords (clearHigh nh nl d)) = AdjoinRoot.mk P (ofWords (nh, nl)) := by
  unfold clearHigh
  by_cases zero : nh = 0
  · subst zero
    simp
  · rw [if_pos zero]
    have highest : (nh &&& 0x8000000000000000 ≠ 0) ↔ nh.toNat.testBit 63 = true := by
      have mask : (0x8000000000000000 : UInt64) = 1 <<< UInt64.ofNat 63 := by decide
      rw [mask]
      exact and_bit_ne_zero_iff nh (by decide)
    by_cases bit : nh.toNat.testBit 63 = true
    · rw [if_pos (highest.mpr bit)]
      have smaller : (nh ^^^ d).toNat < 2 ^ 63 := by
        rw [UInt64.toNat_xor]
        exact xor_lt_two_pow nh.toNat_lt d.toNat_lt bit top
      obtain ⟨cleared, same⟩ := reduceHigh_spec divides top (Nat.le_refl 63) smaller
      refine ⟨cleared, same.trans ?_⟩
      have subtracted : ofWords (nh ^^^ d, nl) = ofWords (nh, nl) + ofWord d * X ^ 64 := by
        simp only [ofWords, ofWord_xor]
        ring
      rw [subtracted]
      exact mk_add_multiple (divides.mul_right _)
    · rw [if_neg (fun set => bit (highest.mp set))]
      exact reduceHigh_spec divides top (Nat.le_refl 63)
        (lt_two_pow_of_clear nh.toNat_lt (Bool.eq_false_iff.mpr bit))

/-! ## The divisor moved up -/

variable {k : ℕ}

/-- A word whose highest bit is `k` moves up to the bit `63` without a loss. -/
theorem toNat_moved (within : k < 64) (small : d.toNat < 2 ^ (k + 1)) :
    (d <<< UInt64.ofNat (63 - k)).toNat = d.toNat <<< (63 - k) := by
  have fits : d.toNat <<< (63 - k) < 2 ^ 64 := by
    have width : k + 1 + (63 - k) = 64 := by omega
    rw [← width]
    exact Nat.shiftLeft_lt small
  rw [toNat_shiftLeft_word d (by omega), Nat.mod_eq_of_lt fits]

theorem testBit_moved (within : k < 64) (top : d.toNat.testBit k = true)
    (small : d.toNat < 2 ^ (k + 1)) :
    (d <<< UInt64.ofNat (63 - k)).toNat.testBit 63 = true := by
  have place : 63 - (63 - k) = k := by omega
  simp [toNat_moved within small, Nat.testBit_shiftLeft, place, top]

/-- Moved down again to a bit `i`, it is a multiple of the word. -/
theorem toNat_movedDown (small : d.toNat < 2 ^ (k + 1)) {i : ℕ} (reached : k ≤ i)
    (within : i < 64) :
    (d <<< UInt64.ofNat (63 - k) >>> UInt64.ofNat (63 - i)).toNat = d.toNat <<< (i - k) := by
  have amount : 63 - k = i - k + (63 - i) := by omega
  rw [toNat_shiftRight_word _ (by omega), toNat_moved (by omega) small, amount,
    Nat.shiftLeft_add, Nat.shiftLeft_shiftRight]

/-- The second loop ends below the degree of the divisor and keeps the
remainder. -/
theorem reduceLow_spec (top : d.toNat.testBit k = true) (small : d.toNat < 2 ^ (k + 1)) {i : ℕ}
    (reached : k ≤ i) (within : i ≤ 64) {nl : UInt64} (bounded : nl.toNat < 2 ^ i) :
    (reduceLow (d <<< UInt64.ofNat (63 - k)) k i nl).toNat < 2 ^ k ∧
      AdjoinRoot.mk (ofWord d) (ofWord (reduceLow (d <<< UInt64.ofNat (63 - k)) k i nl)) =
        AdjoinRoot.mk (ofWord d) (ofWord nl) := by
  induction i generalizing nl with
  | zero =>
      have last : k = 0 := by omega
      rw [last]
      exact ⟨bounded, rfl⟩
  | succ i ih =>
      rw [reduceLow]
      by_cases above : k ≤ i
      · rw [if_pos above, isSet_iff nl (by omega)]
        cases bit : nl.toNat.testBit i with
        | false =>
            rw [if_neg Bool.false_ne_true]
            exact ih above (by omega) (lt_two_pow_of_clear bounded bit)
        | true =>
            have highest := testBit_moved (by omega) top small
            have smaller := toNat_clearBit highest (by omega) bounded bit
            have subtracted : ofWord (d <<< UInt64.ofNat (63 - k) >>> UInt64.ofNat (63 - i)) =
                ofWord d * X ^ (i - k) := by
              rw [ofWord, toNat_movedDown small above (by omega), ofBits_shiftLeft]
              rfl
            rw [if_pos rfl]
            obtain ⟨lower, same⟩ := ih above (by omega) smaller
            refine ⟨lower, same.trans ?_⟩
            rw [ofWord_xor, subtracted]
            exact mk_add_multiple (dvd_mul_right _ _)
      · have last : k = i + 1 := by omega
        rw [if_neg above, last]
        exact ⟨bounded, rfl⟩

/-- **`polymod` computes the remainder.** -/
theorem polymod_isRemainder (nonzero : d ≠ 0) (nh nl : UInt64) :
    IsRemainder (ofWord d) (ofWords (nh, nl)) (ofWord (polymod nh nl d)) := by
  obtain ⟨k, within, position, top, small⟩ := fls64_spec nonzero
  have divides : ofWord d ∣ ofWord (d <<< UInt64.ofNat (63 - k)) := by
    rw [ofWord, ofWord, toNat_moved within small, ofBits_shiftLeft]
    exact dvd_mul_right _ _
  obtain ⟨cleared, high⟩ := clearHigh_spec divides (testBit_moved within top small) nh nl
  obtain ⟨below, low⟩ := reduceLow_spec top small (Nat.le_of_lt within) (Nat.le_refl 64)
    (clearHigh nh nl (d <<< UInt64.ofNat (63 - k))).2.toNat_lt
  have unfolded : polymod nh nl d = reduceLow (d <<< UInt64.ofNat (63 - k)) k 64
      (clearHigh nh nl (d <<< UInt64.ofNat (63 - k))).2 := by
    unfold polymod
    rw [position, Nat.add_sub_cancel]
  rw [unfolded]
  apply IsRemainder.of_mk_eq
  · have degree : (ofWord d).degree = k := (monic_ofBits top small).2
    rw [degree]
    exact degree_ofWord_lt_iff.mpr below
  · rw [low, ← high, ofWords, cleared, ofWord_zero, zero_mul, zero_add]

end Reduction

/-! ## Multiplication -/

/-- The loop adds up the shifts of `y` by the bits of `x`. -/
theorem ofWords_partialProduct (x y : UInt64) {i : ℕ} (within : i < 64) :
    ofWords (partialProduct x y i) = ofBits (x.toNat % 2 ^ (i + 1)) * ofWord y := by
  induction i with
  | zero =>
      have lowest : x &&& 1 ≠ 0 ↔ x.toNat.testBit 0 = true := and_bit_ne_zero_iff x within
      have none : x.toNat % 2 ^ 0 = 0 := Nat.mod_one _
      rw [ofBits_mod_succ, none, ofBits_zero, zero_add, partialProduct, ofWords, ofWord_zero,
        zero_mul, zero_add, pow_zero]
      by_cases bit : x.toNat.testBit 0 = true
      · rw [if_pos bit, if_pos (lowest.mpr bit), one_mul]
      · rw [if_neg bit, if_neg (fun set => bit (lowest.mp set)), ofWord_zero, zero_mul]
  | succ i ih =>
      have earlier := ih (by omega)
      rw [ofBits_mod_succ, partialProduct, isSet_iff x within]
      by_cases bit : x.toNat.testBit (i + 1) = true
      · rw [if_pos bit, if_pos bit, add_mul, ← earlier, mul_comm (X ^ (i + 1)),
          ofWord_mul_X_pow y (Nat.succ_pos i) within]
        simp only [ofWords, ofWord_xor]
        ring
      · rw [if_neg bit, if_neg bit, add_zero, earlier]

/-- **`polymmult` computes the remainder of the product.** -/
theorem polymmult_isRemainder {d : UInt64} (nonzero : d ≠ 0) (x y : UInt64) :
    IsRemainder (ofWord d) (ofWord x * ofWord y) (ofWord (polymmult x y d)) := by
  have product : ofWords (partialProduct x y 63) = _ := ofWords_partialProduct x y (by decide)
  rw [Nat.mod_eq_of_lt x.toNat_lt] at product
  have remainder := polymod_isRemainder nonzero (partialProduct x y 63).1 (partialProduct x y 63).2
  rw [Prod.eta, product] at remainder
  exact remainder

end RabinChecksum

end P2PFileSync
