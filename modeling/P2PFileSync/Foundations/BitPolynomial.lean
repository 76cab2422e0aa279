import Mathlib.Algebra.CharP.Two
import Mathlib.Algebra.Field.ZMod
import Mathlib.Algebra.Polynomial.Div
import Mathlib.Data.ZMod.Basic
import Mathlib.RingTheory.AdjoinRoot
import Mathlib.Tactic.LinearCombination
import P2PFileSync.Foundations.BinaryDigits

/-!
# Polynomials over the field of two elements as numbers

The bits of a natural number are the coefficients of a polynomial over the field
of two elements. Exclusive or is addition, and a shift to the left is
multiplication by a power of `X`.

A machine word keeps the low bits only. What a shift drops is what the opposite
shift keeps, so the product of a word and a power of `X` is a pair of words
(`ofBits_mul_X_pow`).

A polynomial of smaller degree is the remainder of another one as soon as the
two agree in the quotient by the modulus (`eq_modByMonic_of_mk_eq`). So
remainders are computed in a commutative ring.

A monic polynomial whose constant term is a unit divides no short run of
coefficients (`not_dvd_of_burst`).
-/

set_option autoImplicit false

namespace BitPolynomial

open Polynomial BinaryDigits

/-! ## The polynomial of a number -/

/-- The polynomial whose coefficients are the bits of the number. -/
noncomputable def ofBits (n : ℕ) : (ZMod 2)[X] :=
  ∑ i ∈ Finset.range n, if n.testBit i then X ^ i else 0

@[simp] theorem coeff_ofBits (n i : ℕ) :
    (ofBits n).coeff i = if n.testBit i then 1 else 0 := by
  have term : ∀ j, (if n.testBit j then (X : (ZMod 2)[X]) ^ j else 0).coeff i =
      if i = j then (if n.testBit i then 1 else 0) else 0 := by
    intro j
    by_cases same : i = j
    · subst same
      split <;> simp
    · split <;> simp [same, coeff_X_pow]
  rw [ofBits, finsetSum_coeff]
  simp only [term, Finset.sum_ite_eq, Finset.mem_range]
  by_cases bit : n.testBit i
  · have small : i < n := Nat.lt_of_lt_of_le Nat.lt_two_pow_self (Nat.ge_two_pow_of_testBit bit)
    simp [small]
  · simp [bit]

theorem ofBits_injective : Function.Injective ofBits := by
  intro m n same
  apply Nat.eq_of_testBit_eq
  intro i
  have coefficient := congrArg (fun p => p.coeff i) same
  simp only [coeff_ofBits] at coefficient
  by_cases first : m.testBit i <;> by_cases second : n.testBit i <;> simp_all

@[simp] theorem ofBits_zero : ofBits 0 = 0 := by simp [ofBits]

@[simp] theorem ofBits_two_pow (k : ℕ) : ofBits (2 ^ k) = X ^ k := by
  ext i
  simp only [coeff_ofBits, Nat.testBit_two_pow, coeff_X_pow, decide_eq_true_eq]
  simp only [eq_comm]

@[simp] theorem ofBits_one : ofBits 1 = 1 := by
  have power := ofBits_two_pow 0
  rwa [pow_zero, pow_zero] at power

/-- Exclusive or is addition. -/
theorem ofBits_xor (m n : ℕ) : ofBits (m ^^^ n) = ofBits m + ofBits n := by
  ext i
  simp only [coeff_ofBits, coeff_add, Nat.testBit_xor]
  cases m.testBit i <;> cases n.testBit i <;> decide

/-- Without a common bit, inclusive or is addition too. -/
theorem ofBits_or {m n : ℕ} (disjoint : m &&& n = 0) : ofBits (m ||| n) = ofBits m + ofBits n := by
  rw [← ofBits_xor]
  congr 1
  apply Nat.eq_of_testBit_eq
  intro i
  have bits := congrArg (fun b : ℕ => b.testBit i) disjoint
  simp only [Nat.testBit_and, Nat.zero_testBit] at bits
  simp only [Nat.testBit_or, Nat.testBit_xor]
  cases first : m.testBit i <;> cases second : n.testBit i <;> simp_all

/-- A shift to the left is multiplication by a power of `X`. -/
theorem ofBits_shiftLeft (n k : ℕ) : ofBits (n <<< k) = ofBits n * X ^ k := by
  ext i
  simp only [coeff_ofBits, Nat.testBit_shiftLeft, coeff_mul_X_pow']
  by_cases large : k ≤ i <;> simp [large]

/-- A number is its low bits and, above them, its high bits. -/
theorem ofBits_split (n k : ℕ) :
    ofBits n = ofBits (n >>> k) * X ^ k + ofBits (n % 2 ^ k) := by
  ext i
  simp only [coeff_ofBits, coeff_add, coeff_mul_X_pow', Nat.testBit_shiftRight,
    Nat.testBit_mod_two_pow]
  by_cases large : k ≤ i
  · have low : ¬ i < k := Nat.not_lt.mpr large
    simp [large, low]
  · have low : i < k := Nat.not_le.mp large
    simp [large, low]

/-- A number is below a power of two when its polynomial is below that degree. -/
theorem degree_ofBits_lt_iff {n k : ℕ} : (ofBits n).degree < k ↔ n < 2 ^ k := by
  rw [degree_lt_iff_coeff_zero]
  constructor
  · intro zero
    apply Nat.lt_pow_two_of_testBit
    intro i large
    have coefficient := zero i large
    simpa using coefficient
  · intro small i large
    simp [testBit_of_lt small large]

/-- One more bit of a number is one more power of `X`. -/
theorem ofBits_mod_succ (n k : ℕ) :
    ofBits (n % 2 ^ (k + 1)) =
      ofBits (n % 2 ^ k) + if n.testBit k then X ^ k else 0 := by
  ext i
  rw [coeff_add]
  rcases Nat.lt_trichotomy i k with low | rfl | high
  · have next : i < k + 1 := by omega
    have other : i ≠ k := by omega
    split <;> simp [low, next, other, coeff_X_pow]
  · have clear : ¬ i < i := Nat.lt_irrefl i
    split <;> simp_all [coeff_X_pow]
  · have above : ¬ i < k := by omega
    have next : ¬ i < k + 1 := by omega
    have other : i ≠ k := by omega
    split <;> simp [above, next, other, coeff_X_pow]

theorem add_self (p : (ZMod 2)[X]) : p + p = 0 := CharTwo.add_self_eq_zero p

/-! ## Words -/

/-- **Shifting a word.** The product with a power of `X` is the pair of what the
shift to the left keeps and what it drops. -/
theorem ofBits_mul_X_pow (n : ℕ) {k w : ℕ} (fits : k ≤ w) :
    ofBits n * X ^ k = ofBits (n >>> (w - k)) * X ^ w + ofBits (n <<< k % 2 ^ w) := by
  have dropped : (n <<< k) >>> w = n >>> (w - k) := by
    apply Nat.eq_of_testBit_eq
    intro i
    have place : w + i - k = w - k + i := by omega
    have above : k ≤ w + i := by omega
    simp [Nat.testBit_shiftRight, Nat.testBit_shiftLeft, place, above]
  rw [← ofBits_shiftLeft, ofBits_split (n <<< k) w, dropped]

/-- What the shift to the left keeps. -/
theorem ofBits_shiftLeft_mod (n : ℕ) {k w : ℕ} (fits : k ≤ w) :
    ofBits (n <<< k % 2 ^ w) = ofBits n * X ^ k + ofBits (n >>> (w - k)) * X ^ w := by
  rw [ofBits_mul_X_pow n fits]
  linear_combination -add_self (ofBits (n >>> (w - k)) * X ^ w)

/-! ## Bursts -/

section Burst

variable {R : Type*} [CommRing R] {P : R[X]}

/-- A polynomial whose constant term is a unit has no factor in common with `X`. -/
theorem isCoprime_X (constant : IsUnit (P.coeff 0)) : IsCoprime X P := by
  obtain ⟨c, inverse⟩ := constant.exists_left_inv
  have split : P.divX * X + C (P.coeff 0) = P := divX_mul_X_add P
  have cancels : C c * C (P.coeff 0) = 1 := by rw [← C_mul, inverse, C_1]
  exact ⟨-(C c * P.divX), C c, by linear_combination cancels - C c * split⟩

/-- A power of `X` cancels. -/
theorem dvd_mul_X_pow_iff (constant : IsUnit (P.coeff 0)) (e : R[X]) (k : ℕ) :
    P ∣ e * X ^ k ↔ P ∣ e := by
  constructor
  · intro divides
    exact (isCoprime_X constant).pow_left.symm.dvd_of_dvd_mul_right divides
  · exact fun divides => divides.mul_right _

/-- **A burst is no multiple.** A monic polynomial whose constant term is a unit
divides no polynomial other than zero whose coefficients lie within its degree
of each other. -/
theorem not_dvd_of_burst (constant : IsUnit (P.coeff 0)) (monic : P.Monic) {e : R[X]}
    (nonzero : e ≠ 0) {low : ℕ}
    (burst : ∀ i, e.coeff i ≠ 0 → low ≤ i ∧ i < low + P.natDegree) : ¬ P ∣ e := by
  have power : X ^ low ∣ e := by
    apply X_pow_dvd_iff.mpr
    intro i below
    by_contra present
    exact absurd (burst i present).1 (Nat.not_le.mpr below)
  obtain ⟨f, factors⟩ := power
  rw [mul_comm] at factors
  have remains : f ≠ 0 := by
    rintro rfl
    exact nonzero (by rw [factors, zero_mul])
  have small : f.degree < P.natDegree := by
    rw [degree_lt_iff_coeff_zero]
    intro i large
    by_contra present
    have coefficient : e.coeff (i + low) = f.coeff i := by rw [factors, coeff_mul_X_pow]
    have place := (burst (i + low) (by rwa [coefficient])).2
    omega
  rw [factors, dvd_mul_X_pow_iff constant]
  exact monic.not_dvd_of_natDegree_lt remains ((natDegree_lt_iff_degree_lt remains).mpr small)

end Burst

/-! ## Machine words of 64 bits -/

/-- The polynomial of a word. -/
noncomputable def ofWord (x : UInt64) : (ZMod 2)[X] := ofBits x.toNat

@[simp] theorem ofWord_zero : ofWord 0 = 0 := ofBits_zero

@[simp] theorem ofWord_one : ofWord 1 = 1 := ofBits_one

theorem ofWord_xor (x y : UInt64) : ofWord (x ^^^ y) = ofWord x + ofWord y := by
  rw [ofWord, UInt64.toNat_xor, ofBits_xor]
  rfl

theorem degree_ofWord_lt_iff {x : UInt64} {k : ℕ} : (ofWord x).degree < k ↔ x.toNat < 2 ^ k :=
  degree_ofBits_lt_iff

theorem toNat_shiftRight_word (x : UInt64) {k : ℕ} (small : k < 64) :
    (x >>> UInt64.ofNat k).toNat = x.toNat >>> k := by
  have amount : k % 2 ^ 64 % 64 = k := by omega
  rw [UInt64.toNat_shiftRight, UInt64.toNat_ofNat', amount]

theorem toNat_shiftLeft_word (x : UInt64) {k : ℕ} (small : k < 64) :
    (x <<< UInt64.ofNat k).toNat = x.toNat <<< k % 2 ^ 64 := by
  have amount : k % 2 ^ 64 % 64 = k := by omega
  rw [UInt64.toNat_shiftLeft, UInt64.toNat_ofNat', amount]

/-- The polynomial of a high and a low word. -/
noncomputable def ofWords (n : UInt64 × UInt64) : (ZMod 2)[X] := ofWord n.1 * X ^ 64 + ofWord n.2

/-- The two shifts of a word make up its product with a power of `X`. -/
theorem ofWord_mul_X_pow (x : UInt64) {k : ℕ} (positive : 0 < k) (small : k < 64) :
    ofWord x * X ^ k =
      ofWords (x >>> UInt64.ofNat (64 - k), x <<< UInt64.ofNat k) := by
  have opposite : 64 - k < 64 := by omega
  unfold ofWords ofWord
  rw [toNat_shiftRight_word x opposite, toNat_shiftLeft_word x small]
  exact ofBits_mul_X_pow x.toNat (Nat.le_of_lt small)

/-- Testing a word against a single bit. -/
theorem and_bit_ne_zero_iff (x : UInt64) {i : ℕ} (small : i < 64) :
    x &&& (1 <<< UInt64.ofNat i) ≠ 0 ↔ x.toNat.testBit i = true := by
  have mask : ((1 : UInt64) <<< UInt64.ofNat i).toNat = 2 ^ i := by
    have power : 2 ^ i < 2 ^ 64 := Nat.pow_lt_pow_right (by decide) small
    rw [toNat_shiftLeft_word 1 small, UInt64.toNat_one, Nat.shiftLeft_eq, Nat.one_mul,
      Nat.mod_eq_of_lt power]
  rw [ne_eq, ← UInt64.toNat_inj, UInt64.toNat_and, mask, UInt64.toNat_zero, Nat.and_two_pow]
  cases x.toNat.testBit i <;> simp

/-! ## Remainders -/

section Remainder

variable {P : (ZMod 2)[X]}

/-- The remainder `r` of `p` by `P`: congruent to `p` modulo `P`, and of degree
below that of `P`. -/
structure IsRemainder (P p r : (ZMod 2)[X]) : Prop where
  congruent : P ∣ p - r
  degree_lt : r.degree < P.degree

theorem IsRemainder.of_mk_eq {r p : (ZMod 2)[X]} (small : r.degree < P.degree)
    (same : AdjoinRoot.mk P r = AdjoinRoot.mk P p) : IsRemainder P p r :=
  ⟨AdjoinRoot.mk_eq_mk.mp same.symm, small⟩

theorem IsRemainder.mk_eq {r p : (ZMod 2)[X]} (remainder : IsRemainder P p r) :
    AdjoinRoot.mk P r = AdjoinRoot.mk P p :=
  (AdjoinRoot.mk_eq_mk.mpr remainder.congruent).symm

/-- Adding a multiple of the modulus keeps the remainder. -/
theorem mk_add_multiple {m p : (ZMod 2)[X]} (divides : P ∣ m) :
    AdjoinRoot.mk P (p + m) = AdjoinRoot.mk P p := by
  rw [map_add, AdjoinRoot.mk_eq_zero.mpr divides, add_zero]

/-- **Remainders are found in the quotient.** A polynomial of smaller degree than
the modulus that agrees with another one in the quotient is its remainder. -/
theorem eq_modByMonic_of_mk_eq (monic : P.Monic) {r p : (ZMod 2)[X]}
    (small : r.degree < P.degree) (same : AdjoinRoot.mk P r = AdjoinRoot.mk P p) :
    r = p %ₘ P := by
  obtain ⟨q, difference⟩ := AdjoinRoot.mk_eq_mk.mp same
  have quotient : r + P * -q = p := by linear_combination difference
  exact (div_modByMonic_unique (-q) r monic ⟨quotient, small⟩).2.symm

/-- Two polynomials of smaller degree that agree in the quotient are equal. -/
theorem eq_of_mk_eq (monic : P.Monic) {r s : (ZMod 2)[X]} (first : r.degree < P.degree)
    (second : s.degree < P.degree) (same : AdjoinRoot.mk P r = AdjoinRoot.mk P s) : r = s := by
  rw [eq_modByMonic_of_mk_eq monic first same]
  exact (modByMonic_eq_self_iff monic).mpr second

/-- A number with the highest bit `k` is a monic polynomial of degree `k`. -/
theorem monic_ofBits {n k : ℕ} (bit : n.testBit k = true) (small : n < 2 ^ (k + 1)) :
    (ofBits n).Monic ∧ (ofBits n).degree = k := by
  have coefficient : (ofBits n).coeff k = 1 := by simp [bit]
  have upper : (ofBits n).degree ≤ k := by
    rw [degree_le_iff_coeff_zero]
    intro i above
    have large : k + 1 ≤ i := by exact_mod_cast above
    exact (degree_lt_iff_coeff_zero _ _).mp (degree_ofBits_lt_iff.mpr small) i large
  have degree : (ofBits n).degree = k :=
    le_antisymm upper (le_degree_of_ne_zero (by rw [coefficient]; exact one_ne_zero))
  refine ⟨?_, degree⟩
  rw [Monic, leadingCoeff, natDegree_eq_of_degree_eq_some degree]
  exact coefficient

end Remainder

end BitPolynomial
