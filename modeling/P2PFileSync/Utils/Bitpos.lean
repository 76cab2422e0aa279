import P2PFileSync.Foundations.BinaryDigits

/-!
# Bit positions

The position of the highest bit of a word is found by halving: where the upper
half of the bits that are left is clear, the word moves up by that half. Each
test leaves half of the places (`Narrowed`), so the position is the number of
digits of the word (`fls_eq_size`, `fls64_eq_size`).
-/

set_option autoImplicit false

namespace P2PFileSync

namespace Bitops

open BinaryDigits

/-- One test of `fls`: where the masked bits are clear, the word moves up. -/
def flsStep (mask : UInt32) (bits : ℕ) : UInt32 × ℕ → UInt32 × ℕ
  | (x, r) => if x &&& mask = 0 then (x <<< UInt32.ofNat bits, r - bits) else (x, r)

/-- `fls`. -/
def fls (x : UInt32) : ℕ :=
  if x = 0 then 0
  else
    (flsStep 0x80000000 1 (flsStep 0xc0000000 2 (flsStep 0xf0000000 4
      (flsStep 0xff000000 8 (flsStep 0xffff0000 16 (x, 32)))))).2

/-- `fls64`. -/
def fls64 (x : UInt64) : ℕ :=
  if (x >>> 32).toUInt32 ≠ 0 then fls (x >>> 32).toUInt32 + 32 else fls x.toUInt32

/-! ## The search -/

/-- The search for the highest of `s` digits: what the word has moved up is taken
off the position, and the highest bit is one of the upper `b`. -/
structure Narrowed (s b : ℕ) (state : UInt32 × ℕ) : Prop where
  position : state.2 + state.1.toNat.size = 32 + s
  upper : 32 < state.1.toNat.size + b

/-- One test halves the bits that are left. -/
theorem Narrowed.test {s : ℕ} {state : UInt32 × ℕ} (mask : UInt32) (b : ℕ)
    (narrowed : Narrowed s (b + b) state) (half : b ≤ 16)
    (masks : mask.toNat = (2 ^ b - 1) <<< (32 - b)) : Narrowed s b (flsStep mask b state) := by
  obtain ⟨x, r⟩ := state
  obtain ⟨position, upper⟩ := narrowed
  simp only at position upper
  have test : x &&& mask = 0 ↔ x.toNat.size ≤ 32 - b := by
    rw [← UInt32.toNat_inj, UInt32.toNat_and, masks, UInt32.toNat_zero,
      and_upper_eq_zero_iff x.toNat_lt, Nat.size_le]
  by_cases clear : x &&& mask = 0
  · have low : x.toNat.size ≤ 32 - b := test.mp clear
    have nonzero : x.toNat ≠ 0 := by
      intro zero
      rw [zero, Nat.size_zero] at upper
      omega
    have amount : b % 2 ^ 32 % 32 = b := by omega
    have fits : x.toNat <<< b < 2 ^ 32 := by
      rw [← Nat.size_le, Nat.size_shiftLeft nonzero]
      omega
    have moved : (x <<< UInt32.ofNat b).toNat.size = x.toNat.size + b := by
      rw [UInt32.toNat_shiftLeft, UInt32.toNat_ofNat', amount, Nat.mod_eq_of_lt fits,
        Nat.size_shiftLeft nonzero]
    rw [flsStep, if_pos clear]
    constructor
    · rw [moved]
      omega
    · rw [moved]
      omega
  · have high : ¬ x.toNat.size ≤ 32 - b := fun low => clear (test.mpr low)
    rw [flsStep, if_neg clear]
    refine ⟨position, ?_⟩
    simp only
    omega

/-- With one place left, the position is the number of digits. -/
theorem Narrowed.found {s : ℕ} {state : UInt32 × ℕ} (narrowed : Narrowed s 1 state) :
    state.2 = s := by
  obtain ⟨position, upper⟩ := narrowed
  have width : state.1.toNat.size ≤ 32 := Nat.size_le.mpr state.1.toNat_lt
  omega

theorem size_pos {x : UInt32} (nonzero : x ≠ 0) : 0 < x.toNat.size :=
  Nat.size_pos.mpr (Nat.pos_of_ne_zero fun none => nonzero (UInt32.toNat_inj.mp none))

/-- **`fls` counts the digits of a word.** -/
theorem fls_eq_size (x : UInt32) : fls x = x.toNat.size := by
  unfold fls
  by_cases zero : x = 0
  · rw [if_pos zero, zero]
    rfl
  · rw [if_neg zero]
    have positive := size_pos zero
    have start : Narrowed x.toNat.size (16 + 16) (x, 32) := ⟨rfl, by simp only; omega⟩
    have sixteen := start.test 0xffff0000 16 (by decide) (by decide)
    have eight := sixteen.test 0xff000000 8 (by decide) (by decide)
    have four := eight.test 0xf0000000 4 (by decide) (by decide)
    have two := four.test 0xc0000000 2 (by decide) (by decide)
    have one := two.test 0x80000000 1 (by decide) (by decide)
    exact one.found

/-- **`fls64` counts the digits of a word.** -/
theorem fls64_eq_size (x : UInt64) : fls64 x = x.toNat.size := by
  have upper : ((x >>> 32).toUInt32).toNat = x.toNat >>> 32 := by
    have small : x.toNat >>> 32 < 2 ^ 32 := by
      have bound := x.toNat_lt
      rw [Nat.shiftRight_eq_div_pow]
      omega
    have shifted : (x >>> 32).toNat = x.toNat >>> 32 := rfl
    rw [UInt64.toNat_toUInt32, shifted, Nat.mod_eq_of_lt small]
  unfold fls64
  by_cases high : (x >>> 32).toUInt32 ≠ 0
  · have digits : 0 < x.toNat.size - 32 := by
      rw [← size_shiftRight, ← upper]
      exact size_pos high
    rw [if_pos high, fls_eq_size, upper, size_shiftRight]
    omega
  · have none : x.toNat >>> 32 = 0 := by
      rw [← upper, not_not.mp high]
      rfl
    have small : x.toNat < 2 ^ 32 := by
      rw [Nat.shiftRight_eq_div_pow] at none
      omega
    rw [if_neg high, fls_eq_size, UInt64.toNat_toUInt32, Nat.mod_eq_of_lt small]

/-- The position of the highest bit of a word that is not zero. -/
theorem fls64_spec {x : UInt64} (nonzero : x ≠ 0) :
    ∃ k < 64, fls64 x = k + 1 ∧ x.toNat.testBit k = true ∧ x.toNat < 2 ^ (k + 1) := by
  have positive : 0 < x.toNat.size :=
    Nat.size_pos.mpr (Nat.pos_of_ne_zero fun none => nonzero (UInt64.toNat_inj.mp none))
  have width : x.toNat.size ≤ 64 := Nat.size_le.mpr x.toNat_lt
  have digits : x.toNat.size = x.toNat.size - 1 + 1 := by omega
  exact ⟨x.toNat.size - 1, by omega, (fls64_eq_size x).trans digits, testBit_of_size digits⟩

end Bitops

end P2PFileSync
