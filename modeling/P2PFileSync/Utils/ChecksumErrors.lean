import P2PFileSync.Utils.RabinChecksum

/-!
# What the Rabin checksum tells apart

Two strings have the same checksum exactly when the divisor divides the sum of
their polynomials (`checksum_eq_iff`). The divisor has a constant term, so a
power of `X` never hides a difference: a difference within 63 consecutive bits is
always seen (`checksum_ne_of_burst`), and what stands before and after a part of
the string plays no role (`checksum_replace_iff`).

Nothing else is promised. The checksum is linear (`checksum_xor`), and eight
bytes at the end of any string bring its checksum to any value
(`existsUnique_ending`).
-/

set_option autoImplicit false

namespace P2PFileSync

namespace RabinChecksum

open Polynomial BinaryDigits BitPolynomial

/-! ## The polynomial of a string, bit by bit -/

/-- The bit of the string at a place, the highest bit of the first byte first. -/
def bitAt (s : Bytes) (i : ℕ) : Bool := (s.getD (i / 8) 0).toNat.testBit (7 - i % 8)

theorem bitAt_cons_of_lt (c : UInt8) (s : Bytes) {i : ℕ} (first : i < 8) :
    bitAt (c :: s) i = c.toNat.testBit (7 - i) := by
  have byte : i / 8 = 0 := by omega
  have place : i % 8 = i := by omega
  rw [bitAt, byte, place, List.getD_cons_zero]

theorem bitAt_cons_add (c : UInt8) (s : Bytes) (i : ℕ) : bitAt (c :: s) (i + 8) = bitAt s i := by
  have byte : (i + 8) / 8 = i / 8 + 1 := by omega
  have place : (i + 8) % 8 = i % 8 := by omega
  rw [bitAt, bitAt, byte, place, List.getD_cons_succ]

/-- Behind the string all bits are clear. -/
theorem bitAt_of_le {s : Bytes} {i : ℕ} (beyond : 8 * s.length ≤ i) : bitAt s i = false := by
  have outside : s[i / 8]? = none := by
    apply List.getElem?_eq_none
    omega
  rw [bitAt, List.getD_eq_getElem?_getD, outside]
  exact Nat.zero_testBit _

/-- The coefficients are the bits, the last bit at the constant term. -/
theorem coeff_ofBytes (s : Bytes) (k : ℕ) :
    (ofBytes s).coeff k =
      if k < 8 * s.length ∧ bitAt s (8 * s.length - 1 - k) = true then 1 else 0 := by
  induction s with
  | nil => simp
  | cons c s ih =>
      rw [ofBytes_cons, coeff_add, ih, coeff_mul_X_pow', coeff_ofBits, List.length_cons]
      by_cases later : k < 8 * s.length
      · have position : 8 * (s.length + 1) - 1 - k = 8 * s.length - 1 - k + 8 := by omega
        have total : k < 8 * (s.length + 1) := by omega
        rw [if_neg (Nat.not_le.mpr later), zero_add, position, bitAt_cons_add]
        simp only [later, total]
      · have reached : 8 * s.length ≤ k := Nat.not_lt.mp later
        simp only [later, false_and, if_false, add_zero, if_pos reached]
        by_cases within : k < 8 * (s.length + 1)
        · have position : 8 * (s.length + 1) - 1 - k < 8 := by omega
          have place : 7 - (8 * (s.length + 1) - 1 - k) = k - 8 * s.length := by omega
          rw [bitAt_cons_of_lt c s position, place]
          simp only [within, true_and]
        · have above : 8 ≤ k - 8 * s.length := by omega
          have clear : c.toNat.testBit (k - 8 * s.length) = false := testBit_of_lt c.toNat_lt above
          simp [within, clear]

/-- Strings of one length with the same bits are equal. -/
theorem eq_of_bitAt_eq {s t : Bytes} (sameLength : s.length = t.length)
    (same : ∀ i, bitAt s i = bitAt t i) : s = t := by
  induction s generalizing t with
  | nil => exact (List.length_eq_zero_iff.mp sameLength.symm).symm
  | cons c s ih =>
      cases t with
      | nil => cases sameLength
      | cons d t =>
          have first : c = d := by
            apply UInt8.toNat_inj.mp
            apply Nat.eq_of_testBit_eq
            intro i
            by_cases low : i < 8
            · have bits := same (7 - i)
              have position : 7 - (7 - i) = i := by omega
              rw [bitAt_cons_of_lt c s (by omega), bitAt_cons_of_lt d t (by omega), position]
                at bits
              exact bits
            · have above : 8 ≤ i := Nat.not_lt.mp low
              rw [testBit_of_lt c.toNat_lt above, testBit_of_lt d.toNat_lt above]
          have rest : s = t := by
            apply ih (Nat.succ.inj sameLength)
            intro i
            rw [← bitAt_cons_add c s, ← bitAt_cons_add d t]
            exact same (i + 8)
          rw [first, rest]

/-- Where the polynomials of two strings of one length differ, the bits do. -/
theorem bitAt_ne_of_coeff {s t : Bytes} (sameLength : s.length = t.length) {k : ℕ}
    (present : (ofBytes s + ofBytes t).coeff k ≠ 0) :
    k < 8 * s.length ∧ bitAt s (8 * s.length - 1 - k) ≠ bitAt t (8 * s.length - 1 - k) := by
  rw [coeff_add, coeff_ofBytes, coeff_ofBytes, ← sameLength] at present
  by_cases within : k < 8 * s.length
  · refine ⟨within, ?_⟩
    intro same
    rw [same] at present
    exact present (CharTwo.add_self_eq_zero _)
  · simp [within] at present

/-- Strings of one length that differ have polynomials that differ. -/
theorem ofBytes_add_ne_zero {s t : Bytes} (sameLength : s.length = t.length) (differ : s ≠ t) :
    ofBytes s + ofBytes t ≠ 0 := by
  intro zero
  apply differ
  apply eq_of_bitAt_eq sameLength
  have equal : ofBytes s = ofBytes t := CharTwo.add_eq_zero.mp zero
  intro i
  by_cases within : i < 8 * s.length
  · have coefficient := congrArg (fun p => p.coeff (8 * s.length - 1 - i)) equal
    have position : 8 * s.length - 1 - (8 * s.length - 1 - i) = i := by omega
    have inside : 8 * s.length - 1 - i < 8 * s.length := by omega
    simp only [coeff_ofBytes, ← sameLength, position, inside, true_and] at coefficient
    cases first : bitAt s i <;> cases second : bitAt t i <;> simp [first, second] at coefficient ⊢
  · have beyond : 8 * s.length ≤ i := Nat.not_lt.mp within
    rw [bitAt_of_le beyond, bitAt_of_le (sameLength ▸ beyond)]

theorem ofBytes_append (s t : Bytes) :
    ofBytes (s ++ t) = ofBytes s * X ^ (8 * t.length) + ofBytes t := by
  induction s with
  | nil => simp
  | cons c s ih =>
      rw [List.cons_append, ofBytes_cons, ofBytes_cons, ih, List.length_append]
      ring

/-! ## When two checksums are equal -/

theorem modulus_constant : IsUnit (modulus.coeff 0) := by
  have bit : poly.toNat.testBit 0 = true := by decide
  rw [modulus, ofWord, coeff_ofBits, bit]
  exact isUnit_one

theorem modulus_natDegree : modulus.natDegree = 63 :=
  natDegree_eq_of_degree_eq_some modulus_monic.2

/-- The checksum is a word below the bit 63 with the residue of the string. -/
theorem checksum_spec (s : Bytes) :
    ∃ sum, checksum s = some sum ∧ sum.toNat < 2 ^ 63 ∧
      residue (ofWord sum) = residue (ofBytes s) := by
  obtain ⟨sum, found, small, same⟩ := checksumFrom_spec (by decide : (0 : UInt64).toNat < 2 ^ 63) s
  rw [ofWord_zero, zero_mul, zero_add] at same
  exact ⟨sum, found, small, same⟩

/-- A word below the bit 63 with the residue of the string is its checksum. -/
theorem checksum_eq_of_residue {s : Bytes} {sum : UInt64} (small : sum.toNat < 2 ^ 63)
    (same : residue (ofWord sum) = residue (ofBytes s)) : checksum s = some sum := by
  obtain ⟨other, found, otherSmall, otherSame⟩ := checksum_spec s
  rw [found, eq_of_residue_eq otherSmall small (otherSame.trans same.symm)]

theorem residue_eq_iff {p q : (ZMod 2)[X]} : residue p = residue q ↔ modulus ∣ p + q := by
  rw [residue, residue, AdjoinRoot.mk_eq_mk, CharTwo.sub_eq_add]

/-- **Equal checksums.** Two strings have the same checksum exactly when the
divisor divides the sum of their polynomials. -/
theorem checksum_eq_iff (s t : Bytes) :
    checksum s = checksum t ↔ modulus ∣ ofBytes s + ofBytes t := by
  obtain ⟨first, foundFirst, smallFirst, sameFirst⟩ := checksum_spec s
  obtain ⟨second, foundSecond, smallSecond, sameSecond⟩ := checksum_spec t
  rw [foundFirst, foundSecond, Option.some_inj, ← residue_eq_iff, ← sameFirst, ← sameSecond]
  constructor
  · rintro rfl
    rfl
  · exact eq_of_residue_eq smallFirst smallSecond

/-! ## Bursts -/

/-- **A short difference is seen.** Two different strings of one length, whose
differences all lie within 63 consecutive bits, have different checksums. -/
theorem checksum_ne_of_burst {s t : Bytes} (sameLength : s.length = t.length) (differ : s ≠ t)
    (start : ℕ) (burst : ∀ i, bitAt s i ≠ bitAt t i → start ≤ i ∧ i < start + 63) :
    checksum s ≠ checksum t := by
  have close : ∀ k, (ofBytes s + ofBytes t).coeff k ≠ 0 →
      8 * s.length - start - 63 ≤ k ∧ k < 8 * s.length - start - 63 + modulus.natDegree := by
    intro k present
    obtain ⟨within, different⟩ := bitAt_ne_of_coeff sameLength present
    obtain ⟨after, before⟩ := burst _ different
    rw [modulus_natDegree]
    omega
  rw [ne_eq, checksum_eq_iff]
  exact not_dvd_of_burst modulus_constant modulus_monic.1 (ofBytes_add_ne_zero sameLength differ)
    close

/-- Two bytes that differ in their middle bits. -/
theorem checksum_ne_of_burst_bytes : checksum [1, 24, 3] ≠ checksum [1, 60, 3] := by
  apply checksum_ne_of_burst (s := [1, 24, 3]) (t := [1, 60, 3]) rfl (by decide) 8
  intro i different
  by_contra outside
  apply different
  have first : i < 8 ∨ 24 ≤ i := by omega
  rcases first with low | high
  · rw [bitAt_cons_of_lt _ _ low, bitAt_cons_of_lt _ _ low]
  · obtain ⟨j, rfl⟩ := Nat.exists_eq_add_of_le' high
    rw [bitAt_cons_add _ _ (j + 16), bitAt_cons_add _ _ (j + 16), bitAt_cons_add _ _ (j + 8),
      bitAt_cons_add _ _ (j + 8)]

/-! ## Parts of a string -/

/-- The checksum of a whole sees a part exactly when its own checksum does. -/
theorem checksum_replace_iff {s t : Bytes} (sameLength : s.length = t.length)
    (before after : Bytes) :
    checksum (before ++ s ++ after) = checksum (before ++ t ++ after) ↔
      checksum s = checksum t := by
  have difference : ofBytes (before ++ s ++ after) + ofBytes (before ++ t ++ after) =
      (ofBytes s + ofBytes t) * X ^ (8 * after.length) := by
    simp only [ofBytes_append, sameLength]
    linear_combination add_self
      (ofBytes before * X ^ (8 * t.length) * X ^ (8 * after.length) + ofBytes after)
  rw [checksum_eq_iff, checksum_eq_iff, difference, dvd_mul_X_pow_iff modulus_constant]

theorem checksum_replace_iff_bytes :
    checksum ([9, 9] ++ [1, 24] ++ [7]) = checksum ([9, 9] ++ [1, 60] ++ [7]) ↔
      checksum [1, 24] = checksum [1, 60] :=
  checksum_replace_iff (s := [1, 24]) (t := [1, 60]) rfl [9, 9] [7]

/-- Exclusive or, byte by byte. -/
def xorBytes (s t : Bytes) : Bytes := List.zipWith (· ^^^ ·) s t

theorem ofBytes_xorBytes {s t : Bytes} (sameLength : s.length = t.length) :
    ofBytes (xorBytes s t) = ofBytes s + ofBytes t := by
  induction s generalizing t with
  | nil =>
      rw [List.length_eq_zero_iff.mp sameLength.symm, ofBytes_nil, add_zero]
      rfl
  | cons c s ih =>
      cases t with
      | nil => cases sameLength
      | cons d t =>
          have rest : s.length = t.length := Nat.succ.inj sameLength
          have count : (xorBytes s t).length = t.length := by
            rw [xorBytes, List.length_zipWith, rest, Nat.min_self]
          have step : xorBytes (c :: s) (d :: t) = (c ^^^ d) :: xorBytes s t := rfl
          rw [step, ofBytes_cons, ofBytes_cons, ofBytes_cons, ih rest, count, rest,
            UInt8.toNat_xor, ofBits_xor]
          ring

/-- **The checksum is linear.** For strings of one length, the checksum of the
exclusive or is the exclusive or of the checksums. -/
theorem checksum_xor {s t : Bytes} (sameLength : s.length = t.length) :
    ∃ first second, checksum s = some first ∧ checksum t = some second ∧
      checksum (xorBytes s t) = some (first ^^^ second) := by
  obtain ⟨first, foundFirst, smallFirst, sameFirst⟩ := checksum_spec s
  obtain ⟨second, foundSecond, smallSecond, sameSecond⟩ := checksum_spec t
  refine ⟨first, second, foundFirst, foundSecond, checksum_eq_of_residue ?_ ?_⟩
  · rw [UInt64.toNat_xor]
    exact Nat.xor_lt_two_pow smallFirst smallSecond
  · rw [ofWord_xor, ofBytes_xorBytes sameLength, residue_add, residue_add, sameFirst, sameSecond]

theorem checksum_xor_bytes :
    ∃ first second, checksum [1, 24] = some first ∧ checksum [1, 60] = some second ∧
      checksum (xorBytes [1, 24] [1, 60]) = some (first ^^^ second) :=
  checksum_xor (s := [1, 24]) (t := [1, 60]) rfl

/-! ## Reaching a given checksum -/

/-- The low bytes of a number, the highest first. -/
def bytesOf : ℕ → ℕ → Bytes
  | 0, _ => []
  | n + 1, v => bytesOf n (v >>> 8) ++ [UInt8.ofNat (v % 256)]

theorem bytesOf_length (n v : ℕ) : (bytesOf n v).length = n := by
  induction n generalizing v with
  | zero => rfl
  | succ n ih => rw [bytesOf, List.length_append, ih, List.length_singleton]

theorem ofBytes_bytesOf {n v : ℕ} (fits : v < 2 ^ (8 * n)) : ofBytes (bytesOf n v) = ofBits v := by
  induction n generalizing v with
  | zero =>
      have zero : v = 0 := by omega
      rw [zero, ofBits_zero]
      rfl
  | succ n ih =>
      have width : 2 ^ (8 * (n + 1)) = 2 ^ (8 * n) * 256 := by
        rw [Nat.mul_succ, Nat.pow_add]
      have shorter : v >>> 8 < 2 ^ (8 * n) := by
        rw [Nat.shiftRight_eq_div_pow]
        apply Nat.div_lt_of_lt_mul
        omega
      have byte : (UInt8.ofNat (v % 256)).toNat = v % 256 := by
        rw [UInt8.toNat_ofNat']
        exact Nat.mod_eq_of_lt (Nat.mod_lt _ (by decide))
      rw [bytesOf, ofBytes_concat, ih shorter, byte]
      exact (ofBits_split v 8).symm

/-- Endings of eight bytes with the highest bit clear are told apart. -/
theorem ending_unique (s : Bytes) {first second : Bytes} (firstLength : first.length = 8)
    (secondLength : second.length = 8) (firstClear : bitAt first 0 = false)
    (secondClear : bitAt second 0 = false)
    (same : checksum (s ++ first) = checksum (s ++ second)) : first = second := by
  have sameLength : first.length = second.length := firstLength.trans secondLength.symm
  have parts : checksum first = checksum second := by
    have whole := (checksum_replace_iff sameLength s []).mp
    simp only [List.append_nil] at whole
    exact whole same
  by_contra differ
  apply checksum_ne_of_burst sameLength differ 1 _ parts
  intro i different
  by_contra outside
  apply different
  have place : i = 0 ∨ 64 ≤ i := by omega
  rcases place with rfl | beyond
  · rw [firstClear, secondClear]
  · rw [bitAt_of_le (by omega), bitAt_of_le (by omega)]

/-- **Every checksum is reached.** Behind any string, exactly one ending of eight
bytes with the highest bit clear brings the checksum to the given value. -/
theorem existsUnique_ending (s : Bytes) {target : UInt64} (small : target.toNat < 2 ^ 63) :
    ∃! ending : Bytes, ending.length = 8 ∧ bitAt ending 0 = false ∧
      checksum (s ++ ending) = some target := by
  obtain ⟨moved, -, movedSmall, movedSame⟩ := checksum_spec (s ++ bytesOf 8 0)
  have zeros : ofBytes (bytesOf 8 0) = 0 := by rw [ofBytes_bytesOf (by decide), ofBits_zero]
  have corrected : (moved ^^^ target).toNat < 2 ^ 63 := by
    rw [UInt64.toNat_xor]
    exact Nat.xor_lt_two_pow movedSmall small
  have content : ofBytes (bytesOf 8 (moved ^^^ target).toNat) = ofWord (moved ^^^ target) :=
    ofBytes_bytesOf (Nat.lt_trans corrected (by decide))
  have clear : bitAt (bytesOf 8 (moved ^^^ target).toNat) 0 = false := by
    have coefficient := coeff_ofBytes (bytesOf 8 (moved ^^^ target).toNat) 63
    rw [content, ofWord, coeff_ofBits, testBit_of_lt corrected (Nat.le_refl 63),
      bytesOf_length] at coefficient
    simpa using coefficient
  have reaches : checksum (s ++ bytesOf 8 (moved ^^^ target).toNat) = some target := by
    apply checksum_eq_of_residue small
    have cancels := residue_add_self (ofWord moved)
    rw [ofBytes_append, zeros, add_zero, bytesOf_length] at movedSame
    rw [ofBytes_append, content, bytesOf_length, ofWord_xor, residue_add, ← movedSame, residue_add]
    linear_combination -cancels
  refine ⟨bytesOf 8 (moved ^^^ target).toNat, ⟨bytesOf_length _ _, clear, reaches⟩, ?_⟩
  rintro ending ⟨length, endingClear, endingReaches⟩
  exact ending_unique s length (bytesOf_length _ _) endingClear clear
    (endingReaches.trans reaches.symm)

/-- An ending that brings the checksum of a string to zero. -/
theorem existsUnique_ending_zero :
    ∃! ending : Bytes, ending.length = 8 ∧ bitAt ending 0 = false ∧
      checksum ([1, 24, 3] ++ ending) = some 0 :=
  existsUnique_ending [1, 24, 3] (by decide : (0 : UInt64).toNat < 2 ^ 63)

end RabinChecksum

end P2PFileSync
