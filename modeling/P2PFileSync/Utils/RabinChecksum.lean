import P2PFileSync.Utils.PolynomialRemainder
import P2PFileSync.Foundations.Bytes

/-!
# The Rabin checksum

A string is a polynomial over the field of two elements, eight coefficients for
each byte, and its checksum is the remainder modulo `poly`, a polynomial of
degree 63 (`checksum_eq_remainder`). The checksum takes in a byte at a time; a
table holds what the byte that leaves the word contributes to the remainder.

The rolling checksum also takes out the byte that leaves a window of 256 bytes,
through a second table. It agrees with the checksum of the window at every place
of every stream (`rolling_eq_checksum`).
-/

set_option autoImplicit false

namespace P2PFileSync

namespace RabinChecksum

open Polynomial BinaryDigits BitPolynomial Bitops

/-! ## The functions -/

def poly : UInt64 := 0xbfe6b8a5bf378d83

/-- `append8`; `none` where `at` throws. -/
def append8 (p : UInt64) (m : UInt8) (T : Vector UInt64 256) : Option UInt64 :=
  T[(p >>> UInt64.ofNat (fls64 poly - 9)).toNat]?.map fun entry =>
    (p <<< 8 ||| m.toUInt64) ^^^ entry

/-- `calcT`. -/
def calcT : Vector UInt64 256 :=
  Vector.ofFn fun j =>
    polymmult (UInt64.ofNat j) (polymod 0 (1 <<< UInt64.ofNat (fls64 poly - 1)) poly) poly |||
      UInt64.ofNat j <<< UInt64.ofNat (fls64 poly - 1)

/-- The loop of `calcU`: the one, with zero bytes appended. -/
def shiftSize (T : Vector UInt64 256) : ℕ → Option UInt64
  | 0 => some 1
  | n + 1 => (shiftSize T n).bind fun shift => append8 shift 0 T

/-- `calcU`. -/
def calcU (T : Vector UInt64 256) : Option (Vector UInt64 256) :=
  (shiftSize T 255).map fun shift =>
    Vector.ofFn fun i => polymmult (UInt64.ofNat i) shift poly

/-- The two tables. -/
def T : Vector UInt64 256 := calcT

def U : Option (Vector UInt64 256) := calcU T

/-- `rolling_checksum`. -/
def rollingChecksum (csum : UInt64) (c1 c2 : UInt8) : Option UInt64 :=
  U.bind fun U => append8 (csum ^^^ U.get ⟨c1.toNat, c1.toNat_lt⟩) c2 T

/-- `checksum`, from the given sum on. -/
def checksumFrom (sum : UInt64) : Bytes → Option UInt64
  | [] => some sum
  | c :: buf => (rollingChecksum sum 0 c).bind fun sum => checksumFrom sum buf

/-- `checksum`. -/
def checksum (buf : Bytes) : Option UInt64 := checksumFrom 0 buf

/-! ## The table of the byte that leaves the word -/

/-- The divisor as a polynomial. -/
noncomputable def modulus : (ZMod 2)[X] := ofWord poly

/-- What a polynomial is modulo the divisor. -/
noncomputable def residue (p : (ZMod 2)[X]) : AdjoinRoot modulus := AdjoinRoot.mk modulus p

theorem residue_add (p q : (ZMod 2)[X]) : residue (p + q) = residue p + residue q := map_add _ p q

theorem residue_mul (p q : (ZMod 2)[X]) : residue (p * q) = residue p * residue q := map_mul _ p q

theorem residue_add_self (p : (ZMod 2)[X]) : residue p + residue p = 0 := by
  rw [← residue_add, add_self]
  exact map_zero _

@[simp] theorem ofBits_zeroByte : ofBits (0 : UInt8).toNat = 0 := ofBits_zero

theorem poly_ne_zero : poly ≠ 0 := by decide

theorem fls64_poly : fls64 poly = 64 := by decide

theorem poly_top : poly.toNat.testBit 63 = true := by decide

theorem modulus_monic : modulus.Monic ∧ modulus.degree = 63 := monic_ofBits poly_top poly.toNat_lt

/-- Two sums of the same residue are equal. -/
theorem eq_of_residue_eq {a b : UInt64} (first : a.toNat < 2 ^ 63) (second : b.toNat < 2 ^ 63)
    (same : residue (ofWord a) = residue (ofWord b)) : a = b := by
  obtain ⟨monic, degree⟩ := modulus_monic
  apply UInt64.toNat_inj.mp
  apply ofBits_injective
  apply eq_of_mk_eq monic
  · rw [degree]
    exact degree_ofWord_lt_iff.mpr first
  · rw [degree]
    exact degree_ofWord_lt_iff.mpr second
  · exact same

/-- The remainder of a product by the divisor. -/
theorem polymmult_poly (x y : UInt64) :
    (polymmult x y poly).toNat < 2 ^ 63 ∧
      residue (ofWord (polymmult x y poly)) = residue (ofWord x * ofWord y) := by
  have remainder := polymmult_isRemainder poly_ne_zero x y
  have degree : (ofWord (polymmult x y poly)).degree < 63 :=
    lt_of_lt_of_eq remainder.degree_lt modulus_monic.2
  exact ⟨degree_ofWord_lt_iff.mp degree, remainder.mk_eq⟩

/-- The entry for a byte: the remainder of the byte above the word, and the bit
of it that the shift leaves in the word. -/
theorem T_spec {j : ℕ} (within : j < 256) :
    ∃ entry remainder, T[j]? = some entry ∧ (ofWord remainder).degree < 63 ∧
      residue (ofWord remainder) = residue (ofBits j * X ^ 63) ∧
      ofWord entry = ofWord remainder + ofBits j * X ^ 63 + ofBits (j >>> 1) * X ^ 64 := by
  have word : (UInt64.ofNat j).toNat = j := by
    rw [UInt64.toNat_ofNat']
    exact Nat.mod_eq_of_lt (by omega)
  have power : ofWord (1 <<< UInt64.ofNat 63) = X ^ 63 := by
    rw [ofWord, toNat_shiftLeft_word 1 (by decide), ← ofBits_two_pow]
    rfl
  have sameT1 : residue _ = residue _ :=
    (polymod_isRemainder poly_ne_zero 0 (1 <<< UInt64.ofNat 63)).mk_eq
  obtain ⟨small, same⟩ := polymmult_poly (UInt64.ofNat j)
    (polymod 0 (1 <<< UInt64.ofNat 63) poly)
  generalize remainder_eq : polymmult (UInt64.ofNat j)
    (polymod 0 (1 <<< UInt64.ofNat 63) poly) poly = remainder at small same
  refine ⟨remainder ||| UInt64.ofNat j <<< UInt64.ofNat 63, remainder, ?_,
    degree_ofWord_lt_iff.mpr small, ?_, ?_⟩
  · rw [T, calcT, Vector.getElem?_ofFn, dif_pos within, fls64_poly]
    exact congrArg (fun r => some (r ||| UInt64.ofNat j <<< UInt64.ofNat 63)) remainder_eq
  · rw [ofWords, ofWord_zero, zero_mul, zero_add, power] at sameT1
    have index : ofWord (UInt64.ofNat j) = ofBits j := congrArg ofBits word
    rw [residue_mul, sameT1, index, ← residue_mul] at same
    exact same
  · have shifted : (UInt64.ofNat j <<< UInt64.ofNat 63).toNat = j <<< 63 % 2 ^ 64 := by
      rw [toNat_shiftLeft_word _ (by decide), word]
    have disjoint : remainder.toNat &&& (j <<< 63 % 2 ^ 64) = 0 := and_shiftLeft_mod small j 64
    rw [ofWord, UInt64.toNat_or, shifted, ofBits_or disjoint,
      ofBits_shiftLeft_mod j (by decide : 63 ≤ 64), add_assoc]
    rfl

/-- The next sum: the sum moved up by eight places, the byte, and the remainder
of what the shift drops. What it drops beside the low bit of the index is in the
entry too, and cancels. -/
theorem append8_eq (p : UInt64) (small : p.toNat < 2 ^ 63) (m : UInt8) :
    ∃ next remainder, append8 p m T = some next ∧ (ofWord remainder).degree < 63 ∧
      residue (ofWord remainder) = residue (ofBits (p.toNat >>> 55) * X ^ 63) ∧
      ofWord next = ofWord p * X ^ 8 + ofBits (p.toNat >>> 55) * X ^ 63 + ofBits m.toNat +
        ofWord remainder := by
  have index : (p >>> UInt64.ofNat (fls64 poly - 9)).toNat = p.toNat >>> 55 := by
    rw [fls64_poly]
    exact toNat_shiftRight_word p (by decide)
  have within : p.toNat >>> 55 < 256 := by
    rw [Nat.shiftRight_eq_div_pow]
    omega
  obtain ⟨entry, remainder, found, degree, same, content⟩ := T_spec within
  have moved : (p <<< 8).toNat = p.toNat <<< 8 % 2 ^ 64 := toNat_shiftLeft_word p (by decide)
  have disjoint : m.toNat &&& (p.toNat <<< 8 % 2 ^ 64) = 0 := and_shiftLeft_mod m.toNat_lt _ _
  have appended : ofWord (p <<< 8 ||| m.toUInt64) =
      ofWord p * X ^ 8 + ofBits (p.toNat >>> 56) * X ^ 64 + ofBits m.toNat := by
    rw [ofWord, UInt64.toNat_or, moved, UInt8.toNat_toUInt64, Nat.lor_comm, ofBits_or disjoint,
      ofBits_shiftLeft_mod p.toNat (by decide : 8 ≤ 64), add_comm]
    rfl
  have dropped : (p.toNat >>> 55) >>> 1 = p.toNat >>> 56 := (Nat.shiftRight_add _ 55 1).symm
  refine ⟨(p <<< 8 ||| m.toUInt64) ^^^ entry, remainder, ?_, degree, same, ?_⟩
  · rw [append8, index, found, Option.map_some]
  · rw [ofWord_xor, appended, content, dropped]
    linear_combination add_self (ofBits (p.toNat >>> 56) * X ^ 64)

/-- A word moved up by eight places, without the bits that leave it. -/
theorem degree_shifted_lt (n : ℕ) :
    (ofBits n * X ^ 8 + ofBits (n >>> 55) * X ^ 63).degree < 63 := by
  have low : ofBits n * X ^ 8 + ofBits (n >>> 55) * X ^ 63 = ofBits ((n % 2 ^ 55) <<< 8) := by
    rw [ofBits_shiftLeft, ofBits_split n 55]
    linear_combination add_self (ofBits (n >>> 55) * X ^ 63)
  rw [low]
  apply degree_ofBits_lt_iff.mpr
  rw [Nat.shiftLeft_eq]
  have remainder_lt : n % 2 ^ 55 < 2 ^ 55 := Nat.mod_lt _ (Nat.two_pow_pos _)
  have width : 2 ^ 63 = 2 ^ 55 * 2 ^ 8 := by decide
  rw [width]
  exact Nat.mul_lt_mul_of_pos_right remainder_lt (Nat.two_pow_pos _)

/-- **Appending a byte.** A sum below the bit 63 finds its entry in the table; the
next sum is below that bit again, and its residue is that of the sum moved up by
eight places, with the byte added. -/
theorem append8_spec {p : UInt64} (small : p.toNat < 2 ^ 63) (m : UInt8) :
    ∃ next, append8 p m T = some next ∧ next.toNat < 2 ^ 63 ∧
      residue (ofWord next) = residue (ofWord p * X ^ 8 + ofBits m.toNat) := by
  obtain ⟨next, remainder, found, degree, same, content⟩ := append8_eq p small m
  refine ⟨next, found, ?_, ?_⟩
  · have byteDegree : (ofBits m.toNat).degree < 63 :=
      degree_ofBits_lt_iff.mpr (Nat.lt_trans m.toNat_lt (by decide))
    apply degree_ofWord_lt_iff.mp
    rw [content]
    apply lt_of_le_of_lt (degree_add_le _ _)
    apply max_lt _ degree
    apply lt_of_le_of_lt (degree_add_le _ _)
    exact max_lt (degree_shifted_lt p.toNat) byteDegree
  · have cancels := residue_add_self (ofBits (p.toNat >>> 55) * X ^ 63)
    rw [content]
    simp only [residue_add] at cancels ⊢
    rw [same]
    linear_combination cancels

/-! ## The checksum -/

/-- The polynomial of a string, the first byte highest: the sum of
`s[i] * X ^ (8 * (n - 1 - i))`, where `n` is the length of `s`. -/
noncomputable def ofBytes (s : Bytes) : (ZMod 2)[X] :=
  ∑ i : Fin s.length, ofBits (s.get i).toNat * X ^ (8 * (s.length - 1 - i))

@[simp] theorem ofBytes_nil : ofBytes [] = 0 := rfl

theorem ofBytes_cons (c : UInt8) (s : Bytes) :
    ofBytes (c :: s) = ofBits c.toNat * X ^ (8 * s.length) + ofBytes s := by
  have later : ∀ i : Fin s.length, s.length - (i.val + 1) = s.length - 1 - i.val := by
    intro i
    omega
  refine (Fin.sum_univ_succ _).trans ?_
  simp [ofBytes, later]

theorem ofBytes_concat (s : Bytes) (c : UInt8) :
    ofBytes (s ++ [c]) = ofBytes s * X ^ 8 + ofBits c.toNat := by
  induction s with
  | nil => simp [ofBytes_cons]
  | cons first s ih =>
      rw [List.cons_append, ofBytes_cons, ofBytes_cons, ih, List.length_append,
        List.length_singleton]
      ring

theorem shiftSize_spec (n : ℕ) :
    ∃ shift, shiftSize T n = some shift ∧ shift.toNat < 2 ^ 63 ∧
      residue (ofWord shift) = residue (X ^ (8 * n)) := by
  induction n with
  | zero => exact ⟨1, rfl, by decide, by simp⟩
  | succ n ih =>
      obtain ⟨shift, found, small, same⟩ := ih
      obtain ⟨next, appended, nextSmall, nextSame⟩ := append8_spec small 0
      refine ⟨next, ?_, nextSmall, ?_⟩
      · rw [shiftSize, found, Option.bind_some, appended]
      · have power : (X : (ZMod 2)[X]) ^ (8 * (n + 1)) = X ^ (8 * n) * X ^ 8 := by ring
        rw [nextSame, ofBits_zeroByte, add_zero, power, residue_mul, residue_mul, same]

/-- The entry for a byte: its remainder 255 bytes up. -/
theorem U_spec :
    ∃ table, U = some table ∧ ∀ c : UInt8,
      (table.get ⟨c.toNat, c.toNat_lt⟩).toNat < 2 ^ 63 ∧
        residue (ofWord (table.get ⟨c.toNat, c.toNat_lt⟩)) =
          residue (ofBits c.toNat * X ^ (8 * 255)) := by
  obtain ⟨shift, found, small, same⟩ := shiftSize_spec 255
  refine ⟨Vector.ofFn fun i => polymmult (UInt64.ofNat i) shift poly, ?_, ?_⟩
  · rw [U, calcU, found, Option.map_some]
  · intro c
    obtain ⟨entrySmall, entrySame⟩ := polymmult_poly (UInt64.ofNat c.toNat) shift
    have entry : (Vector.ofFn fun i : Fin 256 => polymmult (UInt64.ofNat i) shift poly).get
        ⟨c.toNat, c.toNat_lt⟩ = polymmult (UInt64.ofNat c.toNat) shift poly := by
      exact Vector.getElem_ofFn c.toNat_lt
    have word : ofWord (UInt64.ofNat c.toNat) = ofBits c.toNat := by
      have bound := c.toNat_lt
      rw [ofWord, UInt64.toNat_ofNat', Nat.mod_eq_of_lt (by omega)]
    rw [entry]
    refine ⟨entrySmall, ?_⟩
    rw [entrySame, word, residue_mul, residue_mul, same]

/-- **Rolling by one byte.** The byte that leaves is taken out 255 bytes up, the
sum moves up by a byte, and the new byte is added. -/
theorem rollingChecksum_spec {csum : UInt64} (small : csum.toNat < 2 ^ 63) (c1 c2 : UInt8) :
    ∃ next, rollingChecksum csum c1 c2 = some next ∧ next.toNat < 2 ^ 63 ∧
      residue (ofWord next) =
        residue ((ofWord csum + ofBits c1.toNat * X ^ (8 * 255)) * X ^ 8 + ofBits c2.toNat) := by
  obtain ⟨table, found, entries⟩ := U_spec
  obtain ⟨entrySmall, entrySame⟩ := entries c1
  generalize entry_eq : table.get ⟨c1.toNat, c1.toNat_lt⟩ = entry at entrySmall entrySame
  have both : (csum ^^^ entry).toNat < 2 ^ 63 := by
    rw [UInt64.toNat_xor]
    exact Nat.xor_lt_two_pow small entrySmall
  obtain ⟨next, appended, nextSmall, nextSame⟩ := append8_spec both c2
  refine ⟨next, ?_, nextSmall, nextSame.trans ?_⟩
  · rw [rollingChecksum, found, Option.bind_some, entry_eq, appended]
  · rw [ofWord_xor]
    simp only [residue_add, residue_mul] at entrySame ⊢
    rw [entrySame]

/-- The checksum goes on from the sum of what came before. -/
theorem checksumFrom_spec {sum : UInt64} (small : sum.toNat < 2 ^ 63) (buf : Bytes) :
    ∃ result, checksumFrom sum buf = some result ∧ result.toNat < 2 ^ 63 ∧
      residue (ofWord result) =
        residue (ofWord sum * X ^ (8 * buf.length) + ofBytes buf) := by
  induction buf generalizing sum with
  | nil => exact ⟨sum, rfl, small, by simp⟩
  | cons c buf ih =>
      obtain ⟨next, rolled, nextSmall, nextSame⟩ := rollingChecksum_spec small 0 c
      obtain ⟨result, found, resultSmall, same⟩ := ih nextSmall
      refine ⟨result, ?_, resultSmall, same.trans ?_⟩
      · rw [checksumFrom, rolled, Option.bind_some, found]
      · simp only [ofBits_zeroByte, zero_mul, add_zero] at nextSame
        have power : (X : (ZMod 2)[X]) ^ (8 * (buf.length + 1)) =
            X ^ 8 * X ^ (8 * buf.length) := by
          ring
        rw [ofBytes_cons, List.length_cons, power]
        simp only [residue_add, residue_mul] at nextSame ⊢
        rw [nextSame]
        ring

/-- **The checksum is a remainder.** For every string the checksum is found
without an index out of range, and it is the remainder of the polynomial of the
string modulo the divisor, a polynomial of degree below 63. -/
theorem checksum_eq_remainder (s : Bytes) :
    ∃ sum, checksum s = some sum ∧ (ofWord sum).degree < 63 ∧
      ofWord sum = ofBytes s %ₘ modulus := by
  obtain ⟨sum, found, small, same⟩ := checksumFrom_spec (by decide : (0 : UInt64).toNat < 2 ^ 63) s
  rw [ofWord_zero, zero_mul, zero_add] at same
  obtain ⟨monic, degree⟩ := modulus_monic
  have sumDegree : (ofWord sum).degree < 63 := degree_ofWord_lt_iff.mpr small
  refine ⟨sum, found, sumDegree, eq_modByMonic_of_mk_eq monic ?_ same⟩
  rw [degree]
  exact sumDegree

/-! ## The rolling checksum -/

/-- Roll over a stream, from a sum and the window it belongs to. -/
def rollingSum : UInt64 → Bytes → Bytes → Option UInt64
  | sum, _, [] => some sum
  | _, [], _ :: _ => none
  | sum, oldest :: window, c :: stream =>
      (rollingChecksum sum oldest c).bind fun sum => rollingSum sum (window ++ [c]) stream

/-- The window before the stream. -/
def zeroWindow : Bytes := List.replicate 256 0

/-- The last 256 bytes. -/
def lastBytes (s : Bytes) : Bytes := s.drop (s.length - 256)

theorem ofBytes_zeros (n : ℕ) : ofBytes (List.replicate n 0) = 0 := by
  induction n with
  | zero => rfl
  | succ n ih => rw [List.replicate_succ, ofBytes_cons, ih, ofBits_zeroByte, zero_mul, add_zero]

/-- A window that ends a string is its last 256 bytes. -/
theorem lastBytes_append (before : Bytes) {window : Bytes} (full : window.length = 256) :
    lastBytes (before ++ window) = window := by
  have amount : (before ++ window).length - 256 = before.length := by
    rw [List.length_append, full, Nat.add_sub_cancel]
  rw [lastBytes, amount, List.drop_left]

/-- The byte before 256 others is not among the last ones. -/
theorem lastBytes_cons (first : UInt8) {s : Bytes} (full : 256 ≤ s.length) :
    lastBytes (first :: s) = lastBytes s := by
  have amount : (first :: s).length - 256 = s.length - 256 + 1 := by
    rw [List.length_cons]
    omega
  rw [lastBytes, lastBytes, amount, List.drop_succ_cons]

/-- The oldest byte leaves the window: the residue of what is left. -/
theorem residue_slide (oldest c : UInt8) {window : Bytes} (count : window.length = 255) :
    residue ((ofBytes (oldest :: window) + ofBits oldest.toNat * X ^ (8 * 255)) * X ^ 8 +
      ofBits c.toNat) = residue (ofBytes (window ++ [c])) := by
  have cancels := residue_add_self (ofBits oldest.toNat * X ^ (8 * 255))
  rw [ofBytes_cons, count, ofBytes_concat]
  simp only [residue_add, residue_mul] at cancels ⊢
  linear_combination residue (X ^ 8) * cancels

/-- The sum follows the window. -/
theorem rollingSum_spec {sum : UInt64} {window : Bytes} (stream : Bytes)
    (full : window.length = 256) (small : sum.toNat < 2 ^ 63)
    (same : residue (ofWord sum) = residue (ofBytes window)) :
    ∃ result, rollingSum sum window stream = some result ∧ result.toNat < 2 ^ 63 ∧
      residue (ofWord result) = residue (ofBytes (lastBytes (window ++ stream))) := by
  induction stream generalizing sum window with
  | nil =>
      refine ⟨sum, by cases window <;> rfl, small, ?_⟩
      rw [lastBytes, List.append_nil, full, Nat.sub_self, List.drop_zero]
      exact same
  | cons c stream ih =>
      cases window with
      | nil => cases full
      | cons oldest window =>
          have count : window.length = 255 := Nat.succ.inj full
          obtain ⟨next, rolled, nextSmall, nextSame⟩ := rollingChecksum_spec small oldest c
          have nextFull : (window ++ [c]).length = 256 := by
            rw [List.length_append, count, List.length_singleton]
          have follows : residue (ofWord next) = residue (ofBytes (window ++ [c])) := by
            rw [← residue_slide oldest c count, nextSame]
            simp only [residue_add, residue_mul] at same ⊢
            rw [same]
          obtain ⟨result, found, resultSmall, resultSame⟩ := ih nextFull nextSmall follows
          refine ⟨result, ?_, resultSmall, resultSame.trans ?_⟩
          · rw [rollingSum, rolled, Option.bind_some, found]
          · have long : 256 ≤ (window ++ [c] ++ stream).length := by
              rw [List.length_append, nextFull]
              exact Nat.le_add_right _ _
            rw [← lastBytes_cons oldest long, List.append_assoc]
            rfl

/-- From the zero window, the rolling sum is the checksum of the last bytes. -/
theorem rollingSum_eq_checksum (s : Bytes) :
    ∃ sum, rollingSum 0 zeroWindow s = some sum ∧
      checksum (lastBytes (zeroWindow ++ s)) = some sum := by
  have zeroSmall : (0 : UInt64).toNat < 2 ^ 63 := by decide
  have full : zeroWindow.length = 256 := List.length_replicate
  have start : residue (ofWord 0) = residue (ofBytes zeroWindow) := by
    rw [zeroWindow, ofBytes_zeros, ofWord_zero]
  obtain ⟨sum, rolled, small, same⟩ := rollingSum_spec s full zeroSmall start
  obtain ⟨direct, found, directSmall, directSame⟩ :=
    checksumFrom_spec zeroSmall (lastBytes (zeroWindow ++ s))
  simp only [ofWord_zero, zero_mul, zero_add] at directSame
  have equal := eq_of_residue_eq directSmall small (directSame.trans same.symm)
  rw [equal] at found
  exact ⟨sum, rolled, found⟩

/-- **The rolling checksum agrees with the checksum.** After any part of a stream,
the rolling sum is the checksum of the last 256 bytes of the zero window and
that part, and streams that end in the same 256 bytes have the same rolling
sum. -/
theorem rolling_eq_checksum (stream : Bytes) :
    (∀ n, ∃ sum, rollingSum 0 zeroWindow (stream.take n) = some sum ∧
      checksum (lastBytes (zeroWindow ++ stream.take n)) = some sum) ∧
      ∀ first other ending, ending.length = 256 → stream = first ++ ending →
        rollingSum 0 zeroWindow (other ++ ending) = rollingSum 0 zeroWindow stream := by
  refine ⟨fun n => rollingSum_eq_checksum (stream.take n), ?_⟩
  intro first other ending full split
  have last : ∀ before, lastBytes (zeroWindow ++ (before ++ ending)) = ending := by
    intro before
    rw [← List.append_assoc]
    exact lastBytes_append _ full
  obtain ⟨sum, rolled, direct⟩ := rollingSum_eq_checksum (first ++ ending)
  obtain ⟨otherSum, otherRolled, otherDirect⟩ := rollingSum_eq_checksum (other ++ ending)
  rw [last] at direct otherDirect
  rw [split, rolled, otherRolled, ← direct, ← otherDirect]

end RabinChecksum

end P2PFileSync
