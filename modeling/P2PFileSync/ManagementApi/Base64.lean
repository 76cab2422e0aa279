import P2PFileSync.Foundations.PaddedBase64

/-!
# Base64 on signed characters

`Base64::encode` shifts plain `char`s, which are signed on the x86-64 target: a
byte of 128 or more is negative, and so is an index computed from its high bits.
An index outside `alphabet_map` reads outside the array; the model gives `none`.
`Base64::decode` goes through `uint8_t` and `uint32_t` and has no such case.

Main results: `decode_paddedEncoding` and `encode_correct_iff`.
-/

set_option autoImplicit false

namespace P2PFileSync
namespace Base64

/-! ## The model -/

def alphabetMap : Bytes := utf8 "ABCDEFGHIJKLMNOPQRSTUVWXYZabcdefghijklmnopqrstuvwxyz0123456789+/"

/-- `alphabet_map[index]`. -/
def alphabetAt (index : Int32) : Option UInt8 :=
  if 0 ≤ index then alphabetMap[index.toNatClampNeg]? else none

def kDecodingTable : List UInt8 := [
  64, 64, 64, 64, 64, 64, 64, 64, 64, 64, 64, 64, 64, 64, 64, 64,
  64, 64, 64, 64, 64, 64, 64, 64, 64, 64, 64, 64, 64, 64, 64, 64,
  64, 64, 64, 64, 64, 64, 64, 64, 64, 64, 64, 62, 64, 64, 64, 63,
  52, 53, 54, 55, 56, 57, 58, 59, 60, 61, 64, 64, 64, 64, 64, 64,
  64,  0,  1,  2,  3,  4,  5,  6,  7,  8,  9, 10, 11, 12, 13, 14,
  15, 16, 17, 18, 19, 20, 21, 22, 23, 24, 25, 64, 64, 64, 64, 64,
  64, 26, 27, 28, 29, 30, 31, 32, 33, 34, 35, 36, 37, 38, 39, 40,
  41, 42, 43, 44, 45, 46, 47, 48, 49, 50, 51, 64, 64, 64, 64, 64,
  64, 64, 64, 64, 64, 64, 64, 64, 64, 64, 64, 64, 64, 64, 64, 64,
  64, 64, 64, 64, 64, 64, 64, 64, 64, 64, 64, 64, 64, 64, 64, 64,
  64, 64, 64, 64, 64, 64, 64, 64, 64, 64, 64, 64, 64, 64, 64, 64,
  64, 64, 64, 64, 64, 64, 64, 64, 64, 64, 64, 64, 64, 64, 64, 64,
  64, 64, 64, 64, 64, 64, 64, 64, 64, 64, 64, 64, 64, 64, 64, 64,
  64, 64, 64, 64, 64, 64, 64, 64, 64, 64, 64, 64, 64, 64, 64, 64,
  64, 64, 64, 64, 64, 64, 64, 64, 64, 64, 64, 64, 64, 64, 64, 64,
  64, 64, 64, 64, 64, 64, 64, 64, 64, 64, 64, 64, 64, 64, 64, 64]

/-- A `char` promoted to `int`. -/
def charValue (b : UInt8) : Int32 := b.toInt8.toInt32

/-- What `encode` writes: an entry of `alphabet_map`, or a literal character. -/
inductive Output where
  | mapped (index : Int32)
  | literal (c : UInt8)
  deriving DecidableEq

/-- The outputs of `encode`: the loop over groups of three, and the tail. -/
def outputs : Bytes → List Output
  | t₀ :: t₁ :: t₂ :: rest =>
      .mapped (charValue t₀ >>> 2) ::
      .mapped (((charValue t₀ <<< 4) &&& (0x30 : Int32)) ||| (charValue t₁ >>> 4)) ::
      .mapped (((charValue t₁ <<< 2) &&& (0x3c : Int32)) ||| (charValue t₂ >>> 6)) ::
      .mapped (charValue t₂ &&& (0x3f : Int32)) :: outputs rest
  | [t₀, t₁] =>
      [.mapped (charValue t₀ >>> 2),
        .mapped (((charValue t₀ <<< 4) &&& (0x30 : Int32)) ||| (charValue t₁ >>> 4)),
        .mapped ((charValue t₁ <<< 2) &&& (0x3c : Int32)), .literal 61]
  | [t₀] =>
      [.mapped (charValue t₀ >>> 2), .mapped ((charValue t₀ <<< 4) &&& (0x30 : Int32)), .literal 61,
        .literal 61]
  | [] => []

def Output.write : Output → Option UInt8
  | .mapped index => alphabetAt index
  | .literal c => some c

/-- `Base64::encode`; `none` where it reads outside `alphabet_map`. -/
def encode (text : Bytes) : Option Bytes := (outputs text).mapM Output.write

/-- `kDecodingTable[static_cast<uint8_t>(c)]` -/
def decodingEntry (c : UInt8) : UInt32 := (kDecodingTable.getD c.toNat 0).toUInt32

/-- `Base64::decode`. -/
def decode : Bytes → Bytes
  | i₀ :: i₁ :: i₂ :: i₃ :: rest =>
      [((decodingEntry i₀ <<< 2) ||| (decodingEntry i₁ >>> 4)).toUInt8] ++
        (if decodingEntry i₂ ≠ 64 then
          [(((decodingEntry i₁ &&& 0x0f) <<< 4) ||| (decodingEntry i₂ >>> 2)).toUInt8] else []) ++
        (if decodingEntry i₃ ≠ 64 then
          [(((decodingEntry i₂ &&& 0x03) <<< 6) ||| decodingEntry i₃).toUInt8] else []) ++
        decode rest
  | _ => []

/-! ## Signed characters -/

open PaddedBase64

/-- The parts `encode` takes of a byte below 128. -/
theorem charValue_parts (b : UInt8) (small : b.toNat < 128) :
    charValue b >>> 2 = Int32.ofNat (first b) ∧
      (charValue b <<< 4) &&& (0x30 : Int32) = Int32.ofNat (b.toNat % 4 * 16) ∧
      charValue b >>> 4 = Int32.ofNat (b.toNat / 16) ∧
      (charValue b <<< 2) &&& (0x3c : Int32) = Int32.ofNat (b.toNat % 16 * 4) ∧
      charValue b >>> 6 = Int32.ofNat (b.toNat / 64) ∧
      charValue b &&& (0x3f : Int32) = Int32.ofNat (fourth b) := by
  revert b
  exact forall_byte_lt (by decide +kernel)

/-- A shifted byte is not negative when the byte is below 128. -/
theorem lt_of_shifted_nonneg (b : UInt8)
    (nonneg : (0 : Int32) ≤ charValue b >>> 2 ∨ (0 : Int32) ≤ charValue b >>> 4 ∨
      (0 : Int32) ≤ charValue b >>> 6) : b.toNat < 128 := by
  have all : ∀ b : UInt8, b.toNat < 256 → ((0 : Int32) ≤ charValue b >>> 2 ∨
      (0 : Int32) ≤ charValue b >>> 4 ∨ (0 : Int32) ≤ charValue b >>> 6) → b.toNat < 128 :=
    forall_byte_lt (by decide +kernel)
  exact all b b.toNat_lt nonneg

theorem nonneg_of_or_nonneg {x y : Int32} (nonneg : 0 ≤ x ||| y) : 0 ≤ y := by
  have sign (z : Int32) : 0 ≤ z ↔ z.toBitVec.msb = false := by
    rw [BitVec.msb_eq_toInt, decide_eq_false_iff_not, Int.not_lt]
    exact Int32.le_iff_toInt_le
  rw [sign, Int32.toBitVec_or, BitVec.msb_or, Bool.or_eq_false_iff] at nonneg
  exact (sign y).mpr nonneg.2

theorem or_sixteenth : ∀ n < 4, ∀ m < 16,
    Int32.ofNat (n * 16) ||| Int32.ofNat m = Int32.ofNat (n * 16 + m) := by decide

theorem or_quarter : ∀ n < 16, ∀ m < 4,
    Int32.ofNat (n * 4) ||| Int32.ofNat m = Int32.ofNat (n * 4 + m) := by decide

theorem alphabetAt_digit : ∀ digit < 64,
    alphabetAt (Int32.ofNat digit) = some (digitChar digit) := by decide +kernel

theorem digit_in_range : ∀ digit < 64, 0 ≤ Int32.ofNat digit ∧ Int32.ofNat digit ≤ 63 := by
  decide

/-! ## Encoding -/

/-- The output of one digit. -/
def digitOutput (digit : ℕ) : Output := .mapped (Int32.ofNat digit)

theorem second_eq (a b : UInt8) (ha : a.toNat < 128) (hb : b.toNat < 128) :
    ((charValue a <<< 4) &&& (0x30 : Int32)) ||| (charValue b >>> 4) =
      Int32.ofNat (second a b.toNat) := by
  rw [(charValue_parts a ha).2.1, (charValue_parts b hb).2.2.1,
    or_sixteenth _ (Nat.mod_lt _ (by decide)) _ (by omega), second]

theorem third_eq (b c : UInt8) (hb : b.toNat < 128) (hc : c.toNat < 128) :
    ((charValue b <<< 2) &&& (0x3c : Int32)) ||| (charValue c >>> 6) =
      Int32.ofNat (third b c.toNat) := by
  rw [(charValue_parts b hb).2.2.2.1, (charValue_parts c hc).2.2.2.2.1,
    or_quarter _ (Nat.mod_lt _ (by decide)) _ (by omega), third]

/-- On bytes below 128 the outputs are the digits of the encoding. -/
theorem outputs_three {a b c : UInt8} (ha : a.toNat < 128) (hb : b.toNat < 128)
    (hc : c.toNat < 128) (rest : Bytes) :
    outputs (a :: b :: c :: rest) =
      [first a, second a b.toNat, third b c.toNat, fourth c].map digitOutput ++ outputs rest := by
  rw [outputs, second_eq a b ha hb, third_eq b c hb hc, (charValue_parts a ha).1,
    (charValue_parts c hc).2.2.2.2.2]
  rfl

theorem outputs_two {a b : UInt8} (ha : a.toNat < 128) (hb : b.toNat < 128) :
    outputs [a, b] =
      [first a, second a b.toNat, third b 0].map digitOutput ++ [.literal padding] := by
  rw [outputs, second_eq a b ha hb, (charValue_parts a ha).1, (charValue_parts b hb).2.2.2.1]
  rfl

theorem outputs_one {a : UInt8} (ha : a.toNat < 128) :
    outputs [a] =
      [first a, second a 0].map digitOutput ++ [.literal padding, .literal padding] := by
  rw [outputs, (charValue_parts a ha).1, (charValue_parts a ha).2.1]
  rfl

/-- Writing digits gives their characters. -/
theorem write_digits {digits : List ℕ} (small : ∀ digit ∈ digits, digit < 64)
    (later : List Output) :
    (digits.map digitOutput ++ later).mapM Output.write =
      (later.mapM Output.write).map (digits.map digitChar ++ ·) := by
  induction digits with
  | nil => simp
  | cons digit digits ih =>
      obtain ⟨head, tail⟩ := List.forall_mem_cons.mp small
      rw [List.map_cons, List.cons_append, List.mapM_cons, ih tail]
      simp only [digitOutput, Output.write, alphabetAt_digit digit head]
      cases later.mapM Output.write <;> rfl

theorem forall_digits_three (a b c : UInt8) :
    ∀ digit ∈ [first a, second a b.toNat, third b c.toNat, fourth c], digit < 64 := by
  simp only [List.forall_mem_cons, List.not_mem_nil, false_imp_iff, implies_true, and_true]
  exact ⟨first_lt a, second_lt a b.toNat_lt, third_lt b c.toNat_lt, fourth_lt c⟩

theorem forall_digits_two (a b : UInt8) :
    ∀ digit ∈ [first a, second a b.toNat, third b 0], digit < 64 := by
  simp only [List.forall_mem_cons, List.not_mem_nil, false_imp_iff, implies_true, and_true]
  exact ⟨first_lt a, second_lt a b.toNat_lt, third_lt b (by decide)⟩

theorem forall_digits_one (a : UInt8) : ∀ digit ∈ [first a, second a 0], digit < 64 := by
  simp only [List.forall_mem_cons, List.not_mem_nil, false_imp_iff, implies_true, and_true]
  exact ⟨first_lt a, second_lt a (by decide)⟩

/-- `encode` of a text of bytes below 128. -/
theorem encode_of_small (s : Bytes) (small : ∀ b ∈ s, b.toNat < 128) :
    encode s = some (PaddedBase64.encode s) := by
  rw [encode]
  induction s using outputs.induct with
  | case1 a b c rest ih =>
      simp only [List.forall_mem_cons] at small
      obtain ⟨ha, hb, hc, tail⟩ := small
      rw [outputs_three ha hb hc, write_digits (forall_digits_three a b c), ih tail,
        PaddedBase64.encode, sextets_three_bytes, Option.map_some]
  | case2 a b =>
      simp only [List.forall_mem_cons] at small
      obtain ⟨ha, hb, _⟩ := small
      rw [outputs_two ha hb, write_digits (forall_digits_two a b), PaddedBase64.encode,
        sextets_two_bytes]
      rfl
  | case3 a =>
      have ha := small a List.mem_cons_self
      rw [outputs_one ha, write_digits (forall_digits_one a), PaddedBase64.encode,
        sextets_one_byte]
      rfl
  | case4 => rfl

/-- Every index computed for the text is an index of `alphabet_map`. -/
def IndicesInRange (s : Bytes) : Prop :=
  ∀ index, Output.mapped index ∈ outputs s → 0 ≤ index ∧ index ≤ 63

/-- A byte of 128 or more makes an index negative, at every place. -/
theorem small_of_indicesInRange (s : Bytes) (inRange : IndicesInRange s) :
    ∀ b ∈ s, b.toNat < 128 := by
  induction s using outputs.induct with
  | case1 a b c rest ih =>
      simp only [IndicesInRange, outputs, List.mem_cons, Output.mapped.injEq] at inRange
      have ha := lt_of_shifted_nonneg a (.inl (inRange _ (.inl rfl)).1)
      have hb := nonneg_of_or_nonneg (inRange _ (.inr (.inl rfl))).1
      have hc := nonneg_of_or_nonneg (inRange _ (.inr (.inr (.inl rfl)))).1
      simp only [List.forall_mem_cons]
      refine ⟨ha, lt_of_shifted_nonneg b (.inr (.inl hb)), lt_of_shifted_nonneg c (.inr (.inr hc)),
        ih ?_⟩
      intro index member
      exact inRange index (.inr (.inr (.inr (.inr member))))
  | case2 a b =>
      simp only [IndicesInRange, outputs, List.mem_cons, Output.mapped.injEq] at inRange
      have ha := lt_of_shifted_nonneg a (.inl (inRange _ (.inl rfl)).1)
      have hb := nonneg_of_or_nonneg (inRange _ (.inr (.inl rfl))).1
      simp only [List.forall_mem_cons]
      exact ⟨ha, lt_of_shifted_nonneg b (.inr (.inl hb)), List.forall_mem_nil _⟩
  | case3 a =>
      simp only [IndicesInRange, outputs, List.mem_cons, Output.mapped.injEq] at inRange
      simp only [List.forall_mem_cons]
      exact ⟨lt_of_shifted_nonneg a (.inl (inRange _ (.inl rfl)).1), List.forall_mem_nil _⟩
  | case4 => exact List.forall_mem_nil _

theorem in_range_or_later {digits : List ℕ} (small : ∀ digit ∈ digits, digit < 64)
    {later : List Output} {index : Int32}
    (member : .mapped index ∈ digits.map digitOutput ++ later) :
    (0 ≤ index ∧ index ≤ 63) ∨ .mapped index ∈ later := by
  rcases List.mem_append.mp member with inDigits | inLater
  · obtain ⟨digit, isDigit, same⟩ := List.mem_map.mp inDigits
    cases same
    exact .inl (digit_in_range digit (small digit isDigit))
  · exact .inr inLater

theorem indicesInRange_of_small (s : Bytes) (small : ∀ b ∈ s, b.toNat < 128) :
    IndicesInRange s := by
  induction s using outputs.induct with
  | case1 a b c rest ih =>
      simp only [List.forall_mem_cons] at small
      obtain ⟨ha, hb, hc, tail⟩ := small
      intro index member
      rw [outputs_three ha hb hc] at member
      exact (in_range_or_later (forall_digits_three a b c) member).elim id (ih tail index)
  | case2 a b =>
      simp only [List.forall_mem_cons] at small
      intro index member
      rw [outputs_two small.1 small.2.1] at member
      refine (in_range_or_later (forall_digits_two a b) member).elim id ?_
      intro isPadding
      simp at isPadding
  | case3 a =>
      intro index member
      rw [outputs_one (small a List.mem_cons_self)] at member
      refine (in_range_or_later (forall_digits_one a) member).elim id ?_
      intro isPadding
      simp at isPadding
  | case4 =>
      intro index member
      cases member

/-! ## Decoding -/

theorem decodingEntry_digit : ∀ digit < 64,
    decodingEntry (digitChar digit) = UInt32.ofNat digit := by decide +kernel

theorem decodingEntry_padding : decodingEntry padding = 64 := by decide

theorem digit_ne_marker : ∀ digit < 64, UInt32.ofNat digit ≠ 64 := by decide

theorem ofNat_or_of_lt {bits low : ℕ} (lt : low < 2 ^ bits) (high : ℕ) :
    UInt32.ofNat (2 ^ bits * high) ||| UInt32.ofNat low = UInt32.ofNat (2 ^ bits * high + low) := by
  rw [Nat.two_pow_add_eq_or_of_lt lt, UInt32.ofNat_or]

/-- The parts `decode` takes of an entry below 64. -/
theorem entry_parts : ∀ digit < 64,
    UInt32.ofNat digit <<< 2 = UInt32.ofNat (2 ^ 2 * digit) ∧
      UInt32.ofNat digit >>> 4 = UInt32.ofNat (digit / 16) ∧
      (UInt32.ofNat digit &&& (0x0f : UInt32)) <<< 4 = UInt32.ofNat (2 ^ 4 * (digit % 16)) ∧
      UInt32.ofNat digit >>> 2 = UInt32.ofNat (digit / 4) ∧
      (UInt32.ofNat digit &&& (0x03 : UInt32)) <<< 6 = UInt32.ofNat (2 ^ 6 * (digit % 4)) := by
  decide

theorem toUInt8_ofNat {n : ℕ} {b : UInt8} (value : n = b.toNat) : (UInt32.ofNat n).toUInt8 = b := by
  rw [value, UInt32.toUInt8_ofNat', UInt8.ofNat_toNat]

theorem decoded_first (a : UInt8) {b : ℕ} (byte : b < 256) :
    ((UInt32.ofNat (first a) <<< 2) ||| (UInt32.ofNat (second a b) >>> 4)).toUInt8 = a := by
  have ha := a.toNat_lt
  rw [(entry_parts _ (first_lt a)).1, (entry_parts _ (second_lt a byte)).2.1,
    ofNat_or_of_lt (by rw [second]; omega)]
  apply toUInt8_ofNat
  rw [first, second]
  omega

theorem decoded_second (a b : UInt8) {c : ℕ} (byte : c < 256) :
    (((UInt32.ofNat (second a b.toNat) &&& (0x0f : UInt32)) <<< 4) |||
      (UInt32.ofNat (third b c) >>> 2)).toUInt8 = b := by
  have hb := b.toNat_lt
  rw [(entry_parts _ (second_lt a hb)).2.2.1, (entry_parts _ (third_lt b byte)).2.2.2.1,
    ofNat_or_of_lt (by rw [third]; omega)]
  apply toUInt8_ofNat
  rw [second, third]
  omega

theorem decoded_third (b c : UInt8) :
    (((UInt32.ofNat (third b c.toNat) &&& (0x03 : UInt32)) <<< 6) |||
      UInt32.ofNat (fourth c)).toUInt8 = c := by
  have hc := c.toNat_lt
  rw [(entry_parts _ (third_lt b hc)).2.2.2.2, ofNat_or_of_lt (fourth_lt c)]
  apply toUInt8_ofNat
  rw [third, fourth]
  omega

/-- `decode` undoes the padded encoding of every byte string, and goes on with
what follows it. -/
theorem decode_padded_append (s later : Bytes) :
    decode (PaddedBase64.encode s ++ later) = s ++ decode later := by
  induction s using PaddedBase64.encode.induct with
  | case1 a b c rest ih =>
      have hb := second_lt a b.toNat_lt
      have hc := third_lt b c.toNat_lt
      rw [PaddedBase64.encode, sextets_three_bytes]
      simp only [List.map_cons, List.map_nil, List.cons_append, List.nil_append, decode,
        decodingEntry_digit _ (first_lt a), decodingEntry_digit _ hb, decodingEntry_digit _ hc,
        decodingEntry_digit _ (fourth_lt c), if_pos (digit_ne_marker _ hc),
        if_pos (digit_ne_marker _ (fourth_lt c)), decoded_first a b.toNat_lt,
        decoded_second a b c.toNat_lt, decoded_third, ih]
  | case2 a b =>
      have hb := second_lt a b.toNat_lt
      have hc := third_lt b (Nat.zero_lt_succ 255)
      rw [PaddedBase64.encode, sextets_two_bytes]
      simp only [List.map_cons, List.map_nil, List.cons_append, List.nil_append, decode,
        decodingEntry_digit _ (first_lt a), decodingEntry_digit _ hb, decodingEntry_digit _ hc,
        decodingEntry_padding, if_pos (digit_ne_marker _ hc), ne_eq, not_true_eq_false, if_false,
        decoded_first a b.toNat_lt, decoded_second a b (Nat.zero_lt_succ 255)]
  | case3 a =>
      have hb := second_lt a (Nat.zero_lt_succ 255)
      rw [PaddedBase64.encode, sextets_one_byte]
      simp only [List.map_cons, List.map_nil, List.cons_append, List.nil_append, decode,
        decodingEntry_digit _ (first_lt a), decodingEntry_digit _ hb, decodingEntry_padding, ne_eq,
        not_true_eq_false, if_false, decoded_first a (Nat.zero_lt_succ 255)]
  | case4 => rfl

/-- **`decode` gives every byte string back from its padded encoding.** -/
theorem decode_paddedEncoding (s : Bytes) : decode (PaddedBase64.encode s) = s :=
  calc decode (PaddedBase64.encode s)
      = decode (PaddedBase64.encode s ++ []) := by rw [List.append_nil]
    _ = s ++ decode [] := decode_padded_append s []
    _ = s := List.append_nil s

/-- **When `encode` is the padded encoding.** Every index lies in the table, the
result is the padded encoding, and `decode` gives the text back, exactly when
every byte of the text is below 128. -/
theorem encode_correct_iff (s : Bytes) :
    (IndicesInRange s ∧ encode s = some (PaddedBase64.encode s) ∧
        (encode s).map decode = some s) ↔
      ∀ b ∈ s, b.toNat < 128 := by
  constructor
  · rintro ⟨inRange, _⟩
    exact small_of_indicesInRange s inRange
  · intro small
    have encoded := encode_of_small s small
    refine ⟨indicesInRange_of_small s small, encoded, ?_⟩
    rw [encoded, Option.map_some, ← List.append_nil (PaddedBase64.encode s), decode_padded_append]
    exact congrArg some (List.append_nil s)

/-- A single byte of 128 is encoded through the index -32. -/
theorem byte_128_not_encoded :
    ¬ (IndicesInRange [128] ∧ encode [128] = some (PaddedBase64.encode [128]) ∧
      (encode [128]).map decode = some [128]) := by
  rintro ⟨_, encoded, _⟩
  exact absurd encoded (by decide)

end Base64
end P2PFileSync
