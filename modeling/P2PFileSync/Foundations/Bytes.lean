import Mathlib.Data.List.Basic
import Mathlib.Tactic.NormNum

/-!
# Byte strings and 32-bit lengths

A byte string is a list of bytes. A 32-bit number is written in the byte order
of the x86-64 target, least significant byte first.
-/

set_option autoImplicit false

/-- A byte string, the content of a `std::string` or of a buffer. -/
abbrev Bytes := List UInt8

/-- The bytes of a string literal. -/
def utf8 (text : String) : Bytes := text.toUTF8.data.toList

/-- The decimal digits of a number. -/
def decimalText (n : ℕ) : Bytes := (Nat.toDigits 10 n).map fun digit => UInt8.ofNat digit.toNat

theorem decimalText_ne_nil (n : ℕ) : decimalText n ≠ [] := by
  rw [decimalText, ne_eq, List.map_eq_nil_iff]
  exact Nat.toDigits_ne_nil

/-- What holds of every byte below a bound, checked one by one. -/
theorem forall_byte_lt {bound : ℕ} {P : UInt8 → Prop}
    (all : ∀ n, n < bound → P (UInt8.ofNat n)) (b : UInt8) (lt : b.toNat < bound) : P b := by
  have holds := all b.toNat lt
  rwa [UInt8.ofNat_toNat] at holds

/-- What an entry at the front of a list is found under. -/
theorem lookup_entry_cons {β : Type} (key other : Bytes) (value : β) (entries : List (Bytes × β)) :
    ((key, value) :: entries).lookup other =
      if other = key then some value else entries.lookup other := by
  by_cases same : other = key
  · rw [same, List.lookup_cons_self, if_pos rfl]
  · rw [List.lookup_cons, beq_eq_false_iff_ne.mpr same, if_neg same]

/-- The four bytes of a number in little-endian order. -/
def encodeUint32 (n : UInt32) : Bytes :=
  [UInt8.ofNat (n.toNat % 256), UInt8.ofNat (n.toNat / 256 % 256),
    UInt8.ofNat (n.toNat / 65536 % 256), UInt8.ofNat (n.toNat / 16777216)]

/-- The number whose little-endian bytes begin the string. -/
def decodeUint32 : Bytes → Option UInt32
  | b₀ :: b₁ :: b₂ :: b₃ :: _ =>
      some (UInt32.ofNat (b₀.toNat + 256 * b₁.toNat + 65536 * b₂.toNat + 16777216 * b₃.toNat))
  | _ => none

@[simp] theorem encodeUint32_length (n : UInt32) : (encodeUint32 n).length = 4 := rfl

/-- Reading a written number gives it back, whatever follows it. -/
theorem decodeUint32_encodeUint32 (n : UInt32) (rest : Bytes) :
    decodeUint32 (encodeUint32 n ++ rest) = some n := by
  have bound : n.toNat < 4294967296 := n.toNat_lt
  simp only [encodeUint32, decodeUint32, List.cons_append, List.nil_append, UInt8.toNat_ofNat',
    Option.some.injEq]
  apply UInt32.toNat_inj.mp
  rw [UInt32.toNat_ofNat']
  omega

/-- Fewer than four bytes hold no number. -/
theorem decodeUint32_eq_none {buffer : Bytes} (few : buffer.length < 4) :
    decodeUint32 buffer = none := by
  match buffer, few with
  | [], _ => rfl
  | [_], _ => rfl
  | [_, _], _ => rfl
  | [_, _, _], _ => rfl
