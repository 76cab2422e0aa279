import P2PFileSync.Foundations.Bytes

/-!
# The padded base64 encoding

Three bytes are one number of 24 bits, written as four digits to the base 64,
most significant first. A last group of one or two bytes is filled with zero
bits up to a multiple of six, and the missing digits are written as padding.
-/

set_option autoImplicit false

namespace PaddedBase64

/-- The last `n` digits of a number to the base 64, most significant first. -/
def sextets : ℕ → ℕ → List ℕ
  | 0, _ => []
  | n + 1, value => sextets n (value / 64) ++ [value % 64]

/-- The number a group of bytes stands for. -/
def groupValue (group : Bytes) : ℕ := group.foldl (fun value b => value * 256 + b.toNat) 0

def alphabet : Bytes := utf8 "ABCDEFGHIJKLMNOPQRSTUVWXYZabcdefghijklmnopqrstuvwxyz0123456789+/"

/-- The character of a digit. -/
def digitChar (digit : ℕ) : UInt8 := alphabet.getD digit 0

/-- The character `=`. -/
def padding : UInt8 := 61

/-- The padded encoding of a byte string. -/
def encode : Bytes → Bytes
  | a :: b :: c :: rest => (sextets 4 (groupValue [a, b, c])).map digitChar ++ encode rest
  | [a, b] => (sextets 3 (groupValue [a, b] * 4)).map digitChar ++ [padding]
  | [a] => (sextets 2 (groupValue [a] * 16)).map digitChar ++ [padding, padding]
  | [] => []

/-! ## The digits of a group -/

/-- The high six bits of a byte. -/
def first (a : UInt8) : ℕ := a.toNat / 4

/-- The low two bits of a byte and the high four of the next. -/
def second (a : UInt8) (b : ℕ) : ℕ := a.toNat % 4 * 16 + b / 16

/-- The low four bits of a byte and the high two of the next. -/
def third (b : UInt8) (c : ℕ) : ℕ := b.toNat % 16 * 4 + c / 64

/-- The low six bits of a byte. -/
def fourth (c : UInt8) : ℕ := c.toNat % 64

theorem sextets_three_bytes (a b c : UInt8) :
    sextets 4 (groupValue [a, b, c]) =
      [first a, second a b.toNat, third b c.toNat, fourth c] := by
  have ha := a.toNat_lt
  have hb := b.toNat_lt
  have hc := c.toNat_lt
  simp only [sextets, groupValue, List.foldl_cons, List.foldl_nil, List.nil_append,
    List.cons_append, List.cons.injEq, and_true, first, second, third, fourth]
  omega

theorem sextets_two_bytes (a b : UInt8) :
    sextets 3 (groupValue [a, b] * 4) = [first a, second a b.toNat, third b 0] := by
  have ha := a.toNat_lt
  have hb := b.toNat_lt
  simp only [sextets, groupValue, List.foldl_cons, List.foldl_nil, List.nil_append,
    List.cons_append, List.cons.injEq, and_true, first, second, third]
  omega

theorem sextets_one_byte (a : UInt8) : sextets 2 (groupValue [a] * 16) = [first a, second a 0] := by
  have ha := a.toNat_lt
  simp only [sextets, groupValue, List.foldl_cons, List.foldl_nil, List.nil_append,
    List.cons_append, List.cons.injEq, and_true, first, second]
  omega

theorem first_lt (a : UInt8) : first a < 64 := by
  have ha := a.toNat_lt
  rw [first]
  omega

theorem second_lt (a : UInt8) {b : ℕ} (byte : b < 256) : second a b < 64 := by
  rw [second]
  omega

theorem third_lt (b : UInt8) {c : ℕ} (byte : c < 256) : third b c < 64 := by
  rw [third]
  omega

theorem fourth_lt (c : UInt8) : fourth c < 64 := Nat.mod_lt _ (by decide)

end PaddedBase64
