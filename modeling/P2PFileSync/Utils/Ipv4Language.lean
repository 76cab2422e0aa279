import P2PFileSync.Utils.AddressForms

/-!
# The texts of `IPV4_PATTERN`

An octet of the pattern is written in three alternatives that overlap. Together
they are the texts of one to three digits whose number is at most 255, with any
zeros in front. So the pattern accepts exactly four such groups, with a dot between
two of them, a colon and a port of one or more digits.

Main result: `matches_ipv4_iff`.
-/

set_option autoImplicit false

namespace P2PFileSync

open RegexForms RegularExpression

/-- One to three digits whose number is at most 255. -/
structure IsOctet (group : Bytes) : Prop where
  nonempty : 1 ≤ group.length
  short : group.length ≤ 3
  digits : ∀ c ∈ group, isDigit c = true
  value : decimalValue group ≤ 255

/-! ## The letters of an octet -/

theorem isDigit_iff (c : UInt8) : isDigit c = true ↔ 48 ≤ c.toNat ∧ c.toNat ≤ 57 := by
  rw [isDigit, decide_eq_true_eq, UInt8.le_iff_toNat_le, UInt8.le_iff_toNat_le]
  exact Iff.rfl

/-- The classes of the alternatives. -/
theorem mem_leading_iff (c : UInt8) :
    (c ∈ utf8 "012345" ↔ 48 ≤ c.toNat ∧ c.toNat ≤ 53) ∧
      (c ∈ utf8 "01234" ↔ 48 ≤ c.toNat ∧ c.toNat ≤ 52) ∧
      (c ∈ utf8 "01" ↔ 48 ≤ c.toNat ∧ c.toNat ≤ 49) := by
  have all : ∀ c : UInt8, c.toNat < 256 →
      (c ∈ utf8 "012345" ↔ 48 ≤ c.toNat ∧ c.toNat ≤ 53) ∧
        (c ∈ utf8 "01234" ↔ 48 ≤ c.toNat ∧ c.toNat ≤ 52) ∧
        (c ∈ utf8 "01" ↔ 48 ≤ c.toNat ∧ c.toNat ≤ 49) :=
    forall_byte_lt (by decide +kernel)
  exact all c c.toNat_lt

theorem decimalValue_one (x : UInt8) : decimalValue [x] = x.toNat - 48 := Nat.zero_add _

theorem decimalValue_two (x y : UInt8) :
    decimalValue [x, y] = (x.toNat - 48) * 10 + (y.toNat - 48) := by
  simp only [decimalValue, List.foldl_cons, List.foldl_nil, Nat.zero_mul, Nat.zero_add]

theorem decimalValue_three (x y z : UInt8) :
    decimalValue [x, y, z] =
      ((x.toNat - 48) * 10 + (y.toNat - 48)) * 10 + (z.toNat - 48) := by
  simp only [decimalValue, List.foldl_cons, List.foldl_nil, Nat.zero_mul, Nat.zero_add]

/-! ## One octet -/

/-- The alternatives, each by its letters. -/
theorem mem_octet_iff {group : Bytes} : group ∈ octet.matches' ↔
    (∃ z ∈ utf8 "012345", group = [50, 53, z]) ∨
      (∃ y ∈ utf8 "01234", ∃ z, isDigit z = true ∧ group = [50, y, z]) ∨
      ∃ front back, (front = [] ∨ ∃ x ∈ utf8 "01", front = [x]) ∧
        (1 ≤ back.length ∧ back.length ≤ 2 ∧ ∀ c ∈ back, isDigit c = true) ∧
        group = front ++ back := by
  have twentyFive : utf8 "25" = [50, 53] := by decide
  have two : utf8 "2" = [50] := by decide
  simp only [octet, matches'_add, matches'_mul, Language.mem_add, Language.mem_mul, text,
    mem_literal, mem_optional, mem_oneOf, digit, mem_repeated_oneOf (by decide : 1 ≤ 2),
    mem_digits_iff, twentyFive, two, or_assoc]
  refine or_congr ?_ (or_congr ?_ ?_)
  · constructor
    · rintro ⟨_, rfl, _, ⟨z, inClass, rfl⟩, rfl⟩
      exact ⟨z, inClass, rfl⟩
    · rintro ⟨z, inClass, rfl⟩
      exact ⟨_, rfl, _, ⟨z, inClass, rfl⟩, rfl⟩
  · constructor
    · rintro ⟨_, ⟨_, rfl, _, ⟨y, inClass, rfl⟩, rfl⟩, _, ⟨z, isOne, rfl⟩, rfl⟩
      exact ⟨y, inClass, z, isOne, rfl⟩
    · rintro ⟨y, inClass, z, isOne, rfl⟩
      exact ⟨_, ⟨_, rfl, _, ⟨y, inClass, rfl⟩, rfl⟩, _, ⟨z, isOne, rfl⟩,
        rfl⟩
  · constructor
    · rintro ⟨front, leading, back, later, rfl⟩
      exact ⟨front, back, leading, later, rfl⟩
    · rintro ⟨front, back, leading, later, rfl⟩
      exact ⟨front, leading, back, later, rfl⟩

section Digits

variable {x y z : UInt8}

theorem isOctet_one (first : isDigit x = true) : IsOctet [x] where
  nonempty := Nat.le_refl 1
  short := (by decide : 1 ≤ 3)
  digits := List.forall_mem_singleton.mpr first
  value := by
    have bounds := (isDigit_iff x).mp first
    rw [decimalValue_one]
    omega

theorem isOctet_two (first : isDigit x = true) (second : isDigit y = true) : IsOctet [x, y] where
  nonempty := (by decide : 1 ≤ 2)
  short := (by decide : 2 ≤ 3)
  digits := List.forall_mem_cons.mpr ⟨first, List.forall_mem_singleton.mpr second⟩
  value := by
    have bounds := (isDigit_iff x).mp first
    have bounds' := (isDigit_iff y).mp second
    rw [decimalValue_two]
    omega

theorem isOctet_three_iff : IsOctet [x, y, z] ↔
    isDigit x = true ∧ isDigit y = true ∧ isDigit z = true ∧
      ((x.toNat - 48) * 10 + (y.toNat - 48)) * 10 + (z.toNat - 48) ≤ 255 := by
  constructor
  · rintro ⟨-, -, digits, value⟩
    simp only [List.forall_mem_cons] at digits
    rw [decimalValue_three] at value
    exact ⟨digits.1, digits.2.1, digits.2.2.1, value⟩
  · rintro ⟨first, second, third, value⟩
    refine ⟨(by decide : 1 ≤ 3), Nat.le_refl 3, ?_, ?_⟩
    · exact List.forall_mem_cons.mpr ⟨first, List.forall_mem_cons.mpr
        ⟨second, List.forall_mem_singleton.mpr third⟩⟩
    · rwa [decimalValue_three]

end Digits

/-- At most one leading zero or one, and one or two digits. -/
theorem isOctet_of_leading {front back : Bytes}
    (leading : front = [] ∨ ∃ x ∈ utf8 "01", front = [x]) (nonempty : 1 ≤ back.length)
    (short : back.length ≤ 2) (all : ∀ c ∈ back, isDigit c = true) : IsOctet (front ++ back) := by
  match back, nonempty, short with
  | [y], _, _ =>
      have second := all y List.mem_cons_self
      rcases leading with rfl | ⟨x, first, rfl⟩
      · exact isOctet_one second
      · have bounds := (mem_leading_iff x).2.2.mp first
        exact isOctet_two ((isDigit_iff x).mpr ⟨bounds.1, by omega⟩) second
  | [y, z], _, _ =>
      have second := all y List.mem_cons_self
      have third := all z (List.mem_cons_of_mem _ List.mem_cons_self)
      rcases leading with rfl | ⟨x, first, rfl⟩
      · exact isOctet_two second third
      · have bounds := (mem_leading_iff x).2.2.mp first
        have bounds' := (isDigit_iff y).mp second
        have bounds'' := (isDigit_iff z).mp third
        have isFirst : isDigit x = true := (isDigit_iff x).mpr ⟨bounds.1, by omega⟩
        exact isOctet_three_iff.mpr ⟨isFirst, second, third, by omega⟩

theorem isOctet_of_mem {group : Bytes} (member : group ∈ octet.matches') : IsOctet group := by
  rcases mem_octet_iff.mp member with
    ⟨z, last, rfl⟩ | ⟨y, middle, z, last, rfl⟩ | ⟨front, back, leading, later, rfl⟩
  · have bounds := (mem_leading_iff z).1.mp last
    have isLast : isDigit z = true := (isDigit_iff z).mpr ⟨bounds.1, by omega⟩
    refine isOctet_three_iff.mpr ⟨by decide, by decide, isLast, ?_⟩
    have value : (50 : UInt8).toNat = 50 ∧ (53 : UInt8).toNat = 53 := by decide
    omega
  · have bounds := (mem_leading_iff y).2.1.mp middle
    have bounds' := (isDigit_iff z).mp last
    have isMiddle : isDigit y = true := (isDigit_iff y).mpr ⟨bounds.1, by omega⟩
    refine isOctet_three_iff.mpr ⟨by decide, isMiddle, last, ?_⟩
    have value : (50 : UInt8).toNat = 50 := by decide
    omega
  · exact isOctet_of_leading leading later.1 later.2.1 later.2.2

theorem mem_of_isOctet {group : Bytes} (isOctet : IsOctet group) : group ∈ octet.matches' := by
  rw [mem_octet_iff]
  match group, isOctet.nonempty, isOctet.short with
  | [x], nonempty, _ =>
      exact .inr (.inr ⟨[], [x], .inl rfl,
        ⟨nonempty, (by decide : 1 ≤ 2), isOctet.digits⟩, rfl⟩)
  | [x, y], nonempty, _ =>
      exact .inr (.inr ⟨[], [x, y], .inl rfl, ⟨nonempty, Nat.le_refl 2, isOctet.digits⟩, rfl⟩)
  | [x, y, z], _, _ =>
      obtain ⟨first, second, third, value⟩ := isOctet_three_iff.mp isOctet
      have bounds := (isDigit_iff x).mp first
      have bounds' := (isDigit_iff y).mp second
      have bounds'' := (isDigit_iff z).mp third
      -- the number decides the alternative: below 200, below 250, or the rest
      by_cases small : x.toNat ≤ 49
      · refine .inr (.inr ⟨[x], [y, z], .inr ⟨x, ?_, rfl⟩,
          ⟨(by decide : 1 ≤ 2), Nat.le_refl 2, ?_⟩, rfl⟩)
        · exact (mem_leading_iff x).2.2.mpr ⟨bounds.1, small⟩
        · exact fun c member => isOctet.digits c (List.mem_cons_of_mem x member)
      · obtain rfl : x = 50 := UInt8.toNat_inj.mp (by change x.toNat = 50; omega)
        by_cases middle : y.toNat ≤ 52
        · exact .inr (.inl ⟨y, (mem_leading_iff y).2.1.mpr ⟨bounds'.1, middle⟩, z, third, rfl⟩)
        · have hundreds : (50 : UInt8).toNat = 50 := by decide
          obtain rfl : y = 53 := UInt8.toNat_inj.mp (by change y.toNat = 53; omega)
          have tens : (53 : UInt8).toNat = 53 := by decide
          exact .inl ⟨z, (mem_leading_iff z).1.mpr ⟨bounds''.1, by omega⟩, rfl⟩

/-- The alternatives of the pattern are the numbers up to 255. -/
theorem mem_octet {group : Bytes} : group ∈ octet.matches' ↔ IsOctet group :=
  ⟨isOctet_of_mem, mem_of_isOctet⟩

example : IsOctet (utf8 "007") ∧ ¬ IsOctet (utf8 "256") ∧ ¬ IsOctet (utf8 "0001") := by
  refine ⟨⟨by decide, by decide, List.all_eq_true.mp rfl, by decide⟩, ?_, ?_⟩
  · exact fun isOctet => absurd isOctet.value (by decide)
  · exact fun isOctet => absurd isOctet.short (by decide)

/-! ## The whole pattern -/

theorem mem_ipv4Address {front : Bytes} : front ∈ ipv4Address.matches' ↔
    ∃ a b c d, IsOctet a ∧ IsOctet b ∧ IsOctet c ∧ IsOctet d ∧
      front = a ++ 46 :: b ++ 46 :: c ++ 46 :: d := by
  have dot : utf8 "." = [46] := by decide
  rw [ipv4Address, matches'_mul, matches_repeated_self, pow_succ, pow_two]
  simp only [Language.mem_mul, matches'_mul, mem_octet, text, mem_literal, dot]
  constructor
  · rintro ⟨a, isA, _, ⟨_, ⟨_, ⟨_, rfl, b, isB, rfl⟩, _, ⟨_, rfl, c, isC, rfl⟩, rfl⟩, _,
      ⟨_, rfl, d, isD, rfl⟩, rfl⟩, rfl⟩
    refine ⟨a, b, c, d, isA, isB, isC, isD, ?_⟩
    simp only [List.append_assoc, List.cons_append, List.nil_append]
  · rintro ⟨a, b, c, d, isA, isB, isC, isD, rfl⟩
    refine ⟨a, isA, _, ⟨_, ⟨_, ⟨_, rfl, b, isB, rfl⟩, _, ⟨_, rfl, c, isC, rfl⟩, rfl⟩, _,
      ⟨_, rfl, d, isD, rfl⟩, rfl⟩, ?_⟩
    simp only [List.append_assoc, List.cons_append, List.nil_append]

/-- **The texts that match `IPV4_PATTERN`** are exactly four groups of one to three
digits, each with a number of at most 255, with single dots between them, a colon
and one or more digits. -/
theorem matches_ipv4_iff (ipString : Bytes) :
    addressPatterns.ipv4 ipString = true ↔
      ∃ a b c d port, ipString = a ++ utf8 "." ++ b ++ utf8 "." ++ c ++ utf8 "." ++ d ++
          utf8 ":" ++ port ∧
        (∀ group ∈ [a, b, c, d], IsOctet group) ∧
        port ≠ [] ∧ ∀ digit ∈ port, isDigit digit = true := by
  have dot : utf8 "." = [46] := by decide
  have colon : utf8 ":" = [58] := by decide
  simp only [ipv4_iff, mem_ipv4Address, dot, colon, List.forall_mem_cons, List.append_assoc,
    List.cons_append, List.nil_append]
  constructor
  · rintro ⟨_, port, rfl, ⟨a, b, c, d, isA, isB, isC, isD, rfl⟩, isPort⟩
    refine ⟨a, b, c, d, port, ?_, ⟨isA, isB, isC, isD, ?_⟩, isPort⟩
    · simp only [List.append_assoc, List.cons_append]
    · exact fun group member => absurd member List.not_mem_nil
  · rintro ⟨a, b, c, d, port, rfl, ⟨isA, isB, isC, isD, -⟩, isPort⟩
    refine ⟨_, port, ?_, ⟨a, b, c, d, isA, isB, isC, isD, rfl⟩, isPort⟩
    simp only [List.append_assoc, List.cons_append]

end P2PFileSync
