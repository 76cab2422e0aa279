import P2PFileSync.Foundations.RegexForms
import P2PFileSync.Utils.IPAddress

/-!
# Which texts are addresses

The constructor of `IPAddress` accepts a text by two regular expressions and then
takes it apart with `find`, `substr` and `std::stoi`. A text that matches
`IPV4_PATTERN` has a single colon, with digits behind it. A text that matches
`IPV6_PATTERN` has at least two colons, and the first one, where the constructor
cuts, is not the one before the port.

So the members are what the text says, and survive printing and parsing, exactly
when the text does not match `IPV6_PATTERN` and, where it matches
`IPV4_PATTERN`, its port is a number of 16 bits.

Main result: `faithful_iff`.
-/

set_option autoImplicit false

namespace P2PFileSync

open StdString RegexForms RegularExpression

/-! ## The patterns -/

section Patterns

/-- `\d` and `[0-9]` -/
def digit : RegularExpression UInt8 := oneOf (utf8 "0123456789")

/-- `[0-9a-fA-F]` -/
def hexDigit : RegularExpression UInt8 := oneOf (utf8 "0123456789abcdefABCDEF")

/-- `[0-9a-zA-Z]` -/
def letterOrDigit : RegularExpression UInt8 :=
  oneOf (utf8 "0123456789abcdefghijklmnopqrstuvwxyzABCDEFGHIJKLMNOPQRSTUVWXYZ")

/-- A text of the pattern that stands for itself. -/
def text (s : String) : RegularExpression UInt8 := literal (utf8 s)

/-- `25[0-5]|2[0-4]\d|[0-1]?\d{1,2}` -/
def octet : RegularExpression UInt8 :=
  text "25" * oneOf (utf8 "012345") +
  text "2" * oneOf (utf8 "01234") * digit +
  optional (oneOf (utf8 "01")) * repeated 1 2 digit

/-- The part of `IPV4_PATTERN` before the colon. -/
def ipv4Address : RegularExpression UInt8 := octet * repeated 3 3 (text "." * octet)

/-- `IPV4_PATTERN` -/
def ipv4Pattern : RegularExpression UInt8 := ipv4Address * text ":" * oneOrMore digit

/-- `[0-9a-fA-F]{1,4}` -/
def hexGroup : RegularExpression UInt8 := repeated 1 4 hexDigit

/-- `[0-9a-fA-F]{1,4}:` -/
def groupColon : RegularExpression UInt8 := hexGroup * text ":"

/-- `:[0-9a-fA-F]{1,4}` -/
def colonGroup : RegularExpression UInt8 := text ":" * hexGroup

/-- `25[0-5]|(2[0-4]|1{0,1}[0-9]){0,1}[0-9]` -/
def mappedOctet : RegularExpression UInt8 :=
  text "25" * oneOf (utf8 "012345") +
  repeated 0 1 (text "2" * oneOf (utf8 "01234") + repeated 0 1 (text "1") * digit) * digit

/-- The four octets at the end of a mapped address. -/
def mappedAddress : RegularExpression UInt8 :=
  repeated 3 3 (mappedOctet * text ".") * mappedOctet

/-- The part of `IPV6_PATTERN` before the last colon. -/
def ipv6Address : RegularExpression UInt8 :=
  repeated 7 7 groupColon * hexGroup +
  repeated 1 7 groupColon * text ":" +
  repeated 1 6 groupColon * text ":" * hexGroup +
  repeated 1 5 groupColon * repeated 1 2 colonGroup +
  repeated 1 4 groupColon * repeated 1 3 colonGroup +
  repeated 1 3 groupColon * repeated 1 4 colonGroup +
  repeated 1 2 groupColon * repeated 1 5 colonGroup +
  hexGroup * text ":" * repeated 1 6 colonGroup +
  text ":" * (repeated 1 7 colonGroup + text ":") +
  text "fe80:" * repeated 0 4 (text ":" * repeated 0 4 hexDigit) * text "%" *
    oneOrMore letterOrDigit +
  text "::" * repeated 0 1 (text "ffff" * repeated 0 1 (text ":" * repeated 1 4 (text "0")) *
    text ":") * mappedAddress +
  repeated 1 4 groupColon * text ":" * mappedAddress

/-- `IPV6_PATTERN` -/
def ipv6Pattern : RegularExpression UInt8 := ipv6Address * text ":" * oneOrMore digit

/-- The two matches of the constructor. -/
def addressPatterns : AddressPatterns where
  ipv4 := ipv4Pattern.rmatch
  ipv6 := ipv6Pattern.rmatch

end Patterns

/-! ## The other members -/

/-- `operator<<` -/
def IPAddress.print (address : IPAddress) : Bytes :=
  address.ipAddressStr ++ utf8 ":" ++ decimalText address.portNumber.toNat

/-- `operator==` -/
def IPAddress.equal (address other : IPAddress) : Bool :=
  address.portNumber = other.portNumber && address.ipAddressStr = other.ipAddressStr

/-! ## The property -/

/-- The text before the last colon. -/
def beforeLastColon (ipString : Bytes) : Bytes := (ipString.rdropWhile (· != 58)).dropLast

/-- The text after the last colon. -/
def afterLastColon (ipString : Bytes) : Bytes := ipString.rtakeWhile (· != 58)

/-- The number that digits stand for. -/
def decimalValue (digits : Bytes) : ℕ :=
  digits.foldl (fun value c => value * 10 + (c.toNat - 48)) 0

/-- The constructor does not throw, and a valid address is what its text says and
survives printing and parsing. -/
def Faithful (ipString : Bytes) : Prop :=
  ∃ address, IPAddress.ofString addressPatterns ipString = some address ∧
    (address.valid = true →
      address.ipAddressStr = beforeLastColon ipString ∧
      address.portNumber.toNat = decimalValue (afterLastColon ipString) ∧
      ∃ again, IPAddress.ofString addressPatterns address.print = some again ∧
        again.valid = true ∧ again.equal address = true)

/-! ## Accepted texts -/

theorem mem_digits_iff (c : UInt8) : c ∈ utf8 "0123456789" ↔ isDigit c = true := by
  have all : ∀ c : UInt8, c.toNat < 256 → (c ∈ utf8 "0123456789" ↔ isDigit c = true) :=
    forall_byte_lt (by decide +kernel)
  exact all c c.toNat_lt

theorem mem_digits {digits : Bytes} :
    digits ∈ (oneOrMore digit).matches' ↔ digits ≠ [] ∧ ∀ c ∈ digits, isDigit c = true := by
  rw [digit, mem_oneOrMore_oneOf]
  simp only [mem_digits_iff]

/-- A text that matches an address, a colon and digits. -/
theorem mem_address_colon_digits {address : RegularExpression UInt8} {ipString : Bytes} :
    ipString ∈ (address * text ":" * oneOrMore digit).matches' ↔
      ∃ front digits, ipString = front ++ 58 :: digits ∧ front ∈ address.matches' ∧
        digits ≠ [] ∧ ∀ c ∈ digits, isDigit c = true := by
  have colon : utf8 ":" = [58] := by decide
  simp only [matches'_mul, Language.mem_mul, mem_digits, text, mem_literal, colon]
  constructor
  · rintro ⟨_, ⟨front, isAddress, _, rfl, rfl⟩, digits, areDigits, rfl⟩
    exact ⟨front, digits, List.append_assoc front [58] digits, isAddress, areDigits⟩
  · rintro ⟨front, digits, rfl, isAddress, areDigits⟩
    exact ⟨_, ⟨front, isAddress, [58], rfl, rfl⟩, digits, areDigits,
      List.append_assoc front [58] digits⟩

theorem ipv4_iff {ipString : Bytes} : addressPatterns.ipv4 ipString = true ↔
    ∃ front digits, ipString = front ++ 58 :: digits ∧ front ∈ ipv4Address.matches' ∧
      digits ≠ [] ∧ ∀ c ∈ digits, isDigit c = true := by
  rw [addressPatterns, rmatch_iff_matches', ipv4Pattern, mem_address_colon_digits]

theorem ipv6_iff {ipString : Bytes} : addressPatterns.ipv6 ipString = true ↔
    ∃ front digits, ipString = front ++ 58 :: digits ∧ front ∈ ipv6Address.matches' ∧
      digits ≠ [] ∧ ∀ c ∈ digits, isDigit c = true := by
  rw [addressPatterns, rmatch_iff_matches', ipv6Pattern, mem_address_colon_digits]

/-- No letter of an IPv4 address is a colon. -/
theorem colon_notMem_of_ipv4 {front : Bytes} (isAddress : front ∈ ipv4Address.matches') :
    58 ∉ front := by
  have noColon : 58 ∉ letters ipv4Address := by decide +kernel
  exact fun member => noColon (mem_letters isAddress 58 member)

/-- Every IPv6 address has a colon. -/
theorem colon_mem_of_ipv6 {front : Bytes} (isAddress : front ∈ ipv6Address.matches') :
    58 ∈ front :=
  mem_of_requires (by decide +kernel) isAddress

theorem colon_notMem_of_digits {digits : Bytes} (areDigits : ∀ c ∈ digits, isDigit c = true) :
    58 ∉ digits := fun member => absurd (areDigits 58 member) (by decide)

/-! ## Taking a text apart -/

theorem splitAddress_append_cons {front rest : Bytes} (noColon : 58 ∉ front) :
    splitAddress (front ++ 58 :: rest) = (front, rest) := by
  have whole : rest.length ≤ (front ++ 58 :: rest).length := by
    rw [List.length_append, List.length_cons]
    omega
  simp only [splitAddress, find_append_cons noColon, substr_append_cons]
  rw [substr, drop_append_cons, List.take_of_length_le whole]

/-- From the end of a text up to its last colon. -/
theorem forall_ne_colon {rest : Bytes} (noColon : 58 ∉ rest) :
    ∀ c ∈ rest.reverse, (c != 58) = true := by
  intro c member
  exact bne_iff_ne.mpr fun colon => noColon (List.mem_reverse.mp (colon ▸ member))

theorem afterLastColon_append_cons {front rest : Bytes} (noColon : 58 ∉ rest) :
    afterLastColon (front ++ 58 :: rest) = rest := by
  rw [afterLastColon, List.rtakeWhile, List.reverse_append, List.reverse_cons, List.append_assoc,
    List.takeWhile_append_of_pos (forall_ne_colon noColon), List.singleton_append,
    List.takeWhile_cons_of_neg (by decide), List.append_nil, List.reverse_reverse]

theorem beforeLastColon_append_cons {front rest : Bytes} (noColon : 58 ∉ rest) :
    beforeLastColon (front ++ 58 :: rest) = front := by
  rw [beforeLastColon, List.rdropWhile, List.reverse_append, List.reverse_cons, List.append_assoc,
    List.dropWhile_append_of_pos (forall_ne_colon noColon), List.singleton_append,
    List.dropWhile_cons_of_neg (by decide), List.reverse_cons, List.reverse_reverse,
    List.dropLast_concat]

/-- A digit is neither white space nor a sign. -/
theorem not_space_of_isDigit (c : UInt8) :
    isDigit c = true → isSpace c = false ∧ c ≠ 45 ∧ c ≠ 43 := by
  have all : ∀ c : UInt8, c.toNat < 256 →
      isDigit c = true → isSpace c = false ∧ c ≠ 45 ∧ c ≠ 43 :=
    forall_byte_lt (by decide +kernel)
  exact all c c.toNat_lt

theorem leadingNumber_of_digits {digits : Bytes} (nonempty : digits ≠ [])
    (areDigits : ∀ c ∈ digits, isDigit c = true) :
    leadingNumber digits = some (decimalValue digits) := by
  rw [leadingNumber, List.takeWhile_eq_self_iff.mpr areDigits]
  cases digits with
  | nil => exact absurd rfl nonempty
  | cons c digits => rfl

/-- `std::stoi` of digits. -/
theorem stoi_of_digits {digits : Bytes} (nonempty : digits ≠ [])
    (areDigits : ∀ c ∈ digits, isDigit c = true) :
    stoi digits =
      if decimalValue digits ≤ 2147483647 then some (decimalValue digits : ℤ) else none := by
  have value := leadingNumber_of_digits nonempty areDigits
  cases digits with
  | nil => exact absurd rfl nonempty
  | cons c rest =>
      obtain ⟨notSpace, notMinus, notPlus⟩ :=
        not_space_of_isDigit c (areDigits c List.mem_cons_self)
      have front : (c :: rest).dropWhile isSpace = c :: rest :=
        List.dropWhile_cons_of_neg (by rw [notSpace]; exact Bool.false_ne_true)
      have bounds : (-2147483648 ≤ (decimalValue (c :: rest) : ℤ) ∧
          (decimalValue (c :: rest) : ℤ) ≤ 2147483647) ↔
            decimalValue (c :: rest) ≤ 2147483647 := by
        omega
      simp only [stoi, front]
      split
      · rename_i same
        exact absurd (List.cons.inj same).1 notMinus
      · rename_i same
        exact absurd (List.cons.inj same).1 notPlus
      · simp only [value, Option.pure_def, Option.bind_eq_bind, Option.bind_some, Option.map_some,
          Option.filter_some, bounds, decide_eq_true_eq]

/-! ## Printing -/

/-- The byte of a decimal digit. -/
theorem toNat_ofNat_of_isDigit {c : Char} (isDigit : c.isDigit = true) :
    (UInt8.ofNat c.toNat).toNat = c.toNat ∧ 48 ≤ c.toNat ∧ c.toNat ≤ 57 := by
  obtain ⟨zero_le, le_nine⟩ := Char.isDigit_iff_toNat.mp isDigit
  rw [UInt8.toNat_ofNat']
  exact ⟨Nat.mod_eq_of_lt (Nat.lt_of_le_of_lt le_nine (by decide)), zero_le, le_nine⟩

theorem isDigit_of_mem_decimalText {n : ℕ} : ∀ c ∈ decimalText n, isDigit c = true := by
  intro c member
  obtain ⟨digit, isOne, rfl⟩ := List.mem_map.mp member
  obtain ⟨value, zero_le, le_nine⟩ := toNat_ofNat_of_isDigit
    (Nat.isDigit_of_mem_toDigits (by decide) (by decide) isOne)
  rw [isDigit, decide_eq_true_eq, UInt8.le_iff_toNat_le, UInt8.le_iff_toNat_le, value]
  exact ⟨zero_le, le_nine⟩

/-- The number of a list of decimal digits is the one the bytes stand for. -/
theorem foldl_bytes_of_digits {digits : List Char} (areDigits : ∀ c ∈ digits, c.isDigit = true)
    (start : ℕ) :
    (digits.map fun digit => UInt8.ofNat digit.toNat).foldl
        (fun value c => value * 10 + (c.toNat - 48)) start =
      Nat.ofDigitChars 10 digits start := by
  induction digits generalizing start with
  | nil => rfl
  | cons digit digits ih =>
      obtain ⟨first, later⟩ := List.forall_mem_cons.mp areDigits
      rw [List.map_cons, List.foldl_cons, ih later, Nat.ofDigitChars_cons,
        (toNat_ofNat_of_isDigit first).1, Nat.mul_comm]
      rfl

/-- The decimal digits stand for the number. -/
theorem decimalValue_decimalText (n : ℕ) : decimalValue (decimalText n) = n := by
  rw [decimalValue, decimalText, foldl_bytes_of_digits, Nat.ofDigitChars_toDigits (by decide)]
  · decide
  · intro c member
    exact Nat.isDigit_of_mem_toDigits (by decide) (by decide) member

/-! ## Texts the constructor accepts -/

/-- A text with a single colon and digits behind it that an accepted pattern
matches. -/
theorem ofString_of_digits {patterns : AddressPatterns} {front digits : Bytes}
    (accepted : (patterns.ipv4 (front ++ 58 :: digits) || patterns.ipv6 (front ++ 58 :: digits)) =
      true)
    (noColon : 58 ∉ front) (nonempty : digits ≠ []) (areDigits : ∀ c ∈ digits, isDigit c = true) :
    IPAddress.ofString patterns (front ++ 58 :: digits) =
      if decimalValue digits ≤ 2147483647 then
        some { valid := true
               portNumber := UInt16.ofInt (decimalValue digits)
               ipAddressStr := front }
      else none := by
  rw [IPAddress.ofString, if_pos accepted, splitAddress_append_cons noColon,
    stoi_of_digits nonempty areDigits]
  by_cases small : decimalValue digits ≤ 2147483647
  · rw [if_pos small, if_pos small, Option.map_some]
  · rw [if_neg small, if_neg small, Option.map_none]

/-- The narrowing to 16 bits. -/
theorem toNat_ofInt (value : ℕ) : (UInt16.ofInt (value : ℤ)).toNat = value % 65536 := by
  rw [UInt16.ofInt, UInt16.toNat_ofNat']
  omega

/-- Printing an IPv4 address and parsing the output gives the address again. -/
theorem ofString_print {front : Bytes} (isAddress : front ∈ ipv4Address.matches') (valid : Bool)
    (port : UInt16) :
    IPAddress.ofString addressPatterns (IPAddress.print ⟨valid, port, front⟩) =
      some ⟨true, port, front⟩ := by
  have printed : IPAddress.print ⟨valid, port, front⟩ = front ++ 58 :: decimalText port.toNat := by
    have colon : utf8 ":" = [58] := by decide
    rw [IPAddress.print, colon, List.append_assoc, List.singleton_append]
  have accepted : addressPatterns.ipv4 (front ++ 58 :: decimalText port.toNat) = true :=
    ipv4_iff.mpr ⟨front, _, rfl, isAddress, decimalText_ne_nil _, isDigit_of_mem_decimalText⟩
  have small := port.toNat_lt
  rw [printed, ofString_of_digits (by rw [accepted, Bool.true_or]) (colon_notMem_of_ipv4 isAddress)
    (decimalText_ne_nil _) isDigit_of_mem_decimalText, decimalValue_decimalText, if_pos (by omega)]
  congr 2
  apply UInt16.toNat_inj.mp
  rw [toNat_ofInt]
  omega

/-! ## When an address is what its text says -/

/-- A text that neither pattern matches. -/
theorem faithful_of_refused {ipString : Bytes} (ipv4 : addressPatterns.ipv4 ipString = false)
    (ipv6 : addressPatterns.ipv6 ipString = false) : Faithful ipString := by
  refine ⟨⟨false, 0, []⟩, ?_, fun impossible => absurd impossible Bool.false_ne_true⟩
  rw [IPAddress.ofString, ipv4, ipv6]
  rfl

/-- A text that matches `IPV6_PATTERN` is cut at its first colon. -/
theorem not_faithful_of_ipv6 {ipString : Bytes} (ipv6 : addressPatterns.ipv6 ipString = true) :
    ¬ Faithful ipString := by
  obtain ⟨inner, digits, rfl, isAddress, -, areDigits⟩ := ipv6_iff.mp ipv6
  rintro ⟨address, made, faithful⟩
  obtain ⟨front, rest, split, noColon⟩ :=
    List.eq_append_cons_of_mem (colon_mem_of_ipv6 isAddress)
  have whole : inner ++ 58 :: digits = front ++ 58 :: (rest ++ 58 :: digits) := by
    rw [split, List.append_assoc, List.cons_append]
  rw [IPAddress.ofString, ipv6, Bool.or_true, if_pos rfl, whole, splitAddress_append_cons noColon,
    Option.map_eq_some_iff] at made
  obtain ⟨port, -, rfl⟩ := made
  have before : front = _ := (faithful rfl).1
  rw [beforeLastColon_append_cons (colon_notMem_of_digits areDigits), split] at before
  have lengths := congrArg List.length before
  rw [List.length_append, List.length_cons] at lengths
  omega

/-- A text that matches `IPV4_PATTERN`. -/
theorem faithful_iff_of_ipv4 {ipString : Bytes} (ipv4 : addressPatterns.ipv4 ipString = true) :
    Faithful ipString ↔ decimalValue (afterLastColon ipString) ≤ 65535 := by
  have accepted : (addressPatterns.ipv4 ipString || addressPatterns.ipv6 ipString) = true := by
    rw [ipv4, Bool.true_or]
  obtain ⟨front, digits, rfl, isAddress, nonempty, areDigits⟩ := ipv4_iff.mp ipv4
  have made := ofString_of_digits accepted (colon_notMem_of_ipv4 isAddress) nonempty areDigits
  have noColon := colon_notMem_of_digits areDigits
  rw [afterLastColon_append_cons noColon]
  constructor
  · rintro ⟨address, same, faithful⟩
    rw [made, Option.ite_none_right_eq_some] at same
    obtain ⟨-, same⟩ := same
    obtain rfl := Option.some.inj same
    obtain ⟨-, port, -⟩ := faithful rfl
    rw [afterLastColon_append_cons noColon, toNat_ofInt] at port
    omega
  · intro small
    rw [if_pos (by omega)] at made
    refine ⟨_, made, fun _ => ⟨?_, ?_, _, ofString_print isAddress true _, rfl, ?_⟩⟩
    · exact (beforeLastColon_append_cons noColon).symm
    · rw [afterLastColon_append_cons noColon, toNat_ofInt]
      omega
    · simp only [IPAddress.equal, decide_true, Bool.and_self]

/-- **When an address is what its text says.** The constructor does not throw, and
a valid address has the text before the last colon and the number after it and
survives printing and parsing, exactly when the text does not match
`IPV6_PATTERN` and, where it matches `IPV4_PATTERN`, the number after its colon
has 16 bits. -/
theorem faithful_iff (ipString : Bytes) :
    Faithful ipString ↔
      addressPatterns.ipv6 ipString = false ∧
        (addressPatterns.ipv4 ipString = true →
          decimalValue (afterLastColon ipString) ≤ 65535) := by
  cases ipv6 : addressPatterns.ipv6 ipString with
  | true =>
      refine iff_of_false (not_faithful_of_ipv6 ipv6) ?_
      rintro ⟨impossible, -⟩
      cases impossible
  | false =>
      rw [and_iff_right rfl]
      cases ipv4 : addressPatterns.ipv4 ipString with
      | true => rw [faithful_iff_of_ipv4 ipv4, imp_iff_right rfl]
      | false =>
          refine iff_of_true (faithful_of_refused ipv4 ipv6) ?_
          intro impossible
          cases impossible

/-- An IPv6 address with a port, and a port of 17 bits. -/
theorem not_faithful_ipv6 :
    ¬ Faithful (utf8 "::1:80") ∧ ¬ Faithful (utf8 "127.0.0.1:65536") := by
  constructor
  · exact not_faithful_of_ipv6 (by decide +kernel)
  · intro faithful
    have port := (faithful_iff_of_ipv4 (by decide +kernel)).mp faithful
    exact absurd port (by decide)

end P2PFileSync
