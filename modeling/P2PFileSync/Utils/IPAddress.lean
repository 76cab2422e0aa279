import P2PFileSync.Foundations.Bytes
import P2PFileSync.Foundations.StdString

/-!
# Addresses with a port

The constructor of `IPAddress` matches the text against two regular expressions
and, if one matches, converts what follows the first colon with `std::stoi`. The
two matches are parameters here.
-/

set_option autoImplicit false

namespace P2PFileSync

open StdString

/-- `std::regex_match` with `IPV4_PATTERN` and with `IPV6_PATTERN`. -/
structure AddressPatterns where
  ipv4 : Bytes → Bool
  ipv6 : Bytes → Bool

/-- `std::isspace` in the C locale. -/
def isSpace (c : UInt8) : Bool := c = 32 ∨ (9 ≤ c ∧ c ≤ 13)

def isDigit (c : UInt8) : Bool := 48 ≤ c ∧ c ≤ 57

/-- The number the digits at the front of a text stand for; `none` without any. -/
def leadingNumber (text : Bytes) : Option ℕ :=
  match text.takeWhile isDigit with
  | [] => none
  | digits => some (digits.foldl (fun value c => value * 10 + (c.toNat - 48)) 0)

/-- `std::stoi`; `none` where it throws, because there is no number or because an
`int` cannot hold it. -/
def stoi (text : Bytes) : Option ℤ :=
  let number : Option ℤ :=
    match text.dropWhile isSpace with
    | 45 :: rest => (leadingNumber rest).map fun value => -(value : ℤ)
    | 43 :: rest => (leadingNumber rest).map fun value => (value : ℤ)
    | rest => (leadingNumber rest).map fun value => (value : ℤ)
  number.filter fun value => decide (-2147483648 ≤ value ∧ value ≤ 2147483647)

/-- The members of `IPAddress`. -/
structure IPAddress where
  valid : Bool
  portNumber : UInt16
  ipAddressStr : Bytes
  deriving DecidableEq, Repr

/-- The text before the first colon and the text after it; a text without a colon
is both. -/
def splitAddress (ipString : Bytes) : Bytes × Bytes :=
  match find ipString 58 0 with
  | none => (ipString, ipString)
  | some location => (substr ipString 0 location, substr ipString (location + 1) ipString.length)

/-- The constructor from a text; `none` where `std::stoi` throws. -/
def IPAddress.ofString (patterns : AddressPatterns) (ipString : Bytes) : Option IPAddress :=
  if patterns.ipv4 ipString || patterns.ipv6 ipString then
    (stoi (splitAddress ipString).2).map fun port =>
      { valid := true
        portNumber := UInt16.ofInt port
        ipAddressStr := (splitAddress ipString).1 }
  else some { valid := false, portNumber := 0, ipAddressStr := [] }

end P2PFileSync
