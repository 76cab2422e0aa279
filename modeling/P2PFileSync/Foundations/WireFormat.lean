import P2PFileSync.Foundations.Bytes

/-!
# The protocol-buffer wire format

A message on the wire is a sequence of fields. A field is a tag, which packs
the field's number and its wire type into one varint, and a value of that wire
type: a varint, a fixed number of bytes, or a length followed by that many
bytes. Deprecated groups are rejected.

Decoding stops at the first malformed field. It returns the fields read before
the error together with the verdict, because a parser that fails may have
stored them already.

* `decodeVarint_encodeVarint`: numbers below `2 ^ 64` are read back.
* `decode_encode`: a sequence of valid fields is read back, with success.
* `parseWith_encode`: a message that is rebuilt by setting its fields one by
  one is read back from the encoding of its fields.
-/

set_option autoImplicit false

namespace Wire

/-! ## Varints -/

/-- Seven bits a byte, least significant first, with at most `fuel` bytes. -/
def encodeVarintFuel : ℕ → ℕ → Bytes
  | 0, _ => []
  | fuel + 1, n =>
      if n < 128 then [UInt8.ofNat n]
      else UInt8.ofNat (n % 128 + 128) :: encodeVarintFuel fuel (n / 128)

def decodeVarintFuel : ℕ → Bytes → Option (ℕ × Bytes)
  | 0, _ => none
  | _ + 1, [] => none
  | fuel + 1, byte :: rest =>
      if byte.toNat < 128 then some (byte.toNat, rest)
      else
        match decodeVarintFuel fuel rest with
        | none => none
        | some (high, rest) => some (byte.toNat - 128 + 128 * high, rest)

/-- The varint of a 64-bit number takes at most ten bytes. -/
def encodeVarint (n : ℕ) : Bytes := encodeVarintFuel 10 n

/-- Read a varint of at most ten bytes; bits above the 64th are dropped. -/
def decodeVarint (bytes : Bytes) : Option (ℕ × Bytes) :=
  match decodeVarintFuel 10 bytes with
  | none => none
  | some (n, rest) => some (n % 2 ^ 64, rest)

theorem decodeVarintFuel_encodeVarintFuel {fuel n : ℕ} (fits : n < 128 ^ (fuel + 1))
    (rest : Bytes) :
    decodeVarintFuel (fuel + 1) (encodeVarintFuel (fuel + 1) n ++ rest) = some (n, rest) := by
  induction fuel generalizing n with
  | zero =>
      have last : n < 128 := by simpa using fits
      have byte : (UInt8.ofNat n).toNat = n := by
        rw [UInt8.toNat_ofNat']
        omega
      simp only [encodeVarintFuel, if_pos last, List.cons_append, List.nil_append,
        decodeVarintFuel, byte]
  | succ fuel ih =>
      by_cases last : n < 128
      · have byte : (UInt8.ofNat n).toNat = n := by
          rw [UInt8.toNat_ofNat']
          omega
        simp only [encodeVarintFuel, if_pos last, List.cons_append, List.nil_append,
          decodeVarintFuel, byte]
      · have byte : (UInt8.ofNat (n % 128 + 128)).toNat = n % 128 + 128 := by
          rw [UInt8.toNat_ofNat']
          omega
        have smaller : n / 128 < 128 ^ (fuel + 1) := by
          rw [Nat.div_lt_iff_lt_mul (by decide)]
          rwa [Nat.pow_succ] at fits
        have more : ¬ n % 128 + 128 < 128 := by omega
        rw [encodeVarintFuel, if_neg last, List.cons_append, decodeVarintFuel, byte, if_neg more,
          ih smaller]
        simp only [Option.some.injEq, Prod.mk.injEq, and_true]
        omega

/-- A 64-bit number is read back from its varint, whatever follows it. -/
theorem decodeVarint_encodeVarint {n : ℕ} (fits : n < 2 ^ 64) (rest : Bytes) :
    decodeVarint (encodeVarint n ++ rest) = some (n, rest) := by
  have tenBytes : n < 128 ^ (9 + 1) := by omega
  rw [decodeVarint, encodeVarint, decodeVarintFuel_encodeVarintFuel tenBytes]
  simp only [Nat.mod_eq_of_lt fits]

theorem encodeVarint_ne_nil (n : ℕ) : encodeVarint n ≠ [] := by
  rw [encodeVarint, encodeVarintFuel]
  split
  · exact List.cons_ne_nil _ _
  · exact List.cons_ne_nil _ _

theorem encodeVarint_length_pos (n : ℕ) : 0 < (encodeVarint n).length :=
  List.length_pos_iff.mpr (encodeVarint_ne_nil n)

/-! ## Fields -/

/-- The value of a field, by wire type. -/
inductive Value where
  | varint (n : ℕ)
  | fixed64 (bytes : Bytes)
  | len (bytes : Bytes)
  | fixed32 (bytes : Bytes)
  deriving DecidableEq, Repr

/-- A field of a message: its number and its value. -/
structure Field where
  number : ℕ
  value : Value
  deriving DecidableEq, Repr

def Value.wireType : Value → ℕ
  | .varint _ => 0
  | .fixed64 _ => 1
  | .len _ => 2
  | .fixed32 _ => 5

theorem Value.wireType_lt (value : Value) : value.wireType < 8 := by
  cases value <;> simp only [Value.wireType] <;> omega

/-- The values a parser accepts: 64-bit varints, fixed widths, and lengths
below two gibibytes. -/
def Value.Valid : Value → Prop
  | .varint n => n < 2 ^ 64
  | .fixed64 bytes => bytes.length = 8
  | .len bytes => bytes.length < 2 ^ 31
  | .fixed32 bytes => bytes.length = 4

structure Field.Valid (field : Field) : Prop where
  positive : 0 < field.number
  small : field.number < 2 ^ 29
  value : field.value.Valid

/-- The values a writer produces; how long they may be is left to the message
as a whole. -/
def Value.InRange : Value → Prop
  | .varint n => n < 2 ^ 64
  | .fixed64 bytes => bytes.length = 8
  | .len _ => True
  | .fixed32 bytes => bytes.length = 4

structure Field.InRange (field : Field) : Prop where
  positive : 0 < field.number
  small : field.number < 2 ^ 29
  value : field.value.InRange

def encodeValue : Value → Bytes
  | .varint n => encodeVarint n
  | .fixed64 bytes => bytes
  | .len bytes => encodeVarint bytes.length ++ bytes
  | .fixed32 bytes => bytes

def encodeField (field : Field) : Bytes :=
  encodeVarint (field.number * 8 + field.value.wireType) ++ encodeValue field.value

/-- Split off a prefix of the given length, if there is one. -/
def takeBytes (n : ℕ) (bytes : Bytes) : Option (Bytes × Bytes) :=
  if n ≤ bytes.length then some (bytes.take n, bytes.drop n) else none

/-- Read the value of a wire type. Groups and the unused wire types are
malformed. -/
def decodeValue (wireType : ℕ) (bytes : Bytes) : Option (Value × Bytes) :=
  match wireType with
  | 0 => (decodeVarint bytes).map fun (n, rest) => (.varint n, rest)
  | 1 => (takeBytes 8 bytes).map fun (value, rest) => (.fixed64 value, rest)
  | 2 =>
      match decodeVarint bytes with
      | none => none
      | some (length, rest) =>
          if length < 2 ^ 31 then
            (takeBytes length rest).map fun (value, rest) => (.len value, rest)
          else none
  | 5 => (takeBytes 4 bytes).map fun (value, rest) => (.fixed32 value, rest)
  | _ => none

/-- Read one field. A tag does not exceed 32 bits and its field number is not
zero. -/
def decodeField (bytes : Bytes) : Option (Field × Bytes) :=
  match decodeVarint bytes with
  | none => none
  | some (tag, rest) =>
      if tag / 8 = 0 ∨ 2 ^ 32 ≤ tag then none
      else (decodeValue (tag % 8) rest).map fun (value, rest) => (⟨tag / 8, value⟩, rest)

theorem takeBytes_append (bytes rest : Bytes) :
    takeBytes bytes.length (bytes ++ rest) = some (bytes, rest) := by
  have enough : bytes.length ≤ (bytes ++ rest).length := by simp
  rw [takeBytes, if_pos enough, List.take_left, List.drop_left]

theorem decodeValue_encodeValue {value : Value} (valid : value.Valid) (rest : Bytes) :
    decodeValue value.wireType (encodeValue value ++ rest) = some (value, rest) := by
  cases value with
  | varint n =>
      simp only [Value.wireType, encodeValue, decodeValue, decodeVarint_encodeVarint valid,
        Option.map_some]
  | fixed64 bytes =>
      have width : bytes.length = 8 := valid
      simp only [Value.wireType, encodeValue, decodeValue, ← width, takeBytes_append,
        Option.map_some]
  | len bytes =>
      have short : bytes.length < 2 ^ 31 := valid
      have fits : bytes.length < 2 ^ 64 := by omega
      simp only [Value.wireType, encodeValue, decodeValue, List.append_assoc,
        decodeVarint_encodeVarint fits, if_pos short, takeBytes_append, Option.map_some]
  | fixed32 bytes =>
      have width : bytes.length = 4 := valid
      simp only [Value.wireType, encodeValue, decodeValue, ← width, takeBytes_append,
        Option.map_some]

/-- A valid field is read back, whatever follows it. -/
theorem decodeField_encodeField {field : Field} (valid : field.Valid) (rest : Bytes) :
    decodeField (encodeField field ++ rest) = some (field, rest) := by
  obtain ⟨positive, small, validValue⟩ := valid
  have bound := field.value.wireType_lt
  have number_eq : (field.number * 8 + field.value.wireType) / 8 = field.number := by omega
  have type_eq : (field.number * 8 + field.value.wireType) % 8 = field.value.wireType := by omega
  have fits : field.number * 8 + field.value.wireType < 2 ^ 64 := by omega
  have accepted :
      ¬ (field.number = 0 ∨ 2 ^ 32 ≤ field.number * 8 + field.value.wireType) := by omega
  simp only [encodeField, List.append_assoc, decodeField, decodeVarint_encodeVarint fits,
    number_eq, type_eq, if_neg accepted, decodeValue_encodeValue validValue, Option.map_some]

theorem encodeField_length_pos (field : Field) : 0 < (encodeField field).length := by
  have tag := encodeVarint_length_pos (field.number * 8 + field.value.wireType)
  simp only [encodeField, List.length_append]
  omega

/-! ## Sequences of fields -/

def encode (fields : List Field) : Bytes := fields.flatMap encodeField

def decodeFields : ℕ → Bytes → List Field × Bool
  | _, [] => ([], true)
  | 0, _ :: _ => ([], false)
  | fuel + 1, bytes =>
      match decodeField bytes with
      | none => ([], false)
      | some (field, rest) =>
          ((field :: (decodeFields fuel rest).1), (decodeFields fuel rest).2)

/-- The fields read before the first malformed one, and whether there was
none. -/
def decode (bytes : Bytes) : List Field × Bool := decodeFields bytes.length bytes

@[simp] theorem encode_nil : encode [] = [] := rfl

@[simp] theorem encode_cons (field : Field) (fields : List Field) :
    encode (field :: fields) = encodeField field ++ encode fields := rfl

@[simp] theorem encode_append (first second : List Field) :
    encode (first ++ second) = encode first ++ encode second := by
  simp only [encode, List.flatMap_append]

theorem length_le_encode_length (fields : List Field) : fields.length ≤ (encode fields).length := by
  induction fields with
  | nil => exact Nat.le_refl _
  | cons field fields ih =>
      have positive := encodeField_length_pos field
      simp only [encode_cons, List.length_append, List.length_cons]
      omega

theorem decodeFields_encode {fields : List Field} (valid : ∀ field ∈ fields, field.Valid)
    {fuel : ℕ} (enough : fields.length ≤ fuel) :
    decodeFields fuel (encode fields) = (fields, true) := by
  induction fields generalizing fuel with
  | nil => cases fuel <;> rfl
  | cons field fields ih =>
      obtain ⟨validField, validFields⟩ := List.forall_mem_cons.mp valid
      cases fuel with
      | zero => simp only [List.length_cons, Nat.le_zero, Nat.add_one_ne_zero] at enough
      | succ fuel =>
          have bytes : encodeField field ++ encode fields ≠ [] := by
            have positive := encodeField_length_pos field
            intro empty
            simp only [List.append_eq_nil_iff] at empty
            simp only [empty.1, List.length_nil, Nat.lt_irrefl] at positive
          rw [encode_cons, decodeFields]
          · simp only [decodeField_encodeField validField,
              ih validFields (Nat.le_of_succ_le_succ enough)]
          · exact bytes

/-- **Valid fields are read back, with success.** -/
theorem decode_encode {fields : List Field} (valid : ∀ field ∈ fields, field.Valid) :
    decode (encode fields) = (fields, true) :=
  decodeFields_encode valid (length_le_encode_length fields)

/-- What a field holds is part of the encoding. -/
theorem length_lt_encode_length (number : ℕ) {bytes : Bytes} {fields : List Field}
    (member : ⟨number, .len bytes⟩ ∈ fields) : bytes.length < (encode fields).length := by
  induction fields with
  | nil => cases member
  | cons field fields ih =>
      rw [encode_cons, List.length_append]
      rcases List.mem_cons.mp member with rfl | inside
      · have tag := encodeVarint_length_pos (number * 8 + (Value.len bytes).wireType)
        simp only [encodeField, encodeValue, List.length_append]
        omega
      · have smaller := ih inside
        omega

/-- In an encoding below two gibibytes every length is accepted. -/
theorem valid_of_inRange {fields : List Field} (inRange : ∀ field ∈ fields, field.InRange)
    (small : (encode fields).length < 2 ^ 31) : ∀ field ∈ fields, field.Valid := by
  intro field member
  obtain ⟨positive, number, value⟩ := inRange field member
  refine ⟨positive, number, ?_⟩
  obtain ⟨_, content⟩ := field
  cases content with
  | varint _ => exact value
  | fixed64 _ => exact value
  | len bytes => exact Nat.lt_trans (length_lt_encode_length _ member) small
  | fixed32 _ => exact value

/-! ## Messages -/

variable {M : Type}

/-- Set the fields one by one; setting a field fails when its content does not
parse, and then nothing more is set. -/
def setFields (set : M → Field → M × Bool) : M → List Field → M × Bool
  | message, [] => (message, true)
  | message, field :: fields =>
      if (set message field).2 then setFields set (set message field).1 fields
      else ((set message field).1, false)

/-- Parse a message from its wire form, starting from the given field values.
The verdict is false when a field is malformed or its content does not parse;
the message then holds what was set before. -/
def parseWith (set : M → Field → M × Bool) (message : M) (bytes : Bytes) : M × Bool :=
  let (fields, wellFormed) := decode bytes
  let (message, parsed) := setFields set message fields
  (message, wellFormed && parsed)

theorem setFields_append {set : M → Field → M × Bool} {message middle : M} {first : List Field}
    (done : setFields set message first = (middle, true)) (second : List Field) :
    setFields set message (first ++ second) = setFields set middle second := by
  induction first generalizing message with
  | nil =>
      cases done
      rfl
  | cons field fields ih =>
      simp only [setFields] at done
      split at done
      · rename_i accepted
        simp only [List.cons_append, setFields, if_pos accepted]
        exact ih done
      · cases done

/-- A message rebuilt by setting its fields is read back from their wire form. -/
theorem parseWith_encode {set : M → Field → M × Bool} {initial message : M} {fields : List Field}
    (inRange : ∀ field ∈ fields, field.InRange) (small : (encode fields).length < 2 ^ 31)
    (rebuilt : setFields set initial fields = (message, true)) :
    parseWith set initial (encode fields) = (message, true) := by
  simp only [parseWith, decode_encode (valid_of_inRange inRange small), rebuilt, Bool.and_self]

/-! ## Fields with defaults -/

/-- A scalar field is written unless it holds the default zero. -/
def varintField (number n : ℕ) : List Field := if n = 0 then [] else [⟨number, .varint n⟩]

/-- A string or bytes field is written unless it is empty. -/
def bytesField (number : ℕ) (bytes : Bytes) : List Field :=
  if bytes = [] then [] else [⟨number, .len bytes⟩]

/-- An embedded message is written, length first, when it is present. -/
def messageField (number : ℕ) (content : Option Bytes) : List Field :=
  match content with
  | none => []
  | some bytes => [⟨number, .len bytes⟩]

theorem varintField_inRange {number n : ℕ} (numbered : 0 < number ∧ number < 2 ^ 29)
    (fits : n < 2 ^ 64) : ∀ field ∈ varintField number n, field.InRange := by
  intro field member
  unfold varintField at member
  split at member
  · cases member
  · rw [List.mem_singleton.mp member]
    exact ⟨numbered.1, numbered.2, fits⟩

theorem bytesField_inRange {number : ℕ} (numbered : 0 < number ∧ number < 2 ^ 29)
    (bytes : Bytes) : ∀ field ∈ bytesField number bytes, field.InRange := by
  intro field member
  unfold bytesField at member
  split at member
  · cases member
  · rw [List.mem_singleton.mp member]
    exact ⟨numbered.1, numbered.2, trivial⟩

theorem messageField_inRange {number : ℕ} (numbered : 0 < number ∧ number < 2 ^ 29)
    (content : Option Bytes) : ∀ field ∈ messageField number content, field.InRange := by
  intro field member
  cases content with
  | none => cases member
  | some bytes =>
      rw [List.mem_singleton.mp member]
      exact ⟨numbered.1, numbered.2, trivial⟩

section Rebuild

variable {set : M → Field → M × Bool} {message updated : M} {number : ℕ}

/-- Setting an absent field to its default changes nothing, so the elided
fields do not matter. -/
theorem setFields_bytesField {bytes : Bytes} (elided : bytes = [] → message = updated)
    (written : bytes ≠ [] → set message ⟨number, .len bytes⟩ = (updated, true)) :
    setFields set message (bytesField number bytes) = (updated, true) := by
  by_cases empty : bytes = []
  · rw [bytesField, if_pos empty, setFields, elided empty]
  · simp only [bytesField, if_neg empty, setFields, written empty, if_true]

theorem setFields_varintField {n : ℕ} (elided : n = 0 → message = updated)
    (written : n ≠ 0 → set message ⟨number, .varint n⟩ = (updated, true)) :
    setFields set message (varintField number n) = (updated, true) := by
  by_cases zero : n = 0
  · rw [varintField, if_pos zero, setFields, elided zero]
  · simp only [varintField, if_neg zero, setFields, written zero, if_true]

theorem setFields_messageField {content : Option Bytes}
    (elided : content = none → message = updated)
    (written : ∀ bytes, content = some bytes →
      set message ⟨number, .len bytes⟩ = (updated, true)) :
    setFields set message (messageField number content) = (updated, true) := by
  cases content with
  | none => rw [messageField, setFields, elided rfl]
  | some bytes => simp only [messageField, setFields, written bytes rfl, if_true]

end Rebuild

end Wire
