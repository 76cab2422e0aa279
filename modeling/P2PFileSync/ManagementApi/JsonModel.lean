import Mathlib.Data.List.TakeWhile
import P2PFileSync.Foundations.Bytes

/-!
# JSON replies

`JsonModel` wraps a rapidjson document. Its accessors have preconditions: looking
for a member needs an object, `GetBool` a boolean and `GetString` a string. A
call that breaks one of them is a `Fault`, as are the other ways in which the
code around the model ends a call without returning.

A model is a response when its document has the members `success` and
`responseBody`; its values are then read from the body.
-/

set_option autoImplicit false

namespace P2PFileSync

/-- A JSON value. Members keep their order, and the first of equal names counts. -/
inductive Json where
  | null
  | bool (value : Bool)
  | integer (value : ℤ)
  | double (value : Rat)
  | string (value : Bytes)
  | array (elements : List Json)
  | object (members : List (Bytes × Json))

/-- The members of a JSON object. -/
abbrev Members := List (Bytes × Json)

/-- The ways a call can end other than by returning. -/
inductive Fault where
  /-- A rapidjson accessor was applied to a value of the wrong type. -/
  | accessor
  /-- `value()` was called on an empty optional. -/
  | emptyOptional
  /-- A null pointer was dereferenced. -/
  | nullPointer
  /-- `std::stoi` threw. -/
  | conversion
  /-- An exception of type `std::runtime_error`. -/
  | runtimeError
  /-- `LOG(FATAL)` ended the program. -/
  | fatal
  deriving DecidableEq, Repr

/-- The text of a C string: `std::string(const char*)` stops at the first zero
byte. -/
def cString (text : Bytes) : Bytes := text.takeWhile (· ≠ 0)

namespace Json

/-- `HasMember`. -/
def hasMember (name : Bytes) : Json → Except Fault Bool
  | object members => .ok (members.lookup name).isSome
  | _ => .error .accessor

/-- `operator[]`. -/
def member (name : Bytes) : Json → Except Fault Json
  | object members =>
      match members.lookup name with
      | some node => .ok node
      | none => .error .accessor
  | _ => .error .accessor

/-- `GetBool`. -/
def getBool : Json → Except Fault Bool
  | bool value => .ok value
  | _ => .error .accessor

/-- `std::string(node.GetString())`. -/
def getString : Json → Except Fault Bytes
  | string value => .ok (cString value)
  | _ => .error .accessor

/-- The members from `MemberBegin` to `MemberEnd`. -/
def getMembers : Json → Except Fault Members
  | object members => .ok members
  | _ => .error .accessor

/-- `IsArray() || IsObject()`. -/
def isContainer : Json → Bool
  | array _ => true
  | object _ => true
  | _ => false

end Json

/-- The members of `JsonModel`. -/
structure JsonModel where
  root : Json
  responseFlag : Bool

namespace JsonModel

/-- `JsonModel(char*)` on a buffer, which is absent when the transfer failed.
A text that does not parse leaves an empty object. -/
def ofBuffer (parse : Bytes → Option Json) (buffer : Option Bytes) : Except Fault JsonModel :=
  match buffer with
  | none => .ok ⟨.object [], false⟩
  | some text =>
      match parse (cString text) with
      | none => .ok ⟨.object [], false⟩
      | some root => do
          let success ← root.hasMember (utf8 "success")
          let responseFlag ← if success then root.hasMember (utf8 "responseBody") else pure false
          return ⟨root, responseFlag⟩

/-- `success`. -/
def success (model : JsonModel) : Except Fault Bool :=
  if model.responseFlag then do
    let node ← model.root.member (utf8 "success")
    node.getBool
  else pure false

/-- The node values are read from. -/
def valueNode (model : JsonModel) : Except Fault Json :=
  if model.responseFlag then model.root.member (utf8 "responseBody") else pure model.root

/-- `message`. -/
def message (model : JsonModel) : Except Fault Bytes := do
  let node ← model.valueNode
  if ← node.hasMember (utf8 "message") then
    (← node.member (utf8 "message")).getString
  else pure []

/-- `get_value<std::string>`. -/
def getValue (model : JsonModel) (key : Bytes) : Except Fault (Option Bytes) := do
  let node ← model.valueNode
  if ← node.hasMember key then
    return some (← (← node.member key).getString)
  else return none

/-- `get_value<std::string>(key).value()`. -/
def requireValue (model : JsonModel) (key : Bytes) : Except Fault Bytes := do
  match ← model.getValue key with
  | some value => return value
  | none => throw .emptyOptional

/-- `std::map::insert`: a name already in the map keeps its value, and the
entries stay in the order of their names. -/
def mapInsert (entries : List (Bytes × Bytes)) (entry : Bytes × Bytes) : List (Bytes × Bytes) :=
  if entry.1 ∈ entries.map Prod.fst then entries
  else entries.takeWhile (·.1 < entry.1) ++ entry :: entries.dropWhile (·.1 < entry.1)

/-- `add_value<std::string>`: whether the value was added, and the model
afterwards. -/
def addValue (model : JsonModel) (key value : Bytes) : Except Fault (Bool × JsonModel) := do
  let node ← model.valueNode
  if ← node.hasMember key then return (false, model)
  else
    let members ← model.root.getMembers
    return (true, { model with root := .object (members ++ [(key, .string value)]) })

/-- The loop of `get_map<std::string>`; it ends at the first array or object. -/
def collectMap : List (Bytes × Bytes) → Members → Except Fault (List (Bytes × Bytes))
  | entries, [] => .ok entries
  | entries, (name, node) :: members =>
      if node.isContainer then .ok entries
      else do
        let value ← node.getString
        collectMap (mapInsert entries (cString name, value)) members

/-- `get_map<std::string>`. -/
def getMap (model : JsonModel) (key : Bytes) : Except Fault (List (Bytes × Bytes)) := do
  let node ← model.valueNode
  if ← node.hasMember key then
    collectMap [] (← (← node.member key).getMembers)
  else return []

/-! ## Where a model reads its values -/

/-- The document a buffer holds: what it parses to, or an empty object. -/
def document (parse : Bytes → Option Json) (buffer : Option Bytes) : Json :=
  (buffer.bind fun text => parse (cString text)).getD (.object [])

/-- The members make a response. -/
def flagged (members : Members) : Bool :=
  (members.lookup (utf8 "success")).isSome && (members.lookup (utf8 "responseBody")).isSome

/-- The model of a document with the given members. -/
def ofMembers (members : Members) : JsonModel := ⟨.object members, flagged members⟩

theorem ofBuffer_of_object {parse : Bytes → Option Json} {buffer : Option Bytes}
    {members : Members} (content : document parse buffer = .object members) :
    ofBuffer parse buffer = .ok (ofMembers members) := by
  have plain : (Except.ok ⟨.object [], false⟩ : Except Fault JsonModel) =
      .ok (ofMembers []) := rfl
  cases buffer with
  | none =>
      cases content
      exact plain
  | some text =>
      rw [ofBuffer]
      rw [document, Option.bind_some] at content
      cases parsed : parse (cString text) with
      | none =>
          rw [parsed] at content
          cases content
          exact plain
      | some root =>
          rw [parsed, Option.getD_some] at content
          subst content
          cases found : members.lookup (utf8 "success") with
          | none =>
              simp [Json.hasMember, ofMembers, flagged, found, bind, Except.bind, pure, Except.pure]
          | some node =>
              simp [Json.hasMember, ofMembers, flagged, found, bind, Except.bind, pure, Except.pure]

/-- A document that is not an object breaks the precondition of `HasMember`. -/
theorem ofBuffer_of_not_object {parse : Bytes → Option Json} {buffer : Option Bytes}
    (other : ∀ members, document parse buffer ≠ .object members) :
    ofBuffer parse buffer = .error .accessor := by
  cases buffer with
  | none => exact absurd rfl (other [])
  | some text =>
      rw [ofBuffer]
      rw [document, Option.bind_some] at other
      cases parsed : parse (cString text) with
      | none =>
          rw [parsed] at other
          exact absurd rfl (other [])
      | some root =>
          rw [parsed, Option.getD_some] at other
          cases root with
          | object members => exact absurd rfl (other members)
          | null | bool | integer | double | string | array => rfl

section OfMembers

variable {members : Members}

theorem success_plain (plain : flagged members = false) :
    (ofMembers members).success = .ok false := by
  simp only [success, ofMembers, plain, Bool.false_eq_true, if_false]
  rfl

theorem valueNode_plain (plain : flagged members = false) :
    (ofMembers members).valueNode = .ok (.object members) := by
  simp only [valueNode, ofMembers, plain, Bool.false_eq_true, if_false]
  rfl

variable {flag body : Json} (hasFlag : members.lookup (utf8 "success") = some flag)
  (hasBody : members.lookup (utf8 "responseBody") = some body)
include hasFlag hasBody

theorem flagged_of_lookup : flagged members = true := by
  rw [flagged, hasFlag, hasBody]
  rfl

theorem success_flagged : (ofMembers members).success = flag.getBool := by
  simp only [success, ofMembers, flagged_of_lookup hasFlag hasBody, if_true, Json.member, hasFlag]
  rfl

theorem valueNode_flagged : (ofMembers members).valueNode = .ok body := by
  simp only [valueNode, ofMembers, flagged_of_lookup hasFlag hasBody, if_true, Json.member, hasBody]

end OfMembers

section Object

variable {model : JsonModel} {members : Members}

theorem message_of_object (node : model.valueNode = .ok (.object members)) :
    model.message =
      match members.lookup (utf8 "message") with
      | none => .ok []
      | some value => value.getString := by
  rw [message, node]
  cases found : members.lookup (utf8 "message") <;>
    simp [Json.hasMember, Json.member, found, bind, Except.bind, pure, Except.pure]

theorem requireValue_of_object (node : model.valueNode = .ok (.object members)) (key : Bytes) :
    model.requireValue key =
      match members.lookup key with
      | none => .error .emptyOptional
      | some value => value.getString := by
  rw [requireValue, getValue, node]
  cases found : members.lookup key with
  | none =>
      simp [Json.hasMember, found, bind, Except.bind, pure, Except.pure, throw, throwThe,
        MonadExceptOf.throw]
  | some value =>
      cases text : value.getString <;>
        simp [Json.hasMember, Json.member, found, text, bind, Except.bind, pure, Except.pure]

theorem getMap_of_object (node : model.valueNode = .ok (.object members)) (key : Bytes) :
    model.getMap key =
      match members.lookup key with
      | none => .ok []
      | some value => value.getMembers >>= collectMap [] := by
  rw [getMap, node]
  cases found : members.lookup key <;>
    simp [Json.hasMember, Json.member, found, bind, Except.bind, pure, Except.pure]

end Object

/-- A body that is not an object breaks the precondition of `HasMember`. -/
theorem hasMember_of_not_object {node : Json} (other : ∀ members, node ≠ .object members)
    (name : Bytes) : node.hasMember name = .error .accessor := by
  cases node with
  | object members => exact absurd rfl (other members)
  | null | bool | integer | double | string | array => rfl

section NotObject

variable {model : JsonModel}
  {other : Json} (node : model.valueNode = .ok other)
  (notObject : ∀ members, other ≠ .object members)
include node notObject

theorem message_of_not_object : model.message = .error .accessor := by
  rw [message, node]
  change other.hasMember _ >>= _ = _
  rw [hasMember_of_not_object notObject]
  rfl

theorem requireValue_of_not_object (key : Bytes) : model.requireValue key = .error .accessor := by
  rw [requireValue, getValue, node]
  change (other.hasMember _ >>= _) >>= _ = _
  rw [hasMember_of_not_object notObject]
  rfl

theorem getMap_of_not_object (key : Bytes) : model.getMap key = .error .accessor := by
  rw [getMap, node]
  change other.hasMember _ >>= _ = _
  rw [hasMember_of_not_object notObject]
  rfl

end NotObject

/-- A value is added to a document that is no response unless its key is there. -/
theorem addValue_plain (members : Members) (key value : Bytes) :
    addValue ⟨.object members, false⟩ key value =
      if (members.lookup key).isSome then .ok (false, ⟨.object members, false⟩)
      else .ok (true, ⟨.object (members ++ [(key, .string value)]), false⟩) := by
  cases found : members.lookup key <;>
    simp [addValue, valueNode, Json.hasMember, Json.getMembers, found, bind, Except.bind, pure,
      Except.pure]

theorem cString_cString (text : Bytes) : cString (cString text) = cString text := by
  rw [cString, cString, List.takeWhile_idem]

/-- A value that was read holds no zero byte. -/
theorem cString_of_requireValue {model : JsonModel} {key value : Bytes}
    (read : model.requireValue key = .ok value) : cString value = value := by
  cases isNode : model.valueNode with
  | error fault =>
      rw [requireValue, getValue, isNode] at read
      cases read
  | ok node =>
      by_cases object : ∃ members, node = .object members
      · obtain ⟨members, rfl⟩ := object
        rw [requireValue_of_object isNode] at read
        cases found : members.lookup key with
        | none =>
            rw [found] at read
            cases read
        | some member =>
            rw [found] at read
            cases member with
            | string text =>
                cases read
                exact cString_cString text
            | null | bool | integer | double | array | object => cases read
      · rw [requireValue_of_not_object isNode fun members same => object ⟨members, same⟩] at read
        cases read

end JsonModel

end P2PFileSync
