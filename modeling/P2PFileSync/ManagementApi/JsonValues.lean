import P2PFileSync.ManagementApi.JsonModel

/-!
# Values and arrays written to a document

`add_value` looks for its key where `get_value` reads, in the root of a request or
in the body of a response, but it always adds to the root. So what it adds to a
response is never found again. In a request it is, except for a string with a zero
byte, which `get_value` reads as a C string.

`add_array` adds its array and reaches its end without a `return`, and
`get_array<std::string>` calls `GetString` on the array in place of the item.

What rapidjson does for a type of values is a parameter. For an arithmetic type it
comes with the law that a value is read as it was written.

Main results: `lawful_iff` and `array_never_written`.
-/

set_option autoImplicit false

namespace P2PFileSync

/-! ## Types of values -/

/-- How rapidjson writes and reads a type of values. -/
structure ValueType (T : Type) where
  write : T → Json
  read : Json → Except Fault T

/-- An arithmetic type, with `Set` and `Get`. -/
structure ArithmeticType (T : Type) extends ValueType T where
  read_write : ∀ val, read (write val) = .ok val

/-- `std::string`, with `SetString` and `GetString`. -/
def ValueType.string : ValueType Bytes where
  write := .string
  read := Json.getString

/-- An integer of 32 bits, as `SetInt` and `GetInt` treat it. -/
def ArithmeticType.int : ArithmeticType Int32 where
  write val := .integer val.toInt
  read
    | .integer value =>
        if value = (Int32.ofInt value).toInt then .ok (Int32.ofInt value) else .error .accessor
    | _ => .error .accessor
  read_write val := by simp only [Int32.ofInt_toInt, if_true]

namespace JsonModel

/-! ## The model -/

section Model

variable {T : Type} (type : ValueType T) (model : JsonModel) (key : Bytes)

/-- `get_value` of a supported type. -/
def getValueOf : Except Fault (Option T) := do
  let node ← model.valueNode
  if ← node.hasMember key then
    return some (← type.read (← node.member key))
  else return none

/-- `add_value` of a supported type: whether the value was added, and the model
afterwards. -/
def addValueOf (val : T) : Except Fault (Bool × JsonModel) := do
  let node ← model.valueNode
  if ← node.hasMember key then return (false, model)
  else
    let members ← model.root.getMembers
    return (true, { model with root := .object (members ++ [(key, type.write val)]) })

/-- `add_array` of strings: what it returns, and the model afterwards. Behind the
loop there is no `return`; then what it returns is undefined (`none`). -/
def addArray (array : List Bytes) : Except Fault (Option Bool × JsonModel) := do
  let node ← model.valueNode
  if ← node.hasMember key then return (some false, model)
  else
    let members ← model.root.getMembers
    return (none, { model with root := .object (members ++ [(key, .array (array.map .string))]) })

/-- `get_array<std::string>`. For each item it reads the node. -/
def getArray : Except Fault (List Bytes) := do
  let node ← model.valueNode
  if ← node.hasMember key then
    let node ← node.member key
    match node with
    | .array items => items.mapM fun _ => node.getString
    | _ => return []
  else return []

end Model

theorem getValueOf_string : getValueOf .string = getValue := rfl

theorem addValueOf_string : addValueOf .string = addValue := rfl

/-- A call of `add_value` with an arithmetic value or a string. -/
inductive AddCall where
  | arithmetic (T : Type) (type : ArithmeticType T) (key : Bytes) (val : T)
  | string (key val : Bytes)

namespace AddCall

def key : AddCall → Bytes
  | arithmetic _ _ key _ => key
  | string key _ => key

def valueType : AddCall → Type
  | arithmetic T _ _ _ => T
  | string _ _ => Bytes

def type : (call : AddCall) → ValueType call.valueType
  | arithmetic _ type _ _ => type.toValueType
  | string _ _ => .string

def val : (call : AddCall) → call.valueType
  | arithmetic _ _ _ val => val
  | string _ val => val

/-- The value is no string with a zero byte. -/
def ZeroFree : AddCall → Prop
  | arithmetic _ _ _ _ => True
  | string _ val => 0 ∉ val

end AddCall

/-! ## The law -/

/-- The document is an object. Values are read from these members: of the document,
or of the body of a response. -/
inductive HasNode : JsonModel → Members → Prop
  | request (members : Members) : HasNode ⟨.object members, false⟩ members
  | response {members body : Members} (success : (members.lookup (utf8 "success")).isSome)
      (responseBody : members.lookup (utf8 "responseBody") = some (.object body)) :
      HasNode ⟨.object members, true⟩ body

/-- A call returns true exactly when nothing was found under its key; and when it
did, its value is found there, and under every other key what was found before. -/
structure AddsValue (model : JsonModel) (call : AddCall) (added : Bool) (next : JsonModel) :
    Prop where
  added_iff : added = true ↔ model.getValueOf call.type call.key = .ok none
  found : added = true → next.getValueOf call.type call.key = .ok (some call.val)
  others : added = true → ∀ other, other ≠ call.key → ∀ (U : Type) (type : ValueType U),
    next.getValueOf type other = model.getValueOf type other

/-- Every call of the sequence returns and keeps the law, in the model that the
ones before it left. -/
def Lawful : JsonModel → List AddCall → Prop
  | _, [] => True
  | model, call :: calls => ∃ added next,
      model.addValueOf call.type call.key call.val = .ok (added, next) ∧
        AddsValue model call added next ∧ Lawful next calls

/-- A call for a key that is not there, and was not in an earlier call, is made on
a request and its value holds no zero byte. -/
def Recoverable (responseFlag : Bool) : List Bytes → List AddCall → Prop
  | _, [] => True
  | keys, call :: calls =>
      (call.key ∉ keys → responseFlag = false ∧ call.ZeroFree) ∧
        Recoverable responseFlag (call.key :: keys) calls

/-! ## Reading and adding one value -/

theorem mem_names_iff {β : Type} {members : List (Bytes × β)} {key : Bytes} :
    key ∈ members.map Prod.fst ↔ members.lookup key ≠ none := by
  rw [← Option.isSome_iff_ne_none, List.lookup_isSome_iff, List.mem_map]
  simp only [beq_iff_eq, eq_comm (a := key)]

theorem cString_eq_self_iff {text : Bytes} : cString text = text ↔ 0 ∉ text := by
  rw [cString, List.takeWhile_eq_self_iff]
  simp only [ne_eq, decide_not, Bool.not_eq_true', decide_eq_false_iff_not]
  constructor
  · exact fun all zero => all 0 zero rfl
  · rintro zeroFree c member rfl
    exact zeroFree member

/-- What is written is read again when it is no string with a zero byte. -/
theorem AddCall.read_write_iff (call : AddCall) :
    call.type.read (call.type.write call.val) = .ok call.val ↔ call.ZeroFree := by
  cases call with
  | arithmetic T type key val => exact iff_of_true (type.read_write val) trivial
  | string key val =>
      change Except.ok (cString val) = .ok val ↔ 0 ∉ val
      rw [Except.ok.injEq, cString_eq_self_iff]

section OneCall

variable {T : Type} {type : ValueType T} {model : JsonModel} {members : Members}

theorem getValueOf_of_object (node : model.valueNode = .ok (.object members)) (key : Bytes) :
    model.getValueOf type key =
      match members.lookup key with
      | none => .ok none
      | some value => some <$> type.read value := by
  rw [getValueOf, node]
  cases found : members.lookup key with
  | none => simp [Json.hasMember, found, bind, Except.bind, pure, Except.pure]
  | some value =>
      cases read : type.read value <;>
        simp [Json.hasMember, Json.member, found, read, bind, Except.bind, pure, Except.pure,
          Functor.map, Except.map]

/-- Nothing is found exactly where there is no member. -/
theorem getValueOf_eq_none_iff (node : model.valueNode = .ok (.object members)) (key : Bytes) :
    model.getValueOf type key = .ok none ↔ members.lookup key = none := by
  rw [getValueOf_of_object node]
  cases members.lookup key with
  | none => exact iff_of_true rfl rfl
  | some value =>
      refine iff_of_false ?_ (by rintro ⟨⟩)
      change ¬ some <$> type.read value = .ok none
      cases type.read value with
      | error fault => rintro ⟨⟩
      | ok val => rintro ⟨⟩

theorem addValueOf_of_present (node : model.valueNode = .ok (.object members)) {key : Bytes}
    (present : members.lookup key ≠ none) (val : T) :
    model.addValueOf type key val = .ok (false, model) := by
  obtain ⟨value, found⟩ := Option.ne_none_iff_exists'.mp present
  rw [addValueOf, node]
  simp [Json.hasMember, found, bind, Except.bind, pure, Except.pure]

/-- A value whose key is not found is added to the root. -/
theorem addValueOf_of_absent {root : Members} {responseFlag : Bool}
    (node : valueNode ⟨.object root, responseFlag⟩ = .ok (.object members)) {key : Bytes}
    (absent : members.lookup key = none) (val : T) :
    addValueOf type ⟨.object root, responseFlag⟩ key val =
      .ok (true, ⟨.object (root ++ [(key, type.write val)]), responseFlag⟩) := by
  rw [addValueOf, node]
  simp [Json.hasMember, Json.getMembers, absent, bind, Except.bind, pure, Except.pure]

end OneCall

/-! ## One call on each kind of model -/

theorem HasNode.valueNode_eq {model : JsonModel} {node : Members} (hasNode : HasNode model node) :
    model.valueNode = .ok (.object node) := by
  cases hasNode with
  | request => rfl
  | response success responseBody =>
      simp only [valueNode, Json.member, responseBody, if_true]

/-- A call for a key that is there. -/
theorem addsValue_of_present {model : JsonModel} {node : Members}
    (isNode : model.valueNode = .ok (.object node)) {call : AddCall}
    (present : node.lookup call.key ≠ none) : AddsValue model call false model where
  added_iff := by
    rw [getValueOf_eq_none_iff isNode]
    exact iff_of_false Bool.false_ne_true present
  found := fun impossible => absurd impossible Bool.false_ne_true
  others := fun impossible => absurd impossible Bool.false_ne_true

/-- A call that adds to a request. -/
theorem addsValue_request_iff {members : Members} {call : AddCall}
    (absent : members.lookup call.key = none) :
    AddsValue ⟨.object members, false⟩ call true
        ⟨.object (members ++ [(call.key, call.type.write call.val)]), false⟩ ↔ call.ZeroFree := by
  have before : valueNode ⟨.object members, false⟩ = .ok (.object members) := rfl
  have after : valueNode ⟨.object (members ++ [(call.key, call.type.write call.val)]), false⟩ =
      .ok (.object (members ++ [(call.key, call.type.write call.val)])) := rfl
  have read : getValueOf call.type
      ⟨.object (members ++ [(call.key, call.type.write call.val)]), false⟩ call.key =
        some <$> call.type.read (call.type.write call.val) := by
    rw [getValueOf_of_object after, List.lookup_append, absent, Option.none_or,
      List.lookup_cons_self]
  rw [← call.read_write_iff]
  constructor
  · intro adds
    have found := adds.found rfl
    rw [read] at found
    cases value : call.type.read (call.type.write call.val) with
    | error fault =>
        rw [value] at found
        cases found
    | ok val =>
        rw [value] at found
        cases found
        rfl
  · intro recovered
    refine ⟨iff_of_true rfl ((getValueOf_eq_none_iff before _).mpr absent), fun _ => ?_, ?_⟩
    · rw [read, recovered]
      rfl
    · intro _ other different U type
      rw [getValueOf_of_object after, getValueOf_of_object before, List.lookup_append,
        lookup_entry_cons, if_neg different, List.lookup_nil, Option.or_none]

/-- A call that adds to a response: its value is not found afterwards. -/
theorem not_addsValue_response {members body : Members} {call : AddCall}
    (responseBody : members.lookup (utf8 "responseBody") = some (.object body))
    (absent : body.lookup call.key = none) :
    ¬ AddsValue ⟨.object members, true⟩ call true
        ⟨.object (members ++ [(call.key, call.type.write call.val)]), true⟩ := by
  intro adds
  have after : valueNode ⟨.object (members ++ [(call.key, call.type.write call.val)]), true⟩ =
      .ok (.object body) := by
    simp only [valueNode, Json.member, List.lookup_append, responseBody, Option.some_or, if_true]
  have found := adds.found rfl
  rw [(getValueOf_eq_none_iff after call.key).mpr absent] at found
  cases found

/-! ## Sequences of calls -/

theorem recoverable_congr {responseFlag : Bool} {keys others : List Bytes}
    (same : ∀ key, key ∈ keys ↔ key ∈ others) (calls : List AddCall) :
    Recoverable responseFlag keys calls ↔ Recoverable responseFlag others calls := by
  induction calls generalizing keys others with
  | nil => exact Iff.rfl
  | cons call calls ih =>
      have later : ∀ key, key ∈ call.key :: keys ↔ key ∈ call.key :: others := by
        intro key
        rw [List.mem_cons, List.mem_cons, same key]
      rw [Recoverable, Recoverable, same call.key, ih later]

theorem lawful_cons_iff {model next : JsonModel} (call : AddCall) {added : Bool}
    (adds : model.addValueOf call.type call.key call.val = .ok (added, next))
    (calls : List AddCall) :
    Lawful model (call :: calls) ↔ AddsValue model call added next ∧ Lawful next calls := by
  rw [Lawful]
  constructor
  · rintro ⟨_, _, same, kept, rest⟩
    rw [adds] at same
    cases same
    exact ⟨kept, rest⟩
  · rintro ⟨kept, rest⟩
    exact ⟨added, next, adds, kept, rest⟩

/-- **When `add_value` and `get_value` agree.** On every request and response, every
call of a sequence keeps the law exactly when each call whose key is neither there
nor in an earlier call is made on a request with a value that holds no zero
byte. -/
theorem lawful_iff {model : JsonModel} {node : Members} (hasNode : HasNode model node)
    (calls : List AddCall) :
    Lawful model calls ↔ Recoverable model.responseFlag (node.map Prod.fst) calls := by
  induction calls generalizing model node with
  | nil => exact Iff.rfl
  | cons call calls ih =>
      have isNode := hasNode.valueNode_eq
      rw [Recoverable]
      by_cases present : call.key ∈ node.map Prod.fst
      · have found := mem_names_iff.mp present
        have known : ∀ key, key ∈ call.key :: node.map Prod.fst ↔ key ∈ node.map Prod.fst := by
          intro key
          rw [List.mem_cons, or_iff_right_of_imp]
          rintro rfl
          exact present
        rw [lawful_cons_iff call (addValueOf_of_present isNode found _), recoverable_congr known,
          ← ih hasNode]
        exact and_congr_left' (iff_of_true (addsValue_of_present isNode found)
          fun absent => absurd present absent)
      · have absent : node.lookup call.key = none := by
          by_contra found
          exact present (mem_names_iff.mpr found)
        rw [imp_iff_right present]
        cases hasNode with
        | request =>
            have known : ∀ key,
                key ∈ (node ++ [(call.key, call.type.write call.val)]).map Prod.fst ↔
                  key ∈ call.key :: node.map Prod.fst := by
              intro key
              rw [List.map_append, List.mem_append, List.mem_cons, or_comm]
              exact or_congr_left List.mem_singleton
            have next := ih (.request (node ++ [(call.key, call.type.write call.val)]))
            rw [recoverable_congr known] at next
            rw [lawful_cons_iff call (addValueOf_of_absent isNode absent _), next,
              addsValue_request_iff absent, and_iff_right rfl]
        | response success responseBody =>
            rw [lawful_cons_iff call (addValueOf_of_absent isNode absent _)]
            refine iff_of_false ?_ ?_
            · exact fun lawful => not_addsValue_response responseBody absent lawful.1
            · rintro ⟨⟨impossible, -⟩, -⟩
              cases impossible

/-- A response with an empty body. -/
def emptyResponse : JsonModel :=
  ⟨.object [(utf8 "success", .bool true), (utf8 "responseBody", .object [])], true⟩

theorem hasNode_emptyResponse : HasNode emptyResponse [] := .response rfl rfl

/-- A number and a text added to an empty request, and the number once more. -/
theorem lawful_int_string :
    Lawful ⟨.object [], false⟩ [.arithmetic Int32 .int (utf8 "size") 7,
      .string (utf8 "name") (utf8 "file"), .arithmetic Int32 .int (utf8 "size") 8] := by
  refine (lawful_iff (.request []) _).mpr ⟨?_, ?_, ?_, trivial⟩
  · exact fun _ => ⟨rfl, trivial⟩
  · exact fun _ => ⟨rfl, by show (0 : UInt8) ∉ utf8 "file"; decide⟩
  · exact fun _ => ⟨rfl, trivial⟩

/-- A value added to a response, and a string with a zero byte added to a
request. -/
theorem added_values_not_found :
    ¬ Lawful emptyResponse [.string (utf8 "name") (utf8 "file")] ∧
      ¬ Lawful ⟨.object [], false⟩ [.string (utf8 "name") [102, 0, 105]] := by
  constructor
  · intro lawful
    have kept := (lawful_cons_iff (.string (utf8 "name") (utf8 "file"))
      (addValueOf_of_absent hasNode_emptyResponse.valueNode_eq rfl _) []).mp lawful
    exact not_addsValue_response rfl rfl kept.1
  · intro lawful
    have kept := (lawful_cons_iff (.string (utf8 "name") [102, 0, 105])
      (addValueOf_of_absent (HasNode.request []).valueNode_eq rfl _) []).mp lawful
    exact (addsValue_request_iff rfl).mp kept.1 (by decide)

/-! ## Arrays -/

theorem addArray_of_absent {members : Members} {key : Bytes} (absent : members.lookup key = none)
    (array : List Bytes) :
    addArray ⟨.object members, false⟩ key array =
      .ok (none, ⟨.object (members ++ [(key, .array (array.map .string))]), false⟩) := by
  simp [addArray, valueNode, Json.hasMember, Json.getMembers, absent, bind, Except.bind, pure,
    Except.pure]

theorem getArray_of_array {model : JsonModel} {members : Members} {key : Bytes}
    {items : List Json} (node : model.valueNode = .ok (.object members))
    (found : members.lookup key = some (.array items)) :
    model.getArray key = items.mapM fun _ => .error .accessor := by
  rw [getArray, node]
  simp [Json.hasMember, Json.member, found, bind, Except.bind, Json.getString]

/-- The array is read as a string once for each of its items. -/
theorem getArray_of_added {members : Members} {key : Bytes} (absent : members.lookup key = none)
    (array : List Bytes) :
    getArray ⟨.object (members ++ [(key, .array (array.map .string))]), false⟩ key =
      if array = [] then .ok [] else .error .accessor := by
  have found : (members ++ [(key, Json.array (array.map .string))]).lookup key =
      some (.array (array.map .string)) := by
    rw [List.lookup_append, absent, Option.none_or, List.lookup_cons_self]
  have node : valueNode ⟨.object (members ++ [(key, .array (array.map .string))]), false⟩ =
      .ok (.object (members ++ [(key, .array (array.map .string))])) := rfl
  rw [getArray_of_array node found]
  cases array with
  | nil => rfl
  | cons item array => rfl

/-- `add_array` returns true, and `get_array` gives the array again. -/
def KeepsArray (model : JsonModel) (key : Bytes) (array : List Bytes) : Prop :=
  ∃ next, model.addArray key array = .ok (some true, next) ∧ next.getArray key = .ok array

/-- **No array is written and read again.** On every request and for every new key
`add_array` returns nothing defined, and reading what it has added is a fault unless
the array is empty. -/
theorem array_never_written {members : Members} {key : Bytes}
    (absent : members.lookup key = none) (array : List Bytes) :
    ¬ KeepsArray ⟨.object members, false⟩ key array ∧
      ∃ next, addArray ⟨.object members, false⟩ key array = .ok (none, next) ∧
        next.getArray key = if array = [] then .ok [] else .error .accessor := by
  have added := addArray_of_absent absent array
  refine ⟨?_, _, added, getArray_of_added absent array⟩
  rintro ⟨next, returned, -⟩
  rw [added] at returned
  cases returned

/-- The address of a device, written to an empty configuration. -/
theorem device_ip_never_written :
    ¬ KeepsArray ⟨.object [], false⟩ (utf8 "device_ip") [utf8 "10.0.0.1"] :=
  (array_never_written rfl [utf8 "10.0.0.1"]).1

theorem device_ip_not_kept :
    ¬ ∀ array, KeepsArray ⟨.object [], false⟩ (utf8 "device_ip") array := by
  intro all
  obtain ⟨next, returned, -⟩ := all [utf8 "10.0.0.1"]
  rw [addArray_of_absent rfl] at returned
  cases returned

end JsonModel

end P2PFileSync
