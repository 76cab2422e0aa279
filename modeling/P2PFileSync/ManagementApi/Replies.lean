import P2PFileSync.ManagementApi.JsonModel
import P2PFileSync.Utils.IPAddress

/-!
# The replies of the management server

The reply to a login, to a request for the user's details and to a request for
the peer list is an untrusted text. Nothing but the members `success` and
`responseBody` is checked before values are read from it, so the calls return on
replies of the expected shape only. `replies_return_iff` gives the shapes.

The parser of rapidjson is a parameter, from the text to the document or to
nothing.
-/

set_option autoImplicit false

namespace P2PFileSync

open JsonModel

variable (parse : Bytes → Option Json)

/-! ## The model -/

/-- `UserLoginResponse::user_email`, `UserDetailResponseImpl::email`. -/
def JsonModel.email (response : JsonModel) : Except Fault Bytes :=
  response.requireValue (utf8 "email")

/-- `UserDetailResponseImpl::name`. -/
def JsonModel.name (response : JsonModel) : Except Fault Bytes :=
  response.requireValue (utf8 "username")

/-- `UserContextImpl::login`: its answer, and whether the user is logged in
afterwards. -/
def login (loggedIn : Bool) (email : Bytes) (reply : Option Bytes) :
    Except Fault ((Bool × Bytes) × Bool) :=
  if loggedIn then return ((true, utf8 "user already login"), true)
  else do
    let response ← ofBuffer parse reply
    if ← response.success then
      if (← response.email) = email then return ((true, utf8 "login success"), true)
      else return ((false, ← response.message), false)
    else return ((false, ← response.message), false)

/-- `UserContextImpl::user_detail`; `none` is a null pointer. -/
def userDetail (loggedIn : Bool) (reply : Option Bytes) : Except Fault (Option JsonModel) :=
  if loggedIn then do
    let response ← ofBuffer parse reply
    if ← response.success then return some response else return none
  else return none

/-- A logged-in user's `user_detail`, and the accessors `name` and `email` of what
it returns. -/
def userInfo (reply : Option Bytes) : Except Fault (Bytes × Bytes) := do
  match ← userDetail parse true reply with
  | none => throw .nullPointer
  | some info => return (← info.name, ← info.email)

/-- `DeviceContextImpl::peer_list`; `none` is a null pointer. -/
def peerList (reply : Option Bytes) : Except Fault (Option JsonModel) := do
  let response ← ofBuffer parse reply
  if ← response.success then return some response
  else
    let _ ← response.message
    return none

/-- `PeerListResponseImpl::peer_list`. -/
def JsonModel.peers (response : JsonModel) : Except Fault (List (Bytes × Bytes)) :=
  response.getMap (utf8 "peers")

/-- The address a hello message goes to. -/
def helloAddress (patterns : AddressPatterns) (ip : Bytes × Bytes) :
    Except Fault (Bytes × IPAddress) :=
  match IPAddress.ofString patterns ip.2 with
  | none => .error .conversion
  | some address => .ok (ip.1, address)

/-- The loop of `P2PServerContext::start`: the peers that are sent a hello
message. -/
def startPeers (patterns : AddressPatterns) (reply : Option Bytes) :
    Except Fault (List (Bytes × IPAddress)) := do
  match ← peerList parse reply with
  | none => throw .nullPointer
  | some response => (← response.peers).mapM (helloAddress patterns)

/-! ## Shapes of replies -/

/-- The call returned. -/
def Returns {α : Type} (result : Except Fault α) : Prop := ∃ value, result = .ok value

/-- No accessor was misused, no empty optional unwrapped and no null pointer
dereferenced: what is left is a text that is not converted to a number. -/
def Sound {α : Type} (result : Except Fault α) : Prop :=
  ∀ fault, result = .error fault → fault = .conversion

/-- The success flag of a response is a boolean and its body an object, with the
one property after a success and with the other after a failure. -/
def JudgedBody (onSuccess onFailure : Members → Prop) : Json → Json → Prop
  | .bool success, .object body => if success then onSuccess body else onFailure body
  | _, _ => False

/-- The document is an object, judged by its flag and its body if it is a response
and as a failure otherwise. -/
def Shaped (onSuccess onFailure : Members → Prop) : Json → Prop
  | .object members =>
      match members.lookup (utf8 "success"), members.lookup (utf8 "responseBody") with
      | some flag, some body => JudgedBody onSuccess onFailure flag body
      | _, _ => onFailure members
  | _ => False

/-- The member is a string. -/
def StringMember (key : Bytes) (members : Members) : Prop :=
  ∃ text, members.lookup key = some (.string text)

/-- The member, if it is there, is a string. -/
def OptionalString (key : Bytes) (members : Members) : Prop :=
  ∀ node, members.lookup key = some node → ∃ text, node = .string text

/-- Replies to a login. After a success the message is read only if the email is
another one. -/
def LoginShape (email : Bytes) : Json → Prop :=
  Shaped
    (fun body => ∃ text, body.lookup (utf8 "email") = some (.string text) ∧
      (cString text = email ∨ OptionalString (utf8 "message") body))
    (OptionalString (utf8 "message"))

/-- Replies to a request for the user's details. -/
def InfoShape : Json → Prop :=
  Shaped (fun body => StringMember (utf8 "username") body ∧ StringMember (utf8 "email") body)
    fun _ => False

/-- Every member before the first array or object is a string. -/
def StringsFirst (members : Members) : Prop :=
  ∀ member ∈ members.takeWhile (!·.2.isContainer), ∃ text, member.2 = .string text

/-- Replies to a request for the peer list. -/
def PeersShape : Json → Prop :=
  Shaped
    (fun body => ∀ node, body.lookup (utf8 "peers") = some node →
      ∃ peers, node = .object peers ∧ StringsFirst peers)
    fun _ => False

/-! ## Calls that look at the success flag first -/

variable {parse}

/-- A call that goes on in one way after a success and in another otherwise is
judged by the shape of the reply, when each way is judged by the members it
reads. -/
theorem judged_iff {α : Type} {Good : Except Fault α → Prop} {reply : Option Bytes}
    (bad : ¬ Good (.error .accessor)) {onTrue onFalse : JsonModel → Except Fault α}
    {onSuccess onFailure : Members → Prop}
    (success : ∀ model members, model.valueNode = .ok (.object members) →
      (Good (onTrue model) ↔ onSuccess members))
    (failure : ∀ model members, model.valueNode = .ok (.object members) →
      (Good (onFalse model) ↔ onFailure members))
    (success_other : ∀ model node, model.valueNode = .ok node →
      (∀ members, node ≠ .object members) → ¬ Good (onTrue model))
    (failure_other : ∀ model node, model.valueNode = .ok node →
      (∀ members, node ≠ .object members) → ¬ Good (onFalse model)) :
    Good (do
        let model ← ofBuffer parse reply
        if ← model.success then onTrue model else onFalse model) ↔
      Shaped onSuccess onFailure (document parse reply) := by
  by_cases object : ∃ members, document parse reply = .object members
  · obtain ⟨members, content⟩ := object
    rw [ofBuffer_of_object content, content, Shaped]
    change Good ((ofMembers members).success >>= fun accepted =>
      if accepted then onTrue (ofMembers members) else onFalse (ofMembers members)) ↔ _
    cases hasFlag : members.lookup (utf8 "success") with
    | none =>
        have plain : flagged members = false := by rw [flagged, hasFlag]; rfl
        rw [success_plain plain]
        exact failure _ _ (valueNode_plain plain)
    | some flag =>
        cases hasBody : members.lookup (utf8 "responseBody") with
        | none =>
            have plain : flagged members = false := by rw [flagged, hasFlag, hasBody]; rfl
            rw [success_plain plain]
            exact failure _ _ (valueNode_plain plain)
        | some body =>
            rw [success_flagged hasFlag hasBody]
            have node := valueNode_flagged hasFlag hasBody
            cases flag with
            | bool value =>
                cases body with
                | object bodyMembers =>
                    cases value with
                    | true => exact success _ _ node
                    | false => exact failure _ _ node
                | null | bool | integer | double | string | array =>
                    refine iff_of_false ?_ id
                    cases value with
                    | true => exact success_other _ _ node fun _ impossible => by cases impossible
                    | false => exact failure_other _ _ node fun _ impossible => by cases impossible
            | null | integer | double | string | array | object => exact iff_of_false bad id
  · rw [ofBuffer_of_not_object fun members content => object ⟨members, content⟩]
    refine iff_of_false bad ?_
    intro shaped
    cases content : document parse reply with
    | object members => exact object ⟨members, content⟩
    | null | bool | integer | double | string | array =>
        rw [content] at shaped
        exact shaped

/-! ## The single accessors -/

theorem returns_ok {α : Type} (value : α) : Returns (.ok value : Except Fault α) := ⟨value, rfl⟩

theorem not_returns_error {α : Type} (fault : Fault) :
    ¬ Returns (.error fault : Except Fault α) := by
  rintro ⟨_, impossible⟩
  cases impossible

theorem returns_bind_pure {α β : Type} {call : Except Fault α} {result : α → β} :
    Returns (do return result (← call)) ↔ Returns call := by
  cases call with
  | error fault => exact iff_of_false (not_returns_error fault) (not_returns_error fault)
  | ok value => exact iff_of_true (returns_ok _) (returns_ok _)

theorem getString_returns_iff (node : Json) :
    Returns node.getString ↔ ∃ text, node = .string text := by
  cases node with
  | string text => exact iff_of_true (returns_ok _) ⟨text, rfl⟩
  | null | bool | integer | double | array | object =>
      refine iff_of_false (not_returns_error _) ?_
      rintro ⟨_, impossible⟩
      cases impossible

section Accessors

variable {model : JsonModel} {members : Members}

theorem message_returns_iff (node : model.valueNode = .ok (.object members)) :
    Returns model.message ↔ OptionalString (utf8 "message") members := by
  rw [message_of_object node, OptionalString]
  cases found : members.lookup (utf8 "message") with
  | none => exact iff_of_true (returns_ok _) fun _ impossible => by cases impossible
  | some value =>
      simp only [Option.some.injEq, forall_eq']
      exact getString_returns_iff value

theorem requireValue_returns_iff (node : model.valueNode = .ok (.object members)) (key : Bytes) :
    Returns (model.requireValue key) ↔ StringMember key members := by
  rw [requireValue_of_object node, StringMember]
  cases found : members.lookup key with
  | none =>
      refine iff_of_false (not_returns_error _) ?_
      rintro ⟨_, impossible⟩
      cases impossible
  | some value =>
      simp only [Option.some.injEq]
      exact getString_returns_iff value

theorem requireValue_of_string (node : model.valueNode = .ok (.object members)) {key text : Bytes}
    (found : members.lookup key = some (.string text)) :
    model.requireValue key = .ok (cString text) := by
  rw [requireValue_of_object node, found]
  rfl

end Accessors

/-! ## The login -/

theorem login_returns_iff (email : Bytes) (reply : Option Bytes) :
    Returns (login parse false email reply) ↔ LoginShape email (document parse reply) := by
  rw [login, if_neg Bool.false_ne_true]
  refine judged_iff (not_returns_error _) ?_ ?_ ?_ ?_
  · intro model members node
    by_cases hasEmail : ∃ text, members.lookup (utf8 "email") = some (.string text)
    · obtain ⟨text, found⟩ := hasEmail
      rw [JsonModel.email, requireValue_of_string node found]
      change Returns (if cString text = email then _ else _) ↔ _
      by_cases same : cString text = email
      · rw [if_pos same]
        exact iff_of_true (returns_ok _) ⟨text, found, .inl same⟩
      · rw [if_neg same, returns_bind_pure, message_returns_iff node]
        constructor
        · intro shape
          exact ⟨text, found, .inr shape⟩
        · rintro ⟨other, found_other, same_other | shape⟩
          · rw [found] at found_other
            cases found_other
            exact absurd same_other same
          · exact shape
    · refine iff_of_false ?_ ?_
      · intro returns
        cases emailCall : model.email with
        | error fault =>
            rw [emailCall] at returns
            exact not_returns_error _ returns
        | ok value =>
            exact hasEmail ((requireValue_returns_iff node _).mp ⟨value, emailCall⟩)
      · rintro ⟨text, found, _⟩
        exact hasEmail ⟨text, found⟩
  · intro model members node
    rw [returns_bind_pure, message_returns_iff node]
  · intro model node isNode other
    rw [JsonModel.email, requireValue_of_not_object isNode other]
    exact not_returns_error _
  · intro model node isNode other
    rw [message_of_not_object isNode other]
    exact not_returns_error _

/-! ## The user's details -/

theorem userInfo_eq (reply : Option Bytes) :
    userInfo parse reply = (do
      let model ← ofBuffer parse reply
      if ← model.success then return (← model.name, ← model.email) else throw .nullPointer) := by
  rw [userInfo, userDetail, if_pos rfl]
  cases ofBuffer parse reply with
  | error fault => rfl
  | ok model =>
      change (model.success >>= _) >>= _ = model.success >>= _
      cases model.success with
      | error fault => rfl
      | ok accepted => cases accepted <;> rfl

theorem userInfo_returns_iff (reply : Option Bytes) :
    Returns (userInfo parse reply) ↔ InfoShape (document parse reply) := by
  rw [userInfo_eq]
  refine judged_iff (not_returns_error _) ?_ ?_ ?_ ?_
  · intro model members node
    rw [← requireValue_returns_iff node, ← requireValue_returns_iff node]
    change Returns (model.name >>= fun name => do return (name, ← model.email)) ↔
      Returns model.name ∧ Returns model.email
    cases model.name with
    | error fault =>
        refine iff_of_false (not_returns_error _) ?_
        rintro ⟨returns, _⟩
        exact not_returns_error _ returns
    | ok name => exact returns_bind_pure.trans (and_iff_right (returns_ok _)).symm
  · intro model members _
    exact iff_of_false (not_returns_error _) id
  · intro model node isNode other
    rw [JsonModel.name, requireValue_of_not_object isNode other]
    exact not_returns_error _
  · intro model node _ _
    exact not_returns_error _

/-! ## The peer list -/

theorem startPeers_eq (patterns : AddressPatterns) (reply : Option Bytes) :
    startPeers parse patterns reply = (do
      let model ← ofBuffer parse reply
      if ← model.success then (← model.peers).mapM (helloAddress patterns)
      else
        let _ ← model.message
        throw .nullPointer) := by
  rw [startPeers, peerList]
  cases ofBuffer parse reply with
  | error fault => rfl
  | ok model =>
      change (model.success >>= _) >>= _ = model.success >>= _
      cases model.success with
      | error fault => rfl
      | ok accepted =>
          cases accepted with
          | true => rfl
          | false =>
              change (model.message >>= _) >>= _ = model.message >>= _
              cases model.message <;> rfl

/-- The names and texts of the members before the first array or object. -/
def namedTexts (members : Members) : List (Bytes × Bytes) :=
  (members.takeWhile (!·.2.isContainer)).filterMap fun member =>
    match member.2 with
    | .string text => some (cString member.1, cString text)
    | _ => none

theorem stringsFirst_cons {name : Bytes} {node : Json} {members : Members} :
    StringsFirst ((name, node) :: members) ↔
      node.isContainer = true ∨ (∃ text, node = .string text) ∧ StringsFirst members := by
  rw [StringsFirst, List.takeWhile_cons]
  cases container : node.isContainer with
  | true => simp
  | false => simp [StringsFirst]

/-- The loop of `get_map` on members that are strings before the first array or
object, and on others. -/
theorem collectMap_eq (entries : List (Bytes × Bytes)) (members : Members) :
    (StringsFirst members →
        collectMap entries members = .ok ((namedTexts members).foldl mapInsert entries)) ∧
      (¬ StringsFirst members → collectMap entries members = .error .accessor) := by
  induction members generalizing entries with
  | nil =>
      refine ⟨fun _ => rfl, fun impossible => absurd ?_ impossible⟩
      intro member empty
      cases empty
  | cons member members ih =>
      obtain ⟨name, node⟩ := member
      rw [stringsFirst_cons]
      cases node with
      | array | object =>
          refine ⟨fun _ => rfl, fun impossible => absurd (.inl rfl) impossible⟩
      | string text =>
          have next := ih (mapInsert entries (cString name, cString text))
          refine ⟨?_, ?_⟩
          · rintro (impossible | ⟨_, strings⟩)
            · cases impossible
            · exact next.1 strings
          · intro other
            exact next.2 fun strings => other (.inr ⟨⟨text, rfl⟩, strings⟩)
      | null | bool | integer | double =>
          refine ⟨?_, fun _ => rfl⟩
          rintro (impossible | ⟨⟨_, impossible⟩, _⟩)
          · cases impossible
          · cases impossible

theorem mem_mapInsert {entries : List (Bytes × Bytes)} {entry found : Bytes × Bytes} :
    found ∈ mapInsert entries entry ↔
      found ∈ entries ∨ entry.1 ∉ entries.map Prod.fst ∧ found = entry := by
  rw [mapInsert]
  split
  case isTrue present => simp [present]
  case isFalse absent =>
    have whole := List.takeWhile_append_dropWhile (p := (·.1 < entry.1)) (l := entries)
    rw [and_iff_right absent, ← List.singleton_append, List.mem_append, List.mem_append,
      List.mem_singleton, or_left_comm, ← List.mem_append, whole, or_comm]

theorem mem_map_fst_mapInsert {entries : List (Bytes × Bytes)} {entry : Bytes × Bytes}
    {name : Bytes} :
    name ∈ (mapInsert entries entry).map Prod.fst ↔
      name ∈ entries.map Prod.fst ∨ name = entry.1 := by
  simp only [List.mem_map, mem_mapInsert]
  constructor
  · rintro ⟨found, old | ⟨_, rfl⟩, rfl⟩
    · exact .inl ⟨found, old, rfl⟩
    · exact .inr rfl
  · rintro (⟨found, old, rfl⟩ | rfl)
    · exact ⟨found, .inl old, rfl⟩
    · by_cases present : ∃ other ∈ entries, other.1 = entry.1
      · obtain ⟨other, old, same⟩ := present
        exact ⟨other, .inl old, same⟩
      · exact ⟨entry, .inr ⟨present, rfl⟩, rfl⟩

/-- The map holds, for each name that was not in it, the first text under the
name. -/
theorem mem_foldl_mapInsert {texts entries : List (Bytes × Bytes)} {name text : Bytes} :
    (name, text) ∈ texts.foldl mapInsert entries ↔
      (name, text) ∈ entries ∨ name ∉ entries.map Prod.fst ∧ texts.lookup name = some text := by
  induction texts generalizing entries with
  | nil => simp
  | cons first texts ih =>
      obtain ⟨key, value⟩ := first
      rw [List.foldl_cons, ih, mem_mapInsert, mem_map_fst_mapInsert, lookup_entry_cons]
      by_cases same : name = key
      · subst same
        simp only [Prod.mk.injEq, true_and, or_true, not_true_eq_false, false_and, or_false,
          if_true, Option.some.injEq, eq_comm]
      · simp only [Prod.mk.injEq, same, false_and, and_false, or_false, if_false]

theorem mapM_returns_iff {α β : Type} {call : α → Except Fault β} {items : List α} :
    Returns (items.mapM call) ↔ ∀ item ∈ items, Returns (call item) := by
  induction items with
  | nil => exact iff_of_true (returns_ok _) (List.forall_mem_nil _)
  | cons item items ih =>
      rw [List.forall_mem_cons, ← ih, List.mapM_cons]
      cases call item with
      | error fault =>
          refine iff_of_false (not_returns_error _) ?_
          rintro ⟨returns, _⟩
          exact not_returns_error _ returns
      | ok value => exact returns_bind_pure.trans (and_iff_right (returns_ok _)).symm

/-- The only fault of the loop's body is a conversion. -/
theorem mapM_helloAddress_sound (patterns : AddressPatterns) (entries : List (Bytes × Bytes)) :
    Sound (entries.mapM (helloAddress patterns)) := by
  induction entries with
  | nil =>
      intro fault impossible
      cases impossible
  | cons entry entries ih =>
      rw [List.mapM_cons]
      intro fault failed
      rw [helloAddress] at failed
      cases converted : IPAddress.ofString patterns entry.2 with
      | none =>
          rw [converted] at failed
          cases failed
          rfl
      | some address =>
          rw [converted] at failed
          cases rest : entries.mapM (helloAddress patterns) with
          | error other =>
              rw [rest] at failed
              cases failed
              exact ih _ rest
          | ok values =>
              rw [rest] at failed
              cases failed

theorem not_sound_error {α : Type} {fault : Fault} (misuse : fault ≠ .conversion) :
    ¬ Sound (.error fault : Except Fault α) :=
  fun sound => misuse (sound fault rfl)

/-- A failure reported by the server ends in a null pointer. -/
theorem failed_peerList_unsound {model : JsonModel} {members : Members}
    (node : model.valueNode = .ok (.object members)) :
    ¬ Sound (do
        let _ ← model.message
        throw .nullPointer : Except Fault (List (Bytes × IPAddress))) := by
  rw [message_of_object node]
  cases members.lookup (utf8 "message") with
  | none => exact not_sound_error (by decide)
  | some value =>
      cases value with
      | string => exact not_sound_error (by decide)
      | null | bool | integer | double | array | object => exact not_sound_error (by decide)

/-- What `get_map` and the loop over its result do with the member `peers`. -/
theorem peers_of_object {model : JsonModel} {members : Members}
    (node : model.valueNode = .ok (.object members)) :
    (∃ peers, members.lookup (utf8 "peers") = some (.object peers) ∧ StringsFirst peers ∧
        model.peers = .ok ((namedTexts peers).foldl mapInsert [])) ∨
      (members.lookup (utf8 "peers") = none ∧ model.peers = .ok []) ∨
      (∃ other, members.lookup (utf8 "peers") = some other ∧
        (∀ peers, other = .object peers → ¬ StringsFirst peers) ∧
        model.peers = .error .accessor) := by
  rw [JsonModel.peers, getMap_of_object node]
  cases found : members.lookup (utf8 "peers") with
  | none => exact .inr (.inl ⟨rfl, rfl⟩)
  | some value =>
      cases value with
      | object peers =>
          by_cases strings : StringsFirst peers
          · exact .inl ⟨peers, rfl, strings, (collectMap_eq [] peers).1 strings⟩
          · refine .inr (.inr ⟨_, rfl, ?_, (collectMap_eq [] peers).2 strings⟩)
            rintro _ ⟨⟩
            exact strings
      | null | bool | integer | double | string | array =>
          refine .inr (.inr ⟨_, rfl, ?_, rfl⟩)
          rintro _ ⟨⟩

theorem startPeers_sound_iff (patterns : AddressPatterns) (reply : Option Bytes) :
    Sound (startPeers parse patterns reply) ↔ PeersShape (document parse reply) := by
  rw [startPeers_eq]
  refine judged_iff (not_sound_error (by decide)) ?_ ?_ ?_ ?_
  · intro model members node
    obtain ⟨peers, found, strings, call⟩ | ⟨found, call⟩ | ⟨other, found, wrong, call⟩ :=
      peers_of_object node
    · rw [call, found]
      refine iff_of_true (mapM_helloAddress_sound patterns _) ?_
      rintro _ ⟨⟩
      exact ⟨peers, rfl, strings⟩
    · rw [call, found]
      refine iff_of_true (mapM_helloAddress_sound patterns []) ?_
      rintro _ ⟨⟩
    · rw [call, found]
      refine iff_of_false (not_sound_error (by decide)) ?_
      intro shape
      obtain ⟨peers, isPeers, strings⟩ := shape other rfl
      exact wrong peers isPeers strings
  · intro model members node
    exact iff_of_false (failed_peerList_unsound node) id
  · intro model node isNode other
    rw [JsonModel.peers, getMap_of_not_object isNode other]
    exact not_sound_error (by decide)
  · intro model node isNode other
    rw [message_of_not_object isNode other]
    exact not_sound_error (by decide)

theorem helloAddress_returns_iff (patterns : AddressPatterns) (ip : Bytes × Bytes) :
    Returns (helloAddress patterns ip) ↔ (IPAddress.ofString patterns ip.2).isSome = true := by
  rw [helloAddress]
  cases IPAddress.ofString patterns ip.2 with
  | none => exact iff_of_false (not_returns_error _) Bool.false_ne_true
  | some address => exact iff_of_true (returns_ok _) rfl

/-- Replies to a request for the peer list on which every address is converted as
well. -/
def ConvertibleShape (patterns : AddressPatterns) : Json → Prop :=
  Shaped
    (fun body => ∀ node, body.lookup (utf8 "peers") = some node →
      ∃ peers, node = .object peers ∧ StringsFirst peers ∧
        ∀ name address, (namedTexts peers).lookup name = some address →
          (IPAddress.ofString patterns address).isSome = true)
    fun _ => False

theorem startPeers_returns_iff (patterns : AddressPatterns) (reply : Option Bytes) :
    Returns (startPeers parse patterns reply) ↔
      ConvertibleShape patterns (document parse reply) := by
  rw [startPeers_eq]
  refine judged_iff (not_returns_error _) ?_ ?_ ?_ ?_
  · intro model members node
    obtain ⟨peers, found, strings, call⟩ | ⟨found, call⟩ | ⟨other, found, wrong, call⟩ :=
      peers_of_object node
    · rw [call, found]
      change Returns (List.mapM _ _) ↔ _
      rw [mapM_returns_iff]
      constructor
      · rintro converted _ ⟨⟩
        refine ⟨peers, rfl, strings, ?_⟩
        intro name address first
        exact (helloAddress_returns_iff patterns (name, address)).mp
          (converted _ (mem_foldl_mapInsert.mpr (.inr ⟨List.not_mem_nil, first⟩)))
      · rintro shape ⟨name, address⟩ entry
        obtain ⟨_, ⟨⟩, _, converts⟩ := shape _ rfl
        rcases mem_foldl_mapInsert.mp entry with impossible | ⟨_, first⟩
        · cases impossible
        · exact (helloAddress_returns_iff patterns _).mpr (converts name address first)
    · rw [call, found]
      refine iff_of_true (returns_ok _) ?_
      rintro _ ⟨⟩
    · rw [call, found]
      refine iff_of_false (not_returns_error _) ?_
      intro shape
      obtain ⟨peers, isPeers, strings, _⟩ := shape other rfl
      exact wrong peers isPeers strings
  · intro model members node
    refine iff_of_false ?_ id
    rintro ⟨value, returned⟩
    refine failed_peerList_unsound node ?_
    rw [returned]
    rintro _ ⟨⟩
  · intro model node isNode other
    rw [JsonModel.peers, getMap_of_not_object isNode other]
    exact not_returns_error _
  · intro model node isNode other
    rw [message_of_not_object isNode other]
    exact not_returns_error _

/-- **When the calls return.** A login returns on replies of one shape, the details
of a user and their accessors on replies of another, and the peer list with the
loop that reads it on replies of a third, where it may still meet an address
that is not converted. -/
theorem replies_return_iff (parse : Bytes → Option Json) (patterns : AddressPatterns)
    (email : Bytes) (reply : Option Bytes) :
    (Returns (login parse false email reply) ↔ LoginShape email (document parse reply)) ∧
      (Returns (userInfo parse reply) ↔ InfoShape (document parse reply)) ∧
      (Sound (startPeers parse patterns reply) ↔ PeersShape (document parse reply)) ∧
      (Returns (startPeers parse patterns reply) ↔
        ConvertibleShape patterns (document parse reply)) :=
  ⟨login_returns_iff email reply, userInfo_returns_iff reply,
    startPeers_sound_iff patterns reply, startPeers_returns_iff patterns reply⟩

/-- A parser, on the texts of an empty array and of a reported failure. -/
def parseSamples (text : Bytes) : Option Json :=
  if text = utf8 "[]" then some (.array [])
  else if text = utf8 "\x7b\"success\":false,\"responseBody\":\x7b\x7d\x7d" then
    some (.object [(utf8 "success", .bool false), (utf8 "responseBody", .object [])])
  else none

/-- An empty array as the reply to a login, and a reported failure as the reply to
the other requests. -/
theorem replies_not_returning :
    ¬ Returns (login parseSamples false (utf8 "a@b") (some (utf8 "[]"))) ∧
      ¬ Returns (userInfo parseSamples
        (some (utf8 "\x7b\"success\":false,\"responseBody\":\x7b\x7d\x7d"))) ∧
      ¬ Sound (startPeers parseSamples ⟨fun _ => false, fun _ => false⟩
        (some (utf8 "\x7b\"success\":false,\"responseBody\":\x7b\x7d\x7d"))) := by
  refine ⟨?_, ?_, ?_⟩
  · have failed : login parseSamples false (utf8 "a@b") (some (utf8 "[]")) =
        .error .accessor := rfl
    rw [failed]
    exact not_returns_error _
  · have failed : userInfo parseSamples (some (utf8
        "\x7b\"success\":false,\"responseBody\":\x7b\x7d\x7d")) = .error .nullPointer := rfl
    rw [failed]
    exact not_returns_error _
  · have failed : startPeers parseSamples ⟨fun _ => false, fun _ => false⟩ (some (utf8
        "\x7b\"success\":false,\"responseBody\":\x7b\x7d\x7d")) = .error .nullPointer := rfl
    rw [failed]
    exact not_sound_error (by decide)

end P2PFileSync
