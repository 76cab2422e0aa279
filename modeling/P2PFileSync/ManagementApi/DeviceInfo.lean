import P2PFileSync.ManagementApi.Registration
import P2PFileSync.ManagementApi.Replies

/-!
# Whether the device is enabled

`device_info` asks the server about the device. Without a token, on an empty reply
and on a reported failure it gives a null pointer, which `is_enabled` takes for a
device that is not enabled yet. A transfer that failed is no such answer: the
length of a null pointer is taken.

The loop of `P2PServerContext::init` asks until the device is enabled, so it goes
on exactly when the first reply that is not a wait enables the device
(`awaitEnabled_cases`). The command `INFO` asks twice and dereferences the first
answer, so it returns on an enabled device only (`info_returns_iff`).
-/

set_option autoImplicit false

namespace P2PFileSync

open JsonModel

/-! ## The model -/

/-- `DeviceInfoResponseImpl::machine_id`. -/
def JsonModel.machineId (response : JsonModel) : Except Fault Bytes :=
  response.requireValue (utf8 "machine_id")

/-- `DeviceInfoResponseImpl::device_ip`. -/
def JsonModel.deviceIp (response : JsonModel) : Except Fault Bytes :=
  response.requireValue (utf8 "ip_address")

/-- `DeviceInfoResponseImpl::register_user`. -/
def JsonModel.registerUser (response : JsonModel) : Except Fault Bytes :=
  response.requireValue (utf8 "register_by")

/-- `VLOG(1)` of the message of a failure, which is read only if it is logged. -/
def JsonModel.logMessage (vlogIsOn : Bool) (response : JsonModel) : Except Fault Unit :=
  if vlogIsOn then response.message.map fun _ => () else .ok ()

namespace DeviceInfo

section Model

variable (parse : Bytes → Option Json) (vlogIsOn : Bool)

/-- `DeviceContextImpl::device_info`; `none` is a null pointer. -/
def deviceInfo (loginToken : Bytes) (reply : Option Bytes) : Except Fault (Option JsonModel) :=
  if loginToken = [] then .ok none
  else
    match reply with
    | none => .error .nullPointer
    | some text =>
        if cString text = [] then .ok none
        else do
          let response ← ofBuffer parse (some text)
          if ← response.success then return some response
          else
            response.logMessage vlogIsOn
            return none

/-- `DeviceContextImpl::is_enabled`. -/
def isEnabled (loginToken : Bytes) (reply : Option Bytes) : Except Fault Bool := do
  return (← deviceInfo parse vlogIsOn loginToken reply).isSome

/-- The loop of `P2PServerContext::init`, on the replies that arrive until the
program is stopped: whether the device was enabled before that. -/
def awaitEnabled (loginToken : Bytes) : List (Option Bytes) → Except Fault Bool
  | [] => .ok false
  | reply :: replies => do
      if ← isEnabled parse vlogIsOn loginToken reply then return true
      else awaitEnabled loginToken replies

/-- `std::boolalpha`. -/
def boolText (value : Bool) : Bytes := if value then utf8 "true" else utf8 "false"

/-- What `INFO` writes about a device, with the reply to its second request. -/
def deviceText (loginToken : Bytes) (enabledReply : Option Bytes) (info : JsonModel) :
    Except Fault Bytes := do
  let deviceId ← info.clientId
  let enabled ← isEnabled parse vlogIsOn loginToken enabledReply
  let machineId ← info.machineId
  let deviceIp ← info.deviceIp
  let registerUser ← info.registerUser
  return utf8 "Device info: \n  Device id: " ++ deviceId ++
    utf8 "\n  Device status: " ++ boolText enabled ++
    utf8 "\n  Device hardware id: " ++ machineId ++
    utf8 "\n  Device Registered ip: " ++ deviceIp ++
    utf8 "\n  Device Register User: " ++ registerUser

/-- `InfoCommand::exec` on a device context, with the replies to its requests. -/
def infoCommand (context : DeviceContext) (args : List Bytes)
    (infoReply enabledReply : Option Bytes) : Except Fault Bytes :=
  if args ≠ [] then .ok (utf8 "INFO command does not need any arguments!")
  else do
    match ← deviceInfo parse vlogIsOn context.loginToken infoReply with
    | none => throw .nullPointer
    | some info => deviceText parse vlogIsOn context.loginToken enabledReply info

end Model

/-! ## Shapes of replies -/

/-- A reported success, whatever its body is. -/
def Accepts : Json → Prop
  | .object members =>
      members.lookup (utf8 "success") = some (.bool true) ∧
        (members.lookup (utf8 "responseBody")).isSome = true
  | _ => False

/-- A reported failure, or an object that is no response. If the message is
logged, it is a string in an object. -/
def Refuses (vlogIsOn : Bool) : Json → Prop
  | .object members =>
      match members.lookup (utf8 "success"), members.lookup (utf8 "responseBody") with
      | some flag, some body =>
          flag = .bool false ∧ (vlogIsOn = true →
            ∃ inner, body = .object inner ∧ OptionalString (utf8 "message") inner)
      | _, _ => vlogIsOn = true → OptionalString (utf8 "message") members
  | _ => False

section Shapes

variable (parse : Bytes → Option Json) (vlogIsOn : Bool) (loginToken : Bytes)

/-- The reply says that the device is enabled. -/
def Enables (reply : Option Bytes) : Prop :=
  loginToken ≠ [] ∧ ∃ text, reply = some text ∧ cString text ≠ [] ∧
    Accepts (document parse reply)

/-- The reply is taken for a device that is not enabled. -/
def Waits (reply : Option Bytes) : Prop :=
  loginToken = [] ∨ ∃ text, reply = some text ∧
    (cString text = [] ∨ Refuses vlogIsOn (document parse reply))

/-- What `INFO` reads from the body of a reply. -/
def DeviceShape : Json → Prop :=
  Shaped
    (fun body => StringMember (utf8 "client_id") body ∧ StringMember (utf8 "machine_id") body ∧
      StringMember (utf8 "ip_address") body ∧ StringMember (utf8 "register_by") body)
    fun _ => False

end Shapes

/-! ## One answer -/

section Answers

variable {parse : Bytes → Option Json} {vlogIsOn : Bool} {loginToken : Bytes}

/-- What `is_enabled` makes of a reply that is not empty. -/
def judge (parse : Bytes → Option Json) (vlogIsOn : Bool) (reply : Option Bytes) :
    Except Fault Bool := do
  let response ← ofBuffer parse reply
  if ← response.success then return true
  else
    response.logMessage vlogIsOn
    return false

theorem isEnabled_of_text {text : Bytes} (token : loginToken ≠ []) (content : cString text ≠ []) :
    isEnabled parse vlogIsOn loginToken (some text) = judge parse vlogIsOn (some text) := by
  simp only [isEnabled, deviceInfo, if_neg token, if_neg content, judge]
  cases ofBuffer parse (some text) with
  | error fault => rfl
  | ok response =>
      change (response.success >>= _) >>= _ = response.success >>= _
      cases response.success with
      | error fault => rfl
      | ok accepted =>
          cases accepted with
          | true => rfl
          | false =>
              change (response.logMessage vlogIsOn >>= _) >>= _ =
                response.logMessage vlogIsOn >>= _
              cases response.logMessage vlogIsOn <;> rfl

/-- Logging returns when the message, if it is logged, can be read. -/
theorem logMessage_returns_iff {model : JsonModel} {node : Json}
    (isNode : model.valueNode = .ok node) :
    Returns (model.logMessage vlogIsOn) ↔
      (vlogIsOn = true →
        ∃ inner, node = .object inner ∧ OptionalString (utf8 "message") inner) := by
  cases vlogIsOn with
  | false => exact iff_of_true (returns_ok _) fun impossible => by cases impossible
  | true =>
      have read : Returns (model.logMessage true) ↔ Returns model.message := by
        rw [JsonModel.logMessage, if_pos rfl]
        cases model.message with
        | error fault => exact iff_of_false (not_returns_error fault) (not_returns_error fault)
        | ok text => exact iff_of_true (returns_ok _) (returns_ok text)
      rw [read, imp_iff_right rfl]
      by_cases object : ∃ inner, node = .object inner
      · obtain ⟨inner, rfl⟩ := object
        rw [message_returns_iff isNode]
        simp only [Json.object.injEq, exists_eq_left']
      · rw [message_of_not_object isNode fun inner same => object ⟨inner, same⟩]
        exact iff_of_false (not_returns_error _) fun ⟨inner, same, _⟩ => object ⟨inner, same⟩

variable (vlogIsOn) in
/-- After a reported failure the loop waits or the program ends. -/
theorem refused_iff {model : JsonModel} {node : Json} (isNode : model.valueNode = .ok node) :
    ((model.logMessage vlogIsOn >>= fun _ => pure false) = .ok true ↔ False) ∧
      ((model.logMessage vlogIsOn >>= fun _ => pure false) = .ok false ↔
        (vlogIsOn = true →
          ∃ inner, node = .object inner ∧ OptionalString (utf8 "message") inner)) := by
  rw [← logMessage_returns_iff isNode]
  cases model.logMessage vlogIsOn with
  | error fault =>
      refine ⟨iff_of_false (fun impossible => by cases impossible) id,
        iff_of_false (fun impossible => by cases impossible) (not_returns_error fault)⟩
  | ok logged =>
      exact ⟨iff_of_false (fun impossible => by cases impossible) id,
        iff_of_true rfl (returns_ok logged)⟩

/-- A reply that is not empty enables the device or lets the loop wait by its
shape. -/
theorem judge_iff (reply : Option Bytes) :
    (judge parse vlogIsOn reply = .ok true ↔ Accepts (document parse reply)) ∧
      (judge parse vlogIsOn reply = .ok false ↔ Refuses vlogIsOn (document parse reply)) := by
  by_cases object : ∃ members, document parse reply = .object members
  · obtain ⟨members, content⟩ := object
    have call : judge parse vlogIsOn reply = (ofMembers members).success >>= fun accepted =>
        if accepted then pure true
        else (ofMembers members).logMessage vlogIsOn >>= fun _ => pure false := by
      rw [judge, ofBuffer_of_object content]
      rfl
    rw [call, content, Accepts, Refuses]
    cases hasFlag : members.lookup (utf8 "success") with
    | none =>
        have plain : flagged members = false := by rw [flagged, hasFlag]; rfl
        rw [success_plain plain]
        have refused := refused_iff vlogIsOn (valueNode_plain plain)
        exact ⟨refused.1.trans (iff_of_false id fun accepted => by cases accepted.1),
          refused.2.trans (by simp)⟩
    | some flag =>
        cases hasBody : members.lookup (utf8 "responseBody") with
        | none =>
            have plain : flagged members = false := by rw [flagged, hasFlag, hasBody]; rfl
            rw [success_plain plain]
            have refused := refused_iff vlogIsOn (valueNode_plain plain)
            exact ⟨refused.1.trans (iff_of_false id fun accepted => by cases accepted.2),
              refused.2.trans (by simp)⟩
        | some body =>
            rw [success_flagged hasFlag hasBody]
            cases flag with
            | bool value =>
                cases value with
                | true =>
                    exact ⟨iff_of_true rfl ⟨rfl, rfl⟩,
                      iff_of_false (fun impossible => by cases impossible)
                        fun refused => by cases refused.1⟩
                | false =>
                    have refused := refused_iff vlogIsOn
                      (valueNode_flagged hasFlag hasBody)
                    exact ⟨refused.1.trans (iff_of_false id fun accepted => by cases accepted.1),
                      refused.2.trans (and_iff_right rfl).symm⟩
            | null | integer | double | string | array | object =>
                exact ⟨iff_of_false (fun impossible => by cases impossible)
                    (fun accepted => by cases accepted.1),
                  iff_of_false (fun impossible => by cases impossible)
                    (fun refused => by cases refused.1)⟩
  · rw [judge, ofBuffer_of_not_object fun members content => object ⟨members, content⟩]
    cases content : document parse reply with
    | object members => exact absurd ⟨members, content⟩ object
    | null | bool | integer | double | string | array =>
        exact ⟨iff_of_false (fun impossible => by cases impossible) id,
          iff_of_false (fun impossible => by cases impossible) id⟩

variable (vlogIsOn) in
theorem isEnabled_eq_true_iff (reply : Option Bytes) :
    isEnabled parse vlogIsOn loginToken reply = .ok true ↔ Enables parse loginToken reply := by
  rw [Enables]
  by_cases token : loginToken = []
  · simp only [isEnabled, deviceInfo, if_pos token]
    exact iff_of_false (fun impossible => by cases impossible) fun answer => answer.1 token
  · cases reply with
    | none =>
        simp only [isEnabled, deviceInfo, if_neg token]
        exact iff_of_false (fun impossible => by cases impossible)
          fun ⟨_, _, impossible, _⟩ => by cases impossible
    | some text =>
        simp only [Option.some.injEq, exists_eq_left']
        by_cases content : cString text = []
        · simp only [isEnabled, deviceInfo, if_neg token, if_pos content]
          exact iff_of_false (fun impossible => by cases impossible)
            fun answer => answer.2.1 content
        · rw [isEnabled_of_text token content, (judge_iff (some text)).1, and_iff_right token,
            and_iff_right content]

theorem isEnabled_eq_false_iff (reply : Option Bytes) :
    isEnabled parse vlogIsOn loginToken reply = .ok false ↔
      Waits parse vlogIsOn loginToken reply := by
  rw [Waits]
  by_cases token : loginToken = []
  · simp only [isEnabled, deviceInfo, if_pos token]
    exact iff_of_true rfl (.inl token)
  · rw [or_iff_right token]
    cases reply with
    | none =>
        simp only [isEnabled, deviceInfo, if_neg token]
        exact iff_of_false (fun impossible => by cases impossible)
          fun ⟨_, impossible, _⟩ => by cases impossible
    | some text =>
        simp only [Option.some.injEq, exists_eq_left']
        by_cases content : cString text = []
        · simp only [isEnabled, deviceInfo, if_neg token, if_pos content]
          exact iff_of_true rfl (.inl content)
        · rw [isEnabled_of_text token content, (judge_iff (some text)).2, or_iff_right content]

end Answers

/-! ## The loop -/

section Loop

variable {parse : Bytes → Option Json} {vlogIsOn : Bool} {loginToken : Bytes}

/-- A reply that the loop waits on is passed over. -/
theorem awaitEnabled_of_waits {reply : Option Bytes} (replies : List (Option Bytes))
    (waits : Waits parse vlogIsOn loginToken reply) :
    awaitEnabled parse vlogIsOn loginToken (reply :: replies) =
      awaitEnabled parse vlogIsOn loginToken replies := by
  rw [awaitEnabled, (isEnabled_eq_false_iff reply).mpr waits]
  rfl

/-- Replies in front of the first one that is not a wait. -/
theorem awaitEnabled_append {front : List (Option Bytes)}
    (waits : ∀ reply ∈ front, Waits parse vlogIsOn loginToken reply)
    (back : List (Option Bytes)) :
    awaitEnabled parse vlogIsOn loginToken (front ++ back) =
      awaitEnabled parse vlogIsOn loginToken back := by
  induction front with
  | nil => rfl
  | cons reply front ih =>
      obtain ⟨first, later⟩ := List.forall_mem_cons.mp waits
      rw [List.cons_append, awaitEnabled_of_waits _ first, ih later]

variable (parse vlogIsOn loginToken) in
/-- The first reply that is not a wait. -/
theorem all_wait_or_first (replies : List (Option Bytes)) :
    (∀ reply ∈ replies, Waits parse vlogIsOn loginToken reply) ∨
      ∃ front reply back, replies = front ++ reply :: back ∧
        (∀ early ∈ front, Waits parse vlogIsOn loginToken early) ∧
        ¬ Waits parse vlogIsOn loginToken reply := by
  induction replies with
  | nil => exact .inl (List.forall_mem_nil _)
  | cons reply replies ih =>
      by_cases waits : Waits parse vlogIsOn loginToken reply
      · rcases ih with all | ⟨front, later, back, rfl, early, first⟩
        · exact .inl (List.forall_mem_cons.mpr ⟨waits, all⟩)
        · exact .inr ⟨reply :: front, later, back, rfl, List.forall_mem_cons.mpr ⟨waits, early⟩,
            first⟩
      · exact .inr ⟨[], reply, replies, rfl, List.forall_mem_nil _, waits⟩

/-- What the loop makes of the first reply that is not a wait. -/
theorem awaitEnabled_first {reply : Option Bytes} (back : List (Option Bytes))
    (first : ¬ Waits parse vlogIsOn loginToken reply) :
    (Enables parse loginToken reply ∧
        awaitEnabled parse vlogIsOn loginToken (reply :: back) = .ok true) ∨
      (¬ Enables parse loginToken reply ∧
        ∃ fault, awaitEnabled parse vlogIsOn loginToken (reply :: back) = .error fault) := by
  rw [← isEnabled_eq_true_iff vlogIsOn, awaitEnabled]
  rw [← isEnabled_eq_false_iff] at first
  cases answer : isEnabled parse vlogIsOn loginToken reply with
  | error fault => exact .inr ⟨(fun impossible => by cases impossible), fault, rfl⟩
  | ok enabled =>
      cases enabled with
      | true => exact .inl ⟨rfl, rfl⟩
      | false => exact absurd answer first

theorem Enables.not_waits {reply : Option Bytes} (enables : Enables parse loginToken reply) :
    ¬ Waits parse vlogIsOn loginToken reply := by
  rw [← isEnabled_eq_false_iff, (isEnabled_eq_true_iff vlogIsOn reply).mpr enables]
  intro impossible
  cases impossible

theorem awaitEnabled_of_all {replies : List (Option Bytes)}
    (waits : ∀ reply ∈ replies, Waits parse vlogIsOn loginToken reply) :
    awaitEnabled parse vlogIsOn loginToken replies = .ok false := by
  rw [← List.append_nil replies, awaitEnabled_append waits]
  rfl

variable (parse vlogIsOn loginToken) in
/-- The loop waits, is left or ends the program by the first reply that is not a
wait. -/
theorem awaitEnabled_first_cases (replies : List (Option Bytes)) :
    ((∀ reply ∈ replies, Waits parse vlogIsOn loginToken reply) ∧
        awaitEnabled parse vlogIsOn loginToken replies = .ok false) ∨
      ∃ front reply back, replies = front ++ reply :: back ∧
        (∀ early ∈ front, Waits parse vlogIsOn loginToken early) ∧
        ¬ Waits parse vlogIsOn loginToken reply ∧
        (Enables parse loginToken reply ∧
            awaitEnabled parse vlogIsOn loginToken replies = .ok true ∨
          ¬ Enables parse loginToken reply ∧
            ∃ fault, awaitEnabled parse vlogIsOn loginToken replies = .error fault) := by
  rcases all_wait_or_first parse vlogIsOn loginToken replies with
    all | ⟨front, reply, back, rfl, early, first⟩
  · exact .inl ⟨all, awaitEnabled_of_all all⟩
  · refine .inr ⟨front, reply, back, rfl, early, first, ?_⟩
    rw [awaitEnabled_append early]
    exact awaitEnabled_first back first

theorem awaitEnabled_eq_true_iff (replies : List (Option Bytes)) :
    awaitEnabled parse vlogIsOn loginToken replies = .ok true ↔
      ∃ front reply back, replies = front ++ reply :: back ∧
        (∀ early ∈ front, Waits parse vlogIsOn loginToken early) ∧
        Enables parse loginToken reply := by
  constructor
  · intro left
    rcases awaitEnabled_first_cases parse vlogIsOn loginToken replies with
      ⟨_, waiting⟩ | ⟨front, reply, back, split, early, _, ⟨enables, _⟩ | ⟨_, fault, ended⟩⟩
    · rw [waiting] at left
      cases left
    · exact ⟨front, reply, back, split, early, enables⟩
    · rw [ended] at left
      cases left
  · rintro ⟨front, reply, back, rfl, early, enables⟩
    rw [awaitEnabled_append early]
    rcases awaitEnabled_first back enables.not_waits with ⟨_, left⟩ | ⟨notEnables, _⟩
    · exact left
    · exact absurd enables notEnables

theorem awaitEnabled_eq_error_iff (replies : List (Option Bytes)) :
    (∃ fault, awaitEnabled parse vlogIsOn loginToken replies = .error fault) ↔
      ∃ front reply back, replies = front ++ reply :: back ∧
        (∀ early ∈ front, Waits parse vlogIsOn loginToken early) ∧
        ¬ Waits parse vlogIsOn loginToken reply ∧ ¬ Enables parse loginToken reply := by
  constructor
  · rintro ⟨fault, ended⟩
    rcases awaitEnabled_first_cases parse vlogIsOn loginToken replies with
      ⟨_, waiting⟩ | ⟨front, reply, back, split, early, first, ⟨_, left⟩ | ⟨notEnables, _⟩⟩
    · rw [waiting] at ended
      cases ended
    · rw [left] at ended
      cases ended
    · exact ⟨front, reply, back, split, early, first, notEnables⟩
  · rintro ⟨front, reply, back, rfl, early, first, notEnables⟩
    rw [awaitEnabled_append early]
    rcases awaitEnabled_first back first with ⟨enables, _⟩ | ⟨_, ended⟩
    · exact absurd enables notEnables
    · exact ended

theorem awaitEnabled_eq_false_iff (replies : List (Option Bytes)) :
    awaitEnabled parse vlogIsOn loginToken replies = .ok false ↔
      ∀ reply ∈ replies, Waits parse vlogIsOn loginToken reply := by
  constructor
  · intro waiting
    rcases awaitEnabled_first_cases parse vlogIsOn loginToken replies with
      ⟨all, _⟩ | ⟨_, _, _, _, _, _, ⟨_, left⟩ | ⟨_, fault, ended⟩⟩
    · exact all
    · rw [left] at waiting
      cases waiting
    · rw [ended] at waiting
      cases waiting
  · exact awaitEnabled_of_all

/-- **When the daemon goes on.** The loop is left exactly when some reply enables the
device and every reply before it is a wait, and the program ends in it exactly when
some reply is neither and every reply before it is a wait. Otherwise it waits. -/
theorem awaitEnabled_cases (parse : Bytes → Option Json) (vlogIsOn : Bool) (loginToken : Bytes)
    (replies : List (Option Bytes)) :
    (awaitEnabled parse vlogIsOn loginToken replies = .ok true ↔
        ∃ front reply back, replies = front ++ reply :: back ∧
          (∀ early ∈ front, Waits parse vlogIsOn loginToken early) ∧
          Enables parse loginToken reply) ∧
      ((∃ fault, awaitEnabled parse vlogIsOn loginToken replies = .error fault) ↔
        ∃ front reply back, replies = front ++ reply :: back ∧
          (∀ early ∈ front, Waits parse vlogIsOn loginToken early) ∧
          ¬ Waits parse vlogIsOn loginToken reply ∧ ¬ Enables parse loginToken reply) ∧
      (awaitEnabled parse vlogIsOn loginToken replies = .ok false ↔
        ∀ reply ∈ replies, Waits parse vlogIsOn loginToken reply) :=
  ⟨awaitEnabled_eq_true_iff replies, awaitEnabled_eq_error_iff replies,
    awaitEnabled_eq_false_iff replies⟩

end Loop

/-! ## The command -/

section Info

variable {parse : Bytes → Option Json} {vlogIsOn : Bool} {loginToken : Bytes}

theorem returns_bind_iff {α β : Type} {call : Except Fault α} {next : α → Except Fault β} :
    Returns (call >>= next) ↔ ∃ value, call = .ok value ∧ Returns (next value) := by
  cases call with
  | error fault =>
      exact iff_of_false (not_returns_error fault) fun ⟨_, impossible, _⟩ => by cases impossible
  | ok value => simp only [Except.ok.injEq, exists_eq_left']; rfl

/-- A call whose value is used in what is returned next. -/
theorem returns_bind_of_forall {α β : Type} {call : Except Fault α} {next : α → Except Fault β}
    {Rest : Prop} (rest : ∀ value, Returns (next value) ↔ Rest) :
    Returns (call >>= next) ↔ Returns call ∧ Rest := by
  rw [returns_bind_iff, Returns]
  simp only [rest, exists_and_right]

theorem isEnabled_returns_iff (reply : Option Bytes) :
    Returns (isEnabled parse vlogIsOn loginToken reply) ↔
      Enables parse loginToken reply ∨ Waits parse vlogIsOn loginToken reply := by
  rw [← isEnabled_eq_true_iff vlogIsOn, ← isEnabled_eq_false_iff, Returns]
  exact Bool.exists_bool.trans or_comm

/-- The text is written when the body holds the four strings and the second reply is
answered. -/
theorem deviceText_returns_iff {model : JsonModel} {members : Members}
    (node : model.valueNode = .ok (.object members)) (reply : Option Bytes) :
    Returns (deviceText parse vlogIsOn loginToken reply model) ↔
      (StringMember (utf8 "client_id") members ∧ StringMember (utf8 "machine_id") members ∧
        StringMember (utf8 "ip_address") members ∧ StringMember (utf8 "register_by") members) ∧
      (Enables parse loginToken reply ∨ Waits parse vlogIsOn loginToken reply) := by
  have read (key : Bytes) := requireValue_returns_iff node key
  refine (returns_bind_of_forall fun deviceId => returns_bind_of_forall fun enabled =>
    returns_bind_of_forall fun machineId => returns_bind_of_forall fun deviceIp =>
      returns_bind_pure).trans ?_
  rw [JsonModel.clientId, JsonModel.machineId, JsonModel.deviceIp, JsonModel.registerUser, read,
    read, read, read, isEnabled_returns_iff]
  tauto

theorem infoCommand_of_text {context : DeviceContext} {text : Bytes} (enabledReply : Option Bytes)
    (token : context.loginToken ≠ []) (content : cString text ≠ []) :
    infoCommand parse vlogIsOn context [] (some text) enabledReply = (do
      let response ← ofBuffer parse (some text)
      if ← response.success then
        deviceText parse vlogIsOn context.loginToken enabledReply response
      else
        response.logMessage vlogIsOn
        throw .nullPointer) := by
  simp only [infoCommand, ne_eq, not_true_eq_false, if_false, deviceInfo, if_neg token,
    if_neg content]
  cases ofBuffer parse (some text) with
  | error fault => rfl
  | ok response =>
      change (response.success >>= _) >>= _ = response.success >>= _
      cases response.success with
      | error fault => rfl
      | ok accepted =>
          cases accepted with
          | true => rfl
          | false =>
              change (response.logMessage vlogIsOn >>= _) >>= _ =
                response.logMessage vlogIsOn >>= _
              cases response.logMessage vlogIsOn <;> rfl

/-- A condition that does not depend on the body. -/
theorem shaped_and_iff {onSuccess : Members → Prop} {Other : Prop} (content : Json) :
    Shaped (fun body => onSuccess body ∧ Other) (fun _ => False) content ↔
      Shaped onSuccess (fun _ => False) content ∧ Other := by
  cases content with
  | object members =>
      rw [Shaped, Shaped]
      cases members.lookup (utf8 "success") with
      | none => exact iff_of_false id And.left
      | some flag =>
          cases members.lookup (utf8 "responseBody") with
          | none => exact iff_of_false id And.left
          | some body =>
              cases flag with
              | bool value =>
                  cases body with
                  | object inner => cases value <;> simp [JudgedBody]
                  | null | bool | integer | double | string | array =>
                      exact iff_of_false id And.left
              | null | integer | double | string | array | object =>
                  exact iff_of_false id And.left
  | null | bool | integer | double | string | array => exact iff_of_false id And.left

/-- A null pointer is dereferenced after a reported failure. -/
theorem refused_not_returns (model : JsonModel) :
    ¬ Returns (do
        model.logMessage vlogIsOn
        throw .nullPointer : Except Fault Bytes) := by
  rw [returns_bind_iff]
  rintro ⟨_, _, returns⟩
  exact not_returns_error _ returns

/-- **When `INFO` returns.** Without arguments it returns exactly when the device has
a token, the first reply is a success with the four strings it writes, and the second
one enables the device or is a wait; otherwise it ends the daemon. -/
theorem info_returns_iff (parse : Bytes → Option Json) (vlogIsOn : Bool) (context : DeviceContext)
    (args : List Bytes) (infoReply enabledReply : Option Bytes) :
    Returns (infoCommand parse vlogIsOn context args infoReply enabledReply) ↔
      args ≠ [] ∨
        context.loginToken ≠ [] ∧
        (∃ text, infoReply = some text ∧ cString text ≠ []) ∧
        DeviceShape (document parse infoReply) ∧
        (Enables parse context.loginToken enabledReply ∨
          Waits parse vlogIsOn context.loginToken enabledReply) := by
  by_cases noArgs : args = []
  · subst noArgs
    rw [or_iff_right (not_not_intro rfl)]
    by_cases token : context.loginToken = []
    · simp only [infoCommand, deviceInfo, if_pos token]
      exact iff_of_false (not_returns_error _) fun answer => answer.1 token
    · rw [ne_eq, and_iff_right token]
      cases infoReply with
      | none =>
          simp only [infoCommand, deviceInfo, if_neg token]
          exact iff_of_false (not_returns_error _) fun ⟨⟨_, impossible, _⟩, _⟩ => by
            cases impossible
      | some text =>
          simp only [Option.some.injEq, exists_eq_left']
          by_cases content : cString text = []
          · simp only [infoCommand, deviceInfo, if_neg token, if_pos content]
            exact iff_of_false (not_returns_error _) fun answer => answer.1 content
          · rw [infoCommand_of_text enabledReply token content, and_iff_right content]
            rw [DeviceShape, ← shaped_and_iff]
            refine judged_iff (not_returns_error _) ?_ ?_ ?_ ?_
            · intro model members node
              exact deviceText_returns_iff node enabledReply
            · intro model members _
              exact iff_of_false (refused_not_returns model) id
            · intro model node isNode other
              rw [deviceText, JsonModel.clientId, requireValue_of_not_object isNode other]
              exact not_returns_error _
            · intro model _ _ _
              exact refused_not_returns model
  · exact iff_of_true (by rw [infoCommand, if_pos noArgs]; exact returns_ok _) (.inl noArgs)

end Info

end DeviceInfo

end P2PFileSync
