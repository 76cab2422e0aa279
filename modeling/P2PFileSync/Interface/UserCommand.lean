import P2PFileSync.ManagementApi.Replies

/-!
# The USER command

`USER LOGIN`, `USER INFO` and `USER LOGOUT` act on the user context of the
connection, which remembers whether a user is logged in. Each makes at most one
request to the management server, and the reply decides whether a login counts.

One command does nothing that the server sees, or one thing that may come in a
session of one user after another: details and a logout only after a login that it
accepted for the same email, and no login before the next logout (`exec_does`).
-/

set_option autoImplicit false

namespace P2PFileSync

open JsonModel

namespace UserCommand

/-- The requests of `UserContextImpl`, with the body of the one that has one. -/
inductive Request where
  | login (body : Bytes)
  | detail
  | logout
  deriving DecidableEq

/-- What one `exec` leaves: its output, the login flag and the request it made. -/
structure Result where
  output : Bytes
  loggedIn : Bool
  request : Option Request

/-- The body of the login request, which ends at the first zero byte. -/
def loginBody (email password : Bytes) : Bytes :=
  cString (utf8 "email=" ++ email ++ utf8 "&password=" ++ password)

/-- What `USER INFO` writes; the list of groups is always empty. -/
def infoText (name email : Bytes) : Bytes :=
  utf8 "User info:\n  name: " ++ name ++ utf8 "\n  email: " ++ email ++
    utf8 "\n  group: \n    id   name           description         \n"

section

variable (parse : Bytes → Option Json)

/-- `exec`, with the reply to its request if it makes one. -/
def exec (loggedIn : Bool) (args : List Bytes) (reply : Option Bytes) : Except Fault Result :=
  match args with
  | [] => return ⟨utf8 "Usage: USER [COMMAND] [OPTIONS]", loggedIn, none⟩
  | command :: options =>
      if command = utf8 "LOGIN" then
        match options with
        | email :: password :: _ =>
            if loggedIn then return ⟨utf8 "You are already logged in.", loggedIn, none⟩
            else do
              let (answer, loggedIn) ← login parse loggedIn email reply
              return ⟨if answer.1 then utf8 "Login successful."
                else utf8 "login failed: " ++ answer.2, loggedIn,
                some (.login (loginBody email password))⟩
        | _ => return ⟨utf8 "Usage: USER LOGIN <email> <password>", loggedIn, none⟩
      else if command = utf8 "INFO" then
        if options ≠ [] then return ⟨utf8 "Usage: USER INFO", loggedIn, none⟩
        else if loggedIn then do
          let (name, email) ← userInfo parse reply
          return ⟨infoText name email, loggedIn, some .detail⟩
        else return ⟨utf8 "You are not logged in.", loggedIn, none⟩
      else if command = utf8 "LOGOUT" then
        if options ≠ [] then return ⟨utf8 "Usage: USER LOGOUT", loggedIn, none⟩
        else if loggedIn then return ⟨[], false, some .logout⟩
        else return ⟨utf8 "You are not logged in.", loggedIn, none⟩
      else return ⟨utf8 "Unknown command: " ++ command, loggedIn, none⟩

/-- The server accepted a login of this email. -/
def Accepted (reply : Option Bytes) (email : Bytes) : Prop :=
  ∃ response, ofBuffer parse reply = .ok response ∧ response.success = .ok true ∧
    response.email = .ok email

end

/-! ## The protocol -/

/-- What happens in a session, as the server sees it. -/
inductive Event where
  | login (email password : Bytes) (accepted : Bool)
  | detail
  | logout

/-- The request behind an event. -/
def Event.request : Event → Request
  | .login email password _ => .login (loginBody email password)
  | .detail => .detail
  | .logout => .logout

/-- The events that may follow each other, from the user who is logged in to the
one who is logged in after them. -/
inductive Protocol : Option Bytes → List Event → Option Bytes → Prop where
  | done (user : Option Bytes) : Protocol user [] user
  | refused {email password : Bytes} {events : List Event} {after : Option Bytes}
      (rest : Protocol none events after) :
      Protocol none (.login email password false :: events) after
  | accepted {email password : Bytes} {events : List Event} {after : Option Bytes}
      (rest : Protocol (some email) events after) :
      Protocol none (.login email password true :: events) after
  | detail {email : Bytes} {events : List Event} {after : Option Bytes}
      (rest : Protocol (some email) events after) :
      Protocol (some email) (.detail :: events) after
  | logout {email : Bytes} {events : List Event} {after : Option Bytes}
      (rest : Protocol none events after) : Protocol (some email) (.logout :: events) after

theorem Protocol.append {user middle after : Option Bytes} {events more : List Event}
    (first : Protocol user events middle) (second : Protocol middle more after) :
    Protocol user (events ++ more) after := by
  induction first with
  | done => exact second
  | refused _ ih => exact .refused (ih second)
  | accepted _ ih => exact .accepted (ih second)
  | detail _ ih => exact .detail (ih second)
  | logout _ ih => exact .logout (ih second)

/-- One command of a session: the words behind its name, what the server replies if
it is asked, and what the command leaves. -/
structure Turn where
  args : List Bytes
  reply : Option Bytes
  result : Result

/-- The turns in which the server is asked. -/
def asking (turns : List Turn) : List Turn := turns.filter fun turn => turn.result.request.isSome

variable (parse : Bytes → Option Json) in
/-- The event is what happened in the turn: its request is the one of the words, and
a login in it is accepted when the server says so. -/
inductive Tells : Event → Turn → Prop where
  | login {email password : Bytes} {options : List Bytes} {reply : Option Bytes} {result : Result}
      {accepted : Bool} (request : result.request = some (.login (loginBody email password)))
      (judged : accepted = true ↔ Accepted parse reply email) :
      Tells (.login email password accepted)
        ⟨utf8 "LOGIN" :: email :: password :: options, reply, result⟩
  | detail {reply : Option Bytes} {result : Result} (request : result.request = some .detail) :
      Tells .detail ⟨[utf8 "INFO"], reply, result⟩
  | logout {reply : Option Bytes} {result : Result} (request : result.request = some .logout) :
      Tells .logout ⟨[utf8 "LOGOUT"], reply, result⟩

variable {parse : Bytes → Option Json}

theorem Tells.asks {event : Event} {turn : Turn} (tells : Tells parse event turn) :
    turn.result.request.isSome = true := by
  cases tells with
  | login request | detail request | logout request =>
      dsimp only
      rw [request]
      rfl

/-! ## One command -/

/-- A call that returned went through its first part and its second one. -/
theorem exists_of_bind_eq_ok {α β : Type} {call : Except Fault α} {next : α → Except Fault β}
    {result : β} (returned : call >>= next = .ok result) :
    ∃ value, call = .ok value ∧ next value = .ok result := by
  cases call with
  | error fault => cases returned
  | ok value => exact ⟨value, rfl, returned⟩

/-- A login that returns counts exactly when the server accepted it. -/
theorem login_accepted {email : Bytes} {reply : Option Bytes} {answer : Bool × Bytes}
    {loggedIn : Bool} (returned : login parse false email reply = .ok (answer, loggedIn)) :
    loggedIn = true ↔ Accepted parse reply email := by
  rw [login, if_neg Bool.false_ne_true] at returned
  obtain ⟨response, parsed, returned⟩ := exists_of_bind_eq_ok returned
  obtain ⟨accepted, success, returned⟩ := exists_of_bind_eq_ok returned
  have only : Accepted parse reply email ↔ accepted = true ∧ response.email = .ok email := by
    constructor
    · rintro ⟨other, same, judged, named⟩
      cases parsed.symm.trans same
      cases success.symm.trans judged
      exact ⟨rfl, named⟩
    · rintro ⟨rfl, named⟩
      exact ⟨response, parsed, success, named⟩
  rw [only]
  cases accepted with
  | false =>
      obtain ⟨message, -, outcome⟩ := exists_of_bind_eq_ok returned
      cases outcome
      simp
  | true =>
      obtain ⟨address, named, returned⟩ := exists_of_bind_eq_ok returned
      by_cases same : address = email
      · rw [if_pos same] at returned
        cases returned
        simp [named, same]
      · rw [if_neg same] at returned
        obtain ⟨message, -, outcome⟩ := exists_of_bind_eq_ok returned
        cases outcome
        simp [named, same]

variable (parse) in
/-- What one command does to the session of the user: nothing, or one event that may
come in it. -/
inductive Does (user : Option Bytes) (turn : Turn) : Prop where
  | nothing (silent : turn.result.request = none) (same : turn.result.loggedIn = user.isSome)
  | event {event : Event} {after : Option Bytes} (comes : Protocol user [event] after)
      (tells : Tells parse event turn) (flag : turn.result.loggedIn = after.isSome)

/-- A login that returns. -/
theorem login_does {email password : Bytes} {options : List Bytes} {reply : Option Bytes}
    {answer : Bool × Bytes} {loggedIn : Bool} {output : Bytes}
    (returned : login parse false email reply = .ok (answer, loggedIn)) :
    Does parse none ⟨utf8 "LOGIN" :: email :: password :: options, reply,
      ⟨output, loggedIn, some (.login (loginBody email password))⟩⟩ := by
  have judged := login_accepted returned
  cases loggedIn with
  | false => exact .event (.refused (.done _)) (.login rfl judged) rfl
  | true => exact .event (.accepted (.done _)) (.login rfl judged) rfl

theorem exec_does {user : Option Bytes} {args : List Bytes} {reply : Option Bytes}
    {result : Result} (returned : exec parse user.isSome args reply = .ok result) :
    Does parse user ⟨args, reply, result⟩ := by
  unfold exec at returned
  cases args with
  | nil =>
      cases returned
      exact .nothing rfl rfl
  | cons command options =>
      simp only at returned
      by_cases isLogin : command = utf8 "LOGIN"
      · subst isLogin
        simp only [if_true] at returned
        match options, returned with
        | [], returned =>
            cases returned
            exact .nothing rfl rfl
        | [_], returned =>
            cases returned
            exact .nothing rfl rfl
        | email :: password :: _, returned =>
            cases user with
            | some name =>
                cases returned
                exact .nothing rfl rfl
            | none =>
                obtain ⟨⟨answer, after⟩, answered, outcome⟩ := exists_of_bind_eq_ok returned
                cases outcome
                exact login_does answered
      · simp only [if_neg isLogin] at returned
        by_cases isInfo : command = utf8 "INFO"
        · subst isInfo
          simp only [if_true] at returned
          by_cases more : options = []
          · simp only [more, ne_eq, not_true_eq_false, if_false] at returned ⊢
            cases user with
            | none =>
                cases returned
                exact .nothing rfl rfl
            | some name =>
                obtain ⟨info, -, outcome⟩ := exists_of_bind_eq_ok returned
                cases outcome
                exact .event (.detail (.done _)) (.detail rfl) rfl
          · simp only [ne_eq, more, not_false_eq_true, if_true] at returned
            cases returned
            exact .nothing rfl rfl
        · simp only [if_neg isInfo] at returned
          by_cases isLogout : command = utf8 "LOGOUT"
          · subst isLogout
            simp only [if_true] at returned
            by_cases more : options = []
            · simp only [more, ne_eq, not_true_eq_false, if_false] at returned ⊢
              cases user with
              | none =>
                  cases returned
                  exact .nothing rfl rfl
              | some name =>
                  cases returned
                  exact .event (.logout (.done _)) (.logout rfl) rfl
            · simp only [ne_eq, more, not_false_eq_true, if_true] at returned
              cases returned
              exact .nothing rfl rfl
          · simp only [if_neg isLogout] at returned
            cases returned
            exact .nothing rfl rfl

end UserCommand

end P2PFileSync
