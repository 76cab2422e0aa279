import P2PFileSync.ManagementApi.Replies
import P2PFileSync.Utils.AddressForms

/-!
# The list of known hosts

`main` reads the flag `host` piece by piece from a string stream, up to the next comma
each time, and ends the program on a piece that is not an address. The stream is good
until a piece has reached its end, so a comma at the end of the list stands before an
empty piece, and so does an empty list.

A list is accepted exactly when every piece between the commas is an address
(`knownHosts_eq_ok_iff`), and a list of printed addresses is read back as these
addresses (`knownHosts_print`).
-/

set_option autoImplicit false

namespace P2PFileSync

open RegexForms RegularExpression

/-! ## The model -/

/-- `getline(ip_list, substr, ',')`: the piece, and what the stream holds after it while
it is good. -/
def getline : Bytes → Bytes × Option Bytes
  | [] => ([], none)
  | c :: rest =>
      if c = 44 then ([], some rest) else ((c :: (getline rest).1), (getline rest).2)

/-- A piece is left of what the stream held. -/
theorem getline_length {ipList rest : Bytes} (good : (getline ipList).2 = some rest) :
    rest.length < ipList.length := by
  induction ipList with
  | nil => cases good
  | cons c ipList ih =>
      rw [getline] at good
      by_cases comma : c = 44
      · rw [if_pos comma] at good
        cases good
        exact Nat.lt_succ_self _
      · rw [if_neg comma] at good
        exact Nat.lt_succ_of_lt (ih good)

section Model

variable (patterns : AddressPatterns)

/-- One pass of the loop: the host it adds. -/
def readHost (substr : Bytes) : Except Fault IPAddress :=
  match IPAddress.ofString patterns substr with
  | none => .error .conversion
  | some ip => if ip.valid then .ok ip else .error .fatal

/-- The loop of `main` over the stream. -/
def knownHosts (ipList : Bytes) : Except Fault (List IPAddress) := do
  let host ← readHost patterns (getline ipList).1
  match _ : (getline ipList).2 with
  | none => return [host]
  | some rest => return host :: (← knownHosts rest)
termination_by ipList.length
decreasing_by exact getline_length ‹_›

end Model

/-! ## The pieces -/

/-- The pieces are those between the commas. -/
theorem splitOn_eq_getline (ipList : Bytes) :
    ipList.splitOn 44 =
      (getline ipList).1 ::
        match (getline ipList).2 with
        | none => []
        | some rest => rest.splitOn 44 := by
  induction ipList with
  | nil => rfl
  | cons c ipList ih =>
      rw [getline, List.splitOn_eq_splitOnP, List.splitOnP_cons_eq_if_modifyHead,
        ← List.splitOn_eq_splitOnP]
      by_cases comma : c = 44
      · subst comma
        rfl
      · rw [if_neg comma, if_neg (by simpa using comma), ih]
        rfl

section Pieces

variable {patterns : AddressPatterns}

theorem knownHosts_eq_mapM (ipList : Bytes) :
    knownHosts patterns ipList = (ipList.splitOn 44).mapM (readHost patterns) := by
  induction ipList using (measure List.length).wf.induction with
  | _ ipList ih =>
      rw [knownHosts, splitOn_eq_getline, List.mapM_cons]
      cases readHost patterns (getline ipList).1 with
      | error fault => rfl
      | ok host =>
          change (match _ : (getline ipList).2 with
            | none => _
            | some rest => _) = _
          split
          · rename_i last
            rw [last]
            rfl
          · rename_i rest more
            rw [more, ih rest (getline_length more)]
            rfl

theorem readHost_eq_ok_iff {substr : Bytes} {host : IPAddress} :
    readHost patterns substr = .ok host ↔
      IPAddress.ofString patterns substr = some host ∧ host.valid = true := by
  rw [readHost]
  cases IPAddress.ofString patterns substr with
  | none =>
      exact iff_of_false (fun impossible => by cases impossible)
        (fun impossible => by cases impossible.1)
  | some ip =>
      by_cases valid : ip.valid = true
      · simp only [if_pos valid, Except.ok.injEq, Option.some.injEq]
        exact ⟨fun same => ⟨same, same ▸ valid⟩, And.left⟩
      · simp only [if_neg valid, Option.some.injEq]
        refine iff_of_false (fun impossible => by cases impossible) ?_
        rintro ⟨rfl, isValid⟩
        exact valid isValid

/-- A call for every item returned when each of them did. -/
theorem mapM_eq_ok_iff {α β : Type} {call : α → Except Fault β} {items : List α}
    {values : List β} :
    items.mapM call = .ok values ↔ List.Forall₂ (fun item value => call item = .ok value)
      items values := by
  induction items generalizing values with
  | nil =>
      rw [List.mapM_nil, List.forall₂_nil_left_iff]
      exact ⟨fun same => by cases same; rfl, fun same => by rw [same]; rfl⟩
  | cons item items ih =>
      rw [List.mapM_cons, List.forall₂_cons_left_iff]
      cases first : call item with
      | error fault =>
          exact iff_of_false (fun impossible => by cases impossible)
            (fun ⟨_, _, impossible, _⟩ => by cases impossible)
      | ok value =>
          simp only [Except.ok.injEq]
          cases rest : items.mapM call with
          | error fault =>
              refine iff_of_false (fun impossible => by cases impossible) ?_
              rintro ⟨_, others, _, all, _⟩
              rw [ih.mpr all] at rest
              cases rest
          | ok others =>
              constructor
              · rintro ⟨⟩
                exact ⟨value, others, rfl, ih.mp rest, rfl⟩
              · rintro ⟨_, _, rfl, all, rfl⟩
                rw [ih.mpr all] at rest
                cases rest
                rfl

/-- **Which lists are accepted.** The hosts are those of the pieces between the commas,
in order, and every piece is an address. -/
theorem knownHosts_eq_ok_iff (patterns : AddressPatterns) (ipList : Bytes)
    (hosts : List IPAddress) :
    knownHosts patterns ipList = .ok hosts ↔
      List.Forall₂ (fun substr host =>
        IPAddress.ofString patterns substr = some host ∧ host.valid = true)
        (ipList.splitOn 44) hosts := by
  rw [knownHosts_eq_mapM, mapM_eq_ok_iff]
  simp only [readHost_eq_ok_iff]

end Pieces

/-! ## Printed lists -/

/-- A printed IPv4 address holds no comma. -/
theorem comma_notMem_print {host : IPAddress}
    (isAddress : host.ipAddressStr ∈ ipv4Address.matches') : 44 ∉ host.print := by
  have noComma : 44 ∉ letters ipv4Address := by decide +kernel
  have colon : utf8 ":" = [58] := by decide
  rw [IPAddress.print, colon, List.mem_append, List.mem_append]
  rintro ((inAddress | inColon) | inPort)
  · exact noComma (mem_letters isAddress 44 inAddress)
  · exact absurd inColon (by decide)
  · exact absurd (isDigit_of_mem_decimalText 44 inPort) (by decide)

/-- **A printed list is read back.** A list of valid IPv4 addresses, printed with commas
between them, is accepted as these addresses exactly if it is not empty. -/
theorem knownHosts_print {hosts : List IPAddress}
    (valid : ∀ host ∈ hosts, host.valid = true ∧ host.ipAddressStr ∈ ipv4Address.matches') :
    knownHosts addressPatterns (List.intercalate [44] (hosts.map IPAddress.print)) = .ok hosts ↔
      hosts ≠ [] := by
  rw [knownHosts_eq_ok_iff]
  constructor
  · rintro read rfl
    cases read
  · intro nonempty
    rw [List.splitOn_intercalate]
    · rw [List.forall₂_map_left_iff, List.forall₂_same]
      intro host member
      obtain ⟨isValid, isAddress⟩ := valid host member
      have read := ofString_print isAddress host.valid host.portNumber
      refine ⟨read.trans ?_, isValid⟩
      rw [← isValid]
    · intro piece member
      obtain ⟨host, listed, rfl⟩ := List.mem_map.mp member
      exact comma_notMem_print (valid host listed).2
    · rw [ne_eq, List.map_eq_nil_iff]
      exact nonempty

def sampleHosts : List IPAddress := [⟨true, 1224, utf8 "127.0.0.1"⟩, ⟨true, 80, utf8 "10.0.0.2"⟩]

theorem knownHosts_print_two :
    List.intercalate [44] (sampleHosts.map IPAddress.print) = utf8 "127.0.0.1:1224,10.0.0.2:80" ∧
      knownHosts addressPatterns (List.intercalate [44] (sampleHosts.map IPAddress.print)) =
        .ok sampleHosts := by
  refine ⟨by decide +kernel, (knownHosts_print ?_).mpr (List.cons_ne_nil _ _)⟩
  intro host member
  simp only [sampleHosts, List.mem_cons, List.not_mem_nil, or_false] at member
  rcases member with rfl | rfl
  · exact ⟨rfl, (rmatch_iff_matches' _ _).mp (by decide +kernel)⟩
  · exact ⟨rfl, (rmatch_iff_matches' _ _).mp (by decide +kernel)⟩

end P2PFileSync
