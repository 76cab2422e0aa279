import P2PFileSync.Utils.AddressForms

/-!
# The addresses a device registers

`register_client` joins the addresses of the configured interface with commas. It
leaves the comma out behind a pair that equals the last one of all interfaces, so
the text is right only if that pair is of the interface and is repeated nowhere
(`registeredIp_sends_iff`).
-/

set_option autoImplicit false

namespace P2PFileSync

/-! ## Parts with a mark -/

section MarkedParts

universe u

variable {α : Type u}

/-- Parts one after another, with the separator behind those that are marked. -/
def joinMarked (sep : α) (parts : List (List α × Bool)) : List α :=
  parts.flatMap fun part => part.1 ++ if part.2 then [sep] else []

/-- Every mark but the last one is set. -/
def SetBeforeLast (marks : List Bool) : Prop :=
  (∀ mark ∈ marks.dropLast, mark = true) ∧ ∀ mark ∈ marks.getLast?, mark = false

theorem setBeforeLast_nil : SetBeforeLast [] := by
  simp [SetBeforeLast]

theorem setBeforeLast_concat {marks : List Bool} {mark : Bool} :
    SetBeforeLast (marks ++ [mark]) ↔ (∀ earlier ∈ marks, earlier = true) ∧ mark = false := by
  simp [SetBeforeLast]

theorem setBeforeLast_cons_cons {mark next : Bool} {marks : List Bool} :
    SetBeforeLast (mark :: next :: marks) ↔ mark = true ∧ SetBeforeLast (next :: marks) := by
  simp [SetBeforeLast, and_assoc]

/-- What follows an unmarked part does not start with the separator. -/
theorem joinMarked_ne_cons {sep : α} {part : List α × Bool} (parts : List (List α × Bool))
    (nonempty : part.1 ≠ []) (free : sep ∉ part.1) (text : List α) :
    joinMarked sep (part :: parts) ≠ sep :: text := by
  obtain ⟨content, mark⟩ := part
  cases content with
  | nil => exact absurd rfl nonempty
  | cons first content =>
      intro same
      have heads : first = sep := (List.cons.inj same).1
      exact free (heads ▸ List.mem_cons_self)

/-- Marked parts are a list with separators exactly if every part but the last one
is marked. -/
theorem joinMarked_eq_intercalate_iff (sep : α) {parts : List (List α × Bool)}
    (nonempty : ∀ part ∈ parts, part.1 ≠ []) (free : ∀ part ∈ parts, sep ∉ part.1) :
    joinMarked sep parts = [sep].intercalate (parts.map Prod.fst) ↔
      SetBeforeLast (parts.map Prod.snd) := by
  induction parts with
  | nil => exact iff_of_true rfl setBeforeLast_nil
  | cons part parts ih =>
      cases parts with
      | nil =>
          obtain ⟨content, mark⟩ := part
          cases mark <;> simp [joinMarked, SetBeforeLast]
      | cons next parts =>
          have later := ih (fun other member => nonempty other (List.mem_cons_of_mem _ member))
            fun other member => free other (List.mem_cons_of_mem _ member)
          obtain ⟨content, mark⟩ := part
          have unfolded : joinMarked sep ((content, mark) :: next :: parts) =
              content ++ ((if mark then [sep] else []) ++ joinMarked sep (next :: parts)) := by
            rw [joinMarked, List.flatMap_cons, List.append_assoc, joinMarked]
          rw [unfolded, List.map_cons, List.map_cons, List.map_cons, List.map_cons,
            setBeforeLast_cons_cons, List.intercalate_cons_cons, List.append_assoc,
            List.append_right_inj]
          cases mark with
          | true =>
              rw [if_pos rfl, List.append_right_inj, and_iff_right rfl]
              exact later
          | false =>
              refine iff_of_false ?_ fun both => Bool.false_ne_true both.1
              exact joinMarked_ne_cons parts (nonempty next (by simp)) (free next (by simp)) _

end MarkedParts

/-! ## The model -/

/-- A pair of `getIPAddresses`: the name of an interface and an address. -/
abbrev InterfaceAddress := Bytes × Bytes

variable (p2pListenInterface : Bytes) (p2pListenPort : UInt16)

/-- The text of one pair. -/
def addressEntry (ip : InterfaceAddress) : Bytes := ip.2 ++ utf8 ":" ++ decimalText p2pListenPort.toNat

/-- The text that `register_client` passes to `setIPAddress`. -/
def registeredIp (localIp : List InterfaceAddress) : Bytes :=
  localIp.flatMap fun ip =>
    if ip.1 = p2pListenInterface then
      addressEntry p2pListenPort ip ++ if some ip ≠ localIp.getLast? then utf8 "," else []
    else []

/-- The pairs of the configured interface. -/
def selectedPairs (localIp : List InterfaceAddress) : List InterfaceAddress :=
  localIp.filter (·.1 = p2pListenInterface)

/-- The text is the list of the selected entries with commas between them, which
gives the entries back if there is one. -/
structure SendsSelection (localIp : List InterfaceAddress) : Prop where
  joined : registeredIp p2pListenInterface p2pListenPort localIp =
    [44].intercalate
      ((selectedPairs p2pListenInterface localIp).map (addressEntry p2pListenPort))
  split : selectedPairs p2pListenInterface localIp ≠ [] →
    (registeredIp p2pListenInterface p2pListenPort localIp).splitOn 44 =
      (selectedPairs p2pListenInterface localIp).map (addressEntry p2pListenPort)
  empty : selectedPairs p2pListenInterface localIp = [] →
    registeredIp p2pListenInterface p2pListenPort localIp = []

/-! ## When the commas are right -/

section Commas

variable {p2pListenInterface p2pListenPort}

theorem addressEntry_ne_nil (ip : InterfaceAddress) : addressEntry p2pListenPort ip ≠ [] := by
  rw [addressEntry, List.append_assoc]
  exact List.append_ne_nil_of_right_ne_nil _ (List.append_ne_nil_of_right_ne_nil _
    (decimalText_ne_nil p2pListenPort.toNat))

theorem comma_notMem_addressEntry {ip : InterfaceAddress} (noComma : 44 ∉ ip.2) :
    44 ∉ addressEntry p2pListenPort ip := by
  rw [addressEntry, List.mem_append, List.mem_append, not_or, not_or]
  refine ⟨⟨noComma, by decide⟩, ?_⟩
  intro member
  exact absurd (isDigit_of_mem_decimalText 44 member) (by decide)

variable (p2pListenPort) in
/-- Selected pairs with the marks the loop gives them. -/
def markedEntries (last : Option InterfaceAddress) (selected : List InterfaceAddress) :
    List (Bytes × Bool) :=
  selected.map fun ip => (addressEntry p2pListenPort ip, decide (some ip ≠ last))

variable (p2pListenPort) in
theorem markedEntries_fst (last : Option InterfaceAddress) (selected : List InterfaceAddress) :
    (markedEntries p2pListenPort last selected).map Prod.fst =
      selected.map (addressEntry p2pListenPort) :=
  List.map_map

variable (p2pListenPort) in
theorem markedEntries_snd (last : Option InterfaceAddress) (selected : List InterfaceAddress) :
    (markedEntries p2pListenPort last selected).map Prod.snd =
      selected.map fun ip => decide (some ip ≠ last) :=
  List.map_map

theorem selectedPairs_cons_of_eq (address : Bytes) (localIp : List InterfaceAddress) :
    selectedPairs p2pListenInterface ((p2pListenInterface, address) :: localIp) =
      (p2pListenInterface, address) :: selectedPairs p2pListenInterface localIp := by
  simp [selectedPairs]

theorem selectedPairs_cons_of_ne {ip : InterfaceAddress} (other : ip.1 ≠ p2pListenInterface)
    (localIp : List InterfaceAddress) :
    selectedPairs p2pListenInterface (ip :: localIp) =
      selectedPairs p2pListenInterface localIp := by
  simp [selectedPairs, other]

theorem selectedPairs_append (front back : List InterfaceAddress) :
    selectedPairs p2pListenInterface (front ++ back) =
      selectedPairs p2pListenInterface front ++ selectedPairs p2pListenInterface back :=
  List.filter_append ..

theorem mem_selectedPairs {localIp : List InterfaceAddress} {ip : InterfaceAddress} :
    ip ∈ selectedPairs p2pListenInterface localIp ↔ ip ∈ localIp ∧ ip.1 = p2pListenInterface := by
  rw [selectedPairs, List.mem_filter, decide_eq_true_eq]

theorem selectedPairs_eq_nil_iff {localIp : List InterfaceAddress} :
    selectedPairs p2pListenInterface localIp = [] ↔
      ∀ ip ∈ localIp, ip.1 ≠ p2pListenInterface := by
  rw [selectedPairs, List.filter_eq_nil_iff]
  simp only [decide_eq_true_eq, ne_eq]

theorem joinMarked_markedEntries_cons (last : Option InterfaceAddress) (ip : InterfaceAddress)
    (selected : List InterfaceAddress) :
    joinMarked 44 (markedEntries p2pListenPort last (ip :: selected)) =
      (addressEntry p2pListenPort ip ++ if some ip ≠ last then [44] else []) ++
        joinMarked 44 (markedEntries p2pListenPort last selected) := by
  simp [joinMarked, markedEntries]

/-- The loop joins the selected entries with these marks. -/
theorem registeredIp_eq_joinMarked (localIp : List InterfaceAddress) :
    registeredIp p2pListenInterface p2pListenPort localIp =
      joinMarked 44 (markedEntries p2pListenPort localIp.getLast?
        (selectedPairs p2pListenInterface localIp)) := by
  have comma : utf8 "," = [44] := by decide
  rw [registeredIp, comma]
  generalize localIp.getLast? = last
  induction localIp with
  | nil => rfl
  | cons ip localIp ih =>
      rw [List.flatMap_cons, ih]
      obtain ⟨name, address⟩ := ip
      by_cases selected : name = p2pListenInterface
      · subst selected
        rw [if_pos rfl, selectedPairs_cons_of_eq, joinMarked_markedEntries_cons]
      · rw [if_neg selected, List.nil_append, selectedPairs_cons_of_ne selected]

/-- The last pair of all interfaces has no mark. If it is not selected, every entry
has one; if it is, so do the entries that differ from it. -/
theorem marks_iff (localIp : List InterfaceAddress) :
    SetBeforeLast ((selectedPairs p2pListenInterface localIp).map
        fun ip => decide (some ip ≠ localIp.getLast?)) ↔
      (∀ ip ∈ localIp, ip.1 ≠ p2pListenInterface) ∨
        ∃ address, localIp.getLast? = some (p2pListenInterface, address) ∧
          (p2pListenInterface, address) ∉ localIp.dropLast := by
  rcases List.eq_nil_or_concat' localIp with rfl | ⟨front, ⟨name, address⟩, rfl⟩
  · exact iff_of_true setBeforeLast_nil (.inl fun _ impossible => by cases impossible)
  · rw [← selectedPairs_eq_nil_iff, List.getLast?_concat, List.dropLast_concat,
      selectedPairs_append]
    by_cases selected : name = p2pListenInterface
    · subst selected
      have kept : selectedPairs name [(name, address)] = [(name, address)] :=
        selectedPairs_cons_of_eq address []
      rw [kept, List.map_append, List.map_singleton, setBeforeLast_concat, or_iff_right (by simp)]
      constructor
      · rintro ⟨marked, _⟩
        refine ⟨address, rfl, ?_⟩
        intro repeated
        have differs := marked _ (List.mem_map_of_mem (mem_selectedPairs.mpr ⟨repeated, rfl⟩))
        exact absurd rfl (of_decide_eq_true differs)
      · rintro ⟨_, ⟨⟩, unique⟩
        refine ⟨?_, decide_eq_false fun differs => differs rfl⟩
        intro mark member
        obtain ⟨ip, isSelected, rfl⟩ := List.mem_map.mp member
        refine decide_eq_true ?_
        rintro ⟨⟩
        exact unique (mem_selectedPairs.mp isSelected).1
    · have dropped : selectedPairs p2pListenInterface [(name, address)] = [] :=
        selectedPairs_cons_of_ne selected []
      rw [dropped, List.append_nil]
      have marked : ∀ ip ∈ selectedPairs p2pListenInterface front,
          some ip ≠ some (name, address) := by
        rintro ip member ⟨⟩
        exact selected (mem_selectedPairs.mp member).2
      constructor
      · intro marks
        refine .inl ?_
        rcases List.eq_nil_or_concat' (selectedPairs p2pListenInterface front) with
          none | ⟨earlier, ip, isLast⟩
        · exact none
        · rw [isLast, List.map_append, List.map_singleton, setBeforeLast_concat] at marks
          have same := of_decide_eq_false marks.2
          exact absurd (marked ip (isLast ▸ List.mem_append_right _ List.mem_cons_self)) same
      · rintro (none | ⟨_, impossible, _⟩)
        · rw [none]
          exact setBeforeLast_nil
        · cases impossible
          exact absurd rfl selected

end Commas

/-- **The commas are right only if the last pair of all interfaces is selected and
unique.** -/
theorem registeredIp_sends_iff (localIp : List InterfaceAddress)
    (noComma : ∀ ip ∈ localIp, 44 ∉ ip.2) :
    SendsSelection p2pListenInterface p2pListenPort localIp ↔
      (∀ ip ∈ localIp, ip.1 ≠ p2pListenInterface) ∨
        ∃ address, localIp.getLast? = some (p2pListenInterface, address) ∧
          (p2pListenInterface, address) ∉ localIp.dropLast := by
  have free : ∀ ip ∈ selectedPairs p2pListenInterface localIp,
      44 ∉ addressEntry p2pListenPort ip := by
    intro ip member
    exact comma_notMem_addressEntry (noComma ip (mem_selectedPairs.mp member).1)
  have joined_iff : registeredIp p2pListenInterface p2pListenPort localIp =
        [44].intercalate ((selectedPairs p2pListenInterface localIp).map
          (addressEntry p2pListenPort)) ↔
      SetBeforeLast ((selectedPairs p2pListenInterface localIp).map
        fun ip => decide (some ip ≠ localIp.getLast?)) := by
    rw [registeredIp_eq_joinMarked, ← markedEntries_snd p2pListenPort,
      ← joinMarked_eq_intercalate_iff 44, markedEntries_fst]
    · intro part member
      obtain ⟨ip, _, rfl⟩ := List.mem_map.mp member
      exact addressEntry_ne_nil ip
    · intro part member
      obtain ⟨ip, isSelected, rfl⟩ := List.mem_map.mp member
      exact free ip isSelected
  rw [← marks_iff, ← joined_iff]
  constructor
  · exact SendsSelection.joined
  · intro joined
    refine ⟨joined, ?_, ?_⟩
    · intro nonempty
      rw [joined]
      refine List.splitOn_intercalate 44 ?_ (by simpa using nonempty)
      intro text member
      obtain ⟨ip, isSelected, rfl⟩ := List.mem_map.mp member
      exact free ip isSelected
    · intro none
      rw [joined, none]
      rfl

/-- Two addresses of the interface between those of another one. -/
theorem registeredIp_last_selected :
    SendsSelection (utf8 "eth0") 80
      [(utf8 "lo", utf8 "127.0.0.1"), (utf8 "eth0", utf8 "10.0.0.1"), (utf8 "lo", utf8 "127.0.0.2"),
        (utf8 "eth0", utf8 "10.0.0.2")] :=
  (registeredIp_sends_iff _ _ _ (by decide)).mpr (.inr ⟨utf8 "10.0.0.2", by decide, by decide⟩)

/-- Another interface comes last: the text ends with a comma. -/
theorem registeredIp_other_last :
    registeredIp (utf8 "eth0") 80 [(utf8 "eth0", utf8 "10.0.0.1"), (utf8 "lo", utf8 "127.0.0.1")] =
        utf8 "10.0.0.1:80," ∧
      ¬ SendsSelection (utf8 "eth0") 80
        [(utf8 "eth0", utf8 "10.0.0.1"), (utf8 "lo", utf8 "127.0.0.1")] := by
  have sent : registeredIp (utf8 "eth0") 80
      [(utf8 "eth0", utf8 "10.0.0.1"), (utf8 "lo", utf8 "127.0.0.1")] = utf8 "10.0.0.1:80," := by
    decide
  refine ⟨sent, ?_⟩
  intro sends
  have impossible := sends.joined
  rw [sent] at impossible
  exact absurd impossible (by decide)

end P2PFileSync
