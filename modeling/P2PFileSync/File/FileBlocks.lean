import P2PFileSync.File.FileSize

/-!
# Which blocks a call leaves in a file

The batch `replace_block` and `add_and_replace_block` are all or nothing: they
answer false and change nothing where an index has no block, and otherwise make
all their changes and append one commit id. In the batch the last block listed
for an index wins (`lastListed`). In `add_and_replace_block` the given blocks
stand from the index on, and the rest of the old blocks follows where they end
before it does.

The size is adjusted block by block, by the block read at that moment. That the
whole call changes it by the difference of the two totals comes from `FileSize`.

Main results: `replaceBlocks_spec` and `addAndReplaceBlock_spec`.
-/

set_option autoImplicit false

namespace P2PFileSync

namespace FileNode

/-- The last block that the batch lists for an index. -/
def lastListed (block : List (ℕ × DataBlock)) (index : ℕ) : Option DataBlock :=
  block.reverse.lookup index

theorem lastListed_cons (entry : ℕ × DataBlock) (block : List (ℕ × DataBlock)) (index : ℕ) :
    lastListed (entry :: block) index =
      (lastListed block index).or (if index = entry.1 then some entry.2 else none) := by
  rw [lastListed, List.reverse_cons, List.lookup_append, lastListed, List.lookup_cons]
  by_cases same : index = entry.1
  · rw [if_pos same, same, beq_self_eq_true]
  · rw [if_neg same, beq_false_of_ne same, List.lookup_nil]

variable {node next : FileNode}

/-- The file size where the excess is kept. -/
theorem fileSize_of_excess (kept : next.excess = node.excess) :
    next.fileSize = node.fileSize +
      (UInt64.ofNat (totalSize next.blocks) - UInt64.ofNat (totalSize node.blocks)) := by
  unfold excess at kept
  grind

/-! ## The batch `replace_block` -/

theorem versions_of_overwriteBlock {index : ℕ} {block : DataBlock}
    (outcome : node.overwriteBlock index block = some next) : next.versions = node.versions := by
  obtain ⟨_, -, rfl⟩ := overwriteBlock_eq_some_iff.mp outcome
  rfl

theorem getElem?_of_overwriteBlock {index : ℕ} {block : DataBlock}
    (outcome : node.overwriteBlock index block = some next) (other : ℕ) :
    next.blocks[other]? = (if other = index then some block else none).or node.blocks[other]? := by
  obtain ⟨replaced, found, rfl⟩ := overwriteBlock_eq_some_iff.mp outcome
  obtain ⟨inRange, -⟩ := List.getElem?_eq_some_iff.mp found
  by_cases same : other = index
  · rw [if_pos same, same, List.getElem?_set_self inRange, Option.some_or]
  · rw [if_neg same, List.getElem?_set_ne (Ne.symm same), Option.none_or]

theorem versions_of_replaceEntries {block : List (ℕ × DataBlock)}
    (outcome : block.foldlM replaceEntry node = some next) : next.versions = node.versions := by
  induction block generalizing node with
  | nil =>
      cases outcome
      rfl
  | cons entry block ih =>
      obtain ⟨middle, first, rest⟩ := Option.bind_eq_some_iff.mp outcome
      rw [ih rest, versions_of_overwriteBlock (replaceEntry_eq.symm.trans first)]

/-- The loop leaves at each index the last block listed for it, or the old one. -/
theorem getElem?_of_replaceEntries {block : List (ℕ × DataBlock)}
    (outcome : block.foldlM replaceEntry node = some next) (index : ℕ) :
    next.blocks[index]? = (lastListed block index).or node.blocks[index]? := by
  induction block generalizing node with
  | nil =>
      cases outcome
      rfl
  | cons entry block ih =>
      obtain ⟨middle, first, rest⟩ := Option.bind_eq_some_iff.mp outcome
      rw [ih rest, getElem?_of_overwriteBlock (replaceEntry_eq.symm.trans first), lastListed_cons,
        Option.or_assoc]

/-- **The batch `replace_block` is all or nothing.** It answers false and changes
nothing exactly when some index has no block. Otherwise each index holds the last
block listed for it, or else its old block, one commit id is appended, and the
file size changes by the difference of the total sizes. -/
theorem replaceBlocks_spec (node : FileNode) (commitId : Bytes) (block : List (ℕ × DataBlock)) :
    ∃ result next, node.replaceBlocks commitId block = some (result, next) ∧
      (result = false ↔ ∃ entry ∈ block, node.blocks.length ≤ entry.1) ∧
      (result = false → next = node) ∧
      (result = true →
        (∀ index, next.blocks[index]? = (lastListed block index).or node.blocks[index]?) ∧
        next.blocks.length = node.blocks.length ∧
        next.versions = node.versions ++ [commitId] ∧
        next.fileSize = node.fileSize +
          (UInt64.ofNat (totalSize next.blocks) - UInt64.ofNat (totalSize node.blocks))) := by
  by_cases refused : ∃ entry ∈ block, node.OutOfRange entry.1
  · have missing : ∃ entry ∈ block, node.blocks.length ≤ entry.1 := by
      obtain ⟨entry, member, outOfRange⟩ := refused
      exact ⟨entry, member, outOfRange.resolve_left (Nat.not_lt_zero _)⟩
    refine ⟨false, node, if_pos refused, iff_of_true rfl missing, fun _ => rfl, ?_⟩
    intro impossible
    cases impossible
  · have inRange : ∀ entry ∈ block, entry.1 < node.blocks.length := by
      intro entry member
      exact not_outOfRange_iff.mp fun outOfRange => refused ⟨entry, member, outOfRange⟩
    obtain ⟨replaced, replaces⟩ := Option.isSome_iff_exists.mp (replaceEntries_isSome inRange)
    refine ⟨true, replaced.addVersion commitId, ?_, ?_, ?_, fun _ => ⟨?_, ?_, ?_, ?_⟩⟩
    · rw [replaceBlocks, if_neg refused, replaceBlocksLocked, replaces]
      rfl
    · refine iff_of_false Bool.noConfusion ?_
      rintro ⟨entry, member, missing⟩
      exact absurd (inRange entry member) (Nat.not_lt_of_le missing)
    · intro impossible
      cases impossible
    · rw [addVersion_blocks]
      exact getElem?_of_replaceEntries replaces
    · rw [addVersion_blocks]
      exact length_of_replaceEntries replaces
    · rw [FileNode.addVersion, versions_of_replaceEntries replaces]
    · apply fileSize_of_excess
      rw [excess_addVersion, excess_of_replaceEntries replaces]

/-! ## `add_and_replace_block` -/

theorem versions_of_placeBlocks {index : ℕ} {blocks : List DataBlock}
    (outcome : node.placeBlocks index blocks = some next) : next.versions = node.versions := by
  induction blocks generalizing node index with
  | nil =>
      cases outcome
      rfl
  | cons block blocks ih =>
      obtain ⟨middle, first, rest⟩ := Option.bind_eq_some_iff.mp outcome
      rw [ih rest]
      rcases placeBlock_cases node index block with ⟨_, places, overwrites⟩ | places
      · obtain rfl := Option.some.inj (places.symm.trans first)
        exact versions_of_overwriteBlock overwrites
      · obtain rfl := Option.some.inj (places.symm.trans first)
        rfl

/-- Up to and with the index, the blocks after one turn are the old ones up to
the index and the block placed there; beyond it they are the old ones. -/
theorem take_drop_of_placeBlock {index : ℕ} {block : DataBlock}
    (inRange : index ≤ node.blocks.length) (outcome : node.placeBlock index block = some next) :
    index + 1 ≤ next.blocks.length ∧
      next.blocks.take (index + 1) = node.blocks.take index ++ [block] ∧
      ∀ beyond, index < beyond → next.blocks.drop beyond = node.blocks.drop beyond := by
  by_cases present : index < node.blocks.length
  · obtain ⟨_, -, rfl⟩ := overwriteBlock_eq_some_iff.mp ((if_pos present).symm.trans outcome)
    refine ⟨?_, ?_, fun beyond after => List.drop_set_of_lt after⟩
    · rwa [List.length_set]
    · rw [List.take_add_one, List.take_set_of_le (Nat.le_refl index),
        List.getElem?_set_self present]
      rfl
  · obtain rfl := Option.some.inj ((if_neg present).symm.trans outcome)
    obtain rfl : index = node.blocks.length := Nat.le_antisymm inRange (Nat.le_of_not_lt present)
    refine ⟨?_, ?_, ?_⟩
    · rw [List.length_append, List.length_singleton]
    · rw [List.take_length, List.take_of_length_le]
      rw [List.length_append, List.length_singleton]
    · intro beyond after
      rw [List.drop_of_length_le, List.drop_of_length_le after.le]
      rwa [List.length_append, List.length_singleton]

/-- The loop writes the given blocks over the old ones, and past their end. -/
theorem blocks_of_placeBlocks {index : ℕ} {blocks : List DataBlock}
    (inRange : index ≤ node.blocks.length) (outcome : node.placeBlocks index blocks = some next) :
    next.blocks = node.blocks.take index ++ blocks ++ node.blocks.drop (index + blocks.length) := by
  induction blocks generalizing node index with
  | nil =>
      cases outcome
      rw [List.append_nil, List.length_nil, Nat.add_zero, List.take_append_drop]
  | cons block blocks ih =>
      obtain ⟨middle, first, rest⟩ := Option.bind_eq_some_iff.mp outcome
      obtain ⟨bound, taken, dropped⟩ := take_drop_of_placeBlock inRange first
      have beyond : index + (block :: blocks).length = index + 1 + blocks.length := by
        rw [List.length_cons]
        omega
      rw [ih bound rest, taken, dropped _ (by omega), beyond, List.append_assoc _ [block],
        List.singleton_append]

/-- **`add_and_replace_block` is all or nothing.** It answers false and changes
nothing exactly when the index has no block. Otherwise the blocks are the old
ones up to the index, the given ones, and the old ones beyond them, one commit id
is appended, and the file size changes by the difference of the total sizes. -/
theorem addAndReplaceBlock_spec (node : FileNode) (commitId : Bytes) (index : ℕ)
    (blocks : List DataBlock) :
    ∃ result next, node.addAndReplaceBlock commitId index blocks = some (result, next) ∧
      (result = false ↔ node.blocks.length ≤ index) ∧
      (result = false → next = node) ∧
      (result = true →
        next.blocks =
          node.blocks.take index ++ blocks ++ node.blocks.drop (index + blocks.length) ∧
        next.versions = node.versions ++ [commitId] ∧
        next.fileSize = node.fileSize +
          (UInt64.ofNat (totalSize next.blocks) - UInt64.ofNat (totalSize node.blocks))) := by
  by_cases refused : node.OutOfRange index
  · have missing : node.blocks.length ≤ index := refused.resolve_left (Nat.not_lt_zero index)
    refine ⟨false, node, if_pos refused, iff_of_true rfl missing, fun _ => rfl, ?_⟩
    intro impossible
    cases impossible
  · have inRange : index < node.blocks.length := not_outOfRange_iff.mp refused
    obtain ⟨placed, places⟩ := Option.isSome_iff_exists.mp (placeBlocks_isSome node index blocks)
    refine ⟨true, placed.addVersion commitId, ?_, ?_, ?_, fun _ => ⟨?_, ?_, ?_⟩⟩
    · rw [addAndReplaceBlock, if_neg refused, addAndReplaceBlockLocked, places]
      rfl
    · exact iff_of_false Bool.noConfusion (Nat.not_le_of_lt inRange)
    · intro impossible
      cases impossible
    · rw [addVersion_blocks]
      exact blocks_of_placeBlocks inRange.le places
    · rw [FileNode.addVersion, versions_of_placeBlocks places]
    · apply fileSize_of_excess
      rw [excess_addVersion, excess_of_placeBlocks places]

end FileNode

end P2PFileSync
