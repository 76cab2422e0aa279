import Mathlib.Algebra.BigOperators.Group.List.Basic
import P2PFileSync.File.FileNode

/-!
# The file size

The batch `replace_block` and `add_and_replace_block` count the sizes of the
blocks they write and of those they overwrite. `add_block` and the
`replace_block` of a single block leave `_file_size` as it is, and the
constructor gives it no value at all.

What the file size exceeds the sizes of the blocks by changes by what a call
leaves out and by nothing else (`excess_of_run`). So the file size is the total
size of the blocks after each call exactly when the first call leaves out what
the file size began with and no later call leaves out anything
(`keptAfterEach_iff`).
-/

set_option autoImplicit false

namespace P2PFileSync

namespace FileNode

/-! ## The property -/

def totalSize (blocks : List DataBlock) : ℕ := (blocks.map fun block => block.size.toNat).sum

/-- `_file_size` is the sum of the sizes of the blocks modulo `2 ^ 64`. -/
def SizeKept (node : FileNode) : Prop := node.fileSize = UInt64.ofNat (totalSize node.blocks)

instance (node : FileNode) : Decidable (SizeKept node) := inferInstanceAs (Decidable (_ = _))

/-- The calls run one after another, and the file size is right after each. -/
def KeptAfterEach : FileNode → List Call → Prop
  | _, [] => True
  | node, call :: calls => ∃ result next, call.run node = some (result, next) ∧
      SizeKept next ∧ KeptAfterEach next calls

/-- The sizes that a call leaves out of `_file_size`. -/
def Call.leftOut (node : FileNode) : Call → UInt64
  | .addBlock _ dataBlock => dataBlock.size.toUInt64
  | .addBlocks _ dataBlocks => UInt64.ofNat (totalSize dataBlocks)
  | .replaceBlock _ index block =>
      match node.blocks[index]? with
      | some replaced => block.size.toUInt64 - replaced.size.toUInt64
      | none => 0
  | .replaceBlocks _ _ => 0
  | .addAndReplaceBlock _ _ _ => 0

/-- The first call leaves out the amount given, and no later call anything. -/
def LeavesOut (amount : UInt64) : FileNode → List Call → Prop
  | _, [] => True
  | node, call :: calls => call.leftOut node = amount ∧
      ∀ result next, call.run node = some (result, next) → LeavesOut 0 next calls

/-- What the file size exceeds the sizes of the blocks by. -/
def excess (node : FileNode) : UInt64 := node.fileSize - UInt64.ofNat (totalSize node.blocks)

variable {node next : FileNode}

theorem sizeKept_iff : SizeKept node ↔ node.excess = 0 := by
  unfold SizeKept excess
  grind

/-! ## The total size of the blocks -/

@[simp] theorem totalSize_append (left right : List DataBlock) :
    totalSize (left ++ right) = totalSize left + totalSize right := by
  simp only [totalSize, List.map_append, List.sum_append]

@[simp] theorem totalSize_singleton (block : DataBlock) :
    UInt64.ofNat (totalSize [block]) = block.size.toUInt64 := by
  simp only [totalSize, List.map_singleton, List.sum_singleton]
  exact UInt64.ofNat_uInt32ToNat _

/-- A block written over another one. -/
theorem totalSize_set {blocks : List DataBlock} {index : ℕ} {replaced : DataBlock}
    (found : blocks[index]? = some replaced) (block : DataBlock) :
    totalSize (blocks.set index block) + replaced.size.toNat =
      totalSize blocks + block.size.toNat := by
  induction blocks generalizing index with
  | nil => cases found
  | cons first blocks ih =>
      cases index with
      | zero =>
          obtain rfl := Option.some.inj found
          simp only [totalSize, List.set_cons_zero, List.map_cons, List.sum_cons]
          omega
      | succ index =>
          have rest := ih found
          simp only [totalSize, List.set_cons_succ, List.map_cons, List.sum_cons] at rest ⊢
          omega

/-- The same modulo `2 ^ 64`. -/
theorem ofNat_totalSize_set {blocks : List DataBlock} {index : ℕ} {replaced : DataBlock}
    (found : blocks[index]? = some replaced) (block : DataBlock) :
    UInt64.ofNat (totalSize (blocks.set index block)) + replaced.size.toUInt64 =
      UInt64.ofNat (totalSize blocks) + block.size.toUInt64 := by
  have sum := congrArg UInt64.ofNat (totalSize_set found block)
  rwa [UInt64.ofNat_add, UInt64.ofNat_add, UInt64.ofNat_uInt32ToNat,
    UInt64.ofNat_uInt32ToNat] at sum

/-! ## One call -/

/-- A block that is overwritten is accounted for. -/
theorem excess_of_overwriteBlock {index : ℕ} {block : DataBlock}
    (outcome : node.overwriteBlock index block = some next) : next.excess = node.excess := by
  obtain ⟨replaced, found, rfl⟩ := overwriteBlock_eq_some_iff.mp outcome
  have sum := ofNat_totalSize_set found block
  simp only [excess]
  grind

/-- So is a block that `add_and_replace_block` places. -/
theorem excess_of_placeBlock {index : ℕ} {block : DataBlock}
    (outcome : node.placeBlock index block = some next) : next.excess = node.excess := by
  rcases placeBlock_cases node index block with ⟨_, places, overwrites⟩ | places
  · obtain rfl := Option.some.inj (places.symm.trans outcome)
    exact excess_of_overwriteBlock overwrites
  · obtain rfl := Option.some.inj (places.symm.trans outcome)
    simp only [excess, totalSize_append, UInt64.ofNat_add, totalSize_singleton]
    grind

theorem excess_of_replaceEntries {block : List (ℕ × DataBlock)}
    (outcome : block.foldlM replaceEntry node = some next) : next.excess = node.excess := by
  induction block generalizing node with
  | nil =>
      cases outcome
      rfl
  | cons entry block ih =>
      obtain ⟨middle, first, rest⟩ := Option.bind_eq_some_iff.mp outcome
      rw [ih rest, excess_of_overwriteBlock (replaceEntry_eq.symm.trans first)]

theorem excess_of_placeBlocks {index : ℕ} {blocks : List DataBlock}
    (outcome : node.placeBlocks index blocks = some next) : next.excess = node.excess := by
  induction blocks generalizing node index with
  | nil =>
      cases outcome
      rfl
  | cons block blocks ih =>
      obtain ⟨middle, first, rest⟩ := Option.bind_eq_some_iff.mp outcome
      rw [ih rest, excess_of_placeBlock first]

theorem excess_addVersion (node : FileNode) (commitId : Bytes) :
    (node.addVersion commitId).excess = node.excess := rfl

/-- Blocks that `add_block` appends are not. -/
theorem excess_append (node : FileNode) (dataBlocks : List DataBlock) :
    { node with blocks := node.blocks ++ dataBlocks }.excess + UInt64.ofNat (totalSize dataBlocks) =
      node.excess := by
  simp only [excess, totalSize_append, UInt64.ofNat_add]
  grind

/-- A call that takes the lock changes the excess by what it leaves out. -/
theorem excess_of_locked {call : Call} (outcome : call.locked node = some next) :
    next.excess + call.leftOut node = node.excess := by
  cases call with
  | addBlock commitId dataBlock =>
      obtain rfl := Option.some.inj outcome
      rw [FileNode.addBlock, excess_addVersion, Call.leftOut, ← totalSize_singleton]
      exact excess_append node [dataBlock]
  | addBlocks commitId dataBlocks =>
      obtain rfl := Option.some.inj outcome
      rw [FileNode.addBlocks, excess_addVersion, Call.leftOut]
      exact excess_append node dataBlocks
  | replaceBlock commitId index block =>
      obtain ⟨assigned, assigns, rfl⟩ := Option.map_eq_some_iff.mp outcome
      obtain ⟨inRange, same⟩ := Option.ite_none_right_eq_some.mp assigns
      obtain rfl := Option.some.inj same
      have found := List.getElem?_eq_getElem inRange
      have sum := ofNat_totalSize_set found block
      rw [excess_addVersion]
      simp only [excess, Call.leftOut, found]
      grind
  | replaceBlocks commitId block =>
      obtain ⟨replaced, replaces, rfl⟩ := Option.map_eq_some_iff.mp outcome
      rw [excess_addVersion, excess_of_replaceEntries replaces]
      exact UInt64.add_zero _
  | addAndReplaceBlock commitId index blocks =>
      obtain ⟨placed, places, rfl⟩ := Option.map_eq_some_iff.mp outcome
      rw [excess_addVersion, excess_of_placeBlocks places]
      exact UInt64.add_zero _

/-- A call that is refused leaves out nothing. -/
theorem leftOut_of_refused {call : Call}
    (refused : ¬ ∀ index ∈ call.indices, index < node.blocks.length) : call.leftOut node = 0 := by
  cases call with
  | addBlock commitId dataBlock => exact absurd (fun _ member => nomatch member) refused
  | addBlocks commitId dataBlocks => exact absurd (fun _ member => nomatch member) refused
  | replaceBlock commitId index block =>
      rw [Call.indices, List.forall_mem_singleton, not_lt] at refused
      simp only [Call.leftOut, List.getElem?_eq_none refused]
  | replaceBlocks commitId block => rfl
  | addAndReplaceBlock commitId index blocks => rfl

/-- **A call changes the excess by what it leaves out, and by nothing else.** -/
theorem excess_of_run {call : Call} {result : Bool}
    (outcome : call.run node = some (result, next)) :
    next.excess + call.leftOut node = node.excess := by
  rw [Call.run_eq] at outcome
  split at outcome
  · obtain ⟨_, locked, same⟩ := Option.map_eq_some_iff.mp outcome
    obtain ⟨-, rfl⟩ := Prod.mk.inj same
    exact excess_of_locked locked
  · rename_i refused
    obtain ⟨-, rfl⟩ := Prod.mk.inj (Option.some.inj outcome)
    rw [leftOut_of_refused refused]
    exact UInt64.add_zero _

/-! ## Every sequence of calls -/

/-- The file size is right after each call exactly when the first call leaves
out the excess and no later call anything. -/
theorem keptAfterEach_iff_leavesOut_excess {calls : List Call} :
    KeptAfterEach node calls ↔ LeavesOut node.excess node calls := by
  induction calls generalizing node with
  | nil => exact Iff.rfl
  | cons call calls ih =>
      obtain ⟨⟨result, next⟩, outcome⟩ := Option.isSome_iff_exists.mp (call.run_isSome node)
      have account := excess_of_run outcome
      have kept : SizeKept next ↔ call.leftOut node = node.excess := by
        rw [sizeKept_iff]
        grind
      constructor
      · rintro ⟨_, _, same, size, rest⟩
        obtain ⟨rfl, rfl⟩ := Prod.mk.inj (Option.some.inj (same.symm.trans outcome))
        refine ⟨kept.mp size, ?_⟩
        intro _ _ again
        obtain ⟨rfl, rfl⟩ := Prod.mk.inj (Option.some.inj (again.symm.trans outcome))
        exact sizeKept_iff.mp size ▸ ih.mp rest
      · rintro ⟨leaves, rest⟩
        have size := kept.mpr leaves
        refine ⟨result, next, outcome, size, ih.mpr ?_⟩
        rw [sizeKept_iff.mp size]
        exact rest result next outcome

/-- **On a new file, the file size is the total size of the blocks after each
call exactly when the first call leaves out what the file size began with and no
later call leaves out anything.** -/
theorem keptAfterEach_iff (indeterminate : UInt64) (calls : List Call) :
    KeptAfterEach (new indeterminate) calls ↔
      LeavesOut indeterminate (new indeterminate) calls := by
  have excess : (new indeterminate).excess = indeterminate := by
    simp only [FileNode.excess, new, totalSize, List.map_nil, List.sum_nil]
    grind
  rw [keptAfterEach_iff_leavesOut_excess, excess]

/-- One byte is added to a file whose size began at zero. -/
theorem added_block_not_counted :
    ¬ ∀ (indeterminate : UInt64) (calls : List Call), KeptAfterEach (new indeterminate) calls := by
  intro always
  obtain ⟨_, _, outcome, kept, -⟩ := always 0 [.addBlock [1] ⟨0, 1, [7]⟩]
  obtain ⟨-, rfl⟩ := Prod.mk.inj (Option.some.inj outcome)
  exact absurd kept (by decide)

end FileNode

end P2PFileSync
