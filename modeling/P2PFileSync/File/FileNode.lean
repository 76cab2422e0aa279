import Mathlib.Logic.Basic
import P2PFileSync.Foundations.Bytes

/-!
# The blocks of a file

A `FileNode` holds the blocks of a file, the ids of the commits that changed it
and a file size. `add_block` appends blocks, `replace_block` overwrites the
blocks at given indices, and `add_and_replace_block` overwrites from an index on
and appends what goes beyond the end.

The calls with an index test it before they take the lock, and answer false
where there is no such block (`run_eq`). A call whose tests pass reads and
writes existing places only (`locked_isSome`), and no call makes the list of
blocks shorter (`length_le_of_locked`).
-/

set_option autoImplicit false

namespace P2PFileSync

/-- The members of `DataBlock`, without the links to its neighbours. -/
structure DataBlock where
  blockIndex : Int32
  blockSize : UInt32
  blockHash : Bytes
  deriving DecidableEq

def DataBlock.size (block : DataBlock) : UInt32 := block.blockSize

/-- The members of `FileNode`, without the mutex and the inode. -/
structure FileNode where
  fileSize : UInt64
  versions : List Bytes
  blocks : List DataBlock
  deriving DecidableEq

namespace FileNode

/-! ## The functions -/

/-- The constructor. It leaves `_file_size` indeterminate. -/
def new (indeterminate : UInt64) : FileNode := ⟨indeterminate, [], []⟩

variable (node : FileNode)

/-- The test `index < 0 || index >= _blocks.size()`, made before the lock. -/
def OutOfRange (index : ℕ) : Prop := index < 0 ∨ index ≥ node.blocks.length

instance (index : ℕ) : Decidable (node.OutOfRange index) := inferInstanceAs (Decidable (_ ∨ _))

def addVersion (commitId : Bytes) : FileNode :=
  { node with versions := node.versions ++ [commitId] }

/-- `add_block` of one block. -/
def addBlock (commitId : Bytes) (dataBlock : DataBlock) : FileNode :=
  { node with blocks := node.blocks ++ [dataBlock] }.addVersion commitId

/-- `add_block` of a list of blocks. -/
def addBlocks (commitId : Bytes) (dataBlocks : List DataBlock) : FileNode :=
  { node with blocks := node.blocks ++ dataBlocks }.addVersion commitId

/-- `_blocks[index] = block`; `none` where `_blocks` has no such place. -/
def assignBlock (index : ℕ) (block : DataBlock) : Option FileNode :=
  if index < node.blocks.length then some { node with blocks := node.blocks.set index block }
  else none

/-- `replace_block` of one block, under the lock. -/
def replaceBlockLocked (commitId : Bytes) (index : ℕ) (block : DataBlock) : Option FileNode :=
  (node.assignBlock index block).map fun next => next.addVersion commitId

/-- `replace_block` of one block. -/
def replaceBlock (commitId : Bytes) (index : ℕ) (block : DataBlock) : Option (Bool × FileNode) :=
  if node.OutOfRange index then some (false, node)
  else (node.replaceBlockLocked commitId index block).map fun next => (true, next)

/-- The size of the new block comes in, that of the block at the index goes out,
and the new block takes its place; `none` where `_blocks` has no such place. -/
def overwriteBlock (index : ℕ) (block : DataBlock) : Option FileNode :=
  node.blocks[index]?.map fun replaced =>
    { node with
      fileSize := node.fileSize + block.size.toUInt64 - replaced.size.toUInt64
      blocks := node.blocks.set index block }

/-- One turn of the loop of the batch `replace_block`. -/
def replaceEntry (entry : ℕ × DataBlock) : Option FileNode :=
  if entry.1 > 0 ∨ entry.1 ≤ node.blocks.length then node.overwriteBlock entry.1 entry.2
  else some node

/-- The batch `replace_block`, under the lock. -/
def replaceBlocksLocked (commitId : Bytes) (block : List (ℕ × DataBlock)) : Option FileNode :=
  (block.foldlM replaceEntry node).map fun next => next.addVersion commitId

/-- The batch `replace_block`. -/
def replaceBlocks (commitId : Bytes) (block : List (ℕ × DataBlock)) : Option (Bool × FileNode) :=
  if ∃ entry ∈ block, node.OutOfRange entry.1 then some (false, node)
  else (node.replaceBlocksLocked commitId block).map fun next => (true, next)

/-- One turn of the loop of `add_and_replace_block`. -/
def placeBlock (index : ℕ) (block : DataBlock) : Option FileNode :=
  if index < node.blocks.length then node.overwriteBlock index block
  else
    some { node with
      fileSize := node.fileSize + block.size.toUInt64
      blocks := node.blocks ++ [block] }

/-- The loop of `add_and_replace_block`, from the given index on. -/
def placeBlocks : FileNode → ℕ → List DataBlock → Option FileNode
  | node, _, [] => some node
  | node, index, block :: blocks =>
      (node.placeBlock index block).bind fun next => placeBlocks next (index + 1) blocks

/-- `add_and_replace_block`, under the lock. -/
def addAndReplaceBlockLocked (commitId : Bytes) (index : ℕ) (blocks : List DataBlock) :
    Option FileNode :=
  (node.placeBlocks index blocks).map fun next => next.addVersion commitId

/-- `add_and_replace_block`. -/
def addAndReplaceBlock (commitId : Bytes) (index : ℕ) (blocks : List DataBlock) :
    Option (Bool × FileNode) :=
  if node.OutOfRange index then some (false, node)
  else (node.addAndReplaceBlockLocked commitId index blocks).map fun next => (true, next)

/-- A call that changes a file. -/
inductive Call where
  | addBlock (commitId : Bytes) (dataBlock : DataBlock)
  | addBlocks (commitId : Bytes) (dataBlocks : List DataBlock)
  | replaceBlock (commitId : Bytes) (index : ℕ) (block : DataBlock)
  | replaceBlocks (commitId : Bytes) (block : List (ℕ × DataBlock))
  | addAndReplaceBlock (commitId : Bytes) (index : ℕ) (blocks : List DataBlock)
  deriving DecidableEq

/-- The answer of a call and the file afterwards. `add_block` has no answer, and
counts as true. -/
def Call.run : Call → Option (Bool × FileNode)
  | .addBlock commitId dataBlock => some (true, node.addBlock commitId dataBlock)
  | .addBlocks commitId dataBlocks => some (true, node.addBlocks commitId dataBlocks)
  | .replaceBlock commitId index block => node.replaceBlock commitId index block
  | .replaceBlocks commitId block => node.replaceBlocks commitId block
  | .addAndReplaceBlock commitId index blocks => node.addAndReplaceBlock commitId index blocks

variable {node}

@[simp] theorem addVersion_blocks (commitId : Bytes) :
    (node.addVersion commitId).blocks = node.blocks := rfl

/-! ## The places of the blocks -/

theorem not_outOfRange_iff {index : ℕ} :
    ¬ node.OutOfRange index ↔ index < node.blocks.length := by
  simp only [OutOfRange, Nat.not_lt_zero, false_or, ge_iff_le, not_le]

/-- The guard of the loop holds of every index. -/
theorem replaceEntry_eq {entry : ℕ × DataBlock} :
    node.replaceEntry entry = node.overwriteBlock entry.1 entry.2 := by
  refine if_pos ?_
  rcases Nat.eq_zero_or_pos entry.1 with zero | positive
  · exact .inr (zero ▸ Nat.zero_le _)
  · exact .inl positive

theorem overwriteBlock_eq_some_iff {index : ℕ} {block : DataBlock} {next : FileNode} :
    node.overwriteBlock index block = some next ↔
      ∃ replaced, node.blocks[index]? = some replaced ∧
        next = { node with
          fileSize := node.fileSize + block.size.toUInt64 - replaced.size.toUInt64
          blocks := node.blocks.set index block } := by
  unfold overwriteBlock
  rw [Option.map_eq_some_iff]
  exact exists_congr fun replaced => and_congr_right' eq_comm

/-- An index below the number of blocks can be overwritten. -/
theorem overwriteBlock_isSome {index : ℕ} (block : DataBlock)
    (inRange : index < node.blocks.length) : (node.overwriteBlock index block).isSome := by
  rw [overwriteBlock, Option.isSome_map, List.getElem?_eq_getElem inRange, Option.isSome_some]

theorem length_of_overwriteBlock {index : ℕ} {block : DataBlock} {next : FileNode}
    (outcome : node.overwriteBlock index block = some next) :
    next.blocks.length = node.blocks.length := by
  obtain ⟨_, -, rfl⟩ := overwriteBlock_eq_some_iff.mp outcome
  exact List.length_set

/-- The loop of the batch `replace_block` keeps the number of blocks. -/
theorem length_of_replaceEntries {block : List (ℕ × DataBlock)} {next : FileNode}
    (outcome : block.foldlM replaceEntry node = some next) :
    next.blocks.length = node.blocks.length := by
  induction block generalizing node with
  | nil =>
      cases outcome
      rfl
  | cons entry block ih =>
      obtain ⟨middle, first, rest⟩ := Option.bind_eq_some_iff.mp outcome
      rw [ih rest, length_of_overwriteBlock (replaceEntry_eq.symm.trans first)]

/-- Where every index is below the number of blocks, the loop of the batch
`replace_block` reads and writes existing places only. -/
theorem replaceEntries_isSome {block : List (ℕ × DataBlock)}
    (inRange : ∀ entry ∈ block, entry.1 < node.blocks.length) :
    (block.foldlM replaceEntry node).isSome := by
  induction block generalizing node with
  | nil => rfl
  | cons entry block ih =>
      obtain ⟨middle, first⟩ := Option.isSome_iff_exists.mp
        (overwriteBlock_isSome entry.2 (inRange entry List.mem_cons_self))
      rw [List.foldlM_cons, replaceEntry_eq, first]
      apply ih
      intro other member
      rw [length_of_overwriteBlock first]
      exact inRange other (List.mem_cons_of_mem entry member)

/-- Everything a turn of the loop of `add_and_replace_block` can do. -/
theorem placeBlock_cases (node : FileNode) (index : ℕ) (block : DataBlock) :
    (∃ next, node.placeBlock index block = some next ∧
      node.overwriteBlock index block = some next) ∨
    node.placeBlock index block = some { node with
      fileSize := node.fileSize + block.size.toUInt64
      blocks := node.blocks ++ [block] } := by
  by_cases inRange : index < node.blocks.length
  · obtain ⟨next, outcome⟩ := Option.isSome_iff_exists.mp (overwriteBlock_isSome block inRange)
    exact .inl ⟨next, (if_pos inRange).trans outcome, outcome⟩
  · exact .inr (if_neg inRange)

/-- The loop of `add_and_replace_block` reads and writes existing places only. -/
theorem placeBlocks_isSome (node : FileNode) (index : ℕ) (blocks : List DataBlock) :
    (node.placeBlocks index blocks).isSome := by
  induction blocks generalizing node index with
  | nil => rfl
  | cons block blocks ih =>
      rw [placeBlocks]
      rcases placeBlock_cases node index block with ⟨next, outcome, -⟩ | outcome
      · rw [outcome]
        exact ih next (index + 1)
      · rw [outcome]
        exact ih _ (index + 1)

/-- The loop of `add_and_replace_block` loses no place. -/
theorem length_le_of_placeBlocks {index : ℕ} {blocks : List DataBlock} {next : FileNode}
    (outcome : node.placeBlocks index blocks = some next) :
    node.blocks.length ≤ next.blocks.length := by
  induction blocks generalizing node index with
  | nil =>
      cases outcome
      exact Nat.le_refl _
  | cons block blocks ih =>
      obtain ⟨middle, first, rest⟩ := Option.bind_eq_some_iff.mp outcome
      refine Nat.le_trans ?_ (ih rest)
      rcases placeBlock_cases node index block with ⟨_, places, overwrites⟩ | places
      · obtain rfl := Option.some.inj (places.symm.trans first)
        exact (length_of_overwriteBlock overwrites).ge
      · obtain rfl := Option.some.inj (places.symm.trans first)
        exact List.length_append ▸ Nat.le_add_right _ _

/-! ## A call as its tests and what it does under the lock -/

/-- The indices a call tests before it takes the lock. -/
def Call.indices : Call → List ℕ
  | .addBlock _ _ => []
  | .addBlocks _ _ => []
  | .replaceBlock _ index _ => [index]
  | .replaceBlocks _ block => block.map Prod.fst
  | .addAndReplaceBlock _ index _ => [index]

/-- What a call does under the lock. -/
def Call.locked (node : FileNode) : Call → Option FileNode
  | .addBlock commitId dataBlock => some (node.addBlock commitId dataBlock)
  | .addBlocks commitId dataBlocks => some (node.addBlocks commitId dataBlocks)
  | .replaceBlock commitId index block => node.replaceBlockLocked commitId index block
  | .replaceBlocks commitId block => node.replaceBlocksLocked commitId block
  | .addAndReplaceBlock commitId index blocks => node.addAndReplaceBlockLocked commitId index blocks

/-- **A call makes its tests, and then what it does under the lock.** -/
theorem Call.run_eq (node : FileNode) (call : Call) :
    call.run node =
      if ∀ index ∈ call.indices, index < node.blocks.length then
        (call.locked node).map fun next => (true, next)
      else some (false, node) := by
  cases call with
  | addBlock commitId dataBlock => exact (if_pos fun _ member => nomatch member).symm
  | addBlocks commitId dataBlocks => exact (if_pos fun _ member => nomatch member).symm
  | replaceBlock commitId index block =>
      simp only [Call.run, FileNode.replaceBlock, Call.indices, List.forall_mem_singleton,
        ← not_outOfRange_iff, ite_not, Call.locked]
  | replaceBlocks commitId block =>
      have tests : (∃ entry ∈ block, node.OutOfRange entry.1) ↔
          ¬ ∀ index ∈ block.map Prod.fst, index < node.blocks.length := by
        simp only [List.forall_mem_map, ← not_outOfRange_iff, not_forall, not_not, exists_prop]
      by_cases inRange : ∀ index ∈ block.map Prod.fst, index < node.blocks.length
      · exact (if_neg fun fails => tests.mp fails inRange).trans (if_pos inRange).symm
      · exact (if_pos (tests.mpr inRange)).trans (if_neg inRange).symm
  | addAndReplaceBlock commitId index blocks =>
      simp only [Call.run, FileNode.addAndReplaceBlock, Call.indices, List.forall_mem_singleton,
        ← not_outOfRange_iff, ite_not, Call.locked]

/-- A call whose tests pass reads and writes existing places only. -/
theorem Call.locked_isSome {call : Call}
    (inRange : ∀ index ∈ call.indices, index < node.blocks.length) :
    (call.locked node).isSome := by
  cases call with
  | addBlock commitId dataBlock => rfl
  | addBlocks commitId dataBlocks => rfl
  | replaceBlock commitId index block =>
      have assigns : index < node.blocks.length := inRange index List.mem_cons_self
      simp only [Call.locked, replaceBlockLocked, assignBlock, if_pos assigns, Option.isSome_map,
        Option.isSome_some]
  | replaceBlocks commitId block =>
      simp only [Call.locked, replaceBlocksLocked, Option.isSome_map]
      exact replaceEntries_isSome fun entry member =>
        inRange entry.1 (List.mem_map_of_mem member)
  | addAndReplaceBlock commitId index blocks =>
      simp only [Call.locked, addAndReplaceBlockLocked, Option.isSome_map]
      exact placeBlocks_isSome node index blocks

/-- No call makes the list of blocks shorter. -/
theorem Call.length_le_of_locked {call : Call} {next : FileNode}
    (outcome : call.locked node = some next) : node.blocks.length ≤ next.blocks.length := by
  cases call with
  | addBlock commitId dataBlock =>
      obtain rfl := Option.some.inj outcome
      exact List.length_append ▸ Nat.le_add_right _ _
  | addBlocks commitId dataBlocks =>
      obtain rfl := Option.some.inj outcome
      exact List.length_append ▸ Nat.le_add_right _ _
  | replaceBlock commitId index block =>
      obtain ⟨assigned, assigns, rfl⟩ := Option.map_eq_some_iff.mp outcome
      obtain ⟨-, same⟩ := Option.ite_none_right_eq_some.mp assigns
      obtain rfl := Option.some.inj same
      exact List.length_set.ge
  | replaceBlocks commitId block =>
      obtain ⟨replaced, replaces, rfl⟩ := Option.map_eq_some_iff.mp outcome
      exact (length_of_replaceEntries replaces).ge
  | addAndReplaceBlock commitId index blocks =>
      obtain ⟨placed, places, rfl⟩ := Option.map_eq_some_iff.mp outcome
      rw [addVersion_blocks]
      exact length_le_of_placeBlocks places

/-- A call made on its own never reads or writes a place that does not exist. -/
theorem Call.run_isSome (node : FileNode) (call : Call) : (call.run node).isSome := by
  rw [Call.run_eq]
  split
  · rename_i inRange
    rw [Option.isSome_map]
    exact Call.locked_isSome inRange
  · rfl

end FileNode

end P2PFileSync
