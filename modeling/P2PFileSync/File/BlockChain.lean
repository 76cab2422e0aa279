import P2PFileSync.File.FileNode
import P2PFileSync.Foundations.RetryLoop

/-!
# The links between blocks

A `DataBlock` keeps its predecessor and asks it to keep the new block as its
successor. The constructor moves the predecessor out of its argument and then
calls through the argument, which is null by then; and `set_next_block` compares
the stored link with the value it is to write, so it writes nothing new
(`endsStored_iff`). Main result: `chain_linked_iff`.

A block lives in a list that stands for the memory, and a `shared_ptr` is null or
an index of it.
-/

set_option autoImplicit false

namespace P2PFileSync
namespace BlockChain

open RetryLoop

/-! ## The model -/

/-- A `shared_ptr<DataBlock>`. -/
abbrev BlockRef := Option ℕ

/-- A block with the links to its neighbours. -/
structure LinkedBlock where
  block : DataBlock
  prevBlockRef : BlockRef
  nextBlockRef : BlockRef

/-- `std::move` of a `shared_ptr` into another one: the value of the new one, and
what is left in the old one. -/
def moved (reference : BlockRef) : BlockRef × BlockRef := (reference, none)

/-- A pass of the loop in `set_next_block`, on the stored link and the argument; the
expected and the desired value are one variable. -/
def setNextPass (state : BlockRef × BlockRef) : Attempt (BlockRef × BlockRef) BlockRef :=
  match compareExchangeStrong state.1 state.2 state.2 with
  | (true, stored, _) => .returned stored
  | (false, stored, expected) => .again (stored, expected)

/-- `set_next_block` called through a pointer, which must not be null; two passes
are enough. -/
def setNextBlock (memory : List LinkedBlock) (block nextBlock : BlockRef) :
    Option (List LinkedBlock) := do
  let address ← block
  let current ← memory[address]?
  match retry setNextPass 2 (current.nextBlockRef, nextBlock) with
  | .returned stored => return memory.set address { current with nextBlockRef := stored }
  | _ => none

section Construction

variable (sha256 : Bytes → Bytes)

/-- The constructor, given the memory and the pointer that `prev_block` refers to:
the memory afterwards and what is left in the pointer; `none` where a null pointer
is dereferenced. -/
def newDataBlock (memory : List LinkedBlock) (data : Bytes) (blockSize : UInt32)
    (blockIndex : Int32) (prevBlock : BlockRef) : Option (List LinkedBlock × BlockRef) := do
  let (prevBlockRef, prevBlock) := moved prevBlock
  let self := memory.length
  let memory := memory ++ [⟨⟨blockIndex, blockSize, []⟩, prevBlockRef, none⟩]
  -- link nodes to previous block
  let memory ← setNextBlock memory prevBlock (some self)
  -- generate hash
  let blockHash := sha256 (data.take blockSize.toNat)
  return (memory.set self ⟨⟨blockIndex, blockSize, blockHash⟩, prevBlockRef, none⟩, prevBlock)

/-- What a block of a chain is made of. -/
structure BlockData where
  data : Bytes
  blockSize : UInt32
  blockIndex : Int32

/-- A chain of blocks, each constructed with the one before it as `prev_block`. -/
def buildChain (memory : List LinkedBlock) (prevBlock : BlockRef) :
    List BlockData → Option (List LinkedBlock)
  | [] => some memory
  | next :: chain => do
      let (memory', _) ←
        newDataBlock sha256 memory next.data next.blockSize next.blockIndex prevBlock
      buildChain memory' (some memory.length) chain

end Construction

/-! ## The property -/

/-- The blocks that are met from one on by going to the next. -/
def walkNext (memory : List LinkedBlock) : ℕ → BlockRef → List ℕ
  | steps + 1, some address =>
      address :: walkNext memory steps ((memory[address]?).bind LinkedBlock.nextBlockRef)
  | _, _ => []

/-- The blocks of the memory are linked to their neighbours both ways, so that
going to the next meets them all in order. -/
structure Linked (memory : List LinkedBlock) : Prop where
  prev : ∀ p block, memory[p + 1]? = some block → block.prevBlockRef = some p
  next : ∀ p block, memory[p]? = some block → p + 1 < memory.length →
    block.nextBlockRef = some (p + 1)
  walk : walkNext memory memory.length (memory.head?.map fun _ => 0) = List.range memory.length

/-- The chain is built without a fault, and its blocks are linked. -/
def ChainLinked (sha256 : Bytes → Bytes) (chain : List BlockData) : Prop :=
  ∃ memory, buildChain sha256 [] none chain = some memory ∧ memory.length = chain.length ∧
    Linked memory

/-- The loop ends, with the given block stored. -/
def EndsStored (nextBlockRef nextBlock : BlockRef) : Prop :=
  ∃ passes, retry setNextPass passes (nextBlockRef, nextBlock) = .returned nextBlock

/-! ## What the code does -/

/-- The loop ends after two passes at most, and the link is what it was. -/
theorem retry_setNextPass (nextBlockRef nextBlock : BlockRef) :
    retry setNextPass 2 (nextBlockRef, nextBlock) = .returned nextBlockRef := by
  have second : setNextPass (nextBlockRef, nextBlockRef) = .returned nextBlockRef := by
    rw [setNextPass, compareExchangeStrong_self]
  by_cases same : nextBlockRef = nextBlock
  · subst same
    exact retry_of_returned 1 second
  · -- the failed exchange leaves the stored link in the argument
    have first : setNextPass (nextBlockRef, nextBlock) = .again (nextBlockRef, nextBlockRef) := by
      rw [setNextPass, compareExchangeStrong_of_ne same]
    rw [retry_of_again 1 first, retry_of_returned 0 second]

/-- However many passes it makes, the loop ends with the link that was stored. -/
theorem stored_eq {passes : ℕ} {nextBlockRef nextBlock stored : BlockRef}
    (ends : retry setNextPass passes (nextBlockRef, nextBlock) = .returned stored) :
    stored = nextBlockRef := by
  have here := retry_of_le ends (Nat.le_add_right passes 2)
  rw [retry_of_le (retry_setNextPass nextBlockRef nextBlock) (Nat.le_add_left 2 passes)] at here
  cases here
  rfl

theorem endsStored_iff (nextBlockRef nextBlock : BlockRef) :
    EndsStored nextBlockRef nextBlock ↔ nextBlockRef = nextBlock := by
  constructor
  · rintro ⟨passes, ends⟩
    exact (stored_eq ends).symm
  · rintro rfl
    exact ⟨2, retry_setNextPass nextBlockRef nextBlockRef⟩

/-- No block is constructed: the pointer has been moved from when it is used. -/
theorem newDataBlock_eq_none (sha256 : Bytes → Bytes) (memory : List LinkedBlock) (data : Bytes)
    (blockSize : UInt32) (blockIndex : Int32) (prevBlock : BlockRef) :
    newDataBlock sha256 memory data blockSize blockIndex prevBlock = none := rfl

theorem chainLinked_iff (sha256 : Bytes → Bytes) (chain : List BlockData) :
    ChainLinked sha256 chain ↔ chain = [] := by
  cases chain with
  | nil =>
      refine iff_of_true ⟨[], rfl, rfl, ?_, ?_, rfl⟩ rfl
      · intro p block impossible
        cases impossible
      · intro p block impossible
        cases impossible
  | cons next chain =>
      refine iff_of_false ?_ (List.cons_ne_nil next chain)
      rintro ⟨memory, built, _⟩
      rw [buildChain, newDataBlock_eq_none] at built
      cases built

/-- **No block is ever linked.** A chain is built as promised only if it has no
block, and a call of `set_next_block` ends with the block stored only if it was
stored before. -/
theorem chain_linked_iff (sha256 : Bytes → Bytes) (chain : List BlockData)
    (nextBlockRef nextBlock : BlockRef) :
    (ChainLinked sha256 chain ↔ chain = []) ∧
      (EndsStored nextBlockRef nextBlock ↔ nextBlockRef = nextBlock) :=
  ⟨chainLinked_iff sha256 chain, endsStored_iff nextBlockRef nextBlock⟩

/-- The first block of a chain, and a block that has no successor yet. -/
theorem first_block_not_linked :
    ¬ ChainLinked (fun _ => []) [⟨[1], 1, 0⟩] ∧ ¬ EndsStored none (some 1) := by
  refine ⟨?_, ?_⟩
  · rintro ⟨memory, built, _⟩
    cases built
  · rintro ⟨passes, ends⟩
    cases stored_eq ends

end BlockChain
end P2PFileSync
