import Mathlib.Algebra.Order.Floor.Div
import Mathlib.Data.Nat.Log
import P2PFileSync.Foundations.Bytes

/-!
# The buffer of a response body

`write_to_ptr` copies each chunk of a response body behind the ones before it. A
chunk that does not fit doubles the buffer, once. When the transfer ends,
`POST_and_save_to_ptr` and `GET_and_save_to_ptr` write a terminating zero byte
behind the body. A write outside the buffer is undefined, and the model gives
`none`.

As long as one doubling is enough for each chunk, the size of the buffer is the
least doubling of the initial size that holds the body so far (`capacity`). So
the body is stored and terminated exactly when each chunk brings it to at most
twice that size and the whole body does not fill its buffer to the last byte.

Main result: `saves_iff`.
-/

set_option autoImplicit false

namespace P2PFileSync
namespace Curl

/-! ## The model -/

/-- `malloc` and `realloc`, which succeed: they give the size asked for, and
`realloc` keeps the bytes. What is in new memory is left open. -/
structure Allocator where
  malloc : ℕ → Bytes
  realloc : Bytes → ℕ → Bytes
  length_malloc : ∀ size, (malloc size).length = size
  length_realloc : ∀ data size, (realloc data size).length = size
  take_realloc : ∀ {data size}, data.length ≤ size → (realloc data size).take data.length = data

/-- An allocator that clears new memory. -/
def Allocator.clearing : Allocator where
  malloc size := List.replicate size 0
  realloc data size := (data ++ List.replicate size 0).take size
  length_malloc size := List.length_replicate
  length_realloc data size := by
    rw [List.length_take, List.length_append, List.length_replicate]
    omega
  take_realloc fits := by rw [List.take_take, Nat.min_eq_left fits, List.take_left]

/-- The members of `ptr_data`; `data` is the allocated memory. -/
structure PtrData where
  data : Bytes
  head : ℕ
  currentSize : ℕ

variable (heap : Allocator)

def PtrData.new (size : ℕ) : PtrData where
  data := heap.malloc size
  head := 0
  currentSize := size

/-- The buffer after `realloc` to twice its size. -/
def PtrData.relocate (file : PtrData) : PtrData :=
  { file with
    data := heap.realloc file.data (file.currentSize * 2)
    currentSize := file.currentSize * 2 }

/-- The `memcpy` of a chunk to the head; `none` where it writes outside the
buffer. -/
def PtrData.copy (file : PtrData) (ptr : Bytes) : Option PtrData :=
  if file.head + ptr.length ≤ file.data.length then
    some { file with
      data := file.data.take file.head ++ ptr ++ file.data.drop (file.head + ptr.length)
      head := file.head + ptr.length }
  else none

/-- `write_to_ptr`: the number of bytes taken, and the buffer afterwards. -/
def writeToPtr (ptr : Bytes) (file : PtrData) : Option (ℕ × PtrData) :=
  let relocated :=
    if file.currentSize < file.head + ptr.length then file.relocate heap else file
  (relocated.copy ptr).map fun next => (ptr.length, next)

/-- The calls of `write_to_ptr` for the chunks of a body. -/
def perform (chunks : List Bytes) (file : PtrData) : Option PtrData :=
  chunks.foldlM (fun file ptr => (writeToPtr heap ptr file).map Prod.snd) file

/-- The zero byte at the head; `none` where it is written outside the buffer. -/
def PtrData.terminate (file : PtrData) : Option Bytes :=
  if file.head < file.data.length then some (file.data.set file.head 0) else none

/-- A transfer that succeeds into a buffer of the given initial size. -/
def saveToPtr (size : ℕ) (chunks : List Bytes) : Option Bytes :=
  (perform heap chunks (PtrData.new heap size)).bind PtrData.terminate

/-- `POST_and_save_to_ptr`, where the transfer succeeds. -/
def postAndSaveToPtr : List Bytes → Option Bytes := saveToPtr heap 1024

/-- `GET_and_save_to_ptr`, where the transfer succeeds. -/
def getAndSaveToPtr : List Bytes → Option Bytes := saveToPtr heap (1024 * 1024)

/-! ## The property -/

/-- After each chunk the buffer holds the chunks so far, and the body ends before
the buffer does, so that the function `save` returns the buffer. -/
def Saves (size : ℕ) (save : List Bytes → Option Bytes) (chunks : List Bytes) : Prop :=
  (∀ seen, seen <+: chunks → ∃ file, perform heap seen (PtrData.new heap size) = some file ∧
    file.head ≤ file.currentSize ∧ file.data.take file.head = seen.flatten) ∧
  ∃ file text, perform heap chunks (PtrData.new heap size) = some file ∧
    file.head < file.currentSize ∧ save chunks = some text

/-- The least doubling of `size` that holds `total` bytes. -/
def capacity (size total : ℕ) : ℕ := size * 2 ^ Nat.clog 2 (total ⌈/⌉ size)

/-- After a body of `total` bytes, each of the chunks brings it to at most twice
the capacity for what came before it. -/
def OneDoublingEnough (size : ℕ) : ℕ → List Bytes → Prop
  | _, [] => True
  | total, chunk :: chunks =>
      total + chunk.length ≤ 2 * capacity size total ∧
        OneDoublingEnough size (total + chunk.length) chunks

/-- One doubling is enough for each chunk, and the body does not fill a doubling
of the initial size to the last byte. -/
def Fits (size : ℕ) (chunks : List Bytes) : Prop :=
  OneDoublingEnough size 0 chunks ∧ ∀ k, chunks.flatten.length ≠ size * 2 ^ k

/-! ## Doublings -/

section Capacity

variable {size total larger : ℕ}

theorem clog_le_iff (positive : 0 < size) {k : ℕ} :
    Nat.clog 2 (total ⌈/⌉ size) ≤ k ↔ total ≤ size * 2 ^ k := by
  rw [Nat.clog_le_iff_le_pow (by decide), ceilDiv_le_iff_le_mul positive]

theorem le_capacity (positive : 0 < size) : total ≤ capacity size total :=
  (clog_le_iff positive).mp (Nat.le_refl _)

theorem capacity_zero : capacity size 0 = size := by
  rw [capacity, zero_ceilDiv, Nat.clog_zero_right, Nat.pow_zero, Nat.mul_one]

/-- What still fits needs no doubling. -/
theorem capacity_of_le (positive : 0 < size) (more : total ≤ larger)
    (fits : larger ≤ capacity size total) : capacity size larger = capacity size total := by
  have upper : Nat.clog 2 (larger ⌈/⌉ size) ≤ Nat.clog 2 (total ⌈/⌉ size) :=
    (clog_le_iff positive).mpr fits
  have lower : Nat.clog 2 (total ⌈/⌉ size) ≤ Nat.clog 2 (larger ⌈/⌉ size) :=
    (clog_le_iff positive).mpr (Nat.le_trans more (le_capacity positive))
  rw [capacity, Nat.le_antisymm upper lower, capacity]

/-- What fits after one doubling and not before needs that one. -/
theorem capacity_of_lt (positive : 0 < size) (exceeds : capacity size total < larger)
    (fits : larger ≤ capacity size total * 2) :
    capacity size larger = capacity size total * 2 := by
  rw [capacity, Nat.mul_assoc, ← Nat.pow_succ] at fits
  have upper := (clog_le_iff positive).mpr fits
  have lower : Nat.clog 2 (total ⌈/⌉ size) < Nat.clog 2 (larger ⌈/⌉ size) :=
    Nat.lt_of_not_le fun le => Nat.not_le_of_lt exceeds ((clog_le_iff positive).mp le)
  rw [capacity, Nat.le_antisymm upper lower, capacity, Nat.mul_assoc, ← Nat.pow_succ]

/-- A body fills its capacity when its length is a doubling of the size. -/
theorem lt_capacity_iff (positive : 0 < size) :
    total < capacity size total ↔ ∀ k, total ≠ size * 2 ^ k := by
  constructor
  · rintro less k rfl
    have le : capacity size (size * 2 ^ k) ≤ size * 2 ^ k :=
      Nat.mul_le_mul_left size (Nat.pow_le_pow_right (by decide)
        ((clog_le_iff positive).mpr (Nat.le_refl _)))
    exact absurd less (Nat.not_lt_of_le le)
  · intro different
    exact Nat.lt_of_le_of_ne (le_capacity positive) (different _)

end Capacity

/-! ## One chunk -/

/-- The buffer holds the body and has the least size that does. -/
structure PtrData.Holds (file : PtrData) (size : ℕ) (body : Bytes) : Prop where
  head : file.head = body.length
  currentSize : file.currentSize = capacity size body.length
  length : file.data.length = file.currentSize
  body : file.data.take file.head = body

theorem holds_new (size : ℕ) : (PtrData.new heap size).Holds size [] where
  head := rfl
  currentSize := capacity_zero.symm
  length := heap.length_malloc size
  body := List.take_zero

variable {heap} {size : ℕ} {file : PtrData} {body : Bytes}

/-- Copying a chunk to the head of a buffer. -/
theorem PtrData.copy_of_le {ptr : Bytes} (fits : file.head + ptr.length ≤ file.data.length) :
    ∃ next, file.copy ptr = some next ∧ next.head = file.head + ptr.length ∧
      next.currentSize = file.currentSize ∧ next.data.length = file.data.length ∧
      next.data.take next.head = file.data.take file.head ++ ptr := by
  have taken : (file.data.take file.head).length = file.head := by
    rw [List.length_take]
    omega
  refine ⟨_, if_pos fits, rfl, rfl, ?_, ?_⟩
  · rw [List.length_append, List.length_append, taken, List.length_drop]
    omega
  · rw [List.take_left']
    rw [List.length_append, taken]

theorem PtrData.copy_eq_none {ptr : Bytes} (outside : file.data.length < file.head + ptr.length) :
    file.copy ptr = none := if_neg (Nat.not_le_of_lt outside)

variable (heap) in
/-- The buffer that `write_to_ptr` copies to. -/
theorem PtrData.Holds.relocated (holds : file.Holds size body) (positive : 0 < size)
    (length : ℕ) :
    ∃ relocated : PtrData,
      (if file.currentSize < file.head + length then file.relocate heap else file) = relocated ∧
      relocated.head = body.length ∧ relocated.data.take body.length = body ∧
      relocated.data.length = relocated.currentSize ∧
      (body.length + length ≤ 2 * capacity size body.length ↔
        body.length + length ≤ relocated.currentSize) ∧
      (body.length + length ≤ relocated.currentSize →
        relocated.currentSize = capacity size (body.length + length)) := by
  have bodyHere := holds.body
  rw [holds.head] at bodyHere
  by_cases exceeds : file.currentSize < file.head + length
  · refine ⟨_, if_pos exceeds, holds.head, ?_, heap.length_realloc _ _, ?_, ?_⟩
    · have grows : file.data.length ≤ file.currentSize * 2 := by
        rw [holds.length]
        omega
      have within : body.length ≤ file.data.length := by
        rw [← bodyHere, List.length_take]
        omega
      have kept := congrArg (List.take body.length) (heap.take_realloc grows)
      rwa [List.take_take, Nat.min_eq_left within, bodyHere] at kept
    · rw [PtrData.relocate, holds.currentSize, Nat.mul_comm]
    · intro fits
      rw [PtrData.relocate, holds.currentSize] at fits ⊢
      rw [holds.currentSize, holds.head] at exceeds
      exact (capacity_of_lt positive exceeds fits).symm
  · have fits : body.length + length ≤ capacity size body.length := by
      rw [← holds.currentSize, ← holds.head]
      exact Nat.le_of_not_lt exceeds
    refine ⟨file, if_neg exceeds, holds.head, bodyHere, holds.length, ?_, ?_⟩
    · rw [holds.currentSize]
      exact iff_of_true (by omega) fits
    · intro _
      rw [holds.currentSize, capacity_of_le positive (Nat.le_add_right _ _) fits]

variable (heap) in
/-- A chunk for which one doubling is enough is stored behind the body. -/
theorem PtrData.Holds.write (holds : file.Holds size body) (positive : 0 < size) {chunk : Bytes}
    (enough : body.length + chunk.length ≤ 2 * capacity size body.length) :
    ∃ next, writeToPtr heap chunk file = some (chunk.length, next) ∧
      next.Holds size (body ++ chunk) := by
  obtain ⟨relocated, same, head, kept, length, enough_iff, grown⟩ :=
    holds.relocated heap positive chunk.length
  have room := enough_iff.mp enough
  have fits : relocated.head + chunk.length ≤ relocated.data.length := by
    rwa [head, length]
  obtain ⟨next, copied, nextHead, nextSize, nextLength, content⟩ := PtrData.copy_of_le fits
  refine ⟨next, ?_, ?_, ?_, ?_, ?_⟩
  · simp only [writeToPtr, same, copied, Option.map_some]
  · rw [nextHead, head, List.length_append]
  · rw [nextSize, grown room, List.length_append]
  · rw [nextLength, length, nextSize]
  · rw [content, head, kept]

/-- A chunk for which one doubling is not enough is written outside the
buffer. -/
theorem PtrData.Holds.write_eq_none (holds : file.Holds size body) (positive : 0 < size)
    {chunk : Bytes} (short : ¬ body.length + chunk.length ≤ 2 * capacity size body.length) :
    writeToPtr heap chunk file = none := by
  obtain ⟨relocated, same, head, -, length, enough_iff, -⟩ :=
    holds.relocated heap positive chunk.length
  have outside : relocated.data.length < relocated.head + chunk.length := by
    rw [head, length]
    exact Nat.lt_of_not_le fun room => short (enough_iff.mpr room)
  simp only [writeToPtr, same, PtrData.copy_eq_none outside, Option.map_none]

/-! ## A whole body -/

variable (heap) in
/-- The chunks are stored one behind the other as long as one doubling is enough
for each. -/
theorem PtrData.Holds.perform (holds : file.Holds size body) (positive : 0 < size)
    {chunks : List Bytes} (enough : OneDoublingEnough size body.length chunks) :
    ∃ last, Curl.perform heap chunks file = some last ∧
      last.Holds size (body ++ chunks.flatten) := by
  induction chunks generalizing file body with
  | nil =>
      refine ⟨file, rfl, ?_⟩
      rwa [List.flatten_nil, List.append_nil]
  | cons chunk chunks ih =>
      obtain ⟨first, rest⟩ := enough
      obtain ⟨next, written, nextHolds⟩ := holds.write heap positive first
      rw [← List.length_append] at rest
      obtain ⟨last, performed, lastHolds⟩ := ih nextHolds rest
      refine ⟨last, ?_, ?_⟩
      · rw [Curl.perform, List.foldlM_cons, written]
        exact performed
      · rwa [List.flatten_cons, ← List.append_assoc]

/-- Chunks that are all stored need one doubling each at most. -/
theorem PtrData.Holds.enough_of_perform (holds : file.Holds size body) (positive : 0 < size)
    {chunks : List Bytes} {last : PtrData} (performed : Curl.perform heap chunks file = some last) :
    OneDoublingEnough size body.length chunks := by
  induction chunks generalizing file body with
  | nil => trivial
  | cons chunk chunks ih =>
      obtain ⟨middle, first, rest⟩ := Option.bind_eq_some_iff.mp performed
      obtain ⟨written, wrote, rfl⟩ := Option.map_eq_some_iff.mp first
      by_cases enough : body.length + chunk.length ≤ 2 * capacity size body.length
      · obtain ⟨next, writes, nextHolds⟩ := holds.write heap positive enough
        obtain rfl := Option.some.inj (writes.symm.trans wrote)
        refine ⟨enough, ?_⟩
        rw [← List.length_append]
        exact ih nextHolds rest
      · rw [holds.write_eq_none positive enough] at wrote
        cases wrote

theorem OneDoublingEnough.of_prefix {total : ℕ} {seen chunks : List Bytes}
    (enough : OneDoublingEnough size total chunks) (before : seen <+: chunks) :
    OneDoublingEnough size total seen := by
  induction seen generalizing total chunks with
  | nil => trivial
  | cons chunk seen ih =>
      obtain ⟨rest, rfl⟩ := before
      exact ⟨enough.1, ih enough.2 (List.prefix_append seen rest)⟩

variable (heap)

/-- When a body is stored and terminated, for any initial size. -/
theorem saves_iff_fits (positive : 0 < size) (chunks : List Bytes) :
    Saves heap size (saveToPtr heap size) chunks ↔ Fits size chunks := by
  have start := holds_new heap size
  constructor
  · rintro ⟨-, file, text, performed, less, -⟩
    have enough := start.enough_of_perform positive performed
    obtain ⟨last, again, holds⟩ := start.perform heap positive enough
    obtain rfl := Option.some.inj (performed.symm.trans again)
    rw [holds.head, holds.currentSize, List.nil_append] at less
    exact ⟨enough, (lt_capacity_iff positive).mp less⟩
  · rintro ⟨enough, different⟩
    constructor
    · intro seen before
      obtain ⟨file, performed, holds⟩ :=
        start.perform heap positive (enough.of_prefix before)
      refine ⟨file, performed, ?_, holds.body⟩
      rw [holds.head, holds.currentSize]
      exact le_capacity positive
    · obtain ⟨file, performed, holds⟩ := start.perform heap positive enough
      have less : file.head < file.currentSize := by
        rw [holds.head, holds.currentSize]
        exact (lt_capacity_iff positive).mpr different
      refine ⟨file, file.data.set file.head 0, performed, less, ?_⟩
      rw [saveToPtr, performed, Option.bind_some, PtrData.terminate,
        if_pos (holds.length.symm ▸ less)]

/-- **When a response body is stored and terminated** by `POST_and_save_to_ptr`
and by `GET_and_save_to_ptr`: exactly when one doubling of the buffer is enough
for each chunk and the body does not fill a doubling of the initial size to the
last byte. -/
theorem saves_iff (chunks : List Bytes) :
    (Saves heap 1024 (postAndSaveToPtr heap) chunks ↔ Fits 1024 chunks) ∧
      (Saves heap (1024 * 1024) (getAndSaveToPtr heap) chunks ↔ Fits (1024 * 1024) chunks) :=
  ⟨saves_iff_fits heap (by decide) chunks, saves_iff_fits heap (by decide) chunks⟩

/-- A first chunk of 3000 bytes, and a body of exactly 1024 bytes. -/
theorem not_saves_post :
    ¬ Saves Allocator.clearing 1024 (postAndSaveToPtr Allocator.clearing)
        [List.replicate 3000 0] ∧
      ¬ Saves Allocator.clearing 1024 (postAndSaveToPtr Allocator.clearing)
        [List.replicate 1024 0] := by
  constructor
  · intro saves
    obtain ⟨⟨enough, -⟩, -⟩ := (saves_iff_fits Allocator.clearing (by decide) _).mp saves
    rw [capacity_zero, List.length_replicate] at enough
    exact absurd enough (by decide)
  · intro saves
    obtain ⟨-, different⟩ := (saves_iff_fits Allocator.clearing (by decide) _).mp saves
    refine different 0 ?_
    rw [List.flatten_cons, List.flatten_nil, List.append_nil, List.length_replicate, Nat.pow_zero]

end Curl
end P2PFileSync
