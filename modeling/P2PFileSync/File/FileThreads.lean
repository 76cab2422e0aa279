import P2PFileSync.File.FileNode
import P2PFileSync.Foundations.CheckedCalls

/-!
# Calls on a file at once

The calls that change a file test their indices before they take the lock. Each
test, and what is done under the lock, is one step, and the steps of any number
of calls interleave in any order.

No call makes the list of blocks shorter, so an index that passed its test is
still the index of a block when the lock is taken. In every run no step reads or
writes a place that does not exist, and the calls that have returned gave the
answers and the file that they give one after another
(`concurrent_calls_sequential`). A call takes its place in that order when it
releases the lock, or when a test of it fails.
-/

set_option autoImplicit false

namespace P2PFileSync

namespace FileNode

open CheckedCalls

/-- The calls on a file, as tests and an act. -/
def calls : CheckedCalls FileNode Call ℕ where
  passes node index := decide (index < node.blocks.length)
  tests := Call.indices
  act node call := call.locked node
  stable outcome passes :=
    decide_eq_true (Nat.lt_of_lt_of_le (of_decide_eq_true passes)
      (Call.length_le_of_locked outcome))
  guarded all :=
    Call.locked_isSome fun index member =>
      of_decide_eq_true (List.all_eq_true.mp all index member)

/-- The tests and the act, made without other calls in between, are the call. -/
theorem calls_call : calls.call = Call.run := by
  funext node call
  have tests : (calls.tests call).all (calls.passes node) = true ↔
      ∀ index ∈ call.indices, index < node.blocks.length := by
    simp only [calls, List.all_eq_true, decide_eq_true_eq]
  rw [Call.run_eq]
  exact if_congr tests rfl rfl

variable {ι : Type} {node : FileNode} {started : List (ι × Call)}
  {config : TokenSystem.Config (Shared FileNode ι Call) (Thread ι Call ℕ)}

/-- **In every run of concurrent calls, no step reads or writes outside the
blocks, and the calls that have returned gave the answers, the blocks and the
versions that they give one after another in the order in which they
returned.** -/
theorem concurrent_calls_sequential (run : calls.system.Run (calls.start node started) config) :
    (∀ thread ∈ config.tokens, (calls.step config.state thread).isSome) ∧
      (config.state.returned.map Returned.call ++ config.tokens.map Thread.call).Perm started ∧
      runAll Call.run node (config.state.returned.map Returned.op) =
        some (config.state.returned.map Returned.result, config.state.object) := by
  have sequential := Run.sequential run
  refine ⟨Run.enabled run, sequential.conserved, ?_⟩
  rw [← calls_call]
  exact sequential.order

/-- An append comes between the two index tests of a batch on a file of one
block, and the batch is done after it. -/
theorem append_between_tests :
    runAll Call.run ⟨0, [], [⟨0, 1, [7]⟩]⟩
        [.addBlock [2] ⟨1, 1, [6]⟩, .replaceBlocks [1] [(0, ⟨0, 2, [8]⟩), (1, ⟨1, 2, [9]⟩)]] =
      some ([true, true], ⟨2, [[2], [1]], [⟨0, 2, [8]⟩, ⟨1, 2, [9]⟩]⟩) := by
  have executed : calls.system.exec [0, 0, 0, 0]
      (calls.start ⟨0, [], [⟨0, 1, [7]⟩]⟩
        [(0, .replaceBlocks [1] [(0, ⟨0, 2, [8]⟩), (1, ⟨1, 2, [9]⟩)]),
          (1, .addBlock [2] ⟨1, 1, [6]⟩)]) =
      some ⟨⟨⟨2, [[2], [1]], [⟨0, 2, [8]⟩, ⟨1, 2, [9]⟩]⟩,
        [⟨1, .addBlock [2] ⟨1, 1, [6]⟩, true⟩,
          ⟨0, .replaceBlocks [1] [(0, ⟨0, 2, [8]⟩), (1, ⟨1, 2, [9]⟩)], true⟩]⟩, []⟩ := rfl
  exact (concurrent_calls_sequential (TokenSystem.run_of_exec executed)).2.2

/-- Some run ends, and it ends when every call has returned. -/
theorem concurrent_calls_return (node : FileNode) (started : List (ι × Call)) :
    ∃ config, calls.system.Run (calls.start node started) config ∧ config.tokens = [] := by
  obtain ⟨config, run, terminal⟩ := TokenSystem.exists_terminal (acc_start node started)
  exact ⟨config, run, terminal.tokens_eq_nil (Run.enabled run)⟩

end FileNode

end P2PFileSync
