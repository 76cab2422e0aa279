import Mathlib.Combinatorics.SimpleGraph.Paths

/-!
# Spreading towards a vertex

Something spreads over a graph from a vertex `v` with a number of hops to go. A
vertex keeps the number it is reached with first, and passes on one less to all
its neighbours while the number is above 1. A numbering of the vertices in which
this ends before the vertex `r` is met is `DiesOut`.

* Every numbered vertex is reached over a path on which the numbers go down one
  by one (`DiesOut.exists_approach`).
* So a spread that dies out before `r` has used up its hops on the way to every
  neighbour of `r` that can be approached: some approach of it is at least as
  long (`DiesOut.exists_long_approach`).
-/

set_option autoImplicit false

universe u

namespace SimpleGraph

variable {V : Type u} {G : SimpleGraph V}

namespace Walk

variable {r u v w : V}

/-! ## The last vertex in a set -/

/-- A path that meets a set has a last vertex in it, and goes on outside. -/
theorem exists_last_mem (inside : V → Prop) {walk : G.Walk v u} (isPath : walk.IsPath)
    (meets : ∃ x ∈ walk.support, inside x) :
    ∃ w, inside w ∧ ∃ rest : G.Walk w u, rest.IsPath ∧ rest.support ⊆ walk.support ∧
      ∀ x ∈ rest.support.tail, ¬ inside x := by
  induction walk with
  | nil =>
      obtain ⟨x, member, holds⟩ := meets
      rw [support_nil, List.mem_singleton] at member
      exact ⟨_, member ▸ holds, .nil, .nil, List.Subset.refl _,
        fun x later => absurd later List.not_mem_nil⟩
  | @cons v b u edge rest ih =>
      by_cases later : ∃ x ∈ rest.support, inside x
      · obtain ⟨w, holds, remainder, path, subset, outside⟩ :=
          ih ((cons_isPath_iff edge rest).mp isPath).1 later
        exact ⟨w, holds, remainder, path,
          fun x member => List.mem_cons_of_mem _ (subset member), outside⟩
      · obtain ⟨x, member, holds⟩ := meets
        rw [support_cons, List.mem_cons] at member
        rcases member with rfl | member
        · exact ⟨x, holds, .cons edge rest, isPath, List.Subset.refl _,
            fun y beyond inner => later ⟨y, beyond, inner⟩⟩
        · exact absurd ⟨x, member, holds⟩ later

/-! ## Approaching a vertex -/

/-- A path that does not meet `r`, nor a neighbour of `r` before its end. -/
structure Approach (r : V) (path : G.Walk v w) : Prop where
  isPath : path.IsPath
  avoids : r ∉ path.support
  inner : ∀ x ∈ path.support, x ≠ w → ¬ G.Adj x r

/-- What is left of an approach is an approach. -/
theorem Approach.rest {path : G.Walk v u} (approach : Approach r path) {rest : G.Walk w u}
    (isPath : rest.IsPath) (subset : rest.support ⊆ path.support) : Approach r rest where
  isPath := isPath
  avoids member := approach.avoids (subset member)
  inner x member := approach.inner x (subset member)

/-- One approach leads on to the next if they meet only where they join. -/
theorem Approach.append {path : G.Walk v w} {rest : G.Walk w u} (approach : Approach r path)
    (onward : Approach r rest) (disjoint : ∀ x ∈ path.support, x ∉ rest.support.tail) :
    Approach r (path.append rest) where
  isPath := by
    rw [isPath_def, support_append]
    exact List.nodup_append'.mpr
      ⟨approach.isPath.support_nodup, onward.isPath.support_nodup.tail, disjoint⟩
  avoids member := by
    rw [mem_support_append_iff] at member
    exact member.elim approach.avoids onward.avoids
  inner x member other := by
    rw [mem_support_append_iff] at member
    by_cases joins : x = w
    · subst joins
      exact onward.inner x rest.start_mem_support other
    · exact member.elim (fun before => approach.inner x before joins)
        (fun after => onward.inner x after other)

end Walk

/-! ## A spread that dies out -/

open Walk (Approach)

/-- A spread from `v` with `hops` to go that ends before `r`: a numbered vertex
other than `v` has a neighbour with one more, and a vertex with more than 1 is
no neighbour of `r` and has all its neighbours numbered. -/
structure DiesOut (G : SimpleGraph V) (v r : V) (hops : ℕ) (left : V → ℕ) : Prop where
  start : left v = hops
  receiver : left r = 0
  most : ∀ n, left n ≤ hops
  first : ∀ n, n ≠ v → left n ≠ 0 → ∃ p, G.Adj p n ∧ left p = left n + 1
  sentOn : ∀ n, 1 < left n → ¬ G.Adj n r ∧ ∀ m, G.Adj n m → left m ≠ 0

namespace DiesOut

variable {u v r : V} {hops : ℕ} {left : V → ℕ}

/-- What holds of `v`, and of every numbered vertex if it holds of the one it is
reached from, holds of every numbered vertex. -/
theorem numbered_induction (diesOut : DiesOut G v r hops left) {motive : V → Prop}
    (start : motive v)
    (next : ∀ n p, left n ≠ 0 → G.Adj p n → left p = left n + 1 → motive p → motive n)
    {n : V} (numbered : left n ≠ 0) : motive n := by
  -- the number can only grow up to `hops`
  generalize gap : hops - left n = k
  induction k using Nat.strong_induction_on generalizing n with
  | _ k ih =>
      by_cases root : n = v
      · rwa [root]
      · obtain ⟨p, adjacent, more⟩ := diesOut.first n root numbered
        have bound := diesOut.most p
        exact next n p numbered adjacent more
          (ih (hops - left p) (by omega) (by omega) rfl)

/-- A numbered vertex is approached over vertices with larger numbers, one for
each hop. -/
theorem exists_approach (diesOut : DiesOut G v r hops left) {n : V} (numbered : left n ≠ 0) :
    ∃ path : G.Walk v n, Approach r path ∧ path.length + left n = hops ∧
      ∀ x ∈ path.support, left n ≤ left x := by
  have positive : left v ≠ 0 := by
    have bound := diesOut.most n
    rw [diesOut.start]
    omega
  refine diesOut.numbered_induction (motive := fun n => ∃ path : G.Walk v n,
    Approach r path ∧ path.length + left n = hops ∧ ∀ x ∈ path.support, left n ≤ left x)
    ?_ ?_ numbered
  · refine ⟨.nil, ⟨.nil, ?_, ?_⟩, ?_, ?_⟩
    · intro member
      rw [Walk.support_nil, List.mem_singleton] at member
      exact positive (member ▸ diesOut.receiver)
    · intro x member other
      rw [Walk.support_nil, List.mem_singleton] at member
      exact absurd member other
    · rw [Walk.length_nil, Nat.zero_add, diesOut.start]
    · intro x member
      rw [Walk.support_nil, List.mem_singleton] at member
      rw [member]
  · rintro n p numbered adjacent more ⟨path, approach, length, larger⟩
    have new : n ∉ path.support := fun old => by
      have bound := larger n old
      omega
    have away : r ∉ path.support := approach.avoids
    refine ⟨path.concat adjacent, ⟨approach.isPath.concat new adjacent, ?_, ?_⟩, ?_, ?_⟩
    · intro member
      rw [Walk.support_concat, List.mem_append, List.mem_singleton] at member
      rcases member with old | same
      · exact away old
      · exact numbered (same ▸ diesOut.receiver)
    · intro x member other
      rw [Walk.support_concat, List.mem_append, List.mem_singleton] at member
      have old := member.resolve_right other
      have bound := larger x old
      exact (diesOut.sentOn x (by omega)).1
    · rw [Walk.length_concat]
      omega
    · intro x member
      rw [Walk.support_concat, List.mem_append, List.mem_singleton] at member
      rcases member with old | rfl
      · have bound := larger x old
        omega
      · exact le_refl _

/-- **Where a spread dies out before `r`, every neighbour of `r` has a long
approach**, if it has one at all. The last numbered vertex on the given approach
has the number 1, and the numbers lead to it over all the hops. -/
theorem exists_long_approach (diesOut : DiesOut G v r hops left) (positive : hops ≠ 0)
    (near : G.Adj u r) {way : G.Walk v u} (approach : Approach r way) :
    ∃ path : G.Walk v u, Approach r path ∧ hops ≤ path.length + 1 := by
  obtain ⟨w, numbered, rest, isPath, subset, unnumbered⟩ :=
    Walk.exists_last_mem (fun x => left x ≠ 0) approach.isPath
      ⟨v, way.start_mem_support, diesOut.start ▸ positive⟩
  have last : left w = 1 := by
    by_contra other
    obtain ⟨apart, all⟩ := diesOut.sentOn w (by omega)
    cases rest with
    | nil => exact apart near
    | @cons _ b _ edge rest => exact unnumbered b rest.start_mem_support (all b edge)
  obtain ⟨path, reaches, length, larger⟩ := diesOut.exists_approach numbered
  refine ⟨path.append rest, reaches.append (approach.rest isPath subset) ?_, ?_⟩
  · intro x member later
    have bound := larger x member
    exact unnumbered x later (by omega)
  · rw [Walk.length_append]
    omega

end DiesOut

end SimpleGraph
