import Mathlib.Data.List.Induction
import Mathlib.Data.List.Nodup
import Mathlib.Logic.Relation
import P2PFileSync.Foundations.Bytes

/-!
# The tree of inodes

A new `INode` keeps its parent and then asks the parent to list it. `add_child`
refuses a name that the parent lists already, and the constructor does not look at
the answer: the node then has a parent that does not list it. The parents always
lead to the root (`constructAll_rooted`), and the nodes are all listed exactly if no
name is given twice below one parent (`isTree_iff`).

The nodes live in a list in the order of their construction, and a
`shared_ptr<INode>` is null or an index of it.
-/

set_option autoImplicit false

namespace P2PFileSync

/-! ## The model -/

/-- The members of `INode`, without the mutex and the file block. -/
structure INode where
  size : UInt64
  mtime : Int64
  ctime : Int64
  atime : Int64
  name : Bytes
  parent : Option ℕ
  children : List (Bytes × ℕ)

namespace INode

/-- The arguments that the constructor keeps, apart from the parent. -/
structure Arguments where
  name : Bytes
  size : Int64
  mtime : Int64
  ctime : Int64
  atime : Int64

def isRoot (node : INode) : Bool := node.parent.isNone

/-- `emplace` in the map of children: a name that is there keeps its node. -/
def emplace (node : INode) (path : Bytes) (child : ℕ) : INode :=
  if (node.children.lookup path).isSome then node
  else { node with children := node.children ++ [(path, child)] }

/-- `add_child`: its answer, and the node afterwards. -/
def addChild (node : INode) (path : Bytes) (newChild : ℕ) : Bool × INode :=
  if (node.children.lookup path).any (· ≠ newChild) then (false, node)
  else (true, node.emplace path newChild)

/-- The constructor, given the nodes built so far. -/
def new (nodes : List INode) (parent : Option ℕ) (args : Arguments) : List INode :=
  let self : INode :=
    ⟨args.size.toUInt64, args.mtime, args.ctime, args.atime, args.name, parent, []⟩
  -- if not root add self to parent's children
  match parent with
  | none => nodes ++ [self]
  | some parent =>
      (nodes ++ [self]).modify parent fun node => (node.addChild args.name nodes.length).2

/-- A construction below a node that is there. -/
structure Construction where
  parent : ℕ
  args : Arguments

/-- The parent and the name of the node that is constructed. -/
def Construction.key (construction : Construction) : ℕ × Bytes :=
  (construction.parent, construction.args.name)

def construct (nodes : List INode) (construction : Construction) : List INode :=
  new nodes (some construction.parent) construction.args

/-- A root and nodes below it, constructed one after another. -/
def constructAll (root : Arguments) (constructions : List Construction) : List INode :=
  constructions.foldl construct (new [] none root)

/-! ## The property -/

/-- Every parent is the root or is constructed before. -/
def ParentsBuilt (constructions : List Construction) : Prop :=
  ∀ (i : ℕ) (construction : Construction), constructions[i]? = some construction →
    construction.parent ≤ i

/-- The node that a node lists under a name. -/
def childOf (nodes : List INode) (parent : ℕ) (name : Bytes) : Option ℕ :=
  nodes[parent]?.bind fun node => node.children.lookup name

/-- The second node is the parent of the first one. -/
def HasParent (nodes : List INode) (n parent : ℕ) : Prop :=
  ∃ node, nodes[n]? = some node ∧ node.parent = some parent

/-- Every node with a parent is listed there under its own name. -/
def Listed (nodes : List INode) : Prop :=
  ∀ n node parent, nodes[n]? = some node → node.parent = some parent →
    childOf nodes parent node.name = some n

/-- The parents of the nodes lead to the root, and the nodes are listed there. -/
structure IsTree (nodes : List INode) : Prop where
  root : ∃ node, nodes[0]? = some node ∧ node.isRoot = true
  rooted : ∀ n < nodes.length, Relation.ReflTransGen (HasParent nodes) n 0
  listed : Listed nodes

/-! ## One construction -/

/-- A new child changes neither the parent nor the name of a node. -/
theorem emplace_link (node : INode) (path : Bytes) (child : ℕ) :
    ((node.emplace path child).parent, (node.emplace path child).name) =
      (node.parent, node.name) := by
  rw [emplace]
  split <;> rfl

/-- A refused child and a child that is there leave the node as it was. -/
theorem addChild_snd (node : INode) (path : Bytes) (newChild : ℕ) :
    (node.addChild path newChild).2 = node.emplace path newChild := by
  rw [addChild]
  split
  case isTrue other =>
    have present : (node.children.lookup path).isSome = true := by
      cases found : node.children.lookup path with
      | none =>
          rw [found] at other
          cases other
      | some child => rfl
    rw [emplace, if_pos present]
  case isFalse => rfl

theorem lookup_emplace (node : INode) (path name : Bytes) (child : ℕ) :
    (node.emplace path child).children.lookup name =
      (node.children.lookup name).or (if name = path then some child else none) := by
  rw [emplace]
  cases found : node.children.lookup path with
  | none =>
      rw [if_neg (by simp), List.lookup_append, lookup_entry_cons, List.lookup_nil]
  | some present =>
      rw [if_pos (Option.isSome_some)]
      by_cases same : name = path
      · rw [same, found, Option.some_or]
      · rw [if_neg same, Option.or_none]

/-- A change of one entry that keeps what is read of it. -/
theorem map_modify_of_eq {α β : Type} {change : α → α} {read : α → β}
    (kept : ∀ a, read (change a) = read a) (entries : List α) (i : ℕ) :
    (entries.modify i change).map read = entries.map read := by
  refine List.ext_getElem? fun j => ?_
  rw [List.getElem?_map, List.getElem?_map, List.getElem?_modify]
  cases entries[j]? with
  | none => rfl
  | some entry =>
      by_cases same : i = j
      · simp [same, kept]
      · simp [same]

section Step

variable {nodes : List INode} {construction : Construction}

theorem length_construct : (construct nodes construction).length = nodes.length + 1 := by
  rw [construct, new, List.length_modify, List.length_append, List.length_singleton]

/-- The parents and the names of the nodes. -/
def links (nodes : List INode) : List (Option ℕ × Bytes) :=
  nodes.map fun node => (node.parent, node.name)

theorem getElem?_links {n : ℕ} {parent : Option ℕ} {name : Bytes} :
    (links nodes)[n]? = some (parent, name) ↔
      ∃ node, nodes[n]? = some node ∧ node.parent = parent ∧ node.name = name := by
  rw [links, List.getElem?_map]
  simp [Option.map_eq_some_iff, Prod.ext_iff]

theorem length_links : (links nodes).length = nodes.length := List.length_map _

theorem hasParent_iff {n parent : ℕ} :
    HasParent nodes n parent ↔ ∃ name, (links nodes)[n]? = some (some parent, name) := by
  simp only [getElem?_links, HasParent]
  constructor
  · rintro ⟨node, found, isParent⟩
    exact ⟨node.name, node, found, isParent, rfl⟩
  · rintro ⟨name, node, found, isParent, _⟩
    exact ⟨node, found, isParent⟩

theorem listed_iff :
    Listed nodes ↔ ∀ n parent name, (links nodes)[n]? = some (some parent, name) →
      childOf nodes parent name = some n := by
  simp only [getElem?_links, Listed]
  constructor
  · rintro listed n parent _ ⟨node, found, isParent, rfl⟩
    exact listed n node parent found isParent
  · intro listed n node parent found isParent
    exact listed n parent node.name ⟨node, found, isParent, rfl⟩

/-- A construction changes no parent and no name. -/
theorem links_construct :
    links (construct nodes construction) =
      links nodes ++ [(some construction.parent, construction.args.name)] := by
  rw [construct, new, links, map_modify_of_eq, List.map_append]
  · rfl
  · intro node
    rw [addChild_snd, emplace_link]

/-- A construction adds the new node under its name, unless the name is taken. -/
theorem childOf_construct (built : construction.parent < nodes.length) (parent : ℕ)
    (name : Bytes) :
    childOf (construct nodes construction) parent name =
      (childOf nodes parent name).or
        (if (parent, name) = construction.key then some nodes.length else none) := by
  rw [childOf, childOf, construct, new, List.getElem?_modify, Construction.key]
  rcases Nat.lt_trichotomy parent nodes.length with inside | rfl | outside
  · rw [List.getElem?_append_left inside, List.getElem?_eq_getElem inside, Option.map_eq_map,
      Option.map_some, Option.bind_some, Option.bind_some]
    by_cases same : construction.parent = parent
    · rw [if_pos same, addChild_snd, lookup_emplace]
      simp [same]
    · rw [if_neg same]
      simp [Ne.symm same]
  · have other : construction.parent ≠ nodes.length := Nat.ne_of_lt built
    rw [List.getElem?_concat_length]
    simp [other, other.symm]
  · have other : parent ≠ construction.parent := by omega
    rw [List.getElem?_eq_none (by simp; omega), List.getElem?_eq_none (by omega)]
    simp [other]

/-- After a construction the nodes are listed if they were before and the name of
the new node was not taken. -/
theorem listed_construct_iff (built : construction.parent < nodes.length)
    (inside : ∀ parent name child, childOf nodes parent name = some child →
      child < nodes.length) :
    Listed (construct nodes construction) ↔
      Listed nodes ∧ childOf nodes construction.parent construction.args.name = none := by
  rw [listed_iff, listed_iff, links_construct]
  have last : (links nodes ++ [(some construction.parent, construction.args.name)])[nodes.length]? =
      some (some construction.parent, construction.args.name) := by
    rw [← length_links, List.getElem?_concat_length]
  constructor
  · intro listed
    constructor
    · intro n parent name found
      have small : n < nodes.length := by
        rw [← length_links]
        exact (List.getElem?_eq_some_iff.mp found).1
      have child := listed n parent name (by
        rw [List.getElem?_append_left (by rwa [length_links])]
        exact found)
      rw [childOf_construct built] at child
      cases before : childOf nodes parent name with
      | some other => rwa [before, Option.some_or] at child
      | none =>
          rw [before, Option.none_or] at child
          split at child
          case isTrue =>
            cases child
            exact absurd small (Nat.lt_irrefl _)
          case isFalse => cases child
    · have child := listed nodes.length construction.parent construction.args.name last
      rw [childOf_construct built] at child
      cases before : childOf nodes construction.parent construction.args.name with
      | none => rfl
      | some other =>
          rw [before, Option.some_or, Option.some.injEq] at child
          exact absurd (inside _ _ _ before) (by omega)
  · rintro ⟨listed, free⟩ n parent name found
    rw [childOf_construct built]
    by_cases small : n < nodes.length
    · rw [List.getElem?_append_left (by rwa [length_links])] at found
      rw [listed n parent name found, Option.some_or]
    · have isLast : n = nodes.length := by
        have bound := (List.getElem?_eq_some_iff.mp found).1
        rw [List.length_append, length_links, List.length_singleton] at bound
        omega
      rw [isLast, last] at found
      cases found
      rw [free, Option.none_or, isLast]
      exact if_pos rfl

end Step

/-! ## All constructions -/

/-- What the nodes are after constructions with the given keys. -/
structure Tracks (nodes : List INode) (keys : List (ℕ × Bytes)) : Prop where
  length : nodes.length = keys.length + 1
  inside : ∀ parent name child, childOf nodes parent name = some child → child < nodes.length
  free_iff : ∀ parent name, childOf nodes parent name = none ↔ (parent, name) ∉ keys
  listed_iff : Listed nodes ↔ keys.Nodup

theorem Tracks.construct {nodes : List INode} {keys : List (ℕ × Bytes)}
    {construction : Construction} (tracks : Tracks nodes keys)
    (built : construction.parent < nodes.length) :
    Tracks (INode.construct nodes construction) (keys ++ [construction.key]) where
  length := by
    rw [length_construct, tracks.length, List.length_append, List.length_singleton]
  inside parent name child found := by
    rw [childOf_construct built, Option.or_eq_some_iff] at found
    rw [length_construct]
    rcases found with before | ⟨_, isNew⟩
    · exact Nat.lt_succ_of_lt (tracks.inside parent name child before)
    · split at isNew
      case isTrue =>
        cases isNew
        exact Nat.lt_succ_self _
      case isFalse => cases isNew
  free_iff parent name := by
    rw [childOf_construct built, Option.or_eq_none_iff, tracks.free_iff, List.mem_append,
      List.mem_singleton, not_or]
    refine and_congr_right fun _ => ?_
    split
    case isTrue same => exact iff_of_false (Option.some_ne_none _) (not_not_intro same)
    case isFalse other => exact iff_of_true rfl other
  listed_iff := by
    rw [listed_construct_iff built tracks.inside, tracks.listed_iff, tracks.free_iff,
      ← List.concat_eq_append, List.nodup_concat]
    exact and_comm

/-- The root alone. -/
theorem tracks_root (root : Arguments) : Tracks (new [] none root) [] where
  length := rfl
  inside parent name child found := by
    rcases parent with _ | parent <;> cases found
  free_iff parent name := by
    refine iff_of_true ?_ List.not_mem_nil
    rcases parent with _ | parent <;> rfl
  listed_iff := by
    refine iff_of_true ?_ List.nodup_nil
    intro n node parent found isParent
    rcases n with _ | n
    · cases found
      cases isParent
    · cases found

theorem ParentsBuilt.of_append {constructions : List Construction} {last : Construction}
    (built : ParentsBuilt (constructions ++ [last])) :
    ParentsBuilt constructions ∧ last.parent ≤ constructions.length := by
  constructor
  · intro i construction found
    have inside := (List.getElem?_eq_some_iff.mp found).1
    exact built i construction (by rwa [List.getElem?_append_left inside])
  · exact built constructions.length last List.getElem?_concat_length

theorem tracks_constructAll (root : Arguments) {constructions : List Construction}
    (built : ParentsBuilt constructions) :
    Tracks (constructAll root constructions) (constructions.map Construction.key) := by
  induction constructions using List.reverseRecOn with
  | nil => exact tracks_root root
  | append_singleton constructions last ih =>
      obtain ⟨before, there⟩ := built.of_append
      have tracks := ih before
      rw [constructAll, List.foldl_append, List.map_append]
      refine tracks.construct ?_
      rw [tracks.length, List.length_map]
      exact Nat.lt_succ_of_le there

/-- The parents and names are those of the constructions. -/
theorem links_constructAll (root : Arguments) (constructions : List Construction) :
    links (constructAll root constructions) =
      (none, root.name) :: constructions.map fun construction =>
        (some construction.parent, construction.args.name) := by
  induction constructions using List.reverseRecOn with
  | nil => rfl
  | append_singleton constructions last ih =>
      rw [constructAll, List.foldl_append, List.map_append, ← List.cons_append, ← ih]
      exact links_construct

/-- The parents lead to the root. -/
theorem constructAll_rooted (root : Arguments) {constructions : List Construction}
    (built : ParentsBuilt constructions) (n : ℕ) (inside : n ≤ constructions.length) :
    Relation.ReflTransGen (HasParent (constructAll root constructions)) n 0 := by
  induction n using Nat.strong_induction_on with
  | h n ih =>
      rcases n with _ | n
      · exact .refl
      · have found : constructions[n]? = some constructions[n] := List.getElem?_eq_getElem inside
        have earlier := built n _ found
        refine .head ?_ (ih constructions[n].parent (by omega) (by omega))
        rw [hasParent_iff, links_constructAll, List.getElem?_cons_succ, List.getElem?_map, found]
        exact ⟨_, rfl⟩

/-- **The nodes are a tree in which each is listed exactly if no two of them are
constructed with one parent and one name.** -/
theorem isTree_iff (root : Arguments) (constructions : List Construction)
    (built : ParentsBuilt constructions) :
    IsTree (constructAll root constructions) ↔
      (constructions.map Construction.key).Nodup := by
  have tracks := tracks_constructAll root built
  rw [← tracks.listed_iff]
  constructor
  · exact IsTree.listed
  · intro listed
    refine ⟨?_, ?_, listed⟩
    · have first : (links (constructAll root constructions))[0]? = some (none, root.name) := by
        rw [links_constructAll, List.getElem?_cons_zero]
      obtain ⟨node, found, isNone, _⟩ := getElem?_links.mp first
      refine ⟨node, found, ?_⟩
      rw [isRoot, isNone, Option.isNone_none]
    · intro n inside
      refine constructAll_rooted root built n ?_
      rw [tracks.length, List.length_map] at inside
      exact Nat.le_of_lt_succ inside

/-- Arguments that give a name only. -/
def named (name : Bytes) : Arguments := ⟨name, 0, 0, 0, 0⟩

/-- Two nodes of one name below different parents. -/
theorem isTree_same_name :
    IsTree (constructAll (named []) [⟨0, named [97]⟩, ⟨1, named [97]⟩]) := by
  refine (isTree_iff _ _ ?_).mpr (by decide)
  intro i construction found
  rcases i with _ | _ | i
  · cases found
    exact Nat.le_refl 0
  · cases found
    exact Nat.le_refl 1
  · cases found

/-- The second child of one name is not listed. -/
theorem repeated_name_not_listed :
    ¬ IsTree (constructAll (named []) [⟨0, named [97]⟩, ⟨0, named [97]⟩]) := by
  intro tree
  have child := tree.listed 2 _ 0 rfl rfl
  cases child

end INode
end P2PFileSync
