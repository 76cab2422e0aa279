import Mathlib.Data.List.AList

/-!
# The pool of instances

`InstancePool<KEY, INSTANCE>` keeps at most one instance for a key. An instance
is shared: a call on the instance a lookup returns changes the one in the pool,
which `setInstance` records.
-/

set_option autoImplicit false

namespace P2PFileSync

universe u v

/-- `_instance_pool`. -/
structure InstancePool (KEY : Type u) (INSTANCE : Type v) where
  instancePool : AList fun _ : KEY => INSTANCE

namespace InstancePool

variable {KEY : Type u} {INSTANCE : Type v} [DecidableEq KEY]

def getInstance (pool : InstancePool KEY INSTANCE) (key : KEY) : Option INSTANCE :=
  pool.instancePool.lookup key

/-- `add_instance`: its answer, and the pool afterwards. -/
def addInstance (pool : InstancePool KEY INSTANCE) (key : KEY) (inst : INSTANCE) :
    Bool × InstancePool KEY INSTANCE :=
  match pool.instancePool.lookup key with
  | none => (true, ⟨pool.instancePool.insert key inst⟩)
  | some _ => (false, pool)

/-- The pool after the instance of a key changed in place. -/
def setInstance (pool : InstancePool KEY INSTANCE) (key : KEY) (inst : INSTANCE) :
    InstancePool KEY INSTANCE :=
  ⟨pool.instancePool.replace key inst⟩

/-- After the call the key has an instance. -/
theorem isSome_getInstance_addInstance (pool : InstancePool KEY INSTANCE) (key : KEY)
    (inst : INSTANCE) : ((pool.addInstance key inst).2.getInstance key).isSome := by
  unfold addInstance getInstance
  split
  · rw [AList.lookup_insert, Option.isSome_some]
  · rename_i found
    rw [found, Option.isSome_some]

theorem getInstance_addInstance_ne (pool : InstancePool KEY INSTANCE) {key other : KEY}
    (different : other ≠ key) (inst : INSTANCE) :
    (pool.addInstance key inst).2.getInstance other = pool.getInstance other := by
  unfold addInstance getInstance
  split
  · exact AList.lookup_insert_ne different
  · rfl

end InstancePool

end P2PFileSync
