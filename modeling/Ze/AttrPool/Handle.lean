import Mathlib.Data.List.Basic
import Mathlib.Tactic.Ring

/-!
# Pool handles

`Handle` of `attrpool/handle.go`: 32 bits that name a pool, a shard, a slot of the shard and the
buffer the slot is read from.

```
bit 31: buffer bit | bits 30-26: pool index | bits 25-22: shard | bits 21-0: slot of the shard
```

The shifts, ors and masks of the source are written with the equivalent arithmetic on naturals.
-/

namespace Ze.AttrPool

/-- A byte string: Go's `[]byte`, and `string` where it is only compared. -/
abbrev Bytes := List UInt8

structure Handle where
  val : ℕ
  isLt : val < 2 ^ 32
deriving DecidableEq, Repr

def packShardSlot (shard slot : ℕ) : ℕ :=
  (shard % 2 ^ 4) * 2 ^ 22 + slot % 2 ^ 22

def newHandleWithBuffer (bufferBit : Bool) (poolIdx slot : ℕ) : Handle where
  val := bufferBit.toNat * 2 ^ 31 + (poolIdx % 2 ^ 5) * 2 ^ 26 + slot % 2 ^ 26
  isLt := by
    have h : bufferBit.toNat ≤ 1 := Bool.toNat_le bufferBit
    omega

namespace Handle

def bufferBit (h : Handle) : Bool := decide (h.val / 2 ^ 31 = 1)

def poolIdx (h : Handle) : ℕ := h.val / 2 ^ 26 % 2 ^ 5

def slot (h : Handle) : ℕ := h.val % 2 ^ 26

def shardID (h : Handle) : ℕ := h.slot / 2 ^ 22 % 2 ^ 4

def shardSlot (h : Handle) : ℕ := h.slot % 2 ^ 22

def isValid (h : Handle) : Bool := decide (h.poolIdx < 31)

end Handle

/-! ## Reading a handle back -/

section

variable {b : Bool} {p shard i : ℕ}

@[simp] lemma bufferBit_newHandleWithBuffer (b : Bool) (p s : ℕ) :
    (newHandleWithBuffer b p s).bufferBit = b := by
  cases b with
  | false =>
    refine decide_eq_false ?_
    simp only [newHandleWithBuffer, Bool.toNat_false]
    omega
  | true =>
    refine decide_eq_true ?_
    simp only [newHandleWithBuffer, Bool.toNat_true]
    omega

lemma poolIdx_newHandleWithBuffer (b : Bool) (s : ℕ) (hp : p < 32) :
    (newHandleWithBuffer b p s).poolIdx = p := by
  cases b <;> simp only [Handle.poolIdx, newHandleWithBuffer, Bool.toNat_false, Bool.toNat_true] <;>
    omega

lemma slot_newHandleWithBuffer (b : Bool) (p s : ℕ) :
    (newHandleWithBuffer b p s).slot = s % 2 ^ 26 := by
  cases b <;> simp only [Handle.slot, newHandleWithBuffer, Bool.toNat_false, Bool.toNat_true] <;>
    omega

lemma shardID_newHandleWithBuffer (b : Bool) (p i : ℕ) (hs : shard < 16) :
    (newHandleWithBuffer b p (packShardSlot shard i)).shardID = shard := by
  simp only [Handle.shardID, slot_newHandleWithBuffer, packShardSlot]
  omega

lemma shardSlot_newHandleWithBuffer (b : Bool) (p shard : ℕ) (hi : i < 2 ^ 22) :
    (newHandleWithBuffer b p (packShardSlot shard i)).shardSlot = i := by
  simp only [Handle.shardSlot, slot_newHandleWithBuffer, packShardSlot]
  omega

end

end Ze.AttrPool
