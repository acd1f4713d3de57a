import Ze.Lib.Region
import Ze.AttrPool.Handle

/-!
# One shard of the attribute pool

The embedding of `shard` of `attrpool/pool.go` in the release build (`validate_release.go`:
freed slots are reused). A shard owns a table of slots, a stack of freed slots, two byte
buffers of which one is current, and the dedup index from contents to handles.

Default file: `pool.go`.
-/

namespace Ze.AttrPool

open Ze.Lib
open Function (update)

/-- The errors of the pool's operations. Source: ErrPoolShutdown … ErrInvalidShardCount -/
inductive PoolError
  | poolShutdown
  | dataTooLarge
  | invalidHandle
  | wrongPool
  | slotOutOfBounds
  | slotDead
  | poolFull
  | invalidIdx
  | invalidShardCount
deriving DecidableEq, Repr

def maxDataLength : ℕ := 65535

def maxSlotsPerShard : ℕ := 2 ^ 22

inductive PoolState
  | normal
  | compacting
deriving DecidableEq, Repr

/-- Source: the int32 counters slot.refCount and buffer.refCount -/
def int32 (z : ℤ) : ℤ := Int.bmod z (2 ^ 32)

/-- How far `append` grows a slice of capacity `c` that must hold `n` bytes: at least to `n`. -/
structure AppendGrowth where
  grow : ℕ → ℕ → ℕ
  le_grow : ∀ c n, n ≤ grow c n

/-! ## Buffers and slots -/

structure Buffer where
  data : Bytes
  cap : ℕ
  pos : ℕ
  refCount : ℤ
  pos_eq : pos = data.length
  le_cap : data.length ≤ cap

namespace Buffer

/-- `make([]byte, 0, cap)` as the data, with the write cursor at its start. -/
def make (cap : ℕ) (refCount : ℤ) : Buffer where
  data := []
  cap := cap
  pos := 0
  refCount := refCount
  pos_eq := rfl
  le_cap := Nat.zero_le _

/-- `append(buf.data, x...)` with the cursor moved behind `x`. -/
def append (g : AppendGrowth) (buf : Buffer) (x : Bytes) : Buffer where
  data := buf.data ++ x
  cap := if buf.data.length + x.length ≤ buf.cap then buf.cap
    else g.grow buf.cap (buf.data.length + x.length)
  pos := buf.pos + x.length
  refCount := buf.refCount
  pos_eq := by rw [List.length_append, buf.pos_eq]
  le_cap := by
    rw [List.length_append]
    split_ifs with h
    · exact h
    · exact g.le_grow _ _

/-- The data reallocated with capacity `max (2 * cap) required`. -/
def realloc (buf : Buffer) (required : ℕ) : Buffer where
  data := buf.data
  cap := max (buf.cap * 2) required
  pos := buf.pos
  refCount := buf.refCount
  pos_eq := buf.pos_eq
  le_cap := by
    have h := buf.le_cap
    omega

/-- The slice expression `buf.data[lo:hi]`: it panics unless `lo ≤ hi ≤ cap`. -/
def slice (buf : Buffer) (lo hi : ℕ) : Option Bytes :=
  if lo ≤ hi ∧ hi ≤ buf.cap then
    some (((buf.data ++ List.replicate (buf.cap - buf.data.length) 0).drop lo).take (hi - lo))
  else none

/-- `buf.data[off : off+uint32(len)]`, the end computed in 32 bits. -/
def region (buf : Buffer) (off len : ℕ) : Option Bytes :=
  buf.slice off ((off + len) % 2 ^ 32)

/-- The counter of handles into this buffer moved by `δ`. -/
def addRefs (buf : Buffer) (δ : ℤ) : Buffer :=
  { buf with refCount := int32 (buf.refCount + δ) }

end Buffer

structure Slot where
  offsets : Two ℕ
  length : ℕ
  refCount : ℤ
  dead : Bool
  migrated : Bool
deriving DecidableEq, Repr

/-- The test `!sl.dead && sl.refCount > 0` that every loop of the source makes. -/
def Slot.live (sl : Slot) : Bool := !sl.dead && decide (0 < sl.refCount)

abbrev Index := Bytes → Option Handle

structure Shard where
  id : ℕ
  idx : ℕ
  buffers : Two Buffer
  currentBit : Bool
  state : PoolState
  compactCursor : ℕ
  compactSlotCount : ℕ
  slots : List Slot
  freeSlots : List ℕ
  index : Index

namespace Shard

/-- The handle of slot `i` read from buffer `b`.
Source: NewHandleWithBuffer(bufIdx, s.idx, packShardSlot(s.id, slotIdx)) -/
def handle (s : Shard) (b : Bool) (i : ℕ) : Handle :=
  newHandleWithBuffer b s.idx (packShardSlot s.id i)

def cur (s : Shard) : Buffer := s.buffers.get s.currentBit

def old (s : Shard) : Buffer := s.buffers.get (!s.currentBit)

def setBuffer (s : Shard) (b : Bool) (buf : Buffer) : Shard :=
  { s with buffers := s.buffers.set b buf }

/-- A fresh shard of a pool. Source: NewWithShards, the body of its loop -/
def new (id idx capacity : ℕ) : Shard where
  id := id
  idx := idx
  buffers := ⟨Buffer.make capacity 0, Buffer.make 0 0⟩
  currentBit := false
  state := .normal
  compactCursor := 0
  compactSlotCount := 0
  slots := []
  freeSlots := []
  index := fun _ => none

/-! ## Validation and reading -/

/-- The error of a handle this shard does not accept, if any. Source: validate_release.go. -/
def validateHandle (s : Shard) (h : Handle) : Option PoolError :=
  if !h.isValid then some .invalidHandle
  else if h.poolIdx ≠ s.idx then some .wrongPool
  else match s.slots[h.shardSlot]? with
    | none => some .slotOutOfBounds
    | some sl => if sl.dead then some .slotDead else none

/-- Source: validate_release.go validateHandleForRelease, the same checks. -/
def validateHandleForRelease (s : Shard) (h : Handle) : Option PoolError :=
  s.validateHandle h

def get (s : Shard) (h : Handle) : Option (Except PoolError Bytes) :=
  match s.validateHandle h with
  | some err => some (.error err)
  | none =>
    match s.slots[h.shardSlot]? with
    | none => none
    | some sl =>
      ((s.buffers.get h.bufferBit).region (sl.offsets.get h.bufferBit) sl.length).map .ok

/-! ## Reference counts -/

/-- The counters of a handle's slot and buffer moved by `δ`. -/
def bump (s : Shard) (h : Handle) (δ : ℤ) : Shard :=
  { s with
    slots := s.slots.modify h.shardSlot fun sl => { sl with refCount := int32 (sl.refCount + δ) }
    buffers := s.buffers.set h.bufferBit ((s.buffers.get h.bufferBit).addRefs δ) }

def addRef (s : Shard) (h : Handle) : Shard × Option PoolError :=
  match s.validateHandle h with
  | some err => (s, some err)
  | none => (s.bump h 1, none)

/-- Marks a slot dead, evicts its index entry and frees it. The eviction is skipped when the buffer
holds no bytes at all. -/
def retireSlot (s : Shard) (i : ℕ) (b : Bool) : Option Shard :=
  match s.slots[i]? with
  | none => none
  | some sl =>
    let buf := s.buffers.get b
    let s' := { s with
      slots := s.slots.set i { sl with dead := true }
      freeSlots := i :: s.freeSlots }
    if 0 < buf.data.length then
      (buf.region (sl.offsets.get b) sl.length).map fun bufferKey =>
        { s' with index := update s.index bufferKey none }
    else some s'

def release (s : Shard) (h : Handle) : Option (Shard × Option PoolError) :=
  match s.validateHandleForRelease h with
  | some err => some (s, some err)
  | none =>
    let s' := s.bump h (-1)
    match s'.slots[h.shardSlot]? with
    | none => none
    | some sl =>
      if sl.refCount ≤ 0 then (s'.retireSlot h.shardSlot h.bufferBit).map fun s'' => (s'', none)
      else some (s', none)

/-! ## The index -/

/-- A slot of the current compaction whose bytes are still only in the old buffer, by the test of
`rebuildIndex` (which does not look at `compactSlotCount`). -/
def skipped (s : Shard) (i : ℕ) (sl : Slot) : Bool :=
  decide (s.state = .compacting) && decide (s.compactCursor ≤ i) && !sl.migrated

/-- Index entries into the old buffer, kept while a compaction runs. -/
def preserved (s : Shard) : Index :=
  if s.state = .compacting then fun k => (s.index k).filter fun h => h.bufferBit == !s.currentBit
  else fun _ => none

/-- The loop of `rebuildIndex` over the slots from number `i` on. -/
def rebuildLoop (s : Shard) : ℕ → List Slot → Index → Option Index
  | _, [], ix => some ix
  | i, sl :: rest, ix =>
    if sl.live && !s.skipped i sl then
      (s.cur.region (sl.offsets.get s.currentBit) sl.length).bind fun key =>
        rebuildLoop s (i + 1) rest (update ix key (some (s.handle s.currentBit i)))
    else rebuildLoop s (i + 1) rest ix

def rebuildIndex (s : Shard) : Option Shard :=
  (s.rebuildLoop 0 s.slots s.preserved).map fun ix => { s with index := ix }

def ensureCapacity (s : Shard) (needed : ℕ) : Option Shard :=
  if s.cur.pos + needed ≤ s.cur.cap then some s
  else (s.setBuffer s.currentBit (s.cur.realloc (s.cur.pos + needed))).rebuildIndex

/-! ## Intern -/

/-- The dedup hit: the handle indexed under `key` if its slot is live.
Source: intern, the lookup -/
def lookup (s : Shard) (key : Bytes) : Option (Option Handle) :=
  match s.index key with
  | none => some none
  | some h =>
    match s.slots[h.shardSlot]? with
    | none => none
    | some sl => some (if sl.live then some h else none)

/-- Allocates or reuses a slot for bytes that were placed at `offset` of the current buffer.
Source: intern, "Allocate or reuse slot" -/
def takeSlot (s : Shard) (offset len : ℕ) : Option (Shard × ℕ) :=
  match s.freeSlots with
  | i :: rest =>
    match s.slots[i]? with
    | none => none
    | some sl => some ({ s with
        freeSlots := rest
        slots := s.slots.set i { sl with
          offsets := sl.offsets.set s.currentBit offset
          length := len % 2 ^ 16
          refCount := 1
          dead := false
          migrated := decide (s.state = .compacting) } }, i)
  | [] => some ({ s with
      slots := s.slots ++ [⟨(⟨0, 0⟩ : Two ℕ).set s.currentBit offset, len % 2 ^ 16, 1, false,
        false⟩] }, s.slots.length)

/-- Places new bytes: buffer, slot, buffer reference and index entry.
Source: intern, from "Allocate new entry in current buffer" -/
def place (g : AppendGrowth) (s : Shard) (data : Bytes) : Option (Shard × Handle) :=
  (s.ensureCapacity data.length).bind fun s₁ =>
  let offset := s₁.cur.pos % 2 ^ 32
  let s₂ := s₁.setBuffer s₁.currentBit (s₁.cur.append g data)
  (s₂.takeSlot offset data.length).bind fun (s₃, i) =>
  let h := s₃.handle s₃.currentBit i
  let s₄ := s₃.setBuffer s₃.currentBit (s₃.cur.addRefs 1)
  (s₄.cur.region offset data.length).map fun bufferKey =>
    ({ s₄ with index := update s₄.index bufferKey (some h) }, h)

def intern (g : AppendGrowth) (shutdown : Bool) (s : Shard) (data : Bytes) :
    Option (Shard × Except PoolError Handle) :=
  if shutdown then some (s, .error .poolShutdown)
  else (s.lookup data).bind fun
    | some h => some (s.bump h 1, .ok h)
    | none =>
      if maxSlotsPerShard ≤ s.slots.length ∧ s.freeSlots = [] then some (s, .error .poolFull)
      else (s.place g data).map fun (s', h) => (s', .ok h)

/-! ## Compaction -/

/-- The bytes of the live slots. Source: startCompaction, compact. -/
def liveBytes (slots : List Slot) : ℕ :=
  (slots.map fun sl => if sl.live then sl.length else 0).sum

def startCompaction (s : Shard) : Shard :=
  if s.state = .compacting then s
  else { s with
    slots := s.slots.map fun sl => { sl with migrated := false }
    currentBit := !s.currentBit
    buffers := s.buffers.set (!s.currentBit)
      (Buffer.make (max (liveBytes s.slots + liveBytes s.slots / 4) 64) 0)
    state := .compacting
    compactCursor := 0
    compactSlotCount := s.slots.length }

def finishCompaction (s : Shard) : Shard :=
  { s with
    buffers := s.buffers.set (!s.currentBit) (Buffer.make 0 s.old.refCount)
    state := .normal }

/-- One round of the migration loop: the slot under the cursor. The flag says whether its bytes were
copied.
Source: shard.migrateBatch, the body of its loop -/
def migrateSlot (g : AppendGrowth) (s : Shard) : Option (Shard × Bool) :=
  let i := s.compactCursor
  let s' := { s with compactCursor := i + 1 }
  match s.slots[i]? with
  | none => none
  | some sl =>
    if !sl.live then
      some ({ s' with slots := s.slots.set i { sl with offsets := ⟨0, 0⟩, length := 0 } }, false)
    else if sl.migrated then some (s', false)
    else
      (s.old.region (sl.offsets.get (!s.currentBit)) sl.length).bind fun oldData =>
      let newOffset := s.cur.pos % 2 ^ 32
      let newBuf := s.cur.append g oldData
      (newBuf.region newOffset sl.length).map fun newKey =>
        ({ s' with
          slots := s.slots.set i { sl with offsets := sl.offsets.set s.currentBit newOffset }
          buffers := s.buffers.set s.currentBit newBuf
          index := update (update s.index oldData none) newKey
            (some (s.handle s.currentBit i)) }, true)

/-- The migration loop, for at most `batch` copies. The fuel is the number of slots before
`compactSlotCount`, which every round brings down by one.
Source: shard.migrateBatch -/
def migrateLoop (g : AppendGrowth) : ℕ → ℕ → Shard → Option Shard
  | 0, _, s => some s
  | _ + 1, 0, s => some s
  | fuel + 1, batch + 1, s =>
    (s.migrateSlot g).bind fun
      | (s', true) => migrateLoop g fuel batch s'
      | (s', false) => migrateLoop g fuel (batch + 1) s'

def migrateBatch (g : AppendGrowth) (s : Shard) (batchSize : ℤ) : Option (Shard × Bool) :=
  if s.state ≠ .compacting then some (s, true)
  else (migrateLoop g (s.compactSlotCount - s.compactCursor) batchSize.toNat s).map fun s' =>
    if s'.compactSlotCount ≤ s'.compactCursor then
      (if s'.old.refCount = 0 then s'.finishCompaction else s', true)
    else (s', false)

def checkOldBufferRelease (s : Shard) : Shard :=
  if s.state ≠ .compacting then s
  else if s.old.refCount = 0 then s.finishCompaction
  else s

/-- The copying loop of `compact`: the slots with their new offsets, and the new buffer. -/
def compactLoop (g : AppendGrowth) (b : Bool) (buf : Buffer) :
    List Slot → Buffer → Option (List Slot × Buffer)
  | [], newBuf => some ([], newBuf)
  | sl :: rest, newBuf =>
    if sl.live then
      (buf.region (sl.offsets.get b) sl.length).bind fun oldData =>
      (compactLoop g b buf rest (newBuf.append g oldData)).map fun (rest', newBuf') =>
        ({ sl with offsets := sl.offsets.set b (newBuf.pos % 2 ^ 32) } :: rest', newBuf')
    else
      (compactLoop g b buf rest newBuf).map fun (rest', newBuf') =>
        ({ sl with offsets := sl.offsets.set b 0, length := 0 } :: rest', newBuf')

def compact (g : AppendGrowth) (s : Shard) : Option Shard :=
  if s.state = .compacting then some s
  else if s.freeSlots = [] then some s
  else
    (compactLoop g s.currentBit s.cur s.slots
      (Buffer.make (liveBytes s.slots + liveBytes s.slots / 4) s.cur.refCount)).bind
      fun (slots, newBuf) =>
        ({ s with slots := slots, buffers := s.buffers.set s.currentBit newBuf }).rebuildIndex

end Shard

end Ze.AttrPool
