import Mathlib.Algebra.Order.Ring.Int
import Mathlib.Data.Finset.Card

/-!
# The cache of recent updates

`RecentUpdateCache` of `internal/component/bgp/reactor/recent_cache.go` over the sequence map of
`internal/core/seqmap`. `activate` says how many consumers received an update, and the entry stays
until as many acks have been counted and every retain is released.

Names of consumers are any type with decidable equality. The gap scan and its clock are left out.
-/

namespace Ze.Reactor
open Function (update)

/-! ## The sequence map -/

/-- A map with a log of its keys in ascending order; a key that was deleted may stay in the log and
is skipped. The cache uses the id of an update as its sequence number.
Source: seqmap.go Map -/
structure SeqMap (V : Type) where
  items : UInt64 → Option V
  log : List UInt64

namespace SeqMap

variable {V : Type}

/-- Source: seqmap.go New. -/
def empty : SeqMap V where
  items _ := none
  log := []

/-- A key put at its place in the log, after the ones it equals. Source: seqmap.go. -/
def insertLog (k : UInt64) : List UInt64 → List UInt64
  | [] => [k]
  | x :: xs => if k < x then k :: x :: xs else x :: insertLog k xs

/-- Source: seqmap.go. -/
def put (m : SeqMap V) (k : UInt64) (v : V) : SeqMap V where
  items := update m.items k (some v)
  log := insertLog k (m.log.filter (· ≠ k))

/-- A value changed through its pointer. Source: Go, *cacheEntry in the map. -/
def set (m : SeqMap V) (k : UInt64) (v : V) : SeqMap V :=
  { m with items := update m.items k (some v) }

/-- Source: seqmap.go. -/
def delete (m : SeqMap V) (k : UInt64) : SeqMap V :=
  { m with items := update m.items k none }

/-- The live keys from a number on, in ascending order. Source: seqmap.go. -/
def since (m : SeqMap V) (fromSeq : UInt64) : List UInt64 :=
  m.log.filter fun k => fromSeq ≤ k && (m.items k).isSome

end SeqMap

/-! ## The cache -/

structure CacheEntry where
  pending : Bool
  pendingConsumers : ℕ := 0
  earlyAckCount : ℕ := 0
  retainCount : ℤ := 0
  ackedUnordered : UInt32 := 0

def CacheEntry.totalConsumers (e : CacheEntry) : ℤ :=
  e.pendingConsumers + e.retainCount

/-- The range of the 32-bit retain counter. Source: Go, atomic.Int32. -/
def wrap32 (x : ℤ) : ℤ :=
  Int.bmod x (2 ^ 32)

/-- The cache, with the ids of the updates whose buffers went back to the pool.
Source: RecentUpdateCache; evictLocked: returnReadBuffer -/
structure Cache (N : Type) where
  entries : SeqMap CacheEntry := SeqMap.empty
  pluginLastAck : N → Option UInt64 := fun _ => none
  highestFullyAcked : UInt64 := 0
  highestAddedID : UInt64 := 0
  consumerFloor : N → Option UInt64 := fun _ => none
  unorderedBit : List (N × UInt32) := []
  returned : List UInt64 := []

namespace Cache

variable {N : Type} [DecidableEq N]

/-- The lowest bit that no unordered consumer holds, or zero when all are taken.
Source: assignUnorderedBitLocked -/
def freeBit (bits : List (N × UInt32)) : UInt32 :=
  let taken := bits.foldl (fun t b => t ||| b.2) 0
  match (List.range 32).find? fun i => taken &&& ((1 : UInt32) <<< UInt32.ofNat i) = 0 with
  | some i => (1 : UInt32) <<< UInt32.ofNat i
  | none => 0

def setConsumerUnordered (c : Cache N) (name : N) : Cache N :=
  if (c.unorderedBit.lookup name).isSome then c
  else { c with unorderedBit := c.unorderedBit ++ [(name, freeBit c.unorderedBit)] }

def registerConsumer (c : Cache N) (name : N) : Cache N :=
  if (c.pluginLastAck name).isSome then c
  else
    { c with
      consumerFloor := update c.consumerFloor name (some c.highestAddedID)
      pluginLastAck := update c.pluginLastAck name (some c.highestAddedID) }

def registerCacheConsumer (c : Cache N) (name : N) (unordered : Bool) : Cache N :=
  (if unordered then c.setConsumerUnordered name else c).registerConsumer name

def add (c : Cache N) (id : UInt64) : Cache N :=
  { c with
    entries := c.entries.put id { pending := true }
    highestAddedID := if id > c.highestAddedID then id else c.highestAddedID }

def evictLocked (c : Cache N) (id : UInt64) : Cache N :=
  { c with
    entries := c.entries.delete id
    highestFullyAcked := if id > c.highestFullyAcked then id else c.highestFullyAcked
    returned := c.returned ++ [id] }

/-- Store a changed entry, or evict it when nothing holds it.
Source: the test e.totalConsumers() <= 0 that ends Activate, ackEntryLocked and the walk of
UnregisterConsumer. -/
def settle (c : Cache N) (id : UInt64) (e : CacheEntry) : Cache N :=
  if e.totalConsumers ≤ 0 then { c with entries := c.entries.set id e }.evictLocked id
  else { c with entries := c.entries.set id e }

/-- The number of consumers that received the update is known; acks that came early are taken off
it. -/
def activate (c : Cache N) (id : UInt64) (count : ℕ) : Cache N :=
  match c.entries.items id with
  | none => c
  | some e =>
    c.settle id
      { e with pending := false, pendingConsumers := count - e.earlyAckCount, earlyAckCount := 0 }

def ackEntryLocked (c : Cache N) (id : UInt64) : Cache N :=
  match c.entries.items id with
  | none => c
  | some e =>
    if e.pending then
      { c with entries := c.entries.set id { e with earlyAckCount := e.earlyAckCount + 1 } }
    else c.settle id { e with pendingConsumers := e.pendingConsumers - 1 }

/-- The ack of an unordered consumer: at the one entry, with its bit noted before.
Source: Ack, the branch of an unordered consumer -/
def ackUnordered (c : Cache N) (id : UInt64) (plugin : N) (bit : UInt32) : Option (Cache N) :=
  match c.entries.items id with
  | none => none
  | some e =>
    let c := { c with
      entries := c.entries.set id { e with ackedUnordered := e.ackedUnordered ||| bit } }
    let c := c.ackEntryLocked id
    let lastAck := (c.pluginLastAck plugin).getD 0
    some { c with
      pluginLastAck := if id > lastAck then update c.pluginLastAck plugin (some id)
        else c.pluginLastAck }

/-- What the ack of an ordered consumer reaches: the entries above its last ack and below the id,
and the entry of the id.
Source: Ack, intermediates and the target. -/
def ackRange (c : Cache N) (id : UInt64) (lastAck : UInt64) : List UInt64 :=
  (c.entries.since (lastAck + 1)).takeWhile (· < id) ++ [id]

/-- The ack of an ordered consumer: everything up to the id.
Source: Ack, the branch of a FIFO consumer -/
def ackOrdered (c : Cache N) (id : UInt64) (plugin : N) : Option (Cache N) :=
  let lastAck := (c.pluginLastAck plugin).getD 0
  if id ≤ lastAck then some c
  else if (c.entries.items id).isNone then none
  else
    let c := (c.ackRange id lastAck).foldl ackEntryLocked c
    some { c with pluginLastAck := update c.pluginLastAck plugin (some id) }

/-- A plugin has processed an update; `none` is `ErrUpdateExpired`, which changes nothing. -/
def ack (c : Cache N) (id : UInt64) (plugin : N) : Option (Cache N) :=
  match c.unorderedBit.lookup plugin with
  | some bit => c.ackUnordered id plugin bit
  | none => c.ackOrdered id plugin

/-- The entry without a consumer's bit. Source: UnregisterConsumer, ackedUnordered &^= bit. -/
def clearBit (c : Cache N) (bit : UInt32) (id : UInt64) : Cache N :=
  match c.entries.items id with
  | none => c
  | some e =>
    { c with entries := c.entries.set id { e with ackedUnordered := e.ackedUnordered &&& ~~~bit } }

/-- Whether the entry carries a consumer's bit.
Source: UnregisterConsumer, ackedUnordered&bit != 0. -/
def hasBit (c : Cache N) (bit : UInt32) (id : UInt64) : Bool :=
  ((c.entries.items id).map fun e => e.ackedUnordered &&& bit != 0).getD false

/-- One entry of the walk of an unordered consumer: its bit is freed, and it is counted unless it
has acked there.
Source: UnregisterConsumer. -/
def leaveUnordered (bit : UInt32) (c : Cache N) (id : UInt64) : Cache N :=
  if c.hasBit bit id then c.clearBit bit id else (c.clearBit bit id).ackEntryLocked id

/-- The entries that the unregistration of a consumer reaches.
Source: UnregisterConsumer, refs. -/
def leaveRange (c : Cache N) (name : N) : List UInt64 :=
  match c.unorderedBit.lookup name with
  | some bit =>
    if bit = 0 then [] else c.entries.since ((c.consumerFloor name).getD 0 + 1)
  | none => c.entries.since ((c.pluginLastAck name).getD 0 + 1)

/-- A consumer is gone: it is counted at every entry above its watermark that it has not acked. -/
def unregisterConsumer (c : Cache N) (name : N) : Cache N :=
  if (c.pluginLastAck name).isNone then c
  else
    let refs := c.leaveRange name
    let rest := { c with
      pluginLastAck := update c.pluginLastAck name none
      consumerFloor := update c.consumerFloor name none
      unorderedBit := c.unorderedBit.filter (·.1 ≠ name) }
    match c.unorderedBit.lookup name with
    | some bit => refs.foldl (leaveUnordered bit) rest
    | none => refs.foldl ackEntryLocked rest

/-- One more retain; `none` when the update is not cached. Source: Retain, retainN. -/
def retain (c : Cache N) (id : UInt64) : Option (Cache N) :=
  match c.entries.items id with
  | none => none
  | some e =>
    some { c with entries := c.entries.set id { e with retainCount := wrap32 (e.retainCount + 1) } }

/-- The part of a release without the lock: the counter is decremented, and when it is not positive
the rest is due.
Source: Decrement, down to the slow path. -/
def decrement (c : Cache N) (id : UInt64) : Option (Cache N × Bool) :=
  match c.entries.items id with
  | none => none
  | some e =>
    let newVal := wrap32 (e.retainCount - 1)
    some ({ c with entries := c.entries.set id { e with retainCount := newVal } }, newVal ≤ 0)

/-- The part of a release under the lock: everything is looked at again.
Source: Decrement, the slow path -/
def decrementSlow (c : Cache N) (id : UInt64) : Cache N :=
  match c.entries.items id with
  | none => c
  | some e => if e.totalConsumers ≤ 0 ∧ e.pending = false then c.evictLocked id else c

end Cache

end Ze.Reactor
