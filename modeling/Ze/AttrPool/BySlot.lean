import Ze.AttrPool.Ledger

/-!
# Reading and releasing by slot

`GetBySlot` and `ReleaseBySlot` of `attrpool/pool.go`, for callers that keep the slot of a handle
without its buffer bit. Both tell the buffer from the progress of the compaction (`slotBit`).
-/

namespace Ze.AttrPool

open Ze.Lib List

/-! ## The operations -/

namespace Shard

/-- The buffer that a slot is taken to be in. The test is that of `rebuildIndex`.
Source: pool.go getBySlot, releaseBySlot, "Determine correct buffer" -/
def slotBit (s : Shard) (i : ℕ) (sl : Slot) : Bool :=
  if s.skipped i sl then !s.currentBit else s.currentBit

def getBySlot (s : Shard) (localSlot : ℕ) : Option (Except PoolError Bytes) :=
  match s.slots[localSlot]? with
  | none => some (.error .slotOutOfBounds)
  | some sl =>
    if sl.dead || decide (sl.refCount ≤ 0) then some (.error .slotDead)
    else
      let bufIdx := s.slotBit localSlot sl
      ((s.buffers.get bufIdx).region (sl.offsets.get bufIdx) sl.length).map .ok

/-- The slot is not checked to be in use. Source: pool.go. -/
def releaseBySlot (s : Shard) (localSlot : ℕ) : Option (Shard × Option PoolError) :=
  match s.slots[localSlot]? with
  | none => some (s, some .slotOutOfBounds)
  | some sl =>
    let bufIdx := s.slotBit localSlot sl
    let refCount := int32 (sl.refCount + -1)
    let s' := { s with
      slots := s.slots.set localSlot { sl with refCount := refCount }
      buffers := s.buffers.set bufIdx ((s.buffers.get bufIdx).addRefs (-1)) }
    if refCount ≤ 0 then (s'.retireSlot localSlot bufIdx).map fun s'' => (s'', none)
    else some (s', none)

/-- The counters of a shard: those of its slots, and of its two buffers. -/
def counts (s : Shard) : List ℤ × ℤ × ℤ :=
  (s.slots.map Slot.refCount, (s.buffers.get false).refCount, (s.buffers.get true).refCount)

end Shard

namespace Pool

def getBySlot (p : Pool) (slotIdx : ℕ) : Option (Except PoolError Bytes) :=
  match p.shards[slotIdx / 2 ^ 22 % 2 ^ 4]? with
  | none => some (.error .slotOutOfBounds)
  | some s => s.getBySlot (slotIdx % 2 ^ 22)

def releaseBySlot (p : Pool) (slotIdx : ℕ) : Option (Pool × Option PoolError) :=
  match p.shards[slotIdx / 2 ^ 22 % 2 ^ 4]? with
  | none => some (p, some .slotOutOfBounds)
  | some s => (s.releaseBySlot (slotIdx % 2 ^ 22)).map fun (s', r) =>
    ({ p with shards := p.shards.set (slotIdx / 2 ^ 22 % 2 ^ 4) s' }, r)

def counts (p : Pool) : List (List ℤ × ℤ × ℤ) := p.shards.map Shard.counts

end Pool

/-! ## Where the buffer can be told -/

namespace Shard

variable {s s' : Shard} {held : List Handle} {h : Handle} {i : ℕ} {sl : Slot}

/-- The buffer of a handle can be told from its slot: no compaction runs, or the slot was not
appended since it started, and was not copied by it while the handle names the old buffer. -/
def Told (s : Shard) (h : Handle) (sl : Slot) : Prop :=
  s.state = .compacting →
    (s.compactSlotCount ≤ h.shardSlot → sl.migrated = true) ∧
    (h.shardSlot < s.compactCursor → h.bufferBit = s.currentBit)

instance (s : Shard) (h : Handle) (sl : Slot) : Decidable (s.Told h sl) :=
  inferInstanceAs (Decidable (_ → _ ∧ _))

lemma skipped_iff : s.skipped i sl ↔
    s.state = .compacting ∧ s.compactCursor ≤ i ∧ sl.migrated = false := by
  simp only [skipped, Bool.and_eq_true, decide_eq_true_eq, Bool.not_eq_true', and_assoc]

lemma slotBit_of_skipped (h : s.skipped i sl) : s.slotBit i sl = !s.currentBit := by
  rw [slotBit, if_pos h]

lemma slotBit_of_not_skipped (h : ¬ s.skipped i sl) : s.slotBit i sl = s.currentBit := by
  rw [slotBit, if_neg h]

/-- The buffer that is told from the slot of a held handle is the handle's own exactly where it can
be told. -/
lemma Held.slotBit_eq_iff (hh : s.Held held) (hmem : h ∈ held)
    (hsl : s.slots[h.shardSlot]? = some sl) :
    s.slotBit h.shardSlot sl = h.bufferBit ↔ s.Told h sl := by
  by_cases hc : s.state = .compacting
  · have hcursor := hh.layout.cursor_le hc
    rcases hh.bits h hmem sl hsl with hbit | ⟨-, hbit, hlt, -⟩
    · by_cases hw : s.waiting h.shardSlot sl
      · -- the slot waits in the old buffer, and the handle names it there
        obtain ⟨-, hle, hcount, hm⟩ := waiting_iff.1 hw
        rw [slotBit_of_skipped (skipped_iff.2 ⟨hc, hle, hm⟩), hbit, liveBit_of_waiting hw]
        refine ⟨fun _ _ => ⟨fun hge => ?_, fun hlt => ?_⟩, fun _ => rfl⟩ <;> omega
      · rw [hbit, liveBit_of_not_waiting hw]
        by_cases hs : s.skipped h.shardSlot sl
        · -- skipped but not waiting: the slot was appended
          obtain ⟨-, hle, hm⟩ := skipped_iff.1 hs
          have hge : s.compactSlotCount ≤ h.shardSlot := by
            by_contra hlt
            exact hw (waiting_iff.2 ⟨hc, hle, by omega, hm⟩)
          rw [slotBit_of_skipped hs]
          refine ⟨fun heq => absurd heq (Bool.not_ne_self _), fun ht => ?_⟩
          rw [(ht hc).1 hge] at hm
          cases hm
        · rw [slotBit_of_not_skipped hs]
          refine ⟨fun _ _ => ⟨fun hge => ?_, fun _ => ?_⟩, fun _ => rfl⟩
          · by_contra hm
            exact hs (skipped_iff.2 ⟨hc, by omega, Bool.not_eq_true _ ▸ hm⟩)
          · rw [hbit, liveBit_of_not_waiting hw]
    · -- the slot was copied, and the handle names the old buffer
      have hs : ¬ s.skipped h.shardSlot sl := by
        rw [skipped_iff]
        rintro ⟨-, hle, -⟩
        omega
      rw [slotBit_of_not_skipped hs, hbit]
      refine ⟨fun heq => absurd heq.symm (Bool.not_ne_self _), fun ht => ?_⟩
      have heq := (ht hc).2 hlt
      rw [hbit] at heq
      exact absurd heq (Bool.not_ne_self _)
  · have hn := normal_of_not_compacting hc
    have hs : ¬ s.skipped h.shardSlot sl := by
      rw [skipped_iff]
      exact fun hs => hc hs.1
    rw [slotBit_of_not_skipped hs, hh.bit_of_normal hn hmem]
    exact ⟨fun _ hcomp => absurd hcomp hc, fun _ => rfl⟩

/-! ## Agreement with the handle-based operations -/

lemma Held.getBySlot_eq (hh : s.Held held) (hmem : h ∈ held)
    (hsl : s.slots[h.shardSlot]? = some sl) (hbit : s.slotBit h.shardSlot sl = h.bufferBit) :
    s.getBySlot h.shardSlot = s.get h := by
  have hd := hh.alive_of_mem hmem hsl
  have hpos := hh.layout.alive _ sl hsl hd
  have hv := validateHandle_eq_none hh.layout (hh.own h hmem).1 hsl hd
  have hused : (sl.dead || decide (sl.refCount ≤ 0)) = false := by
    rw [hd, Bool.false_or, decide_eq_false_iff_not]
    omega
  simp only [getBySlot, get, hsl, hv, hused, hbit, Bool.false_eq_true, if_false]

lemma bump_eq (hsl : s.slots[h.shardSlot]? = some sl) (δ : ℤ) :
    s.bump h δ = { s with
      slots := s.slots.set h.shardSlot { sl with refCount := int32 (sl.refCount + δ) }
      buffers := s.buffers.set h.bufferBit ((s.buffers.get h.bufferBit).addRefs δ) } := by
  have hslots : (s.slots.modify h.shardSlot fun sl => { sl with
      refCount := int32 (sl.refCount + δ) }) =
      s.slots.set h.shardSlot { sl with refCount := int32 (sl.refCount + δ) } := by
    apply ext_getElem?
    intro j
    rw [getElem?_modify, getElem?_set]
    split_ifs with hj hlt
    · rw [← hj, hsl]
      rfl
    · exact absurd (List.getElem?_eq_some_iff.mp hsl).1 hlt
    · exact Option.map_id'
  rw [bump, hslots]

lemma Held.releaseBySlot_eq (hh : s.Held held) (hmem : h ∈ held)
    (hsl : s.slots[h.shardSlot]? = some sl) (hbit : s.slotBit h.shardSlot sl = h.bufferBit) :
    s.releaseBySlot h.shardSlot = s.release h := by
  have hv := validateHandle_eq_none hh.layout (hh.own h hmem).1 hsl (hh.alive_of_mem hmem hsl)
  have hlt := (List.getElem?_eq_some_iff.mp hsl).1
  simp only [releaseBySlot, Shard.release, validateHandleForRelease, hsl, hv, hbit, bump_eq hsl,
    getElem?_set_self hlt]

lemma buffers_retireSlot {b : Bool} (h : s.retireSlot i b = some s') : s'.buffers = s.buffers := by
  rw [retireSlot] at h
  split at h
  · cases h
  · dsimp only at h
    split_ifs at h
    · obtain ⟨key, -, rfl⟩ := Option.map_eq_some_iff.1 h
      rfl
    · cases h
      rfl

lemma refCount_releaseBySlot {r : Option PoolError} {b : Bool}
    (hsl : s.slots[i]? = some sl) (hb : s.slotBit i sl ≠ b) (h : s.releaseBySlot i = some (s', r)) :
    (s'.buffers.get b).refCount = (s.buffers.get b).refCount := by
  have hget : ∀ buf : Buffer, (s.buffers.set (s.slotBit i sl) buf).get b = s.buffers.get b := by
    intro buf
    rw [Two.get_set, if_neg (Ne.symm hb)]
  simp only [releaseBySlot, hsl] at h
  split_ifs at h
  · obtain ⟨s'', hret, heq⟩ := Option.map_eq_some_iff.1 h
    cases heq
    rw [buffers_retireSlot hret, hget]
  · obtain ⟨rfl, -⟩ := Prod.mk.inj (Option.some.inj h)
    rw [hget]

lemma refCount_of_counts (h : s.counts = s'.counts) (b : Bool) :
    (s.buffers.get b).refCount = (s'.buffers.get b).refCount := by
  obtain ⟨-, h⟩ := Prod.mk.inj h
  obtain ⟨hfalse, htrue⟩ := Prod.mk.inj h
  rcases b with _ | _
  · exact hfalse
  · exact htrue

lemma Held.counts_releaseBySlot_ne (hh : s.Held held) (hmem : h ∈ held)
    (hsl : s.slots[h.shardSlot]? = some sl) (hbit : s.slotBit h.shardSlot sl ≠ h.bufferBit) :
    (s.releaseBySlot h.shardSlot).map (fun r => r.1.counts) ≠
      (s.release h).map fun r => r.1.counts := by
  intro heq
  have hperm := perm_cons_erase hmem
  obtain ⟨s₁, hrel, hh₁, -⟩ := (hh.perm hperm).release
  rw [hrel, Option.map_some] at heq
  obtain ⟨⟨s₂, r⟩, hslot, hcounts⟩ := Option.map_eq_some_iff.1 heq
  have hsame := refCount_of_counts hcounts h.bufferBit
  have hcons := bufferRefs_cons h (held.erase h) h.bufferBit
  rw [if_pos rfl, bufferRefs, ← hperm.countP_eq, ← bufferRefs] at hcons
  rw [refCount_releaseBySlot hsl hbit hslot, hh.buf_count, hh₁.buf_count] at hsame
  omega

end Shard

/-! ## Pools -/

namespace Pool

variable {p : Pool} {held : List Handle} {h : Handle}

/-- The buffer of a handle can be told from its slot. -/
def Told (p : Pool) (h : Handle) : Prop :=
  ∀ s ∈ p.shards[h.shardID]?, ∀ sl ∈ s.slots[h.shardSlot]?, s.Told h sl

instance (p : Pool) (h : Handle) : Decidable (p.Told h) :=
  inferInstanceAs (Decidable (∀ s ∈ p.shards[h.shardID]?, ∀ sl ∈ s.slots[h.shardSlot]?, _))

/-- The slot-based operations do what those of the handle do: they return the same bytes, and move
the same counters. Source: pool.go GetBySlot, ReleaseBySlot. -/
def Agrees (p : Pool) (h : Handle) : Prop :=
  p.getBySlot h.slot = p.get h ∧
    (p.releaseBySlot h.slot).map (fun r => r.1.counts) = (p.release h).map fun r => r.1.counts

lemma Served.releaseBySlot_eq (hp : p.Served held) (hmem : h ∈ held) (htold : p.Told h) :
    p.releaseBySlot h.slot = p.release h := by
  obtain ⟨s, hs⟩ := hp.exists_shard hmem
  have hh := (hp.shard _ s hs).2.2
  have hown := mem_ownRefs.2 ⟨hmem, rfl⟩
  obtain ⟨-, sl, hsl⟩ := hh.own h hown
  have hbit := (hh.slotBit_eq_iff hown hsl).2 (htold s hs sl hsl)
  have heq := hh.releaseBySlot_eq hown hsl hbit
  rw [Handle.shardID] at hs
  rw [Handle.shardSlot] at heq
  simp only [releaseBySlot, Pool.release, Handle.shardID, hs, heq]

lemma counts_set_inj {k : ℕ} {s₁ s₂ : Shard} (hk : k < p.shards.length)
    (h : ({ p with shards := p.shards.set k s₁ } : Pool).counts =
      ({ p with shards := p.shards.set k s₂ } : Pool).counts) : s₁.counts = s₂.counts := by
  have hget := congrArg (fun l : List (List ℤ × ℤ × ℤ) => l[k]?) h
  simp only [counts, getElem?_map, getElem?_set_self hk, Option.map_some] at hget
  exact Option.some.inj hget

lemma Served.agrees_iff (hp : p.Served held) (hmem : h ∈ held) : p.Agrees h ↔ p.Told h := by
  constructor
  · rintro ⟨-, hcounts⟩ s hs sl hsl
    rw [Option.mem_def] at hs hsl
    have hh := (hp.shard _ s hs).2.2
    have hown := mem_ownRefs.2 ⟨hmem, rfl⟩
    by_contra htold
    have hbit := mt (hh.slotBit_eq_iff hown hsl).1 htold
    apply hh.counts_releaseBySlot_ne hown hsl hbit
    have hlt := hp.shard_lt h hmem
    have hs' : p.shards[h.slot / 2 ^ 22 % 2 ^ 4]? = some s := hs
    simp only [releaseBySlot, Pool.release, hs, hs'] at hcounts
    change (Option.map _ (s.releaseBySlot h.shardSlot)).map _ = _ at hcounts
    -- one shard is replaced on either side, if any is
    rcases hb : s.releaseBySlot h.shardSlot with _ | ⟨s₁, r₁⟩ <;>
      rcases hr : s.release h with _ | ⟨s₂, r₂⟩ <;> simp only [hb, hr] at hcounts
    · rfl
    · cases hcounts
    · cases hcounts
    · exact congrArg some (counts_set_inj hlt (Option.some.inj hcounts))
  · intro htold
    refine ⟨?_, by rw [hp.releaseBySlot_eq hmem htold]⟩
    obtain ⟨s, hs⟩ := hp.exists_shard hmem
    have hh := (hp.shard _ s hs).2.2
    have hown := mem_ownRefs.2 ⟨hmem, rfl⟩
    obtain ⟨-, sl, hsl⟩ := hh.own h hown
    have heq := hh.getBySlot_eq hown hsl ((hh.slotBit_eq_iff hown hsl).2 (htold s hs sl hsl))
    rw [Handle.shardID] at hs
    rw [Handle.shardSlot] at heq
    simp only [getBySlot, get, Handle.shardID, hs, heq]

end Pool

/-! ## Runs -/

/-- What callers do to a pool, also by slot.
Source: pool.go, the exported operations of Pool -/
inductive SlotOp
  | op (o : Op)
  | releaseBySlot (h : Handle)

namespace Client

variable {c : Client} {p : Pool}

/-- One operation and what it does to the books; a caller that releases by slot gives up the handle
it had. `none` is a panic. Source: pool.go, the exported operations of Pool. -/
def slotStep (g : AppendGrowth) (c : Client) : SlotOp → Option Client
  | .op o => c.step g o
  | .releaseBySlot h => (c.pool.releaseBySlot h.slot).map fun
      | (p, none) => { c with pool := p, held := c.held.erase h }
      | (p, some _) => { c with pool := p }

/-- What a step owes: the conditions of `get_of_promised`, and a release by slot is of a held handle
whose buffer can be told. -/
def SlotSound (c : Client) : SlotOp → Prop
  | .op o => c.Matched o ∧ c.Fits o ∧ c.Sound o
  | .releaseBySlot h => h ∈ c.held ∧ c.pool.Told h

instance (c : Client) : (o : SlotOp) → Decidable (c.SlotSound o)
  | .op _ => inferInstanceAs (Decidable (_ ∧ _ ∧ _))
  | .releaseBySlot _ => inferInstanceAs (Decidable (_ ∧ _))

lemma Good.slotStep (g : AppendGrowth) (hg : c.Good) (o : SlotOp) (hcond : c.SlotSound o) :
    ∃ c', c.slotStep g o = some c' ∧ c'.Good := by
  rcases o with o | h
  · exact hg.step g o hcond
  · obtain ⟨c', hstep, hg'⟩ := hg.step g (.release h) ⟨hcond.1, trivial, trivial⟩
    have hsame : c.slotStep g (.releaseBySlot h) = c.step g (.release h) :=
      congrArg (Option.map _) (hg.served.releaseBySlot_eq hcond.1 hcond.2)
    exact ⟨c', hsame.trans hstep, hg'⟩

/-- **By slot as by handle.** In every run from a new pool whose steps meet the conditions of
`get_of_promised`, and release by slot only where the buffer can be told, no operation panics; and
for a held handle of the state reached, the slot-based operations return the same bytes and move the
same counters as those of the handle exactly where its buffer can be told. Every state of such a run
is reached by a shorter one. -/
theorem bySlot_agrees_iff (g : AppendGrowth) {idx : ℕ} {initialCapacity shards : ℤ}
    (hnew : Pool.newWithShards idx initialCapacity shards = .ok p) (ops : List SlotOp)
    (hmeets : Meets (slotStep g) SlotSound (start p) ops) :
    ∃ c, run (slotStep g) (start p) ops = some c ∧
      ∀ h ∈ c.held, (c.pool.Agrees h ↔ c.pool.Told h) := by
  have hstart : (start p).Good :=
    ⟨Pool.served_new hnew, fun h hmem => absurd hmem not_mem_nil⟩
  obtain ⟨c, hrun, hgood⟩ :=
    run_total (fun c o hg hc => Good.slotStep g hg o hc) ops _ hstart hmeets
  exact ⟨c, hrun, fun h hmem => hgood.served.agrees_iff hmem⟩

/-- A run that releases by slot during a compaction: one slot is still in the old buffer, the other
was copied and is held through the new one. -/
theorem bySlot_agrees_compacting :
    ∃ p, Pool.newWithShards 0 0 1 = .ok p ∧
      ∃ c, run (slotStep doubling) (start p) [.op (.intern [1, 2]), .op (.intern [3]),
          .op .startCompaction, .op (.migrateBatch 1), .op (.intern [1, 2]),
          .releaseBySlot (newHandleWithBuffer true 0 0)] = some c ∧
        ∀ h ∈ c.held, (c.pool.Agrees h ↔ c.pool.Told h) :=
  ⟨_, rfl, bySlot_agrees_iff doubling (show Pool.newWithShards 0 0 1 = .ok _ from rfl) _
    (by decide +kernel)⟩

/-- The runs that show the wrong buffer. In the first a slot is appended during a compaction, and is
read by slot from the old buffer, where another string is. In the second a slot is copied while a
handle of the old buffer is held, and its release by slot lowers the counter of the new buffer. -/
theorem bySlot_wrong_buffer :
    ∃ p, Pool.newWithShards 0 0 1 = .ok p ∧
      (Meets (slotStep doubling) SlotSound (start p)
          [.op (.intern [1]), .op .startCompaction, .op (.intern [2])] ∧
        ∃ c, run (slotStep doubling) (start p)
            [.op (.intern [1]), .op .startCompaction, .op (.intern [2])] = some c ∧
          newHandleWithBuffer true 0 1 ∈ c.held ∧
          c.pool.get (newHandleWithBuffer true 0 1) = some (.ok [2]) ∧
          c.pool.getBySlot (newHandleWithBuffer true 0 1).slot = some (.ok [1])) ∧
      (Meets (slotStep doubling) SlotSound (start p)
          [.op (.intern [1]), .op .startCompaction, .op (.migrateBatch 1)] ∧
        ∃ c, run (slotStep doubling) (start p)
            [.op (.intern [1]), .op .startCompaction, .op (.migrateBatch 1)] = some c ∧
          newHandleWithBuffer false 0 0 ∈ c.held ∧
          (c.pool.release (newHandleWithBuffer false 0 0)).map (fun r => r.1.counts) =
            some [([0], 0, 0)] ∧
          (c.pool.releaseBySlot (newHandleWithBuffer false 0 0).slot).map
              (fun r => r.1.counts) = some [([0], 1, -1)]) := by
  refine ⟨⟨0, false, 0, [Shard.new 0 0 64]⟩, rfl, ⟨by decide +kernel, ?_⟩, by decide +kernel, ?_⟩
  · have hrun : (run (slotStep doubling) (start ⟨0, false, 0, [Shard.new 0 0 64]⟩)
        [.op (.intern [1]), .op .startCompaction, .op (.intern [2])]).isSome := by
      decide +kernel
    exact ⟨_, (Option.some_get hrun).symm, by decide +kernel +revert, rfl, rfl⟩
  · have hrun : (run (slotStep doubling) (start ⟨0, false, 0, [Shard.new 0 0 64]⟩)
        [.op (.intern [1]), .op .startCompaction, .op (.migrateBatch 1)]).isSome := by
      decide +kernel
    exact ⟨_, (Option.some_get hrun).symm, by decide +kernel +revert, by decide +kernel +revert,
      by decide +kernel +revert⟩

end Client

end Ze.AttrPool
