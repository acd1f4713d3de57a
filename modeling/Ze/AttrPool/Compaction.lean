import Ze.AttrPool.Held

/-!
# Interning and compacting under held references

The operations of a shard that move bytes, under the invariant `Held` of callers who give back
only what they hold. Every one of them gets through, keeps `Held`, and keeps what every held
handle reads.
-/

namespace Ze.AttrPool

open Ze.Lib List

namespace Shard

variable {s s' : Shard} {held : List Handle} {h : Handle} {i : ℕ} {sl : Slot} {d data : Bytes}

/-! ## Interning -/

variable {ix : Index} {sl' : Slot}

lemma Grown.entry {n : ℕ} (hgr : s.Grown n ix) {k : Bytes} (hk : ix k = some h) :
    s.index k = some h ∨ ∃ (j : ℕ) (sl : Slot), s.slots[j]? = some sl ∧ sl.live ∧
      sl.Holds s.buffers s.currentBit k ∧ s.liveBit j sl = s.currentBit ∧
      h = s.handle s.currentBit j := by
  rcases hgr with ⟨-, rfl⟩ | ⟨-, hr⟩
  · exact .inl hk
  · rcases hr k with ⟨j, sl, hj, hf, hk'⟩ | ⟨-, hk'⟩
    · rw [Nat.zero_add] at hf hk'
      exact .inr ⟨j, sl, hj, hf.1, hf.2.2,
        liveBit_of_not_waiting (not_waiting_of_not_skipped hf.2.1),
          Option.some.inj (hk.symm.trans hk')⟩
    · rw [hk, preserved] at hk'
      split_ifs at hk'
      · exact .inl (Option.eq_some_of_filter_eq_some hk'.symm)

lemma Held.placed (hh : s.Held held) (hp : s.Placed data s' i sl' ix)
    (hgr : s.Grown data.length ix) (hfew : held.length + 1 < 2 ^ 31)
    (hroom : s.cur.data.length + data.length < 2 ^ 32) :
    s'.Held (s.handle s.currentBit i :: held) ∧ s.Kept s' held ∧
      s'.Reads (s.handle s.currentBit i) data := by
  have hl := hh.layout
  have hi : i < 2 ^ 22 := hp.taken.lt hl
  have hslot : (s.handle s.currentBit i).shardSlot = i := shardSlot_handle _ _ hi
  have hhandle : ∀ b j, s'.handle b j = s.handle b j := fun b j => by
    rw [handle, handle, hp.id, hp.idx]
  -- no held handle names the slot that was taken
  have hne : ∀ x ∈ held, x.shardSlot ≠ i := by
    intro x hx
    obtain ⟨-, slx, hslx⟩ := hh.own x hx
    exact hp.taken.ne_of_live hl hslx (hh.alive_of_mem hx hslx)
  have hrefs0 : slotRefs held i = 0 := by
    by_contra hpos
    obtain ⟨x, hx, hxi⟩ := exists_of_slotRefs_pos (Nat.pos_of_ne_zero hpos)
    exact hne x hx hxi
  refine ⟨⟨hp.layout hl hroom, by simpa using hfew, ?_, ?_, ?_, ?_, ?_, ?_, ?_⟩, ?_, ?_⟩
  · intro x hx
    rw [hhandle]
    rcases mem_cons.1 hx with rfl | hx
    · rw [bufferBit_handle, hslot]
      exact ⟨rfl, sl', hp.taken.slot⟩
    · obtain ⟨hown, slx, hslx⟩ := hh.own x hx
      exact ⟨hown, slx, by rw [hp.taken.others _ (hne x hx)]; exact hslx⟩
  · intro j slj hj
    rw [slotRefs_cons, hslot]
    by_cases hji : j = i
    · subst hji
      obtain rfl : sl' = slj := Option.some.inj (hp.taken.slot.symm.trans hj)
      rw [hp.taken.refCount, hrefs0, if_pos rfl]
      rfl
    · rw [hp.taken.others j hji] at hj
      rw [if_neg (Ne.symm hji), Nat.add_zero]
      exact hh.slot_count j slj hj
  · intro j slj hj hd
    by_cases hji : j = i
    · subst hji
      obtain rfl : sl' = slj := Option.some.inj (hp.taken.slot.symm.trans hj)
      rw [hp.taken.dead] at hd
      cases hd
    · rw [hp.taken.others j hji] at hj
      rw [slotRefs_cons, hslot, if_neg (Ne.symm hji), Nat.add_zero]
      exact hh.dead_free j slj hj hd
  · intro b
    have hle := bufferRefs_le held b
    rw [bufferRefs_cons, bufferBit_handle]
    by_cases hb : s.currentBit = b
    · subst hb
      rw [if_pos rfl, hp.cur_refs, hh.buf_count, int32_eq (by omega) (by omega)]
      norm_cast
    · rw [if_neg hb, Nat.add_zero, Bool.eq_not_of_ne (Ne.symm hb), hp.old_buf, hh.buf_count]
  · intro x hx slx hslx
    rcases mem_cons.1 hx with rfl | hx
    · rw [hslot] at hslx
      obtain rfl : sl' = slx := Option.some.inj (hp.taken.slot.symm.trans hslx)
      refine goodBit_of_eq ?_
      rw [hslot, bufferBit_handle, hp.liveBit_new hl]
    · rw [hp.taken.others _ (hne x hx)] at hslx
      rcases hh.bits x hx slx hslx with hbit | ⟨hc, hbit, hlt, e, hcur, hold⟩
      · exact .inl (by rw [hp.liveBit, hbit])
      · refine .inr ⟨hp.state ▸ hc, by rw [hp.bit, hbit], hp.cursor ▸ hlt, e, ?_, ?_⟩ <;> rw
          [hp.bit]
        · exact hp.holds_other hcur
        · exact hp.holds_other hold
  · intro k x hx hk
    rw [hp.index] at hx
    by_cases hkd : k = data
    · rw [hkd, Function.update_self] at hx
      cases hx
      rw [hslot]
      refine ⟨sl', hp.taken.slot, hp.taken.dead, ?_, ?_⟩
      · rw [hhandle, hp.liveBit_new hl]
      · rw [hp.liveBit_new hl, hkd]
        exact hp.holds
    · rw [Function.update_of_ne hkd] at hx
      -- an entry other than the new one names a slot that was alive and has not moved
      obtain ⟨slx, hslx, hdx, hown, hholds⟩ : ∃ slx : Slot, s.slots[x.shardSlot]? = some slx ∧
          slx.dead = false ∧ x = s.handle (s.liveBit x.shardSlot slx) x.shardSlot ∧
          slx.Holds s.buffers (s.liveBit x.shardSlot slx) k := by
        rcases hgr.entry hx with hx | ⟨j, slj, hj, hlive, hholds, hbit, rfl⟩
        · exact hh.indexed k x hx hk
        · rw [shardSlot_handle _ _ (hl.slot_lt hj)]
          exact ⟨slj, hj, (hl.live_iff hj).1 hlive, by rw [hbit], by rw [hbit]; exact hholds⟩
      refine ⟨slx, ?_, hdx, ?_, ?_⟩
      · rw [hp.taken.others _ (hp.taken.ne_of_live hl hslx hdx)]
        exact hslx
      · rw [hhandle, hp.liveBit]
        exact hown
      · rw [hp.liveBit]
        exact hp.holds_other hholds
  · intro x hx
    rw [hp.index] at hx
    rw [hhandle]
    by_cases hkd : [] = data
    · rw [hkd, Function.update_self] at hx
      cases hx
      rw [hslot, bufferBit_handle]
      exact ⟨rfl, sl', hp.taken.slot, fun _ _ => (hp.liveBit_new hl).symm⟩
    · rw [Function.update_of_ne hkd] at hx
      obtain ⟨hown, slx, hslx, hbit⟩ : x = s.handle x.bufferBit x.shardSlot ∧
          ∃ slx : Slot, s.slots[x.shardSlot]? = some slx ∧
            (slx.dead = false → slx.length = 0 → x.bufferBit = s.liveBit x.shardSlot slx) := by
        rcases hgr.entry hx with hx | ⟨j, slj, hj, hlive, hholds, hbit, rfl⟩
        · exact hh.indexed_nil x hx
        · rw [shardSlot_handle _ _ (hl.slot_lt hj), bufferBit_handle]
          exact ⟨rfl, slj, hj, fun _ _ => hbit.symm⟩
      refine ⟨hown, ?_⟩
      by_cases hxi : x.shardSlot = i
      · -- the stale entry names the slot that was just reused, for bytes that are not empty
        rw [hxi]
        refine ⟨sl', hp.taken.slot, fun _ hlen => ?_⟩
        rw [hp.holds.1, length_eq_zero_iff] at hlen
        exact absurd hlen.symm hkd
      · rw [hp.taken.others _ hxi]
        exact ⟨slx, hslx, fun hd hlen => by rw [hp.liveBit]; exact hbit hd hlen⟩
  · rintro x hx d ⟨slx, hslx, hd⟩
    exact ⟨slx, by rw [hp.taken.others _ (hne x hx)]; exact hslx, hp.holds_other hd⟩
  · refine ⟨sl', by rw [hslot]; exact hp.taken.slot, ?_⟩
    rw [bufferBit_handle]
    exact hp.holds

/-- The empty string is not indexed under a live slot that holds other bytes.
Source: pool.go retireSlot, which keeps the entry when len(buf.data) is zero -/
def NoStaleEmpty (s : Shard) : Prop :=
  ∀ h ∈ s.index [], ∀ sl ∈ s.slots[h.shardSlot]?, sl.live = true → sl.length = 0

instance (s : Shard) : Decidable s.NoStaleEmpty :=
  inferInstanceAs (Decidable (∀ h ∈ s.index [], ∀ sl ∈ s.slots[h.shardSlot]?, _ → _))

lemma Held.lookup (hh : s.Held held) (hstale : data = [] → s.NoStaleEmpty) :
    s.lookup data = some none ∨ ∃ h sl, s.lookup data = some (some h) ∧
      h = s.handle h.bufferBit h.shardSlot ∧ s.slots[h.shardSlot]? = some sl ∧ sl.dead = false ∧
      s.GoodBit h sl ∧ sl.Holds s.buffers h.bufferBit data := by
  cases hix : s.index data with
  | none => exact .inl (by simp only [Shard.lookup, hix])
  | some h =>
    by_cases hdata : data = []
    · subst hdata
      obtain ⟨hown, sl, hsl, hbit⟩ := hh.indexed_nil h hix
      cases hlive : sl.live with
      | false => exact .inl (by simp [Shard.lookup, hix, hsl, hlive])
      | true =>
        have hd := (hh.layout.live_iff hsl).1 hlive
        have hlen := hstale rfl h hix sl hsl hlive
        have hbit := hbit hd hlen
        obtain ⟨e, he⟩ := hh.layout.stored _ sl hsl hlive
        obtain rfl : e = [] := length_eq_zero_iff.1 (he.1.symm.trans hlen)
        refine .inr ⟨h, sl, by simp [Shard.lookup, hix, hsl, hlive], hown, hsl, hd,
          goodBit_of_eq hbit, ?_⟩
        rw [hbit]
        exact he
    · obtain ⟨sl, hsl, hd, hown, hholds⟩ := hh.indexed data h hix hdata
      have hlive := (hh.layout.live_iff hsl).2 hd
      have hbit : h.bufferBit = s.liveBit h.shardSlot sl := by
        conv_lhs => rw [hown]
        exact bufferBit_handle _ _ _
      refine .inr ⟨h, sl, by simp [Shard.lookup, hix, hsl, hlive], ?_, hsl, hd,
        goodBit_of_eq hbit, ?_⟩
      · rw [hbit]
        exact hown
      · rw [hbit]
        exact hholds

lemma Held.intern (g : AppendGrowth) (hh : s.Held held) (hlen : data.length < 2 ^ 16)
    (hfew : held.length + 1 < 2 ^ 31)
    (hroom : s.lookup data = some none → s.cur.data.length + data.length < 2 ^ 32)
    (hstale : data = [] → s.NoStaleEmpty) :
    (∃ err, s.intern g false data = some (s, .error err)) ∨
    ∃ s' h, s.intern g false data = some (s', .ok h) ∧ s'.Held (h :: held) ∧ s.Kept s' held ∧
      s'.Reads h data ∧ h.shardID = s.id ∧ s'.id = s.id ∧ s'.idx = s.idx := by
  rcases hh.lookup hstale with hl | ⟨h, sl, hl, hown, hsl, hd, hg, hholds⟩
  · by_cases hfull : maxSlotsPerShard ≤ s.slots.length ∧ s.freeSlots = []
    · refine .inl ⟨.poolFull, ?_⟩
      simp only [Shard.intern, Bool.false_eq_true, if_false, hl, Option.bind_some, if_pos hfull]
    · obtain ⟨s', i, sl', ix, hplace, hp, hgr⟩ := place_spec g hh.layout hlen (hroom hl) hfull
      obtain ⟨hh', hk, hr⟩ := hh.placed hp hgr hfew (hroom hl)
      refine .inr ⟨s', _, ?_, hh', hk, hr, shardID_handle hh.layout.id_lt _ _, hp.id, hp.idx⟩
      simp only [Shard.intern, Bool.false_eq_true, if_false, hl, Option.bind_some, if_neg hfull,
        hplace, Option.map_some]
  · obtain ⟨hh', hk⟩ := hh.bump_one hfew hown hsl hd hg
    refine .inr ⟨s.bump h 1, h, ?_, hh', hk, ?_, ?_, rfl, rfl⟩
    · simp only [Shard.intern, Bool.false_eq_true, if_false, hl, Option.bind_some]
    · exact (relabels_bump s h 1).kept [h] h mem_cons_self data ⟨sl, hsl, hholds⟩
    · rw [hown]
      exact shardID_handle hh.layout.id_lt _ _

lemma Held.addRef (hh : s.Held held) (hmem : h ∈ held) (hfew : held.length + 1 < 2 ^ 31) :
    s.addRef h = (s.bump h 1, none) ∧ (s.bump h 1).Held (h :: held) ∧ s.Kept (s.bump h 1) held := by
  obtain ⟨hown, sl, hsl⟩ := hh.own h hmem
  have hd := hh.alive_of_mem hmem hsl
  refine ⟨?_, hh.bump_one hfew hown hsl hd (hh.bits h hmem sl hsl)⟩
  simp only [Shard.addRef, validateHandle_eq_none hh.layout hown hsl hd]

/-! ## Starting and ending an incremental compaction -/

lemma Held.bit_of_normal (hh : s.Held held) (hn : s.state = .normal) (hmem : h ∈ held) :
    h.bufferBit = s.currentBit := by
  obtain ⟨-, sl, hsl⟩ := hh.own h hmem
  rcases hh.bits h hmem sl hsl with hbit | ⟨hc, -⟩
  · rw [hbit, liveBit_of_normal hn]
  · rw [hn] at hc
    cases hc

lemma bufferRefs_eq_zero {b : Bool} (hne : ∀ h ∈ held, h.bufferBit ≠ b) : bufferRefs held b = 0 :=
  countP_eq_zero.2 fun h hmem => by simpa using hne h hmem

lemma Held.startCompaction (hh : s.Held held) :
    s.startCompaction.Held held ∧ s.Kept s.startCompaction held := by
  by_cases hc : s.state = .compacting
  · rw [Shard.startCompaction, if_pos hc]
    exact ⟨hh, fun _ _ _ hr => hr⟩
  have hn := normal_of_not_compacting hc
  have heq := startCompaction_of_normal hn
  have hhandle : ∀ b j, s.startCompaction.handle b j = s.handle b j := fun b j => by
    rw [heq]
    rfl
  have hslot : ∀ {j : ℕ} {slj : Slot}, s.slots[j]? = some slj →
      s.startCompaction.slots[j]? = some { slj with migrated := false } := by
    intro j slj hj
    rw [heq, getElem?_map, hj]
    rfl
  refine ⟨⟨hh.layout.startCompaction, hh.few, ?_, ?_, ?_, ?_, ?_, ?_, ?_⟩, ?_⟩
  · intro x hx
    obtain ⟨hown, slx, hslx⟩ := hh.own x hx
    exact ⟨by rw [hhandle]; exact hown, _, hslot hslx⟩
  · intro j sl' hj
    obtain ⟨slj, hslj, rfl⟩ := startCompaction_slot hn hj
    exact hh.slot_count j slj hslj
  · intro j sl' hj hd
    obtain ⟨slj, hslj, rfl⟩ := startCompaction_slot hn hj
    exact hh.dead_free j slj hslj hd
  · intro b
    by_cases hb : b = s.currentBit
    · rw [hb, buffers_startCompaction hn]
      exact hh.buf_count _
    · rw [heq, Bool.eq_not_of_ne hb, Two.get_set_self, Buffer.refCount_make,
        bufferRefs_eq_zero fun x hx => ?_]
      · rfl
      · rw [hh.bit_of_normal hn hx]
        exact (Bool.not_ne_self _).symm
  · intro x hx sl' hj
    refine goodBit_of_eq ?_
    rw [liveBit_startCompaction hn hj, hh.bit_of_normal hn hx]
  · intro k x hx hk
    have hx' : s.index k = some x := by rwa [heq] at hx
    obtain ⟨slx, hslx, hd, hown, hholds⟩ := hh.indexed k x hx' hk
    rw [liveBit_of_normal hn] at hown hholds
    refine ⟨_, hslot hslx, hd, ?_, ?_⟩
    · rw [hhandle, liveBit_startCompaction hn (hslot hslx)]
      exact hown
    · rw [liveBit_startCompaction hn (hslot hslx)]
      exact hholds.congr rfl rfl (by rw [buffers_startCompaction hn])
  · intro x hx
    have hx' : s.index [] = some x := by rwa [heq] at hx
    obtain ⟨hown, slx, hslx, hbit⟩ := hh.indexed_nil x hx'
    refine ⟨by rw [hhandle]; exact hown, _, hslot hslx, fun hd hlen => ?_⟩
    rw [liveBit_startCompaction hn (hslot hslx), hbit hd hlen, liveBit_of_normal hn]
  · rintro x hx d ⟨slx, hslx, hd⟩
    refine ⟨_, hslot hslx, ?_⟩
    have hbit := hh.bit_of_normal hn hx
    rw [hbit] at hd ⊢
    exact hd.congr rfl rfl (by rw [buffers_startCompaction hn])

lemma bit_of_drained (hcount : ∀ b, (s.buffers.get b).refCount = bufferRefs held b)
    (hzero : s.old.refCount = 0) (hmem : h ∈ held) : h.bufferBit = s.currentBit := by
  have hrefs : bufferRefs held (!s.currentBit) = 0 := by
    have := hcount (!s.currentBit)
    rw [show (s.buffers.get (!s.currentBit)).refCount = 0 from hzero] at this
    exact_mod_cast this.symm
  simpa using Bool.eq_not_of_ne (bufferBit_ne_of_bufferRefs hrefs hmem)

lemma Held.not_waiting_of_drained (hh : s.Held held) (hzero : s.old.refCount = 0)
    (hsl : s.slots[i]? = some sl) (hd : sl.dead = false) : ¬ s.waiting i sl := by
  intro hw
  obtain ⟨x, hx, rfl⟩ := hh.exists_mem hsl hd
  rcases hh.bits x hx sl hsl with hb | ⟨-, -, hlt, -⟩
  · rw [liveBit_of_waiting hw, bit_of_drained hh.buf_count hzero hx] at hb
    exact absurd hb.symm (Bool.not_ne_self _)
  · have := (waiting_iff.1 hw).2.1
    omega

lemma Held.finish (hh : s.Held held) (hzero : s.old.refCount = 0) :
    s.finishCompaction.Held held ∧ s.Kept s.finishCompaction held := by
  have hbit : ∀ x ∈ held, x.bufferBit = s.currentBit :=
    fun x hx => bit_of_drained hh.buf_count hzero hx
  have hcur : ∀ (j : ℕ) (slj : Slot), s.slots[j]? = some slj → slj.dead = false →
      ¬ s.waiting j slj := fun j slj hj hd => hh.not_waiting_of_drained hzero hj hd
  have hlive : ∀ (j : ℕ) (slj : Slot), s.finishCompaction.liveBit j slj = s.currentBit :=
    fun j slj => liveBit_of_normal rfl
  have hdata : s.finishCompaction.buffers.get s.currentBit = s.buffers.get s.currentBit := by
    simp only [finishCompaction, Two.get_set_not]
  refine ⟨⟨hh.layout.finish fun j slj hj hlj => hcur j slj hj ((hh.layout.live_iff hj).1 hlj),
    hh.few, hh.own, hh.slot_count, hh.dead_free, ?_, ?_, ?_, ?_⟩, ?_⟩
  · intro b
    by_cases hb : b = s.currentBit
    · rw [hb, hdata]
      exact hh.buf_count _
    · rw [Bool.eq_not_of_ne hb]
      simp only [finishCompaction, Two.get_set_self, Buffer.refCount_make]
      exact hh.buf_count _
  · intro x hx slx hslx
    exact goodBit_of_eq (by rw [hlive, hbit x hx])
  · intro k x hx hk
    obtain ⟨slx, hslx, hd, hown, hholds⟩ := hh.indexed k x hx hk
    rw [liveBit_of_not_waiting (hcur _ slx hslx hd)] at hown hholds
    refine ⟨slx, hslx, hd, by rw [hlive]; exact hown, ?_⟩
    rw [hlive]
    exact hholds.congr rfl rfl (by rw [hdata])
  · intro x hx
    obtain ⟨hown, slx, hslx, hb⟩ := hh.indexed_nil x hx
    refine ⟨hown, slx, hslx, fun hd hlen => ?_⟩
    rw [hlive, hb hd hlen, liveBit_of_not_waiting (hcur _ slx hslx hd)]
  · rintro x hx d ⟨slx, hslx, hd⟩
    refine ⟨slx, hslx, ?_⟩
    rw [hbit x hx] at hd ⊢
    exact hd.congr rfl rfl (by rw [hdata])

lemma Held.checkOldBufferRelease (hh : s.Held held) :
    s.checkOldBufferRelease.Held held ∧ s.Kept s.checkOldBufferRelease held := by
  rw [Shard.checkOldBufferRelease]
  split_ifs with hc hzero
  · exact ⟨hh, fun _ _ _ hr => hr⟩
  · exact hh.finish hzero
  · exact ⟨hh, fun _ _ _ hr => hr⟩

/-! ## Migrating -/

/-- Moving the migration cursor on under held references. The slot it passes keeps its counter and
its mark; the held handles to it stay good, and an index entry to it is its own. -/
lemma Held.advance (hh : s.Held held) (ha : s.Advances s' sl')
    (h₀ : s.slots[s.compactCursor]? = some sl) (hl' : s'.Layout) (hdead : sl'.dead = sl.dead)
    (hrefs : sl'.refCount = sl.refCount)
    (hbuf : ∀ b, (s'.buffers.get b).refCount = (s.buffers.get b).refCount)
    (hgood : ∀ x ∈ held, x.shardSlot = s.compactCursor → s'.GoodBit x sl')
    (hindex : ∀ k x, s'.index k = some x →
      (s.index k = some x ∧
        (x.shardSlot = s.compactCursor → k = [] ∧ (sl'.dead = false → sl'.length ≠ 0))) ∨
      (x = s.handle s.currentBit s.compactCursor ∧ sl'.dead = false ∧
        sl'.Holds s'.buffers s.currentBit k)) : s'.Held held := by
  have hl := hh.layout
  have hslot : (s.handle s.currentBit s.compactCursor).shardSlot = s.compactCursor :=
    shardSlot_handle _ _ (hl.slot_lt h₀)
  have hget := ha.getElem? h₀
  refine ⟨hl', hh.few, ?_, ?_, ?_, fun b => by rw [hbuf, hh.buf_count], ?_, ?_, ?_⟩
  · intro x hx
    obtain ⟨hown, slx, hslx⟩ := hh.own x hx
    refine ⟨by rw [ha.handle]; exact hown, ?_⟩
    rw [hget]
    split_ifs
    · exact ⟨sl', rfl⟩
    · exact ⟨slx, hslx⟩
  · intro j slj hj
    rw [hget] at hj
    split_ifs at hj with hji
    · cases hj
      rw [hrefs, hji]
      exact hh.slot_count _ sl h₀
    · exact hh.slot_count j slj hj
  · intro j slj hj hd
    rw [hget] at hj
    split_ifs at hj with hji
    · cases hj
      rw [hji]
      exact hh.dead_free _ sl h₀ (hdead.symm.trans hd)
    · exact hh.dead_free j slj hj hd
  · intro x hx slx hj
    rw [hget] at hj
    split_ifs at hj with hji
    · cases hj
      exact hgood x hx hji
    · rcases hh.bits x hx slx hj with hbit | ⟨hc, hbit, hlt, e, hcur, hold⟩
      · exact .inl (by rw [ha.liveBit hji, hbit])
      · refine .inr ⟨ha.state ▸ hc, by rw [ha.bit, hbit], by rw [ha.cursor]; omega, e, ?_, ?_⟩ <;>
          rw [ha.bit]
        · exact ha.holds hcur
        · exact ha.holds hold
  · intro k x hx hk
    rcases hindex k x hx with ⟨hx, hne⟩ | ⟨rfl, hd, hholds⟩
    · have hji : x.shardSlot ≠ s.compactCursor := fun hji => hk (hne hji).1
      obtain ⟨slx, hslx, hd, hown, hholds⟩ := hh.indexed k x hx hk
      refine ⟨slx, by rw [hget, if_neg hji]; exact hslx, hd, ?_, ?_⟩
      · rw [ha.handle, ha.liveBit hji]
        exact hown
      · rw [ha.liveBit hji]
        exact ha.holds hholds
    · rw [hslot]
      exact ⟨sl', by rw [hget, if_pos rfl], hd, by rw [ha.handle, ha.liveBit_cursor],
        by rw [ha.liveBit_cursor]; exact hholds⟩
  · intro x hx
    rcases hindex [] x hx with ⟨hx, hne⟩ | ⟨rfl, hd, hholds⟩
    · obtain ⟨hown, slx, hslx, hbit⟩ := hh.indexed_nil x hx
      refine ⟨by rw [ha.handle]; exact hown, ?_⟩
      rw [hget]
      split_ifs with hji
      · exact ⟨sl', rfl, fun hd hlen => absurd hlen ((hne hji).2 hd)⟩
      · exact ⟨slx, hslx, fun hd hlen => by rw [ha.liveBit hji]; exact hbit hd hlen⟩
    · rw [hslot, bufferBit_handle]
      exact ⟨by rw [ha.handle], sl', by rw [hget, if_pos rfl], fun _ _ => by rw [ha.liveBit_cursor]⟩

lemma Advances.kept (ha : s.Advances s' sl') (h₀ : s.slots[s.compactCursor]? = some sl)
    (hread : ∀ x ∈ held, x.shardSlot = s.compactCursor → ∀ d, sl.Holds s.buffers x.bufferBit d →
      sl'.Holds s'.buffers x.bufferBit d) : s.Kept s' held := by
  rintro x hx d ⟨slx, hslx, hd⟩
  by_cases hji : x.shardSlot = s.compactCursor
  · rw [hji] at hslx
    obtain rfl : sl = slx := Option.some.inj (h₀.symm.trans hslx)
    exact ⟨sl', by rw [ha.getElem? h₀, if_pos hji], hread x hx hji d hd⟩
  · exact ⟨slx, by rw [ha.getElem? h₀, if_neg hji]; exact hslx, ha.holds hd⟩

section

variable (hh : s.Held held) (hc : s.state = .compacting)
  (hlt : s.compactCursor < s.compactSlotCount) (h₀ : s.slots[s.compactCursor]? = some sl)
include hh hc hlt h₀

lemma Held.afterClear (hd : sl.dead) :
    (s.afterClear sl).Held held ∧ s.Kept (s.afterClear sl) held := by
  have ha := advances_afterClear s sl
  have hnone : ∀ x ∈ held, x.shardSlot ≠ s.compactCursor := by
    intro x hx hji
    have := hh.alive_of_mem hx (hji ▸ h₀)
    rw [hd] at this
    cases this
  constructor
  · refine hh.advance ha h₀ (ha.layout hh.layout hc hlt h₀ rfl rfl hh.layout.small ?_) rfl rfl
      (fun _ => rfl) (fun x hx hji => absurd hji (hnone x hx)) ?_
    · intro hd'
      rw [hd] at hd'
      cases hd'
    · intro k x hx
      refine .inl ⟨hx, fun hji => ⟨?_, fun hd' => ?_⟩⟩
      · by_contra hk
        obtain ⟨slx, hslx, hdx, -⟩ := hh.indexed k x hx hk
        rw [hji] at hslx
        obtain rfl : sl = slx := Option.some.inj (h₀.symm.trans hslx)
        rw [hd] at hdx
        cases hdx
      · rw [hd] at hd'
        cases hd'
  · exact ha.kept h₀ fun x hx hji => absurd hji (hnone x hx)

lemma Held.afterPass (hd : sl.dead = false) (hm : sl.migrated) :
    s.afterPass.Held held ∧ s.Kept s.afterPass held := by
  have ha := advances_afterPass h₀
  have hw : ¬ s.waiting s.compactCursor sl := by
    rw [waiting_iff, hm]
    rintro ⟨-, -, -, h⟩
    cases h
  have hbit := liveBit_of_not_waiting hw
  obtain ⟨d, hholds⟩ := hh.layout.stored _ sl h₀ ((hh.layout.live_iff h₀).2 hd)
  rw [hbit] at hholds
  constructor
  · refine hh.advance ha h₀ (ha.layout hh.layout hc hlt h₀ rfl rfl hh.layout.small
      fun _ => ⟨d, hholds⟩) rfl rfl (fun _ => rfl) ?_ ?_
    · intro x hx hji
      rcases hh.bits x hx sl (hji ▸ h₀) with hb | ⟨-, -, hlt', -⟩
      · refine goodBit_of_eq ?_
        rw [hji, ha.liveBit_cursor, hb, hji, hbit]
      · omega
    · intro k x hx
      by_cases hji : x.shardSlot = s.compactCursor
      · by_cases hk : k = []
        · subst hk
          obtain ⟨hown, slx, hslx, hb⟩ := hh.indexed_nil x hx
          rw [hji] at hslx
          obtain rfl : sl = slx := Option.some.inj (h₀.symm.trans hslx)
          by_cases hlen : sl.length = 0
          · right
            have hb := hb hd hlen
            rw [hji, hbit] at hb
            obtain rfl : d = [] := length_eq_zero_iff.1 (hholds.1.symm.trans hlen)
            exact ⟨by rw [hown, hb, hji], hd, hholds⟩
          · exact .inl ⟨hx, fun _ => ⟨rfl, fun _ => hlen⟩⟩
        · right
          obtain ⟨slx, hslx, -, hown, hholds'⟩ := hh.indexed k x hx hk
          rw [hji] at hslx hown hholds'
          obtain rfl : sl = slx := Option.some.inj (h₀.symm.trans hslx)
          rw [hbit] at hown hholds'
          exact ⟨hown, hd, hholds'⟩
      · exact .inl ⟨hx, fun h => absurd h hji⟩
  · exact ha.kept h₀ fun x hx hji d hd => hd

end

lemma Held.afterCopy (g : AppendGrowth) (hh : s.Held held) (hc : s.state = .compacting)
    (hlt : s.compactCursor < s.compactSlotCount) (h₀ : s.slots[s.compactCursor]? = some sl)
    (hd : sl.dead = false) (hw : s.waiting s.compactCursor sl)
    (hholds : sl.Holds s.buffers (!s.currentBit) d)
    (hroom : s.cur.data.length + d.length < 2 ^ 32) :
    (s.afterCopy g sl d).Held held ∧ s.Kept (s.afterCopy g sl d) held := by
  have ha := advances_afterCopy g s sl d
  have hbit := liveBit_of_waiting hw
  -- before the copy, the held handles to the slot all read through the old buffer
  have hold : ∀ x ∈ held, x.shardSlot = s.compactCursor → x.bufferBit = !s.currentBit := by
    intro x hx hji
    rcases hh.bits x hx sl (hji ▸ h₀) with hb | ⟨-, hb, -⟩
    · rw [hb, hji, hbit]
    · exact hb
  constructor
  · refine hh.advance ha h₀ (ha.layout hh.layout hc hlt h₀ rfl rfl
      (small_afterCopy g hh.layout hroom) fun _ => ⟨d, holds_copied g hholds⟩) rfl rfl ?_ ?_ ?_
    · intro b
      simp only [Shard.afterCopy, Two.get_set]
      split_ifs with hb
      · rw [Buffer.refCount_append, hb, cur]
      · rfl
    · intro x hx hji
      refine .inr ⟨hc, hold x hx hji, ?_, d, holds_copied g hholds, holds_copied_old g hholds⟩
      rw [hji]
      exact Nat.lt_succ_self _
    · intro k x hx
      by_cases hkd : k = d
      · right
        simp only [Shard.afterCopy, hkd, Function.update_self, Option.some.injEq] at hx
        exact ⟨hx.symm, hd, by rw [hkd]; exact holds_copied g hholds⟩
      · left
        simp only [Shard.afterCopy, Function.update_of_ne hkd] at hx
        refine ⟨hx, fun hji => ?_⟩
        have hk : k = [] := by
          by_contra hk
          obtain ⟨slx, hslx, -, -, hholds'⟩ := hh.indexed k x hx hk
          rw [hji] at hslx hholds'
          obtain rfl : sl = slx := Option.some.inj (h₀.symm.trans hslx)
          rw [hbit] at hholds'
          exact hkd (hholds'.unique hholds)
        refine ⟨hk, fun _ hlen => hkd ?_⟩
        rw [hk]
        exact (length_eq_zero_iff.mp (hholds.1.symm.trans hlen)).symm
  · refine ha.kept h₀ fun x hx hji e he => ?_
    rw [hold x hx hji] at he ⊢
    obtain rfl := he.unique hholds
    exact holds_copied_old g hholds

lemma Kept.trans {s'' : Shard} (h : s.Kept s' held) (h' : s'.Kept s'' held) : s.Kept s'' held :=
  fun x hx d hr => h' x hx d (h x hx d hr)

lemma Held.migrateBatch (g : AppendGrowth) (hh : s.Held held) (batchSize : ℤ)
    (hroom : s.state = .compacting →
      s.cur.data.length + batchBytes s.pending batchSize.toNat < 2 ^ 32) :
    ∃ s' done, s.migrateBatch g batchSize = some (s', done) ∧ s'.Held held ∧ s.Kept s' held ∧
      s'.id = s.id ∧ s'.idx = s.idx := by
  by_cases hc : s.state = .compacting
  · -- what every round of the loop keeps
    let P : Shard → Prop := fun t => t.Held held ∧ s.Kept t held ∧ t.state = .compacting ∧
      t.id = s.id ∧ t.idx = s.idx
    obtain ⟨t, ht, hht, hkt, -, hid, hidx⟩ := migrateLoop_total g (P := P)
      (fun t ht => ⟨ht.1.layout, ht.2.2.1⟩)
      (fun t sl ⟨hht, hkt, hct, hids⟩ hlt h₀ hd => by
        obtain ⟨h₁, h₂⟩ := hht.afterClear hct hlt h₀ hd
        exact ⟨h₁, hkt.trans h₂, hct, hids⟩)
      (fun t sl ⟨hht, hkt, hct, hids⟩ hlt h₀ hd hm => by
        obtain ⟨h₁, h₂⟩ := hht.afterPass hct hlt h₀ hd hm
        exact ⟨h₁, hkt.trans h₂, hct, hids⟩)
      (fun t sl d ⟨hht, hkt, hct, hids⟩ hlt h₀ hd hw hholds hr => by
        obtain ⟨h₁, h₂⟩ := hht.afterCopy g hct hlt h₀ hd hw hholds hr
        exact ⟨h₁, hkt.trans h₂, hct, hids⟩)
      (s.compactSlotCount - s.compactCursor) batchSize.toNat s
      ⟨hh, fun _ _ _ hr => hr, hc, rfl, rfl⟩ rfl (hroom hc)
    simp only [Shard.migrateBatch, hc, ne_eq, not_true_eq_false, if_false, ht, Option.map_some]
    split_ifs with hdone hzero
    · obtain ⟨hf, hkf⟩ := hht.finish hzero
      exact ⟨_, true, rfl, hf, hkt.trans hkf, hid, hidx⟩
    · exact ⟨t, true, rfl, hht, hkt, hid, hidx⟩
    · exact ⟨t, false, rfl, hht, hkt, hid, hidx⟩
  · refine ⟨s, true, ?_, hh, fun _ _ _ hr => hr, rfl, rfl⟩
    simp only [Shard.migrateBatch, ne_eq, hc, not_false_eq_true, if_true]

/-! ## Stop-the-world compaction -/

lemma Held.compact (g : AppendGrowth) (hh : s.Held held)
    (hroom : s.state = .normal → s.freeSlots ≠ [] → liveBytes s.slots < 2 ^ 32) :
    ∃ s', s.compact g = some s' ∧ s'.Held held ∧ s.Kept s' held ∧ s'.id = s.id ∧ s'.idx =
      s.idx := by
  by_cases hc : s.state = .compacting
  · exact ⟨s, by rw [Shard.compact, if_pos hc], hh, fun _ _ _ hr => hr, rfl, rfl⟩
  by_cases hfree : s.freeSlots = []
  · exact ⟨s, by rw [Shard.compact, if_neg hc, if_pos hfree], hh, fun _ _ _ hr => hr, rfl, rfl⟩
  have hn := normal_of_not_compacting hc
  obtain ⟨slots', newBuf, ix, heq, hcd, -⟩ := compact_spec g hh.layout hn hfree (hroom hn hfree)
  refine ⟨_, heq, ?_⟩
  set s' : Shard := { s with
    slots := slots', buffers := s.buffers.set s.currentBit newBuf, index := ix }
  have hslot : ∀ (j : ℕ) (slj : Slot), s.slots[j]? = some slj → ∃ sl' : Slot,
      s'.slots[j]? = some sl' ∧ Compacts s.currentBit s.cur newBuf slj sl' := by
    intro j slj hj
    have hlt : j < slots'.length := hcd.length ▸ (List.getElem?_eq_some_iff.mp hj).1
    obtain ⟨sl₀, h₀, hrest⟩ := hcd.slots j _ (getElem?_eq_getElem hlt)
    obtain rfl : sl₀ = slj := Option.some.inj (h₀.symm.trans hj)
    exact ⟨_, getElem?_eq_getElem hlt, hrest⟩
  have hlive : ∀ (j : ℕ) (slj : Slot), s'.liveBit j slj = s.currentBit :=
    fun j slj => liveBit_of_normal hn
  have hl' : s'.Layout := hcd.layout hh.layout hn
  refine ⟨⟨hl', hh.few, ?_, ?_, ?_, ?_, ?_, ?_, ?_⟩, ?_, rfl, rfl⟩
  · intro x hx
    obtain ⟨hown, slx, hslx⟩ := hh.own x hx
    obtain ⟨sl', hsl', -⟩ := hslot _ slx hslx
    exact ⟨hown, sl', hsl'⟩
  · intro j sl' hj
    obtain ⟨slj, hslj, hcj⟩ := hcd.slots j sl' hj
    rw [hcj.refCount]
    exact hh.slot_count j slj hslj
  · intro j sl' hj hd
    obtain ⟨slj, hslj, hcj⟩ := hcd.slots j sl' hj
    exact hh.dead_free j slj hslj (hcj.dead.symm.trans hd)
  · intro b
    simp only [s', Two.get_set]
    split_ifs with hb
    · rw [hcd.refCount, hb]
      exact hh.buf_count _
    · exact hh.buf_count b
  · intro x hx sl' hj
    exact goodBit_of_eq (by rw [hlive, hh.bit_of_normal hn hx])
  · intro k x hx hk
    obtain ⟨j, sl', hj, hlj, hholds, rfl⟩ := hcd.index k x hx
    rw [shardSlot_handle _ _ (hl'.slot_lt hj)]
    refine ⟨sl', hj, (hl'.live_iff hj).1 hlj, by rw [hlive]; rfl, ?_⟩
    rw [hlive]
    exact hholds
  · intro x hx
    obtain ⟨j, sl', hj, hlj, hholds, rfl⟩ := hcd.index [] x hx
    rw [shardSlot_handle _ _ (hl'.slot_lt hj), bufferBit_handle]
    exact ⟨rfl, sl', hj, fun _ _ => (hlive j sl').symm⟩
  · rintro x hx d ⟨slx, hslx, hd⟩
    obtain ⟨sl', hsl', hcx⟩ := hslot _ slx hslx
    refine ⟨sl', hsl', ?_⟩
    rw [hh.bit_of_normal hn hx] at hd ⊢
    exact hcx.holds ((hh.layout.live_iff hslx).2 (hh.alive_of_mem hx hslx)) hd

lemma held_new {id idx : ℕ} (capacity : ℕ) (hid : id < 16) (hidx : idx < 31) :
    (Shard.new id idx capacity).Held [] where
  layout := by
    refine ⟨hid, hidx, ?_, ?_, ?_, ?_, ?_, ?_, ?_, ?_⟩
    · exact Nat.zero_le _
    · exact fun _ => Nat.le_refl _
    · exact fun _ => Nat.le_refl _
    · intro i hi
      cases hi
    · exact nodup_nil
    · intro i sl hi
      cases hi
    · intro b
      cases b <;> norm_num [Shard.new, Two.get]
    · intro i sl hi
      cases hi
  few := by norm_num
  own := fun h hmem => by cases hmem
  slot_count := fun i sl hi => by cases hi
  dead_free := fun i sl hi => by cases hi
  buf_count := fun b => by cases b <;> rfl
  bits := fun h hmem => by cases hmem
  indexed := fun k h hk => by cases hk
  indexed_nil := fun h hk => by cases hk

end Shard

end Ze.AttrPool
