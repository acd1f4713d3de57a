import Ze.AttrPool.Layout

/-!
# What each step of a shard does to its layout

For every operation of `Shard` one statement of its effect, and the fact that it keeps `Layout`.
-/

namespace Ze.AttrPool

open Ze.Lib List
open Option (bind_some map_some)

namespace Shard

variable {s s' : Shard} {i : ℕ} {sl : Slot}

/-! ## Counters and marks -/

/-- `s'` is `s` with other counters, dead marks, free list and index: the bytes stay where they are.
-/
structure Relabels (s s' : Shard) : Prop where
  id : s'.id = s.id
  idx : s'.idx = s.idx
  bit : s'.currentBit = s.currentBit
  state : s'.state = s.state
  cursor : s'.compactCursor = s.compactCursor
  count : s'.compactSlotCount = s.compactSlotCount
  data : ∀ b, (s'.buffers.get b).data = (s.buffers.get b).data
  length : s'.slots.length = s.slots.length
  slots : ∀ (i : ℕ) (sl' : Slot), s'.slots[i]? = some sl' → ∃ sl : Slot, s.slots[i]? = some sl ∧
    sl'.length = sl.length ∧ sl'.offsets = sl.offsets ∧ sl'.migrated = sl.migrated

lemma Relabels.liveBit (h : s.Relabels s') {sl' : Slot} (hm : sl'.migrated = sl.migrated) :
    s'.liveBit i sl' = s.liveBit i sl :=
  liveBit_congr h.bit h.state h.cursor h.count hm

lemma Relabels.handle (h : s.Relabels s') (b : Bool) (i : ℕ) : s'.handle b i = s.handle b i := by
  rw [Shard.handle, Shard.handle, h.id, h.idx]

lemma Relabels.trans {s'' : Shard} (h : s.Relabels s') (h' : s'.Relabels s'') :
    s.Relabels s'' where
  id := h'.id.trans h.id
  idx := h'.idx.trans h.idx
  bit := h'.bit.trans h.bit
  state := h'.state.trans h.state
  cursor := h'.cursor.trans h.cursor
  count := h'.count.trans h.count
  data := fun b => (h'.data b).trans (h.data b)
  length := h'.length.trans h.length
  slots := by
    intro i sl'' hi
    obtain ⟨sl', hsl', hlen', hoff', hm'⟩ := h'.slots i sl'' hi
    obtain ⟨sl, hsl, hlen, hoff, hm⟩ := h.slots i sl' hsl'
    exact ⟨sl, hsl, hlen'.trans hlen, hoff'.trans hoff, hm'.trans hm⟩

lemma Layout.relabel (hl : s.Layout) (h : s.Relabels s')
    (hdead : ∀ (i : ℕ) (sl sl' : Slot), s.slots[i]? = some sl → s'.slots[i]? = some sl' →
      sl'.dead = false → sl.dead = false ∧ 0 < sl'.refCount)
    (hfree : ∀ i ∈ s'.freeSlots, ∃ sl : Slot, s'.slots[i]? = some sl ∧ sl.dead)
    (hnodup : s'.freeSlots.Nodup) : s'.Layout where
  id_lt := h.id ▸ hl.id_lt
  idx_lt := h.idx ▸ hl.idx_lt
  slots_le := h.length ▸ hl.slots_le
  cursor_le := by
    rw [h.state, h.cursor, h.count]
    exact hl.cursor_le
  count_le := by
    rw [h.state, h.count, h.length]
    exact hl.count_le
  free_dead := hfree
  free_nodup := hnodup
  alive := by
    intro i sl' hi hd
    obtain ⟨sl, hsl, -⟩ := h.slots i sl' hi
    exact (hdead i sl sl' hsl hi hd).2
  small := fun b => by
    rw [h.data]
    exact hl.small b
  stored := by
    intro i sl' hi hlive
    obtain ⟨sl, hsl, hlen, hoff, hm⟩ := h.slots i sl' hi
    rw [Slot.live, Bool.and_eq_true, Bool.not_eq_true'] at hlive
    have hd := (hdead i sl sl' hsl hi hlive.1).1
    obtain ⟨d, hd⟩ := hl.stored i sl hsl ((hl.live_iff hsl).2 hd)
    rw [h.liveBit hm]
    exact ⟨d, hd.congr hlen (by rw [hoff]) (h.data _)⟩

lemma relabels_bump (s : Shard) (h : Handle) (δ : ℤ) : s.Relabels (s.bump h δ) where
  id := rfl
  idx := rfl
  bit := rfl
  state := rfl
  cursor := rfl
  count := rfl
  data := by
    intro b
    rw [bump, Two.get_set]
    split_ifs with hb
    · rw [Buffer.data_addRefs, hb]
    · rfl
  length := length_modify _ _ _
  slots := by
    intro i sl' hi
    rw [bump, getElem?_modify] at hi
    obtain ⟨sl, hsl, rfl⟩ := Option.map_eq_some_iff.1 hi
    refine ⟨sl, hsl, ?_⟩
    split_ifs <;> exact ⟨rfl, rfl, rfl⟩

variable {b : Bool} {d : Bytes} {newBuf : Buffer}

/-- Retiring slot `i`, whose bytes read `d` through buffer `b`: the entry of `d` goes, unless the
buffer holds no bytes at all. -/
lemma retireSlot_spec (hi : s.slots[i]? = some sl)
    (hd : (s.buffers.get b).region (sl.offsets.get b) sl.length = some d) :
    s.retireSlot i b = some { s with
      slots := s.slots.set i { sl with dead := true }
      freeSlots := i :: s.freeSlots
      index := if 0 < (s.buffers.get b).data.length then Function.update s.index d none
        else s.index } := by
  simp only [retireSlot, hi]
  split_ifs with hb
  · rw [hd]
    rfl
  · rfl

lemma relabels_retire (hi : s.slots[i]? = some sl) (ix : Index) (free : List ℕ) :
    s.Relabels { s with slots := s.slots.set i { sl with dead := true }, freeSlots := free,
                        index := ix } where
  id := rfl
  idx := rfl
  bit := rfl
  state := rfl
  cursor := rfl
  count := rfl
  data := fun _ => rfl
  length := length_set
  slots := by
    intro j sl' hj
    by_cases hji : i = j
    · subst hji
      simp only [getElem?_set_self (List.getElem?_eq_some_iff.mp hi).1, Option.some.injEq] at hj
      exact ⟨sl, hi, by rw [← hj], by rw [← hj], by rw [← hj]⟩
    · simp only [getElem?_set_ne hji] at hj
      exact ⟨sl', hj, rfl, rfl, rfl⟩

/-! ## Placing new bytes -/

section

variable {data : Bytes} {sl' : Slot} {ix : Index}

variable {slots' : List Slot} {free' : List ℕ}

lemma Taken.was_dead (hl : s.Layout)
    (ht : s.Taken slots' free' i sl') (hi : s.slots[i]? = some sl) : sl.dead := by
  rcases ht.origin with ⟨hf, -⟩ | ⟨-, -, rfl, -⟩
  · obtain ⟨sl₀, h₀, hd⟩ := hl.free_dead i (by rw [hf]; exact mem_cons_self)
    obtain rfl : sl₀ = sl := Option.some.inj (h₀.symm.trans hi)
    exact hd
  · rw [getElem?_eq_none (Nat.le_refl _)] at hi
    cases hi

lemma Taken.lt (hl : s.Layout) (ht : s.Taken slots' free' i sl') : i < 2 ^ 22 := by
  rcases ht.origin with ⟨hf, -⟩ | ⟨-, -, rfl, -, hlt, -⟩
  · obtain ⟨sl₀, h₀, -⟩ := hl.free_dead i (by rw [hf]; exact mem_cons_self)
    exact hl.slot_lt h₀
  · exact hlt

lemma Taken.length_le (ht : s.Taken slots' free' i sl') : s.slots.length ≤ slots'.length := by
  rcases ht.origin with ⟨-, h, -⟩ | ⟨-, -, -, h, -⟩ <;> omega

lemma Taken.ne_of_live (hl : s.Layout)
    (ht : s.Taken slots' free' i sl') {j : ℕ} (hj : s.slots[j]? = some sl)
    (hlive : sl.dead = false) : j ≠ i := by
  rintro rfl
  rw [ht.was_dead hl hj] at hlive
  cases hlive

namespace Placed

lemma data_eq (hp : s.Placed data s' i sl' ix) (b : Bool) :
    ∃ x, (s'.buffers.get b).data = (s.buffers.get b).data ++ x := by
  by_cases hb : b = s.currentBit
  · exact ⟨data, by rw [hb, hp.cur_data]⟩
  · have hb' : b = !s.currentBit := Bool.eq_not_of_ne hb
    exact ⟨[], by rw [hb', hp.old_buf, append_nil]⟩

lemma liveBit (hp : s.Placed data s' i sl' ix) (j : ℕ) (sl : Slot) :
    s'.liveBit j sl = s.liveBit j sl :=
  liveBit_congr hp.bit hp.state hp.cursor hp.count rfl

lemma liveBit_new (hl : s.Layout) (hp : s.Placed data s' i sl' ix) :
    s'.liveBit i sl' = s.currentBit := by
  rw [hp.liveBit]
  refine liveBit_of_not_waiting ?_
  rw [waiting_iff]
  rintro ⟨hs, -, hlt, hm⟩
  rcases hp.taken.origin with ⟨-, -, hmark⟩ | ⟨-, -, rfl, -⟩
  · rw [hm, hs] at hmark
    simp at hmark
  · have := hl.count_le hs
    omega

lemma holds_other (hp : s.Placed data s' i sl' ix) {b : Bool} {d : Bytes}
    (hd : sl.Holds s.buffers b d) : sl.Holds s'.buffers b d := by
  obtain ⟨x, hx⟩ := hp.data_eq b
  exact hd.mono rfl rfl hx

lemma layout (hl : s.Layout) (hp : s.Placed data s' i sl' ix)
    (hroom : s.cur.data.length + data.length < 2 ^ 32) : s'.Layout where
  id_lt := hp.id ▸ hl.id_lt
  idx_lt := hp.idx ▸ hl.idx_lt
  slots_le := by
    have h := hl.slots_le
    rcases hp.taken.origin with ⟨-, h', -⟩ | ⟨-, -, -, h', h'', -⟩ <;> omega
  cursor_le := by
    rw [hp.state, hp.cursor, hp.count]
    exact hl.cursor_le
  count_le := by
    rw [hp.state, hp.count]
    exact fun h => (hl.count_le h).trans hp.taken.length_le
  free_dead := by
    intro j hj
    have hmem : j ∈ s.freeSlots ∧ j ≠ i := by
      rcases hp.taken.origin with ⟨hf, -⟩ | ⟨-, hf', -⟩
      · have hn := hl.free_nodup
        rw [hf, nodup_cons] at hn
        refine ⟨by rw [hf]; exact mem_cons_of_mem _ hj, ?_⟩
        rintro rfl
        exact hn.1 hj
      · rw [hf'] at hj
        cases hj
    rw [hp.taken.others j hmem.2]
    exact hl.free_dead j hmem.1
  free_nodup := by
    rcases hp.taken.origin with ⟨hf, -⟩ | ⟨-, hf', -⟩
    · have hn := hl.free_nodup
      rw [hf, nodup_cons] at hn
      exact hn.2
    · rw [hf']
      exact nodup_nil
  alive := by
    intro j sl hj hd
    by_cases hji : j = i
    · subst hji
      obtain rfl : sl' = sl := Option.some.inj (hp.taken.slot.symm.trans hj)
      rw [hp.taken.refCount]
      exact Int.one_pos
    · rw [hp.taken.others j hji] at hj
      exact hl.alive j sl hj hd
  small := by
    intro b
    by_cases hb : b = s.currentBit
    · rw [hb, hp.cur_data, length_append]
      exact hroom
    · rw [Bool.eq_not_of_ne hb, hp.old_buf]
      exact hl.small _
  stored := by
    intro j sl hj hlive
    by_cases hji : j = i
    · subst hji
      obtain rfl : sl' = sl := Option.some.inj (hp.taken.slot.symm.trans hj)
      rw [hp.liveBit_new hl]
      exact ⟨data, hp.holds⟩
    · rw [hp.taken.others j hji] at hj
      obtain ⟨d, hd⟩ := hl.stored j sl hj hlive
      rw [hp.liveBit]
      exact ⟨d, hp.holds_other hd⟩

end Placed

end

/-! ## Incremental compaction -/

lemma startCompaction_of_normal (hn : s.state = .normal) : s.startCompaction = { s with
    slots := s.slots.map fun sl => { sl with migrated := false }
    currentBit := !s.currentBit
    buffers := s.buffers.set (!s.currentBit)
      (Buffer.make (max (liveBytes s.slots + liveBytes s.slots / 4) 64) 0)
    state := .compacting
    compactCursor := 0
    compactSlotCount := s.slots.length } := by
  rw [startCompaction, if_neg]
  rw [hn]
  exact PoolState.noConfusion

lemma normal_of_not_compacting (h : ¬ s.state = .compacting) : s.state = .normal := by
  cases hs : s.state with
  | normal => rfl
  | compacting => exact absurd hs h

lemma startCompaction_slot (hn : s.state = .normal) {sl' : Slot}
    (hi : s.startCompaction.slots[i]? = some sl') :
    ∃ sl : Slot, s.slots[i]? = some sl ∧ sl' = { sl with migrated := false } := by
  rw [startCompaction_of_normal hn, getElem?_map] at hi
  obtain ⟨sl, hsl, rfl⟩ := Option.map_eq_some_iff.1 hi
  exact ⟨sl, hsl, rfl⟩

lemma liveBit_startCompaction (hn : s.state = .normal) {sl' : Slot}
    (hi : s.startCompaction.slots[i]? = some sl') :
    s.startCompaction.liveBit i sl' = s.currentBit := by
  obtain ⟨sl, hsl, rfl⟩ := startCompaction_slot hn hi
  have hlt := (List.getElem?_eq_some_iff.mp hsl).1
  rw [liveBit_of_waiting, startCompaction_of_normal hn]
  · exact Bool.not_not _
  · rw [waiting_iff, startCompaction_of_normal hn]
    exact ⟨rfl, Nat.zero_le _, hlt, rfl⟩

lemma buffers_startCompaction (hn : s.state = .normal) :
    s.startCompaction.buffers.get s.currentBit = s.buffers.get s.currentBit := by
  rw [startCompaction_of_normal hn]
  exact Two.get_set_not _ _ _

lemma Layout.startCompaction (hl : s.Layout) : s.startCompaction.Layout := by
  by_cases hc : s.state = .compacting
  · rw [Shard.startCompaction, if_pos hc]
    exact hl
  have hn := normal_of_not_compacting hc
  have heq := startCompaction_of_normal hn
  refine ⟨?_, ?_, ?_, ?_, ?_, ?_, ?_, ?_, ?_, ?_⟩
  · rw [heq]
    exact hl.id_lt
  · rw [heq]
    exact hl.idx_lt
  · rw [heq]
    simpa using hl.slots_le
  · rw [heq]
    exact fun _ => Nat.zero_le _
  · rw [heq]
    simp
  · rw [heq]
    intro j hj
    obtain ⟨sl, hsl, hd⟩ := hl.free_dead j hj
    exact ⟨{ sl with migrated := false }, by simp [hsl], hd⟩
  · rw [heq]
    exact hl.free_nodup
  · intro j sl' hj hd
    obtain ⟨sl, hsl, rfl⟩ := startCompaction_slot hn hj
    exact hl.alive j sl hsl hd
  · intro b
    by_cases hb : b = s.currentBit
    · rw [hb, buffers_startCompaction hn]
      exact hl.small _
    · rw [heq, Bool.eq_not_of_ne hb, Two.get_set_self, Buffer.data_make]
      norm_num
  · intro j sl' hj hlive
    rw [liveBit_startCompaction hn hj]
    obtain ⟨sl, hsl, rfl⟩ := startCompaction_slot hn hj
    obtain ⟨d, hd⟩ := hl.stored j sl hsl hlive
    rw [liveBit_of_normal hn] at hd
    exact ⟨d, hd.congr rfl rfl (by rw [buffers_startCompaction hn])⟩

/-- The slot under the cursor after it was copied: its new bytes start at the end of the current
buffer. -/
def copied (s : Shard) (sl : Slot) : Slot :=
  { sl with offsets := sl.offsets.set s.currentBit s.cur.data.length }

/-- The shard after the slot under the cursor, holding `d`, was copied.
Source: pool.go shard.migrateBatch, the default case -/
def afterCopy (g : AppendGrowth) (s : Shard) (sl : Slot) (d : Bytes) : Shard :=
  { s with
    compactCursor := s.compactCursor + 1
    slots := s.slots.set s.compactCursor (s.copied sl)
    buffers := s.buffers.set s.currentBit (s.cur.append g d)
    index := Function.update s.index d (some (s.handle s.currentBit s.compactCursor)) }

/-- The shard after a dead slot under the cursor was cleared.
Source: pool.go shard.migrateBatch, the first case -/
def afterClear (s : Shard) (sl : Slot) : Shard :=
  { s with
    compactCursor := s.compactCursor + 1
    slots := s.slots.set s.compactCursor { sl with offsets := ⟨0, 0⟩, length := 0 } }

/-- The shard after a slot under the cursor was passed over.
Source: pool.go shard.migrateBatch, the second case -/
def afterPass (s : Shard) : Shard :=
  { s with compactCursor := s.compactCursor + 1 }

/-- One round of the migration loop: a dead slot is cleared, a slot reused since the start is passed
over, any other slot is copied. -/
lemma migrateSlot_spec (g : AppendGrowth) (hl : s.Layout) (hc : s.state = .compacting)
    (hlt : s.compactCursor < s.compactSlotCount)
    (hroom : ∀ sl, s.slots[s.compactCursor]? = some sl → s.waiting s.compactCursor sl →
      sl.live → s.cur.data.length + sl.length < 2 ^ 32) :
    ∃ sl, s.slots[s.compactCursor]? = some sl ∧
      ((sl.dead ∧ s.migrateSlot g = some (s.afterClear sl, false)) ∨
       (sl.dead = false ∧ sl.migrated ∧ s.migrateSlot g = some (s.afterPass, false)) ∨
       (sl.dead = false ∧ s.waiting s.compactCursor sl ∧
        ∃ d, sl.Holds s.buffers (!s.currentBit) d ∧ s.cur.data.length + d.length < 2 ^ 32 ∧
          s.migrateSlot g = some (s.afterCopy g sl d, true))) := by
  have hcount := hl.count_le hc
  obtain ⟨sl, hsl⟩ : ∃ sl, s.slots[s.compactCursor]? = some sl :=
    ⟨_, getElem?_eq_getElem (by omega)⟩
  refine ⟨sl, hsl, ?_⟩
  have hlive := hl.live_iff hsl
  cases hd : sl.dead with
  | true =>
    left
    have : sl.live = false := by
      rw [hd] at hlive
      simpa using hlive
    simp [migrateSlot, hsl, this, afterClear]
  | false =>
    right
    have hlive : sl.live := hlive.2 hd
    cases hm : sl.migrated with
    | true =>
      left
      simp [migrateSlot, hsl, hlive, hm, afterPass]
    | false =>
      right
      have hw : s.waiting s.compactCursor sl :=
        waiting_iff.2 ⟨hc, Nat.le_refl _, hlt, hm⟩
      obtain ⟨d, hd⟩ := hl.stored _ sl hsl hlive
      rw [liveBit_of_waiting hw] at hd
      have hr : s.cur.data.length + d.length < 2 ^ 32 := hd.1 ▸ hroom sl hsl hw hlive
      refine ⟨rfl, hw, d, hd, hr, ?_⟩
      have hold : s.old.region (sl.offsets.get (!s.currentBit)) sl.length = some d :=
        hd.region_eq (hl.small _)
      have hoff : s.cur.pos % 2 ^ 32 = s.cur.data.length := by
        rw [s.cur.pos_eq]
        exact Nat.mod_eq_of_lt (by omega)
      have hnew : (s.cur.append g d).region s.cur.data.length sl.length = some d := by
        rw [hd.1]
        refine Buffer.region_eq (At.last _ _) ?_
        rw [Buffer.data_append, length_append]
        exact hr
      simp only [migrateSlot, hsl, hlive, hm, hold, hoff, hnew, Bool.not_true,
        Bool.false_eq_true, if_false, bind_some, map_some, Function.update_idem,
        afterCopy, copied]

/-- `s'` is `s` with the cursor moved past its slot, which became `sl'`, and with buffers that may
have grown.
Source: pool.go shard.migrateBatch, any round of its loop -/
structure Advances (s s' : Shard) (sl' : Slot) : Prop where
  id : s'.id = s.id
  idx : s'.idx = s.idx
  bit : s'.currentBit = s.currentBit
  state : s'.state = s.state
  count : s'.compactSlotCount = s.compactSlotCount
  cursor : s'.compactCursor = s.compactCursor + 1
  free : s'.freeSlots = s.freeSlots
  slots : s'.slots = s.slots.set s.compactCursor sl'
  data : ∀ b, ∃ x, (s'.buffers.get b).data = (s.buffers.get b).data ++ x

namespace Advances

variable {sl' : Slot}

section

variable (h : s.Advances s' sl')
include h

lemma liveBit (hne : i ≠ s.compactCursor) :
    s'.liveBit i sl = s.liveBit i sl := by
  have hw : s'.waiting i sl = s.waiting i sl := by
    rw [Bool.eq_iff_iff, waiting_iff, waiting_iff, h.state, h.count, h.cursor]
    constructor
    · exact fun ⟨h₁, h₂, h₃⟩ => ⟨h₁, by omega, h₃⟩
    · exact fun ⟨h₁, h₂, h₃⟩ => ⟨h₁, by omega, h₃⟩
  rw [Shard.liveBit, Shard.liveBit, hw, h.bit]

lemma liveBit_cursor : s'.liveBit s.compactCursor sl = s.currentBit := by
  rw [liveBit_of_not_waiting, h.bit]
  rw [waiting_iff, h.cursor]
  rintro ⟨-, hle, -⟩
  omega

lemma handle (b : Bool) (i : ℕ) : s'.handle b i = s.handle b i := by
  rw [Shard.handle, Shard.handle, h.id, h.idx]

lemma getElem? {sl₀ : Slot} (h₀ : s.slots[s.compactCursor]? = some sl₀) (i : ℕ) :
    s'.slots[i]? = if i = s.compactCursor then some sl' else s.slots[i]? := by
  rw [h.slots]
  split_ifs with hi
  · subst hi
    exact getElem?_set_self (List.getElem?_eq_some_iff.mp h₀).1
  · exact getElem?_set_ne (Ne.symm hi)

lemma holds {b : Bool} {d : Bytes} (hd : sl.Holds s.buffers b d) : sl.Holds s'.buffers b d := by
  obtain ⟨x, hx⟩ := h.data b
  exact hd.mono rfl rfl hx

end

lemma layout (hl : s.Layout) (h : s.Advances s' sl') (hc : s.state = .compacting)
    (hlt : s.compactCursor < s.compactSlotCount) (h₀ : s.slots[s.compactCursor]? = some sl)
    (hdead : sl'.dead = sl.dead) (hrefs : sl'.refCount = sl.refCount)
    (hsmall : ∀ b, (s'.buffers.get b).data.length < 2 ^ 32)
    (hholds : sl.dead = false → ∃ d, sl'.Holds s'.buffers s.currentBit d) : s'.Layout where
  id_lt := h.id ▸ hl.id_lt
  idx_lt := h.idx ▸ hl.idx_lt
  slots_le := by
    rw [h.slots, length_set]
    exact hl.slots_le
  cursor_le := fun _ => by
    rw [h.cursor, h.count]
    exact hlt
  count_le := fun _ => by
    rw [h.count, h.slots, length_set]
    exact hl.count_le hc
  free_dead := by
    intro j hj
    rw [h.free] at hj
    obtain ⟨slj, hslj, hd⟩ := hl.free_dead j hj
    rw [h.getElem? h₀]
    split_ifs with hji
    · subst hji
      obtain rfl : sl = slj := Option.some.inj (h₀.symm.trans hslj)
      exact ⟨sl', rfl, hdead.trans hd⟩
    · exact ⟨slj, hslj, hd⟩
  free_nodup := h.free ▸ hl.free_nodup
  alive := by
    intro j slj hj hd
    rw [h.getElem? h₀] at hj
    split_ifs at hj with hji
    · cases hj
      rw [hrefs]
      exact hl.alive _ sl h₀ (hdead.symm.trans hd)
    · exact hl.alive j slj hj hd
  small := hsmall
  stored := by
    intro j slj hj hlive
    rw [h.getElem? h₀] at hj
    split_ifs at hj with hji
    · cases hj
      rw [hji, h.liveBit_cursor]
      refine hholds ?_
      rw [Slot.live, Bool.and_eq_true, Bool.not_eq_true'] at hlive
      exact hdead.symm.trans hlive.1
    · obtain ⟨d, hd⟩ := hl.stored j slj hj hlive
      rw [h.liveBit hji]
      exact ⟨d, h.holds hd⟩

end Advances

lemma advances_afterClear (s : Shard) (sl : Slot) :
    s.Advances (s.afterClear sl) { sl with offsets := ⟨0, 0⟩, length := 0 } :=
  ⟨rfl, rfl, rfl, rfl, rfl, rfl, rfl, rfl, fun _ => ⟨[], by rw [append_nil]; rfl⟩⟩

lemma advances_afterPass (h₀ : s.slots[s.compactCursor]? = some sl) :
    s.Advances s.afterPass sl := by
  refine ⟨rfl, rfl, rfl, rfl, rfl, rfl, rfl, ?_, fun _ => ⟨[], by rw [append_nil]; rfl⟩⟩
  obtain ⟨hlt, rfl⟩ := List.getElem?_eq_some_iff.mp h₀
  rw [set_getElem_self]
  rfl

lemma advances_afterCopy (g : AppendGrowth) (s : Shard) (sl : Slot) (d : Bytes) :
    s.Advances (s.afterCopy g sl d) (s.copied sl) := by
  refine ⟨rfl, rfl, rfl, rfl, rfl, rfl, rfl, rfl, fun b => ?_⟩
  simp only [afterCopy, Two.get_set]
  split_ifs with hb
  · exact ⟨d, by rw [Buffer.data_append, hb, cur]⟩
  · exact ⟨[], (append_nil _).symm⟩

lemma holds_copied (g : AppendGrowth) (hd : sl.Holds s.buffers (!s.currentBit) d) :
    (s.copied sl).Holds (s.afterCopy g sl d).buffers s.currentBit d := by
  refine ⟨hd.1, ?_⟩
  simp only [afterCopy, copied, Two.get_set_self, Buffer.data_append]
  exact At.last _ _

lemma holds_copied_old (g : AppendGrowth) (hd : sl.Holds s.buffers (!s.currentBit) d) :
    (s.copied sl).Holds (s.afterCopy g sl d).buffers (!s.currentBit) d := by
  refine hd.congr rfl ?_ ?_
  · simp only [copied, Two.get_not_set]
  · simp only [afterCopy, Two.get_not_set]

lemma small_afterCopy (g : AppendGrowth) (hl : s.Layout)
    (hroom : s.cur.data.length + d.length < 2 ^ 32) (b : Bool) :
    ((s.afterCopy g sl d).buffers.get b).data.length < 2 ^ 32 := by
  simp only [afterCopy, Two.get_set]
  split_ifs with hb
  · rw [Buffer.data_append, length_append]
    exact hroom
  · exact hl.small b

/-- The bytes that a batch of at most `batch` copies copies, walking over `slots`.
Source: pool.go shard.migrateBatch -/
def batchBytes : List Slot → ℕ → ℕ
  | [], _ => 0
  | _ :: _, 0 => 0
  | sl :: rest, batch + 1 =>
    if sl.live && !sl.migrated then sl.length + batchBytes rest batch
    else batchBytes rest (batch + 1)

/-- The slots that the migration has yet to reach.
Source: pool.go shard.migrateBatch, compactCursor up to compactSlotCount -/
def pending (s : Shard) : List Slot := (s.slots.take s.compactSlotCount).drop s.compactCursor

lemma pending_eq_cons (h₀ : s.slots[s.compactCursor]? = some sl)
    (hlt : s.compactCursor < s.compactSlotCount) :
    s.pending = sl :: (s.slots.take s.compactSlotCount).drop (s.compactCursor + 1) := by
  have hget : (s.slots.take s.compactSlotCount)[s.compactCursor]? = some sl := by
    rw [getElem?_take_of_lt hlt, h₀]
  obtain ⟨hlen, rfl⟩ := List.getElem?_eq_some_iff.mp hget
  exact drop_eq_getElem_cons hlen

lemma Advances.pending {sl' : Slot} (ha : s.Advances s' sl') :
    s'.pending = (s.slots.take s.compactSlotCount).drop (s.compactCursor + 1) := by
  rw [Shard.pending, ha.slots, ha.count, ha.cursor, take_set, drop_set, if_pos (Nat.lt_succ_self _)]

lemma migrateLoop_total (g : AppendGrowth) {P : Shard → Prop}
    (hlayout : ∀ s, P s → s.Layout ∧ s.state = .compacting)
    (hclear : ∀ s sl, P s → s.compactCursor < s.compactSlotCount →
      s.slots[s.compactCursor]? = some sl → sl.dead → P (s.afterClear sl))
    (hpass : ∀ s sl, P s → s.compactCursor < s.compactSlotCount →
      s.slots[s.compactCursor]? = some sl → sl.dead = false → sl.migrated → P s.afterPass)
    (hcopy : ∀ s sl d, P s → s.compactCursor < s.compactSlotCount →
      s.slots[s.compactCursor]? = some sl → sl.dead = false →
      s.waiting s.compactCursor sl → sl.Holds s.buffers (!s.currentBit) d →
      s.cur.data.length + d.length < 2 ^ 32 → P (s.afterCopy g sl d)) :
    ∀ fuel batch s, P s → fuel = s.compactSlotCount - s.compactCursor →
      s.cur.data.length + batchBytes s.pending batch < 2 ^ 32 →
      ∃ s', migrateLoop g fuel batch s = some s' ∧ P s' := by
  intro fuel
  induction fuel with
  | zero => exact fun batch s hP _ _ => ⟨s, rfl, hP⟩
  | succ fuel ih =>
    intro batch s hP hfuel hroom
    cases batch with
    | zero => exact ⟨s, rfl, hP⟩
    | succ batch =>
      obtain ⟨hl, hc⟩ := hlayout s hP
      have hlt : s.compactCursor < s.compactSlotCount := by omega
      obtain ⟨sl₀, h₀⟩ : ∃ sl, s.slots[s.compactCursor]? = some sl :=
        ⟨_, getElem?_eq_getElem (by have := hl.count_le hc; omega)⟩
      rw [pending_eq_cons h₀ hlt, batchBytes] at hroom
      obtain ⟨sl, hsl, hcase⟩ := migrateSlot_spec g hl hc hlt (by
        intro sl hsl hw hlive
        obtain rfl : sl₀ = sl := Option.some.inj (h₀.symm.trans hsl)
        rw [(waiting_iff.1 hw).2.2.2, hlive, Bool.not_false, Bool.and_self, if_pos rfl] at hroom
        omega)
      obtain rfl : sl₀ = sl := Option.some.inj (h₀.symm.trans hsl)
      have hlive := hl.live_iff hsl
      rcases hcase with ⟨hd, hstep⟩ | ⟨hd, hm, hstep⟩ | ⟨hd, hw, d, hholds, hr, hstep⟩
      · have ha := advances_afterClear s sl₀
        rw [hd, Bool.true_eq_false, iff_false, Bool.not_eq_true] at hlive
        rw [hlive, Bool.false_and, if_neg Bool.false_ne_true, ← ha.pending] at hroom
        obtain ⟨s', hs', hP'⟩ := ih (batch + 1) _ (hclear s sl₀ hP hlt hsl hd)
          (by rw [ha.cursor, ha.count]; omega) hroom
        exact ⟨s', by rw [migrateLoop, hstep, bind_some]; exact hs', hP'⟩
      · have ha := advances_afterPass hsl
        rw [hm, Bool.not_true, Bool.and_false, if_neg Bool.false_ne_true, ← ha.pending] at hroom
        obtain ⟨s', hs', hP'⟩ := ih (batch + 1) _ (hpass s sl₀ hP hlt hsl hd hm)
          (by rw [ha.cursor, ha.count]; omega) hroom
        exact ⟨s', by rw [migrateLoop, hstep, bind_some]; exact hs', hP'⟩
      · have ha := advances_afterCopy g s sl₀ d
        rw [(waiting_iff.1 hw).2.2.2, hlive.2 hd, Bool.not_false, Bool.and_self, if_pos rfl,
          ← ha.pending, hholds.1] at hroom
        have hlen : (s.afterCopy g sl₀ d).cur.data.length = s.cur.data.length + d.length := by
          simp only [afterCopy, cur, Two.get_set_self, Buffer.data_append, length_append]
        obtain ⟨s', hs', hP'⟩ := ih batch _ (hcopy s sl₀ d hP hlt hsl hd hw hholds hr)
          (by rw [ha.cursor, ha.count]; omega) (by rw [hlen]; omega)
        exact ⟨s', by rw [migrateLoop, hstep, bind_some]; exact hs', hP'⟩

lemma Layout.finish (hl : s.Layout)
    (hnone : ∀ (i : ℕ) (sl : Slot), s.slots[i]? = some sl → sl.live →
      ¬ s.waiting i sl) : s.finishCompaction.Layout where
  id_lt := hl.id_lt
  idx_lt := hl.idx_lt
  slots_le := hl.slots_le
  cursor_le := PoolState.noConfusion
  count_le := PoolState.noConfusion
  free_dead := hl.free_dead
  free_nodup := hl.free_nodup
  alive := hl.alive
  small := by
    intro b
    simp only [finishCompaction, Two.get_set]
    split_ifs
    · norm_num
    · exact hl.small b
  stored := by
    intro j sl hj hlive
    obtain ⟨d, hd⟩ := hl.stored j sl hj hlive
    rw [liveBit_of_not_waiting (hnone j sl hj hlive)] at hd
    rw [liveBit_of_normal rfl]
    exact ⟨d, hd.congr rfl rfl (by simp only [finishCompaction, Two.get_set_not])⟩

/-! ## Stop-the-world compaction -/

/-- `sl'` is `sl` after `compact` with the new buffer `newBuf`: the counters and marks are kept, and
a live slot holds in `newBuf` what it held in `buf`.
Source: pool.go compact, the copying loop -/
structure Compacts (b : Bool) (buf newBuf : Buffer) (sl sl' : Slot) : Prop where
  refCount : sl'.refCount = sl.refCount
  dead : sl'.dead = sl.dead
  migrated : sl'.migrated = sl.migrated
  length : sl.live = true → sl'.length = sl.length
  moved : sl.live = true → ∀ d : Bytes, sl.length = d.length → At buf.data (sl.offsets.get b) d →
    At newBuf.data (sl'.offsets.get b) d

lemma liveBytes_cons (sl : Slot) (rest : List Slot) :
    liveBytes (sl :: rest) = (if sl.live then sl.length else 0) + liveBytes rest := by
  rw [liveBytes, map_cons, sum_cons, ← liveBytes]

lemma compactLoop_spec (g : AppendGrowth) {buf : Buffer} (hbuf : buf.data.length < 2 ^ 32) :
    (slots : List Slot) → ∀ newBuf : Buffer, newBuf.data.length + liveBytes slots < 2 ^ 32 →
      (∀ sl ∈ slots, sl.live → ∃ d : Bytes, sl.length = d.length ∧
        At buf.data (sl.offsets.get b) d) →
      ∃ slots' newBuf', compactLoop g b buf slots newBuf = some (slots', newBuf') ∧
        slots'.length = slots.length ∧ newBuf'.refCount = newBuf.refCount ∧
        (∃ x, newBuf'.data = newBuf.data ++ x) ∧ newBuf'.data.length < 2 ^ 32 ∧
        ∀ (i : ℕ) (sl' : Slot), slots'[i]? = some sl' →
          ∃ sl : Slot, slots[i]? = some sl ∧ Compacts b buf newBuf' sl sl'
  | [], newBuf, hroom, _ => by
      refine ⟨[], newBuf, rfl, rfl, rfl, ⟨[], (append_nil _).symm⟩, by omega, ?_⟩
      intro i sl' hi
      cases hi
  | sl :: rest, newBuf, hroom, hstored => by
      rw [liveBytes_cons] at hroom
      by_cases hlive : sl.live
      · obtain ⟨d, hlen, hat⟩ := hstored sl mem_cons_self hlive
        rw [if_pos hlive] at hroom
        obtain ⟨slots', newBuf', hloop, hl', hrefs, ⟨x, hx⟩, hsmall, hget⟩ :=
          compactLoop_spec g hbuf rest (newBuf.append g d)
            (by rw [Buffer.data_append, length_append]; omega)
            fun sl' hmem => hstored sl' (mem_cons_of_mem _ hmem)
        have hoff : newBuf.pos % 2 ^ 32 = newBuf.data.length := by
          rw [newBuf.pos_eq]
          exact Nat.mod_eq_of_lt (by omega)
        have hregion : buf.region (sl.offsets.get b) sl.length = some d := by
          rw [hlen]
          exact Buffer.region_eq hat hbuf
        refine ⟨{ sl with offsets := sl.offsets.set b newBuf.data.length } :: slots', newBuf', ?_,
          by rw [length_cons, length_cons, hl'], hrefs,
          ⟨d ++ x, by rw [hx, Buffer.data_append, append_assoc]⟩, hsmall, ?_⟩
        · rw [compactLoop, if_pos hlive, hregion, bind_some, hloop, map_some, hoff]
        · intro i sl' hi
          cases i with
          | zero =>
            cases hi
            refine ⟨sl, rfl, rfl, rfl, rfl, fun _ => rfl, fun _ e he hate => ?_⟩
            obtain rfl : d = e := hat.unique hate (hlen.symm.trans he)
            simp only [Two.get_set_self, hx, Buffer.data_append]
            exact (At.last _ _).append x
          | succ i => exact hget i sl' hi
      · rw [if_neg hlive] at hroom
        obtain ⟨slots', newBuf', hloop, hl', hrefs, hx, hsmall, hget⟩ :=
          compactLoop_spec g hbuf rest newBuf (by omega)
            fun sl' hmem => hstored sl' (mem_cons_of_mem _ hmem)
        refine ⟨{ sl with offsets := sl.offsets.set b 0, length := 0 } :: slots', newBuf', ?_,
          by rw [length_cons, length_cons, hl'], hrefs, hx, hsmall, ?_⟩
        · rw [compactLoop, if_neg hlive, hloop, map_some]
        · intro i sl' hi
          cases i with
          | zero =>
            cases hi
            exact ⟨sl, rfl, rfl, rfl, rfl, fun h => absurd h hlive, fun h => absurd h hlive⟩
          | succ i => exact hget i sl' hi

/-- What `compact` does to a shard that is not compacting and has a freed slot: slots `slots'`,
current buffer `newBuf`, index `ix`.
Source: pool.go compact -/
structure Compacted (s : Shard) (slots' : List Slot) (newBuf : Buffer) (ix : Index) : Prop where
  length : slots'.length = s.slots.length
  refCount : newBuf.refCount = s.cur.refCount
  small : newBuf.data.length < 2 ^ 32
  slots : ∀ (i : ℕ) (sl' : Slot), slots'[i]? = some sl' →
    ∃ sl : Slot, s.slots[i]? = some sl ∧ Compacts s.currentBit s.cur newBuf sl sl'
  index : ∀ k h, ix k = some h → ∃ (i : ℕ) (sl' : Slot), slots'[i]? = some sl' ∧
    sl'.live = true ∧ sl'.Holds (s.buffers.set s.currentBit newBuf) s.currentBit k ∧
    h = s.handle s.currentBit i

lemma Compacts.live_eq {buf : Buffer} {sl sl' : Slot}
    (h : Compacts b buf newBuf sl sl') : sl'.live = sl.live := by
  rw [Slot.live, Slot.live, h.dead, h.refCount]

lemma Compacts.holds {sl sl' : Slot}
    (h : Compacts s.currentBit s.cur newBuf sl sl') (hlive : sl.live)
    (hd : sl.Holds s.buffers s.currentBit d) :
    sl'.Holds (s.buffers.set s.currentBit newBuf) s.currentBit d := by
  refine ⟨(h.length hlive).trans hd.1, ?_⟩
  rw [Two.get_set_self]
  exact h.moved hlive d hd.1 hd.2

lemma Compacted.layout (hl : s.Layout) (hn : s.state = .normal) {slots' : List Slot}
    {ix ix' : Index} (h : s.Compacted slots' newBuf ix) :
    ({ s with slots := slots', buffers := s.buffers.set s.currentBit newBuf, index := ix' } :
      Shard).Layout where
  id_lt := hl.id_lt
  idx_lt := hl.idx_lt
  slots_le := h.length ▸ hl.slots_le
  cursor_le := hl.cursor_le
  count_le := h.length ▸ hl.count_le
  free_dead := by
    intro j hj
    obtain ⟨sl, hsl, hd⟩ := hl.free_dead j hj
    have hlt : j < slots'.length := by
      rw [h.length]
      exact (List.getElem?_eq_some_iff.mp hsl).1
    obtain ⟨sl₀, h₀, hc⟩ := h.slots j slots'[j] (getElem?_eq_getElem hlt)
    obtain rfl : sl₀ = sl := Option.some.inj (h₀.symm.trans hsl)
    exact ⟨_, getElem?_eq_getElem hlt, hc.dead.trans hd⟩
  free_nodup := hl.free_nodup
  alive := by
    intro j sl' hj hd
    obtain ⟨sl, hsl, hc⟩ := h.slots j sl' hj
    rw [hc.refCount]
    exact hl.alive j sl hsl (hc.dead.symm.trans hd)
  small := by
    intro b
    simp only [Two.get_set]
    split_ifs
    · exact h.small
    · exact hl.small b
  stored := by
    intro j sl' hj hlive
    obtain ⟨sl, hsl, hc⟩ := h.slots j sl' hj
    have hlive' : sl.live := hc.live_eq ▸ hlive
    obtain ⟨d, hd⟩ := hl.stored j sl hsl hlive'
    rw [liveBit_of_normal hn] at hd
    exact ⟨d, by rw [liveBit_of_normal (by exact hn)]; exact hc.holds hlive' hd⟩

lemma compact_spec (g : AppendGrowth) (hl : s.Layout) (hn : s.state = .normal)
    (hfree : s.freeSlots ≠ []) (hroom : liveBytes s.slots < 2 ^ 32) :
    ∃ slots' newBuf ix, s.compact g = some { s with
        slots := slots', buffers := s.buffers.set s.currentBit newBuf, index := ix } ∧
      s.Compacted slots' newBuf ix ∧
      ∀ (i : ℕ) (sl' : Slot) (d : Bytes), slots'[i]? = some sl' → sl'.live →
        sl'.Holds (s.buffers.set s.currentBit newBuf) s.currentBit d → ix d ≠ none := by
  have hstored : ∀ sl ∈ s.slots, sl.live → ∃ d : Bytes, sl.length = d.length ∧
      At s.cur.data (sl.offsets.get s.currentBit) d := by
    intro sl hmem hlive
    obtain ⟨j, hj⟩ := getElem?_of_mem hmem
    obtain ⟨d, hd⟩ := hl.stored j sl hj hlive
    rw [liveBit_of_normal hn] at hd
    exact ⟨d, hd.1, hd.2⟩
  obtain ⟨slots', newBuf, hloop, hlen, hrefs, -, hsmall, hslots⟩ :=
    compactLoop_spec g (hl.small s.currentBit) s.slots
      (Buffer.make (liveBytes s.slots + liveBytes s.slots / 4) s.cur.refCount)
      (by rw [Buffer.data_make, length_nil]; omega) hstored
  -- the index is rebuilt on the shard with the moved slots
  have hc : s.Compacted slots' newBuf (fun _ => none) :=
    ⟨hlen, hrefs, hsmall, hslots, fun k h hk => by cases hk⟩
  set s₁ : Shard := { s with slots := slots', buffers := s.buffers.set s.currentBit newBuf }
  have hl₁ : s₁.Layout := hc.layout hl hn
  obtain ⟨ix, hix, hr⟩ := rebuildLoop_spec (hl₁.small _) s₁.slots 0 s₁.preserved
    (fun j sl hj hlive hskip => hl₁.stored_cur hj hlive (by rwa [Nat.zero_add] at hskip))
  have hn₁ : s₁.state ≠ .compacting := by
    rw [show s₁.state = s.state from rfl, hn]
    exact PoolState.noConfusion
  refine ⟨slots', newBuf, ix, ?_, ⟨hlen, hrefs, hsmall, hslots, ?_⟩, ?_⟩
  · have hn' : ¬ s.state = .compacting := by
      rw [hn]
      exact PoolState.noConfusion
    rw [compact, if_neg hn', if_neg hfree,
      show compactLoop g s.currentBit s.cur s.slots _ = _ from hloop, bind_some]
    change s₁.rebuildIndex = _
    rw [rebuildIndex, hix, map_some]
  · intro k h hk
    rcases hr k with ⟨j, sl', hj, hf, hk'⟩ | ⟨-, hk'⟩
    · rw [Nat.zero_add] at hk'
      exact ⟨j, sl', hj, hf.1, hf.2.2, Option.some.inj (hk.symm.trans hk')⟩
    · rw [hk, preserved, if_neg hn₁] at hk'
      cases hk'
  · intro i sl' d hi hlive hd hnone
    rcases hr d with ⟨j, sl₂, hj, hf, hk'⟩ | ⟨hfiles, -⟩
    · rw [hk'] at hnone
      cases hnone
    · refine hfiles i sl' hi ⟨hlive, ?_, hd⟩
      rw [skipped, decide_eq_false hn₁, Bool.false_and, Bool.false_and]

end Shard

end Ze.AttrPool
