import Ze.AttrPool.Shard

/-!
# Where a shard keeps its bytes

`liveBit` says in which of the two buffers a live slot has its bytes: the old one for a slot that an
ongoing compaction has yet to reach, the current one otherwise. `Slot.Holds bufs b d` says that the
slot, read through buffer `b`, is the string `d`. `Layout` is the part of a shard's invariant that
says only this.
-/

namespace Ze.AttrPool

open Ze.Lib List
open Function (update)

/-! ## Slices of a buffer -/

lemma Buffer.region_eq {buf : Buffer} {off : ℕ} {d : Bytes} (h : At buf.data off d)
    (hsmall : buf.data.length < 2 ^ 32) : buf.region off d.length = some d := by
  have hle := h.le_length
  have hcap := buf.le_cap
  have hmod : (off + d.length) % 2 ^ 32 = off + d.length := Nat.mod_eq_of_lt (by omega)
  rw [Buffer.region, Buffer.slice, hmod, if_pos ⟨by omega, by omega⟩, Nat.add_sub_cancel_left,
    h.take_drop_append]

@[simp] lemma Buffer.data_append (g : AppendGrowth) (buf : Buffer) (x : Bytes) :
    (buf.append g x).data = buf.data ++ x := rfl

@[simp] lemma Buffer.refCount_append (g : AppendGrowth) (buf : Buffer) (x : Bytes) :
    (buf.append g x).refCount = buf.refCount := rfl

@[simp] lemma Buffer.data_make (c : ℕ) (r : ℤ) : (Buffer.make c r).data = [] := rfl

@[simp] lemma Buffer.refCount_make (c : ℕ) (r : ℤ) : (Buffer.make c r).refCount = r := rfl

@[simp] lemma Buffer.data_addRefs (buf : Buffer) (δ : ℤ) : (buf.addRefs δ).data = buf.data := rfl

@[simp] lemma Buffer.refCount_addRefs (buf : Buffer) (δ : ℤ) :
    (buf.addRefs δ).refCount = int32 (buf.refCount + δ) := rfl

/-! ## What a slot holds -/

/-- The slot, read through buffer `b`, is the string `d`. -/
def Slot.Holds (sl : Slot) (bufs : Two Buffer) (b : Bool) (d : Bytes) : Prop :=
  sl.length = d.length ∧ At (bufs.get b).data (sl.offsets.get b) d

namespace Slot.Holds

variable {sl sl' : Slot} {bufs bufs' : Two Buffer} {b : Bool} {d e : Bytes}

lemma unique (h : sl.Holds bufs b d) (h' : sl.Holds bufs b e) : d = e :=
  h.2.unique h'.2 (h.1.symm.trans h'.1)

lemma mono (h : sl.Holds bufs b d) (hlen : sl'.length = sl.length)
    (hoff : sl'.offsets.get b = sl.offsets.get b) {x : Bytes}
    (hdata : (bufs'.get b).data = (bufs.get b).data ++ x) : sl'.Holds bufs' b d := by
  refine ⟨hlen.trans h.1, ?_⟩
  rw [hoff, hdata]
  exact h.2.append x

lemma congr (h : sl.Holds bufs b d) (hlen : sl'.length = sl.length)
    (hoff : sl'.offsets.get b = sl.offsets.get b)
    (hdata : (bufs'.get b).data = (bufs.get b).data) : sl'.Holds bufs' b d :=
  h.mono hlen hoff (x := []) (by rw [hdata, append_nil])

lemma region_eq (h : sl.Holds bufs b d) (hsmall : (bufs.get b).data.length < 2 ^ 32) :
    (bufs.get b).region (sl.offsets.get b) sl.length = some d := by
  rw [h.1]
  exact Buffer.region_eq h.2 hsmall

end Slot.Holds

namespace Shard

variable {s : Shard} {i : ℕ} {sl : Slot}

/-- The slot's bytes are still only in the old buffer: an ongoing compaction has yet to reach it and
it was not reused since.
Source: pool.go getBySlot, "Determine correct buffer", for a slot that existed when the
compaction started -/
def waiting (s : Shard) (i : ℕ) (sl : Slot) : Bool :=
  decide (s.state = .compacting) && decide (s.compactCursor ≤ i) && decide (i < s.compactSlotCount)
    && !sl.migrated

/-- The buffer a live slot's bytes are in.
Source: pool.go getBySlot, "Determine correct buffer" -/
def liveBit (s : Shard) (i : ℕ) (sl : Slot) : Bool :=
  if s.waiting i sl then !s.currentBit else s.currentBit

lemma waiting_iff : s.waiting i sl ↔ s.state = .compacting ∧ s.compactCursor ≤ i ∧
    i < s.compactSlotCount ∧ sl.migrated = false := by
  simp only [waiting, Bool.and_eq_true, decide_eq_true_eq, Bool.not_eq_true', and_assoc]

lemma liveBit_of_waiting (h : s.waiting i sl) : s.liveBit i sl = !s.currentBit := by
  rw [liveBit, if_pos h]

lemma liveBit_of_not_waiting (h : ¬ s.waiting i sl) : s.liveBit i sl = s.currentBit := by
  rw [liveBit, if_neg h]

lemma not_waiting_of_normal (h : s.state = .normal) : ¬ s.waiting i sl := by
  rw [waiting_iff, h]
  rintro ⟨h, -⟩
  cases h

lemma liveBit_of_normal (h : s.state = .normal) : s.liveBit i sl = s.currentBit :=
  liveBit_of_not_waiting (not_waiting_of_normal h)

lemma liveBit_congr {s' : Shard} {sl' : Slot} (hbit : s'.currentBit = s.currentBit)
    (hstate : s'.state = s.state) (hcur : s'.compactCursor = s.compactCursor)
    (hcount : s'.compactSlotCount = s.compactSlotCount) (hm : sl'.migrated = sl.migrated) :
    s'.liveBit i sl' = s.liveBit i sl := by
  unfold liveBit waiting
  rw [hbit, hstate, hcur, hcount, hm]

lemma not_waiting_of_not_skipped (h : s.skipped i sl = false) : ¬ s.waiting i sl := by
  rw [waiting_iff]
  rintro ⟨hs, hc, -, hm⟩
  simp [skipped, hs, hc, hm] at h

/-- Where a shard keeps its bytes, and that its bookkeeping is in range. -/
structure Layout (s : Shard) : Prop where
  id_lt : s.id < 16
  idx_lt : s.idx < 31
  slots_le : s.slots.length ≤ 2 ^ 22
  cursor_le : s.state = .compacting → s.compactCursor ≤ s.compactSlotCount
  count_le : s.state = .compacting → s.compactSlotCount ≤ s.slots.length
  free_dead : ∀ i ∈ s.freeSlots, ∃ sl : Slot, s.slots[i]? = some sl ∧ sl.dead = true
  free_nodup : s.freeSlots.Nodup
  alive : ∀ (i : ℕ) (sl : Slot), s.slots[i]? = some sl → sl.dead = false → 0 < sl.refCount
  small : ∀ b, (s.buffers.get b).data.length < 2 ^ 32
  stored : ∀ (i : ℕ) (sl : Slot), s.slots[i]? = some sl → sl.live = true →
    ∃ d, sl.Holds s.buffers (s.liveBit i sl) d

lemma Layout.slot_lt (hl : s.Layout) (hi : s.slots[i]? = some sl) : i < 2 ^ 22 := by
  have h := (List.getElem?_eq_some_iff.mp hi).1
  have := hl.slots_le
  omega

lemma Layout.live_iff (hl : s.Layout) (hi : s.slots[i]? = some sl) : sl.live ↔ sl.dead = false := by
  rw [Slot.live, Bool.and_eq_true, Bool.not_eq_true', decide_eq_true_eq]
  exact ⟨fun h => h.1, fun h => ⟨h, hl.alive i sl hi h⟩⟩

/-! ## Handles of a shard -/

@[simp] lemma bufferBit_handle (s : Shard) (b : Bool) (i : ℕ) : (s.handle b i).bufferBit = b :=
  bufferBit_newHandleWithBuffer _ _ _

lemma shardSlot_handle (s : Shard) (b : Bool) (hi : i < 2 ^ 22) : (s.handle b i).shardSlot = i :=
  shardSlot_newHandleWithBuffer _ _ _ hi

lemma shardID_handle (hid : s.id < 16) (b : Bool) (i : ℕ) : (s.handle b i).shardID = s.id :=
  shardID_newHandleWithBuffer _ _ _ hid

lemma poolIdx_handle (hidx : s.idx < 31) (b : Bool) (i : ℕ) : (s.handle b i).poolIdx = s.idx :=
  poolIdx_newHandleWithBuffer _ _ (by omega)

/-! ## Rebuilding the index -/

/-- `rebuildIndex` files slot `i` under `k`: the slot is live, not skipped, and `k` is what it holds
in the current buffer.
Source: pool.go rebuildIndex, "Rebuild entries for current buffer" -/
def Files (s : Shard) (i : ℕ) (sl : Slot) (k : Bytes) : Prop :=
  sl.live = true ∧ s.skipped i sl = false ∧ sl.Holds s.buffers s.currentBit k

/-- The index a rebuild makes of `base`: under each key, a slot filed there if there is one, and the
entry of `base` otherwise.
Source: pool.go rebuildIndex -/
def Rebuilt (s : Shard) (n : ℕ) (slots : List Slot) (base ix : Index) : Prop :=
  ∀ k, (∃ (j : ℕ) (sl : Slot), slots[j]? = some sl ∧ s.Files (n + j) sl k ∧
      ix k = some (s.handle s.currentBit (n + j))) ∨
    ((∀ (j : ℕ) (sl : Slot), slots[j]? = some sl → ¬ s.Files (n + j) sl k) ∧ ix k = base k)

variable {n : ℕ} {rest : List Slot} {base ix : Index}

lemma Rebuilt.cons_of_not
    (hno : ∀ k, ¬ s.Files n sl k) (h : s.Rebuilt (n + 1) rest base ix) :
    s.Rebuilt n (sl :: rest) base ix := by
  intro k
  rcases h k with ⟨j, sl', hj, hf, hix⟩ | ⟨hnone, hix⟩
  · refine .inl ⟨j + 1, sl', by simpa using hj, ?_⟩
    rw [show n + (j + 1) = n + 1 + j by omega]
    exact ⟨hf, hix⟩
  · refine .inr ⟨?_, hix⟩
    intro j sl' hj
    cases j with
    | zero =>
      obtain rfl : sl = sl' := by simpa using hj
      exact hno k
    | succ j =>
      rw [show n + (j + 1) = n + 1 + j by omega]
      exact hnone j sl' (by simpa using hj)

lemma Rebuilt.cons_of_files {d : Bytes} (hd : s.Files n sl d)
    (h : s.Rebuilt (n + 1) rest (update base d (some (s.handle s.currentBit n))) ix) :
    s.Rebuilt n (sl :: rest) base ix := by
  intro k
  rcases h k with ⟨j, sl', hj, hf, hix⟩ | ⟨hnone, hix⟩
  · refine .inl ⟨j + 1, sl', by simpa using hj, ?_⟩
    rw [show n + (j + 1) = n + 1 + j by omega]
    exact ⟨hf, hix⟩
  · by_cases hk : k = d
    · subst hk
      rw [Function.update_self] at hix
      exact .inl ⟨0, sl, rfl, hd, hix⟩
    · rw [Function.update_of_ne hk] at hix
      refine .inr ⟨?_, hix⟩
      intro j sl' hj
      cases j with
      | zero =>
        obtain rfl : sl = sl' := by simpa using hj
        exact fun hf => hk (hf.2.2.unique hd.2.2)
      | succ j =>
        rw [show n + (j + 1) = n + 1 + j by omega]
        exact hnone j sl' (by simpa using hj)

lemma rebuildLoop_spec (hsmall : s.cur.data.length < 2 ^ 32) :
    (slots : List Slot) → ∀ (n : ℕ) (base : Index),
      (∀ (j : ℕ) (sl : Slot), slots[j]? = some sl → sl.live → s.skipped (n + j) sl = false →
        ∃ d, sl.Holds s.buffers s.currentBit d) →
      ∃ ix, s.rebuildLoop n slots base = some ix ∧ s.Rebuilt n slots base ix
  | [], n, base, _ => ⟨base, rfl, fun k => .inr ⟨by simp, rfl⟩⟩
  | sl :: rest, n, base, hstored => by
      have hrest : ∀ (j : ℕ) (sl' : Slot), rest[j]? = some sl' → sl'.live →
          s.skipped (n + 1 + j) sl' = false → ∃ d, sl'.Holds s.buffers s.currentBit d := by
        intro j sl' hj hlive hskip
        refine hstored (j + 1) sl' (by simpa using hj) hlive ?_
        rw [show n + (j + 1) = n + 1 + j by omega]
        exact hskip
      by_cases hc : (sl.live && !s.skipped n sl)
      · have hc' := hc
        rw [Bool.and_eq_true, Bool.not_eq_true'] at hc'
        obtain ⟨d, hd⟩ := hstored 0 sl rfl hc'.1 hc'.2
        obtain ⟨ix, hix, hr⟩ := rebuildLoop_spec hsmall rest (n + 1)
          (update base d (some (s.handle s.currentBit n))) hrest
        refine ⟨ix, ?_, Rebuilt.cons_of_files ⟨hc'.1, hc'.2, hd⟩ hr⟩
        rw [rebuildLoop, if_pos hc, cur, hd.region_eq hsmall, Option.bind_some, hix]
      · obtain ⟨ix, hix, hr⟩ := rebuildLoop_spec hsmall rest (n + 1) base hrest
        refine ⟨ix, ?_, Rebuilt.cons_of_not ?_ hr⟩
        · rw [rebuildLoop, if_neg hc, hix]
        · rintro k ⟨hlive, hskip, -⟩
          simp [hlive, hskip] at hc

lemma Layout.stored_cur (hl : s.Layout) (hi : s.slots[i]? = some sl) (hlive : sl.live)
    (hskip : s.skipped i sl = false) : ∃ d, sl.Holds s.buffers s.currentBit d := by
  obtain ⟨d, hd⟩ := hl.stored i sl hi hlive
  rw [liveBit_of_not_waiting (not_waiting_of_not_skipped hskip)] at hd
  exact ⟨d, hd⟩

/-- The index after the buffer was grown to hold `needed` more bytes: as it was if there was room,
rebuilt otherwise.
Source: pool.go ensureCapacity -/
def Grown (s : Shard) (needed : ℕ) (ix : Index) : Prop :=
  (s.cur.pos + needed ≤ s.cur.cap ∧ ix = s.index) ∨
    (¬ s.cur.pos + needed ≤ s.cur.cap ∧ s.Rebuilt 0 s.slots s.preserved ix)

lemma ensureCapacity_spec (hl : s.Layout) (needed : ℕ) :
    ∃ buf ix, s.ensureCapacity needed =
        some { s with buffers := s.buffers.set s.currentBit buf, index := ix } ∧
      buf.data = s.cur.data ∧ buf.refCount = s.cur.refCount ∧ s.Grown needed ix := by
  by_cases hroom : s.cur.pos + needed ≤ s.cur.cap
  · refine ⟨s.cur, s.index, ?_, rfl, rfl, .inl ⟨hroom, rfl⟩⟩
    rw [ensureCapacity, if_pos hroom, cur, Two.set_get]
  · set buf := s.cur.realloc (s.cur.pos + needed) with hbuf
    -- the rebuild runs on the shard with the reallocated buffer, which holds the same bytes
    have hdata : ∀ b, ((s.buffers.set s.currentBit buf).get b).data = (s.buffers.get b).data := by
      intro b
      rw [Two.get_set]
      split_ifs with h
      · subst h
        rfl
      · rfl
    have hholds : ∀ (sl : Slot) k, sl.Holds (s.buffers.set s.currentBit buf) s.currentBit k ↔
        sl.Holds s.buffers s.currentBit k := by
      intro sl k
      rw [Slot.Holds, Slot.Holds, hdata]
    have hsmall : (s.setBuffer s.currentBit buf).cur.data.length < 2 ^ 32 := by
      have := hl.small s.currentBit
      rw [cur, setBuffer]
      simpa only [hdata] using this
    obtain ⟨ix, hix, hr⟩ := rebuildLoop_spec hsmall s.slots 0 s.preserved (by
      intro j sl hj hlive hskip
      rw [Nat.zero_add] at hskip
      obtain ⟨d, hd⟩ := hl.stored_cur hj hlive hskip
      exact ⟨d, (hholds sl d).2 hd⟩)
    refine ⟨buf, ix, ?_, rfl, rfl, .inr ⟨hroom, ?_⟩⟩
    · rw [ensureCapacity, if_neg hroom, rebuildIndex]
      change Option.map _ ((s.setBuffer s.currentBit buf).rebuildLoop 0 s.slots s.preserved) = _
      rw [hix]
      rfl
    · have hfiles : ∀ i sl k, (s.setBuffer s.currentBit buf).Files i sl k ↔ s.Files i sl k :=
        fun i sl k => and_congr Iff.rfl (and_congr Iff.rfl (hholds sl k))
      intro k
      rcases hr k with ⟨j, sl, hj, hf, hk⟩ | ⟨hnone, hk⟩
      · exact .inl ⟨j, sl, hj, (hfiles _ _ _).1 hf, hk⟩
      · exact .inr ⟨fun j sl hj hf => hnone j sl hj ((hfiles _ _ _).2 hf), hk⟩

/-! ## Placing new bytes -/

/-- Slot `i`, which was the last one freed or not there yet, becomes the live slot `sl'` with one
reference, and no other slot changes.
Source: pool.go intern, "Allocate or reuse slot" -/
structure Taken (s : Shard) (slots' : List Slot) (free' : List ℕ) (i : ℕ) (sl' : Slot) : Prop where
  slot : slots'[i]? = some sl'
  others : ∀ j, j ≠ i → slots'[j]? = s.slots[j]?
  refCount : sl'.refCount = 1
  dead : sl'.dead = false
  origin : (s.freeSlots = i :: free' ∧ slots'.length = s.slots.length ∧
      sl'.migrated = decide (s.state = .compacting)) ∨
    (s.freeSlots = [] ∧ free' = [] ∧ i = s.slots.length ∧ slots'.length = s.slots.length + 1 ∧
      s.slots.length < 2 ^ 22 ∧ sl'.migrated = false)

lemma takeSlot_spec (offset len : ℕ)
    (hdead : ∀ i ∈ s.freeSlots, ∃ sl : Slot, s.slots[i]? = some sl ∧ sl.dead)
    (hfull : ¬ (maxSlotsPerShard ≤ s.slots.length ∧ s.freeSlots = [])) :
    ∃ slots' free' i sl', s.takeSlot offset len =
        some ({ s with slots := slots', freeSlots := free' }, i) ∧
      s.Taken slots' free' i sl' ∧ sl'.offsets.get s.currentBit = offset ∧
      sl'.length = len % 2 ^ 16 := by
  rcases hfree : s.freeSlots with _ | ⟨i, rest⟩
  · -- no freed slot: the table grows by one
    have hlt : s.slots.length < 2 ^ 22 := by
      simp only [hfree, and_true, maxSlotsPerShard] at hfull
      omega
    refine ⟨s.slots ++ [⟨(⟨0, 0⟩ : Two ℕ).set s.currentBit offset, len % 2 ^ 16, 1, false, false⟩],
      [], s.slots.length, _, ?_, ⟨getElem?_concat_length, ?_, rfl, rfl,
      .inr ⟨hfree, rfl, rfl, by simp, hlt, rfl⟩⟩, Two.get_set_self _ _ _, rfl⟩
    · simp only [takeSlot, hfree]
    · intro j hj
      rcases Nat.lt_or_gt_of_ne hj with hj | hj
      · exact getElem?_append_left hj
      · rw [getElem?_eq_none (by simp only [length_append, length_singleton]; omega),
          getElem?_eq_none (by omega)]
  · obtain ⟨sl, hsl, -⟩ := hdead i (by rw [hfree]; exact mem_cons_self)
    have hi := (List.getElem?_eq_some_iff.mp hsl).1
    refine ⟨s.slots.set i ⟨sl.offsets.set s.currentBit offset, len % 2 ^ 16, 1, false,
      decide (s.state = .compacting)⟩, rest, i, _, ?_, ⟨getElem?_set_self hi, ?_, rfl, rfl,
      .inl ⟨hfree, length_set, rfl⟩⟩, Two.get_set_self _ _ _, rfl⟩
    · simp only [takeSlot, hfree, hsl]
    · intro j hj
      exact getElem?_set_ne (Ne.symm hj)

/-- What placing `data` in slot `i` does to a shard whose index has become `ix`: the slot is taken,
the current buffer grows by `data` and one reference, and `data` is indexed.
Source: pool.go intern, from "Allocate new entry in current buffer" -/
structure Placed (s : Shard) (data : Bytes) (s' : Shard) (i : ℕ) (sl' : Slot) (ix : Index) :
    Prop where
  id : s'.id = s.id
  idx : s'.idx = s.idx
  bit : s'.currentBit = s.currentBit
  state : s'.state = s.state
  cursor : s'.compactCursor = s.compactCursor
  count : s'.compactSlotCount = s.compactSlotCount
  taken : s.Taken s'.slots s'.freeSlots i sl'
  holds : sl'.Holds s'.buffers s.currentBit data
  cur_data : (s'.buffers.get s.currentBit).data = (s.buffers.get s.currentBit).data ++ data
  cur_refs : (s'.buffers.get s.currentBit).refCount =
    int32 ((s.buffers.get s.currentBit).refCount + 1)
  old_buf : s'.buffers.get (!s.currentBit) = s.buffers.get (!s.currentBit)
  index : s'.index = update ix data (some (s.handle s.currentBit i))

lemma place_spec (g : AppendGrowth) (hl : s.Layout) {data : Bytes} (hlen : data.length < 2 ^ 16)
    (hroom : s.cur.data.length + data.length < 2 ^ 32)
    (hfull : ¬ (maxSlotsPerShard ≤ s.slots.length ∧ s.freeSlots = [])) :
    ∃ s' i sl' ix, s.place g data = some (s', s.handle s.currentBit i) ∧
      s.Placed data s' i sl' ix ∧ s.Grown data.length ix := by
  obtain ⟨buf, ix, hens, hdata, hrefs, hgrown⟩ := ensureCapacity_spec hl data.length
  -- the shard a slot is taken from: the data is appended, the index is the grown one
  obtain ⟨slots', free', i, sl', htake, htaken, hsloff, hsllen⟩ :=
    takeSlot_spec (s := { s with
      buffers := s.buffers.set s.currentBit (buf.append g data), index := ix })
      s.cur.data.length data.length hl.free_dead hfull
  set newBuf := (buf.append g data).addRefs 1 with hnewBuf
  have hoff : buf.pos % 2 ^ 32 = s.cur.data.length := by
    rw [buf.pos_eq, hdata]
    exact Nat.mod_eq_of_lt (by omega)
  have hnew : newBuf.data = s.cur.data ++ data := by
    rw [hnewBuf, Buffer.data_addRefs, Buffer.data_append, hdata]
  have hat : At newBuf.data s.cur.data.length data := by
    rw [hnew]
    exact At.last _ _
  have hkey : newBuf.region s.cur.data.length data.length = some data := by
    refine Buffer.region_eq hat ?_
    rw [hnew, length_append]
    exact hroom
  refine ⟨{ s with
    slots := slots', freeSlots := free', buffers := s.buffers.set s.currentBit newBuf
    index := update ix data (some (s.handle s.currentBit i)) }, i, sl', ix, ?_, ?_, hgrown⟩
  · have hcur : s.cur = s.buffers.get s.currentBit := rfl
    simp only [place, hens, Option.bind_some, setBuffer, cur, Two.get_set_self, Two.set_set, hoff]
    rw [hcur] at htake hkey
    rw [htake, Option.bind_some]
    simp only [Two.get_set_self, Two.set_set]
    rw [hkey]
    rfl
  · refine ⟨rfl, rfl, rfl, rfl, rfl, rfl, ⟨htaken.slot, htaken.others,
      htaken.refCount, htaken.dead, htaken.origin⟩, ⟨?_, ?_⟩, ?_, ?_, ?_, rfl⟩
    · rw [hsllen, Nat.mod_eq_of_lt hlen]
    · rw [Two.get_set_self, hsloff]
      exact hat
    · rw [Two.get_set_self]
      exact hnew
    · rw [Two.get_set_self, hnewBuf, Buffer.refCount_addRefs, Buffer.refCount_append, hrefs]
      rfl
    · exact Two.get_not_set _ _ _

end Shard

end Ze.AttrPool
