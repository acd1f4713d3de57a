import Ze.AttrPool.Dedup

/-!
# The reference counters of a shard

`Counted s held` ties the counters of the slots and of the two buffers to the references that
callers hold; most steps leave every counter alone (`SameTally`).

`Current` excludes the one way to break the counts besides their 32 bits: a new reference, while no
compaction runs, through the buffer that the last compaction has dropped (`counts_stale_bit`).
-/

namespace Ze.AttrPool

open Ze.Lib List
open Nat (cast_add cast_one)
open Option (bind_eq_some_iff get map_some some_get)

namespace Shard

variable {s s' : Shard} {held : List Handle} {h : Handle} {i : ℕ} {sl : Slot}

/-! ## Steps that leave the counters alone -/

def tally (sl : Slot) : ℤ × Bool := (sl.refCount, sl.dead)

/-- The two shards have the same counters, dead slots and free list. -/
structure SameTally (s s' : Shard) : Prop where
  slots : s'.slots.map tally = s.slots.map tally
  free : s'.freeSlots = s.freeSlots
  bufs : ∀ b, (s'.buffers.get b).refCount = (s.buffers.get b).refCount
  bit : s'.currentBit = s.currentBit

namespace SameTally

lemma refl (s : Shard) : s.SameTally s := ⟨rfl, rfl, fun _ => rfl, rfl⟩

lemma trans {s'' : Shard} (h : s.SameTally s') (h' : s'.SameTally s'') : s.SameTally s'' where
  slots := h'.slots.trans h.slots
  free := h'.free.trans h.free
  bufs := fun b => (h'.bufs b).trans (h.bufs b)
  bit := h'.bit.trans h.bit

lemma length_eq (h : s.SameTally s') : s'.slots.length = s.slots.length := by
  have := congrArg length h.slots
  rwa [length_map, length_map] at this

lemma slot (h : s.SameTally s') (hi : s'.slots[i]? = some sl) :
    ∃ sl₀ : Slot, s.slots[i]? = some sl₀ ∧ sl.refCount = sl₀.refCount ∧ sl.dead = sl₀.dead := by
  have hmap := congrArg (·[i]?) h.slots
  simp only [getElem?_map, hi, map_some] at hmap
  obtain ⟨sl₀, h₀, heq⟩ := Option.map_eq_some_iff.1 hmap.symm
  rw [tally, tally, Prod.mk.injEq] at heq
  exact ⟨sl₀, h₀, heq.1.symm, heq.2.symm⟩

end SameTally

lemma map_tally_set {slots : List Slot} {sl' : Slot} (hi : slots[i]? = some sl)
    (htally : tally sl' = tally sl) : (slots.set i sl').map tally = slots.map tally := by
  obtain ⟨hlt, rfl⟩ := List.getElem?_eq_some_iff.mp hi
  rw [map_set, htally, ← getElem_map tally (h := by rw [length_map]; exact hlt), set_getElem_self]

variable {b : Bool} {buf : Buffer} {data : Bytes}

lemma sameTally_setBuffer
    (hrefs : buf.refCount = (s.buffers.get b).refCount) : s.SameTally (s.setBuffer b buf) where
  slots := rfl
  free := rfl
  bufs := fun c => by
    rw [setBuffer, Two.get_set]
    split_ifs with hc
    · rw [hrefs, hc]
    · rfl
  bit := rfl

lemma sameTally_rebuildIndex (h : s.rebuildIndex = some s') :
    s.SameTally s' ∧ s'.state = s.state := by
  rw [rebuildIndex] at h
  obtain ⟨ix, -, rfl⟩ := Option.map_eq_some_iff.1 h
  exact ⟨⟨rfl, rfl, fun _ => rfl, rfl⟩, rfl⟩

lemma sameTally_ensureCapacity {needed : ℕ} (h : s.ensureCapacity needed = some s') :
    s.SameTally s' ∧ s'.state = s.state := by
  rw [ensureCapacity] at h
  split_ifs at h
  · cases h
    exact ⟨.refl s, rfl⟩
  · obtain ⟨ht, hstate⟩ := sameTally_rebuildIndex h
    have hset : s.SameTally (s.setBuffer s.currentBit (s.cur.realloc (s.cur.pos + needed))) :=
      sameTally_setBuffer rfl
    exact ⟨hset.trans ht, hstate⟩

variable {g : AppendGrowth}

lemma sameTally_migrateSlot {copied : Bool}
    (h : s.migrateSlot g = some (s', copied)) : s.SameTally s' ∧ s'.state = s.state := by
  cases hsl : s.slots[s.compactCursor]? with
  | none =>
    simp only [migrateSlot, hsl] at h
    cases h
  | some sl =>
    simp only [migrateSlot, hsl] at h
    split_ifs at h with hdead hmigrated
    · obtain ⟨rfl, -⟩ := Prod.mk.inj (Option.some.inj h)
      exact ⟨⟨map_tally_set hsl rfl, rfl, fun _ => rfl, rfl⟩, rfl⟩
    · obtain ⟨rfl, -⟩ := Prod.mk.inj (Option.some.inj h)
      exact ⟨⟨rfl, rfl, fun _ => rfl, rfl⟩, rfl⟩
    · obtain ⟨oldData, -, h⟩ := bind_eq_some_iff.1 h
      obtain ⟨newKey, -, heq⟩ := Option.map_eq_some_iff.1 h
      cases heq
      refine ⟨⟨map_tally_set hsl rfl, rfl, fun b => ?_, rfl⟩, rfl⟩
      rw [Two.get_set]
      split_ifs with hb
      · rw [Buffer.refCount_append, hb]
        rfl
      · rfl

lemma sameTally_migrateLoop :
    (fuel batch : ℕ) → ∀ s s' : Shard, migrateLoop g fuel batch s = some s' →
      s.SameTally s' ∧ s'.state = s.state
  | 0, batch, s, s', h => by
      cases batch <;> (rw [migrateLoop, Option.some.injEq] at h; subst h; exact ⟨.refl s, rfl⟩)
  | fuel + 1, 0, s, s', h => by
      rw [migrateLoop] at h
      cases h
      exact ⟨.refl s, rfl⟩
  | fuel + 1, batch + 1, s, s', h => by
      rw [migrateLoop] at h
      obtain ⟨⟨s₁, copied⟩, h₁, h₂⟩ := bind_eq_some_iff.1 h
      obtain ⟨ht, hstate⟩ := sameTally_migrateSlot h₁
      cases copied with
      | true =>
        obtain ⟨ht', hstate'⟩ := sameTally_migrateLoop fuel batch s₁ s' h₂
        exact ⟨ht.trans ht', hstate'.trans hstate⟩
      | false =>
        obtain ⟨ht', hstate'⟩ := sameTally_migrateLoop fuel (batch + 1) s₁ s' h₂
        exact ⟨ht.trans ht', hstate'.trans hstate⟩

lemma tally_compactLoop :
    (slots : List Slot) → ∀ (newBuf : Buffer) (slots' : List Slot) (newBuf' : Buffer),
      compactLoop g b buf slots newBuf = some (slots', newBuf') →
      slots'.map tally = slots.map tally ∧ newBuf'.refCount = newBuf.refCount
  | [], newBuf, slots', newBuf', h => by
      cases h
      exact ⟨rfl, rfl⟩
  | sl :: rest, newBuf, slots', newBuf', h => by
      rw [compactLoop] at h
      split_ifs at h
      · obtain ⟨oldData, -, h⟩ := bind_eq_some_iff.1 h
        obtain ⟨⟨rest', buf'⟩, hrest, heq⟩ := Option.map_eq_some_iff.1 h
        cases heq
        obtain ⟨hslots, hrefs⟩ := tally_compactLoop rest _ _ _ hrest
        exact ⟨by rw [map_cons, map_cons, hslots]; rfl, hrefs⟩
      · obtain ⟨⟨rest', buf'⟩, hrest, heq⟩ := Option.map_eq_some_iff.1 h
        cases heq
        obtain ⟨hslots, hrefs⟩ := tally_compactLoop rest _ _ _ hrest
        exact ⟨by rw [map_cons, map_cons, hslots]; rfl, hrefs⟩

lemma sameTally_compact (h : s.compact g = some s') : s.SameTally s' ∧ s'.state = s.state := by
  rw [compact] at h
  split_ifs at h
  · cases h
    exact ⟨.refl s, rfl⟩
  · cases h
    exact ⟨.refl s, rfl⟩
  · obtain ⟨⟨slots', newBuf⟩, hloop, h⟩ := bind_eq_some_iff.1 h
    obtain ⟨hslots, hrefs⟩ := tally_compactLoop _ _ _ _ hloop
    obtain ⟨ht, hstate⟩ := sameTally_rebuildIndex h
    have hmoved : s.SameTally { s with
        slots := slots', buffers := s.buffers.set s.currentBit newBuf } := by
      refine ⟨hslots, rfl, fun b => ?_, rfl⟩
      rw [Two.get_set]
      split_ifs with hb
      · rw [hrefs, Buffer.refCount_make, hb]
        rfl
      · rfl
    exact ⟨hmoved.trans ht, hstate⟩

lemma state_place (hplace : s.place g data = some (s', h)) : s'.state = s.state := by
  rw [place] at hplace
  obtain ⟨s₁, hens, hplace⟩ := bind_eq_some_iff.1 hplace
  obtain ⟨⟨s₃, i⟩, htake, hplace⟩ := bind_eq_some_iff.1 hplace
  obtain ⟨key, -, heq⟩ := Option.map_eq_some_iff.1 hplace
  cases heq
  have hst₃ : s₃.state = s₁.state := by
    rw [takeSlot] at htake
    split at htake
    · split at htake
      · cases htake
      · exact (Prod.mk.inj (Option.some.inj htake)).1 ▸ rfl
    · exact (Prod.mk.inj (Option.some.inj htake)).1 ▸ rfl
  exact hst₃.trans (sameTally_ensureCapacity hens).2

lemma state_intern {r : Except PoolError Handle}
    (hint : s.intern g false data = some (s', r)) : s'.state = s.state := by
  rw [Shard.intern, if_neg Bool.false_ne_true] at hint
  obtain ⟨found, -, hint⟩ := bind_eq_some_iff.1 hint
  cases found with
  | some h => exact (Prod.mk.inj (Option.some.inj hint)).1 ▸ rfl
  | none =>
    dsimp only at hint
    split_ifs at hint
    · exact (Prod.mk.inj (Option.some.inj hint)).1 ▸ rfl
    · obtain ⟨⟨s₁, x⟩, hplace, heq⟩ := Option.map_eq_some_iff.1 hint
      exact (Prod.mk.inj heq).1 ▸ state_place hplace

lemma state_release {r : Option PoolError} (hrel : s.release h = some (s', r)) :
    s'.state = s.state := by
  rw [Shard.release] at hrel
  split at hrel
  · exact (Prod.mk.inj (Option.some.inj hrel)).1 ▸ rfl
  · dsimp only at hrel
    split at hrel
    · cases hrel
    · split_ifs at hrel
      · obtain ⟨s₁, hret, heq⟩ := Option.map_eq_some_iff.1 hrel
        cases heq
        rw [retireSlot] at hret
        split at hret
        · cases hret
        · dsimp only at hret
          split_ifs at hret
          · obtain ⟨key, -, rfl⟩ := Option.map_eq_some_iff.1 hret
            rfl
          · exact Option.some.inj hret ▸ rfl
      · exact (Prod.mk.inj (Option.some.inj hrel)).1 ▸ rfl

/-! ## Exact counters -/

/-- The counters of a shard are exact for the references `held`: a slot counts those that name it, a
buffer those that carry its bit. A freed slot is named by none, and while no compaction runs all of
them carry the current bit. -/
structure Counted (s : Shard) (held : List Handle) : Prop where
  slots_le : s.slots.length ≤ maxSlotsPerShard
  in_table : ∀ h ∈ held, h.shardSlot < s.slots.length
  slot_count : ∀ (i : ℕ) (sl : Slot), s.slots[i]? = some sl → sl.refCount = slotRefs held i
  slot_lt : ∀ i, slotRefs held i < 2 ^ 31
  dead_free : ∀ (i : ℕ) (sl : Slot), s.slots[i]? = some sl → sl.dead = true → slotRefs held i = 0
  free_dead : ∀ i ∈ s.freeSlots, ∃ sl : Slot, s.slots[i]? = some sl ∧ sl.dead = true
  free_nodup : s.freeSlots.Nodup
  buf_count : ∀ b, (s.buffers.get b).refCount = bufferRefs held b
  buf_lt : ∀ b, bufferRefs held b < 2 ^ 31
  bit_of_normal : s.state = .normal → ∀ h ∈ held, h.bufferBit = s.currentBit

namespace Counted

lemma perm {held' : List Handle} (hc : s.Counted held) (hp : held.Perm held') :
    s.Counted held' where
  slots_le := hc.slots_le
  in_table := fun h hmem => hc.in_table h (hp.mem_iff.2 hmem)
  slot_count := fun i sl hi => by rw [hc.slot_count i sl hi, slotRefs, slotRefs, hp.countP_eq]
  slot_lt := fun i => by rw [slotRefs, ← hp.countP_eq]; exact hc.slot_lt i
  dead_free := fun i sl hi hd => by rw [slotRefs, ← hp.countP_eq]; exact hc.dead_free i sl hi hd
  free_dead := hc.free_dead
  free_nodup := hc.free_nodup
  buf_count := fun b => by rw [hc.buf_count b, bufferRefs, bufferRefs, hp.countP_eq]
  buf_lt := fun b => by rw [bufferRefs, ← hp.countP_eq]; exact hc.buf_lt b
  bit_of_normal := fun hn h hmem => hc.bit_of_normal hn h (hp.mem_iff.2 hmem)

lemma sameTally (hc : s.Counted held) (ht : s.SameTally s')
    (hnormal : s'.state = .normal → ∀ h ∈ held, h.bufferBit = s.currentBit) :
    s'.Counted held where
  slots_le := ht.length_eq ▸ hc.slots_le
  in_table := fun h hmem => by rw [ht.length_eq]; exact hc.in_table h hmem
  slot_count := fun i sl hi => by
    obtain ⟨sl₀, h₀, hrefs, -⟩ := ht.slot hi
    rw [hrefs, hc.slot_count i sl₀ h₀]
  slot_lt := hc.slot_lt
  dead_free := fun i sl hi hd => by
    obtain ⟨sl₀, h₀, -, hdead⟩ := ht.slot hi
    exact hc.dead_free i sl₀ h₀ (hdead ▸ hd)
  free_dead := fun i hi => by
    rw [ht.free] at hi
    obtain ⟨sl₀, h₀, hd⟩ := hc.free_dead i hi
    have hlt : i < s'.slots.length := by
      rw [ht.length_eq]
      exact (List.getElem?_eq_some_iff.mp h₀).1
    obtain ⟨sl₁, h₁, -, hdead⟩ := ht.slot (getElem?_eq_getElem hlt)
    obtain rfl : sl₁ = sl₀ := Option.some.inj (h₁.symm.trans h₀)
    exact ⟨_, getElem?_eq_getElem hlt, hdead.trans hd⟩
  free_nodup := ht.free ▸ hc.free_nodup
  buf_count := fun b => (ht.bufs b).trans (hc.buf_count b)
  buf_lt := hc.buf_lt
  bit_of_normal := fun hn h hmem => (hnormal hn h hmem).trans ht.bit.symm

lemma sameTally_state (hc : s.Counted held) (ht : s.SameTally s' ∧ s'.state = s.state) :
    s'.Counted held :=
  hc.sameTally ht.1 fun hn => hc.bit_of_normal (ht.2.symm.trans hn)

lemma bump_one (hc : s.Counted held) (hsl : s.slots[h.shardSlot]? = some sl)
    (hd : sl.dead = false) (hslot : sl.refCount + 1 < 2 ^ 31)
    (hbuf : (s.buffers.get h.bufferBit).refCount + 1 < 2 ^ 31)
    (hbit : s.state = .normal → h.bufferBit = s.currentBit) : (s.bump h 1).Counted (h :: held) := by
  rw [hc.slot_count _ sl hsl] at hslot
  rw [hc.buf_count] at hbuf
  have hlen : (s.bump h 1).slots.length = s.slots.length := length_modify ..
  refine ⟨hlen ▸ hc.slots_le, ?_, ?_, ?_, ?_, ?_, hc.free_nodup, ?_, ?_, ?_⟩
  · intro x hx
    rw [hlen]
    rcases mem_cons.1 hx with rfl | hx
    · exact (List.getElem?_eq_some_iff.mp hsl).1
    · exact hc.in_table x hx
  · intro j sl' hj
    rw [getElem?_bump] at hj
    obtain ⟨sl₀, h₀, rfl⟩ := Option.map_eq_some_iff.1 hj
    rw [slotRefs_cons]
    split_ifs with hji
    · subst hji
      simp only [hc.slot_count _ sl₀ h₀]
      rw [int32_eq (by omega) hslot, cast_add, cast_one]
    · exact_mod_cast hc.slot_count j sl₀ h₀
  · intro j
    rw [slotRefs_cons]
    split_ifs with hji
    · subst hji
      exact_mod_cast hslot
    · exact hc.slot_lt j
  · intro j sl' hj hd'
    rw [getElem?_bump] at hj
    obtain ⟨sl₀, h₀, rfl⟩ := Option.map_eq_some_iff.1 hj
    have hd₀ : sl₀.dead := by split_ifs at hd' <;> exact hd'
    rw [slotRefs_cons, hc.dead_free j sl₀ h₀ hd₀, if_neg]
    rintro rfl
    obtain rfl : sl = sl₀ := Option.some.inj (hsl.symm.trans h₀)
    rw [hd] at hd₀
    cases hd₀
  · intro j hj
    obtain ⟨sl₀, h₀, hdj⟩ := hc.free_dead j hj
    rw [getElem?_bump, h₀]
    exact ⟨_, rfl, by split_ifs <;> exact hdj⟩
  · intro b
    rw [refCount_bump, hc.buf_count b, bufferRefs_cons]
    by_cases hb : b = h.bufferBit
    · subst hb
      rw [if_pos rfl, if_pos rfl, int32_eq (by omega) hbuf, cast_add, cast_one]
    · rw [if_neg hb, if_neg (Ne.symm hb), Nat.add_zero]
  · intro b
    rw [bufferRefs_cons]
    split_ifs with hb
    · subst hb
      exact_mod_cast hbuf
    · exact hc.buf_lt b
  · intro hn x hx
    rcases mem_cons.1 hx with rfl | hx
    · exact hbit hn
    · exact hc.bit_of_normal hn x hx

lemma bump_neg (hc : s.Counted (h :: held)) : (s.bump h (-1)).Counted held := by
  have hlen : (s.bump h (-1)).slots.length = s.slots.length := length_modify ..
  have hslot_lt : ∀ j, slotRefs held j ≤ slotRefs (h :: held) j := fun j => by
    rw [slotRefs_cons]
    omega
  refine ⟨hlen ▸ hc.slots_le, ?_, ?_, ?_, ?_, ?_, hc.free_nodup, ?_, ?_, ?_⟩
  · intro x hx
    rw [hlen]
    exact hc.in_table x (mem_cons_of_mem _ hx)
  · intro j sl' hj
    rw [getElem?_bump] at hj
    obtain ⟨sl₀, h₀, rfl⟩ := Option.map_eq_some_iff.1 hj
    have hcount := hc.slot_count j sl₀ h₀
    have hlt := hc.slot_lt j
    rw [slotRefs_cons] at hcount hlt
    split_ifs with hji
    · rw [if_pos hji] at hcount hlt
      simp only [hcount]
      rw [cast_add, cast_one, int32_eq (by omega) (by omega), Int.add_neg_cancel_right]
    · rw [if_neg hji, Nat.add_zero] at hcount
      exact hcount
  · exact fun j => lt_of_le_of_lt (hslot_lt j) (hc.slot_lt j)
  · intro j sl' hj hd'
    rw [getElem?_bump] at hj
    obtain ⟨sl₀, h₀, rfl⟩ := Option.map_eq_some_iff.1 hj
    have := hc.dead_free j sl₀ h₀ (by split_ifs at hd' <;> exact hd')
    have := hslot_lt j
    omega
  · intro j hj
    obtain ⟨sl₀, h₀, hdj⟩ := hc.free_dead j hj
    rw [getElem?_bump, h₀]
    exact ⟨_, rfl, by split_ifs <;> exact hdj⟩
  · intro b
    have hcount := hc.buf_count b
    have hlt := hc.buf_lt b
    rw [bufferRefs_cons] at hcount hlt
    rw [refCount_bump]
    by_cases hb : b = h.bufferBit
    · rw [if_pos hb.symm] at hcount hlt
      rw [if_pos hb, hcount, cast_add, cast_one, int32_eq (by omega) (by omega),
        Int.add_neg_cancel_right]
    · rw [if_neg (Ne.symm hb), Nat.add_zero] at hcount
      rw [if_neg hb, hcount]
  · intro b
    have := hc.buf_lt b
    rw [bufferRefs_cons] at this
    omega
  · exact fun hn x hx => hc.bit_of_normal hn x (mem_cons_of_mem _ hx)

lemma retire {b : Bool} (hc : s.Counted held) (hsl : s.slots[i]? = some sl)
    (hd : sl.dead = false) (hzero : slotRefs held i = 0) (hret : s.retireSlot i b = some s') :
    s'.Counted held := by
  have hi := (List.getElem?_eq_some_iff.mp hsl).1
  obtain ⟨ix, rfl⟩ : ∃ ix, s' = { s with
      slots := s.slots.set i { sl with dead := true }
      freeSlots := i :: s.freeSlots
      index := ix } := by
    simp only [retireSlot, hsl] at hret
    split_ifs at hret
    · obtain ⟨key, -, rfl⟩ := Option.map_eq_some_iff.mp hret
      exact ⟨_, rfl⟩
    · exact ⟨_, (Option.some.inj hret).symm⟩
  have hslots : ∀ (j : ℕ) (sl' : Slot), (s.slots.set i { sl with dead := true })[j]? = some sl' →
      ∃ sl₀ : Slot, s.slots[j]? = some sl₀ ∧ sl'.refCount = sl₀.refCount ∧
        (j = i ∨ sl' = sl₀) := by
    intro j sl' hj
    by_cases hji : i = j
    · subst hji
      rw [getElem?_set_self hi, Option.some.injEq] at hj
      exact ⟨sl, hsl, by rw [← hj], .inl rfl⟩
    · rw [getElem?_set_ne hji] at hj
      exact ⟨sl', hj, rfl, .inr rfl⟩
  refine ⟨by rw [length_set]; exact hc.slots_le, ?_, ?_, hc.slot_lt, ?_, ?_, ?_, hc.buf_count,
    hc.buf_lt, hc.bit_of_normal⟩
  · intro x hx
    rw [length_set]
    exact hc.in_table x hx
  · intro j sl' hj
    obtain ⟨sl₀, h₀, hrefs, -⟩ := hslots j sl' hj
    rw [hrefs]
    exact hc.slot_count j sl₀ h₀
  · intro j sl' hj hd'
    obtain ⟨sl₀, h₀, -, rfl | rfl⟩ := hslots j sl' hj
    · exact hzero
    · exact hc.dead_free j sl' h₀ hd'
  · intro j hj
    by_cases hji : i = j
    · subst hji
      exact ⟨_, getElem?_set_self hi, rfl⟩
    · obtain ⟨sl₀, h₀, hd₀⟩ := hc.free_dead j ((mem_cons.mp hj).resolve_left (Ne.symm hji))
      exact ⟨sl₀, by rw [getElem?_set_ne hji]; exact h₀, hd₀⟩
  · refine nodup_cons.mpr ⟨fun hfree => ?_, hc.free_nodup⟩
    obtain ⟨sl₀, h₀, hd₀⟩ := hc.free_dead i hfree
    obtain rfl : sl = sl₀ := Option.some.inj (hsl.symm.trans h₀)
    rw [hd] at hd₀
    cases hd₀

lemma release (hc : s.Counted (h :: held)) {r : Option PoolError}
    (hrel : s.release h = some (s', r)) :
    (r = none ∧ s'.Counted held) ∨ (r ≠ none ∧ s' = s) := by
  cases hv : s.validateHandle h with
  | some err =>
    simp only [Shard.release, validateHandleForRelease, hv, Option.some.injEq,
      Prod.mk.injEq] at hrel
    exact .inr ⟨by rw [← hrel.2]; exact Option.some_ne_none _, hrel.1.symm⟩
  | none =>
    obtain ⟨sl, hsl, hd⟩ := slot_of_validate hv
    have hc' := hc.bump_neg
    have hsl' := getElem?_bump s h (-1) h.shardSlot
    rw [hsl, map_some, if_pos rfl] at hsl'
    simp only [Shard.release, validateHandleForRelease, hv, hsl'] at hrel
    split_ifs at hrel with hlast
    · obtain ⟨s₁, hret, heq⟩ := Option.map_eq_some_iff.1 hrel
      cases heq
      have hcount : int32 (sl.refCount + -1) = slotRefs held h.shardSlot :=
        hc'.slot_count _ _ hsl'
      refine .inl ⟨rfl, hc'.retire hsl' hd ?_ hret⟩
      rw [hcount] at hlast
      omega
    · cases hrel
      exact .inl ⟨rfl, hc'⟩

section

variable (hc : s.Counted held)
include hc

lemma take {slots' : List Slot} {free' : List ℕ} {sl' : Slot} (ht : s.Taken slots' free' i sl')
    (hbuf : s.cur.refCount + 1 < 2 ^ 31) (ix : Index) :
    ({ s with
        slots := slots', freeSlots := free', index := ix
        buffers := s.buffers.set s.currentBit (s.cur.addRefs 1) } : Shard).Counted
      (s.handle s.currentBit i :: held) := by
  -- the slot is freed, or not there yet, so that no reference names it
  have hzero : slotRefs held i = 0 ∧ i < 2 ^ 22 ∧ slots'.length ≤ maxSlotsPerShard := by
    have hle := hc.slots_le
    rw [maxSlotsPerShard] at hle ⊢
    rcases ht.origin with ⟨hf, hlen, -⟩ | ⟨-, -, rfl, hlen, hlt, -⟩
    · obtain ⟨sl₀, h₀, hd⟩ := hc.free_dead i (by rw [hf]; exact mem_cons_self)
      have := (List.getElem?_eq_some_iff.mp h₀).1
      exact ⟨hc.dead_free i sl₀ h₀ hd, by omega, by omega⟩
    · refine ⟨?_, hlt, by omega⟩
      by_contra hpos
      obtain ⟨x, hx, hxi⟩ := exists_of_slotRefs_pos (Nat.pos_of_ne_zero hpos)
      have := hc.in_table x hx
      omega
  obtain ⟨hzero, hi, hle⟩ := hzero
  have hslot : (s.handle s.currentBit i).shardSlot = i := shardSlot_handle s _ hi
  have hbuf' : (bufferRefs held s.currentBit : ℤ) + 1 < 2 ^ 31 := by
    rw [← hc.buf_count]
    exact hbuf
  have hfree : ∀ j ∈ free', j ∈ s.freeSlots ∧ j ≠ i := by
    intro j hj
    rcases ht.origin with ⟨hf, -⟩ | ⟨-, rfl, -⟩
    · have hnd := hc.free_nodup
      rw [hf, nodup_cons] at hnd
      rw [hf]
      exact ⟨mem_cons_of_mem _ hj, fun hji => hnd.1 (hji ▸ hj)⟩
    · cases hj
  refine ⟨hle, ?_, ?_, ?_, ?_, ?_, ?_, ?_, ?_, ?_⟩
  · intro x hx
    rcases mem_cons.1 hx with rfl | hx
    · rw [hslot]
      exact (List.getElem?_eq_some_iff.mp ht.slot).1
    · exact lt_of_lt_of_le (hc.in_table x hx) ht.length_le
  · intro j slj hj
    rw [slotRefs_cons, hslot]
    by_cases hji : i = j
    · subst hji
      obtain rfl : sl' = slj := Option.some.inj (ht.slot.symm.trans hj)
      rw [ht.refCount, hzero, if_pos rfl, Nat.zero_add, cast_one]
    · rw [if_neg hji, Nat.add_zero]
      exact hc.slot_count j slj (by rw [← ht.others j (Ne.symm hji)]; exact hj)
  · intro j
    rw [slotRefs_cons, hslot]
    split_ifs with hji
    · rw [← hji, hzero]
      norm_num
    · exact hc.slot_lt j
  · intro j slj hj hd
    rw [slotRefs_cons, hslot]
    by_cases hji : i = j
    · subst hji
      obtain rfl : sl' = slj := Option.some.inj (ht.slot.symm.trans hj)
      rw [ht.dead] at hd
      cases hd
    · rw [if_neg hji, Nat.add_zero]
      exact hc.dead_free j slj (by rw [← ht.others j (Ne.symm hji)]; exact hj) hd
  · intro j hj
    obtain ⟨hj, hji⟩ := hfree j hj
    obtain ⟨sl₀, h₀, hd⟩ := hc.free_dead j hj
    exact ⟨sl₀, by rw [ht.others j hji]; exact h₀, hd⟩
  · have hnd := hc.free_nodup
    rcases ht.origin with ⟨hf, -⟩ | ⟨-, rfl, -⟩
    · rw [hf, nodup_cons] at hnd
      exact hnd.2
    · exact nodup_nil
  · intro b
    rw [bufferRefs_cons, bufferBit_handle, Two.get_set]
    by_cases hb : b = s.currentBit
    · subst hb
      rw [if_pos rfl, if_pos rfl, Buffer.refCount_addRefs]
      rw [show s.cur.refCount = bufferRefs held s.currentBit from hc.buf_count _,
        int32_eq (by omega) hbuf', cast_add, cast_one]
    · rw [if_neg hb, if_neg (Ne.symm hb), Nat.add_zero]
      exact hc.buf_count b
  · intro b
    rw [bufferRefs_cons, bufferBit_handle]
    split_ifs with hb
    · subst hb
      exact_mod_cast hbuf'
    · exact hc.buf_lt b
  · intro hn x hx
    rcases mem_cons.1 hx with rfl | hx
    · exact bufferBit_handle _ _ _
    · exact hc.bit_of_normal hn x hx

lemma place {g : AppendGrowth} {data : Bytes}
    (hfull : ¬ (maxSlotsPerShard ≤ s.slots.length ∧ s.freeSlots = []))
    (hbuf : s.cur.refCount + 1 < 2 ^ 31) (hplace : s.place g data = some (s', h)) :
    s'.Counted (h :: held) := by
  rw [Shard.place] at hplace
  obtain ⟨s₁, hens, hplace⟩ := bind_eq_some_iff.1 hplace
  obtain ⟨ht₁, hstate₁⟩ := sameTally_ensureCapacity hens
  -- the shard with the bytes appended has the counters it had
  set s₂ := s₁.setBuffer s₁.currentBit (s₁.cur.append g data) with hs₂
  have ht₂ : s.SameTally s₂ := ht₁.trans (sameTally_setBuffer rfl)
  have hc₂ : s₂.Counted held := hc.sameTally_state ⟨ht₂, hstate₁⟩
  obtain ⟨slots', free', i, sl', htake, htaken, -⟩ := takeSlot_spec (s := s₂)
    (s₁.cur.pos % 2 ^ 32) data.length hc₂.free_dead
    (by rw [ht₂.length_eq, ht₂.free]; exact hfull)
  have hbuf₂ : s₂.cur.refCount + 1 < 2 ^ 31 := by
    rw [cur, ht₂.bufs, ht₂.bit]
    exact hbuf
  dsimp only at hplace
  rw [htake, Option.bind_some] at hplace
  obtain ⟨key, -, heq⟩ := Option.map_eq_some_iff.1 hplace
  cases heq
  exact hc₂.take htaken hbuf₂ _

lemma startCompaction : s.startCompaction.Counted held := by
  by_cases hcomp : s.state = .compacting
  · rw [Shard.startCompaction, if_pos hcomp]
    exact hc
  have hn := normal_of_not_compacting hcomp
  have hslots : s.startCompaction.slots.map tally = s.slots.map tally := by
    rw [startCompaction_of_normal hn, map_map]
    rfl
  have hbufs : ∀ b, (s.startCompaction.buffers.get b).refCount = (s.buffers.get b).refCount := by
    intro b
    by_cases hb : b = s.currentBit
    · rw [hb, buffers_startCompaction hn]
    · rw [startCompaction_of_normal hn, Bool.eq_not_of_ne hb, Two.get_set_self,
        Buffer.refCount_make, hc.buf_count, bufferRefs_eq_zero fun x hx => ?_, Nat.cast_zero]
      rw [hc.bit_of_normal hn x hx]
      exact (Bool.not_ne_self _).symm
  -- only the current bit and the state differ from a shard with the same counters
  have hc' : ({ s with slots := s.startCompaction.slots, buffers := s.startCompaction.buffers } :
      Shard).Counted held :=
    hc.sameTally_state ⟨⟨hslots, rfl, hbufs, rfl⟩, rfl⟩
  rw [startCompaction_of_normal hn] at hc' ⊢
  exact ⟨hc'.slots_le, hc'.in_table, hc'.slot_count, hc'.slot_lt, hc'.dead_free, hc'.free_dead,
    hc'.free_nodup, hc'.buf_count, hc'.buf_lt, PoolState.noConfusion⟩

lemma finish (hzero : s.old.refCount = 0) : s.finishCompaction.Counted held := by
  refine hc.sameTally ⟨rfl, rfl, fun b => ?_, rfl⟩ fun _ _ => bit_of_drained hc.buf_count hzero
  rw [finishCompaction, Two.get_set]
  split_ifs with hb
  · rw [Buffer.refCount_make, hb]
    rfl
  · rfl

lemma migrateBatch {g : AppendGrowth} {batchSize : ℤ} {done : Bool}
    (hm : s.migrateBatch g batchSize = some (s', done)) :
    s'.Counted held ∧ s'.currentBit = s.currentBit := by
  rw [Shard.migrateBatch] at hm
  split_ifs at hm with hstate
  · obtain ⟨rfl, -⟩ := Prod.mk.inj (Option.some.inj hm)
    exact ⟨hc, rfl⟩
  · obtain ⟨s₁, hloop, heq⟩ := Option.map_eq_some_iff.1 hm
    obtain ⟨ht, hst⟩ := sameTally_migrateLoop _ _ _ _ hloop
    have hc₁ := hc.sameTally_state ⟨ht, hst⟩
    split_ifs at heq with hend hzero
    · cases heq
      exact ⟨hc₁.finish hzero, ht.bit⟩
    · cases heq
      exact ⟨hc₁, ht.bit⟩
    · cases heq
      exact ⟨hc₁, ht.bit⟩

lemma checkOldBufferRelease :
    s.checkOldBufferRelease.Counted held ∧ s.checkOldBufferRelease.currentBit = s.currentBit := by
  rw [Shard.checkOldBufferRelease]
  split_ifs with hstate hzero
  · exact ⟨hc, rfl⟩
  · exact ⟨hc.finish hzero, rfl⟩
  · exact ⟨hc, rfl⟩

end

end Counted

lemma counted_new (id idx capacity : ℕ) : (Shard.new id idx capacity).Counted [] where
  slots_le := Nat.zero_le _
  in_table := fun h hmem => absurd hmem not_mem_nil
  slot_count := fun i sl hi => by cases hi
  slot_lt := fun i => by
    rw [slotRefs, countP_nil]
    norm_num
  dead_free := fun i sl hi => by cases hi
  free_dead := fun i hi => absurd hi not_mem_nil
  free_nodup := nodup_nil
  buf_count := fun b => by cases b <;> rfl
  buf_lt := fun b => by
    rw [bufferRefs, countP_nil]
    norm_num
  bit_of_normal := fun _ h hmem => absurd hmem not_mem_nil

end Shard

/-! ## Runs of a shard and its callers -/

/-- A shard and the references its callers hold, one entry each. -/
structure Holder where
  shard : Shard
  held : List Handle

namespace Holder

variable {c c' : Holder} {h : Handle}

/-- A new shard, of which nobody holds a reference. -/
def start (s : Shard) : Holder := ⟨s, []⟩

/-- One operation of the shard, and what it does to the references: an interned handle and an
accepted `AddRef` add one, an accepted `Release` takes one away. Strings that are too long are
refused by the pool. `none` is a panic.
Source: pool.go Intern, and the methods of shard -/
def step (g : AppendGrowth) (c : Holder) : Op → Option Holder
  | .intern data =>
    if maxDataLength < data.length then some c
    else (c.shard.intern g false data).map fun
      | (s, .ok h) => ⟨s, h :: c.held⟩
      | (s, .error _) => ⟨s, c.held⟩
  | .addRef h => some (match c.shard.addRef h with
      | (s, none) => ⟨s, h :: c.held⟩
      | (s, some _) => ⟨s, c.held⟩)
  | .release h => (c.shard.release h).map fun
      | (s, none) => ⟨s, c.held.erase h⟩
      | (s, some _) => ⟨s, c.held⟩
  | .startCompaction => some ⟨c.shard.startCompaction, c.held⟩
  | .migrateBatch batchSize => (c.shard.migrateBatch g batchSize).map fun (s, _) => ⟨s, c.held⟩
  | .checkOldBufferRelease => some ⟨c.shard.checkOldBufferRelease, c.held⟩
  | .compact => (c.shard.compact g).map fun s => ⟨s, c.held⟩

/-- A reference is given back only while it is held. -/
def Matched (c : Holder) : Op → Prop
  | .release h => h ∈ c.held
  | _ => True

/-- A new reference through `h` can be counted: its slot and its buffer have room for it, and while
no compaction runs it is through the current buffer. -/
def Countable (s : Shard) (h : Handle) : Prop :=
  (∀ sl ∈ s.slots[h.shardSlot]?, sl.refCount + 1 < 2 ^ 31) ∧
  (s.buffers.get h.bufferBit).refCount + 1 < 2 ^ 31 ∧
  (s.state = .normal → h.bufferBit = s.currentBit)

/-- What a step owes for the counters to stay exact: the handle that it adds a reference to, be it
one that the index has for a slot in use, is countable, and the current buffer has room for a
reference to a new slot. -/
def Current (c : Holder) : Op → Prop
  | .intern data => c.shard.cur.refCount + 1 < 2 ^ 31 ∧
      ∀ h ∈ c.shard.index data, ∀ sl ∈ c.shard.slots[h.shardSlot]?, sl.live = true →
        Countable c.shard h
  | .addRef h => c.shard.validateHandle h = none → Countable c.shard h
  | _ => True

instance (s : Shard) (h : Handle) : Decidable (Countable s h) :=
  inferInstanceAs (Decidable ((∀ sl ∈ s.slots[h.shardSlot]?, _) ∧ _ ∧ (_ → _)))

instance (c : Holder) : (o : Op) → Decidable (c.Matched o)
  | .release h => inferInstanceAs (Decidable (h ∈ c.held))
  | .intern _ | .addRef _ | .startCompaction | .migrateBatch _ | .checkOldBufferRelease
  | .compact => isTrue trivial

instance (c : Holder) : (o : Op) → Decidable (c.Current o)
  | .intern _ => inferInstanceAs (Decidable (_ ∧ ∀ h ∈ _, ∀ sl ∈ _, _ → Countable c.shard h))
  | .addRef _ => inferInstanceAs (Decidable (_ → _))
  | .release _ | .startCompaction | .migrateBatch _ | .checkOldBufferRelease | .compact =>
    isTrue trivial

lemma counted_intern {g : AppendGrowth} {data : Bytes} {s' : Shard} {r : Except PoolError Handle}
    (hc : c.shard.Counted c.held) (hcur : c.Current (.intern data))
    (hint : c.shard.intern g false data = some (s', r)) :
    (∃ h, r = .ok h ∧ s'.Counted (h :: c.held)) ∨ (∃ err, r = .error err ∧ s' = c.shard) := by
  rw [Shard.intern, if_neg Bool.false_ne_true] at hint
  obtain ⟨found, hlook, hint⟩ := bind_eq_some_iff.1 hint
  cases found with
  | some h =>
    cases hint
    -- a hit is on a slot in use, through the handle the index has
    rw [Shard.lookup] at hlook
    split at hlook
    · cases hlook
    · next x hx =>
      split at hlook
      · cases hlook
      · next sl hsl =>
        split_ifs at hlook with hlive
        · obtain rfl := Option.some.inj (Option.some.inj hlook)
          obtain ⟨hslot, hbuf, hbit⟩ := hcur.2 x hx sl hsl hlive
          have hd : sl.dead = false := by
            rw [Slot.live, Bool.and_eq_true] at hlive
            simpa using hlive.1
          exact .inl ⟨x, rfl, hc.bump_one hsl hd (hslot sl hsl) hbuf hbit⟩
        · exact absurd (Option.some.inj hlook) (Option.some_ne_none h).symm
  | none =>
    dsimp only at hint
    split_ifs at hint with hfull
    · cases hint
      exact .inr ⟨_, rfl, rfl⟩
    · obtain ⟨⟨s₁, h⟩, hplace, heq⟩ := Option.map_eq_some_iff.1 hint
      cases heq
      exact .inl ⟨h, rfl, hc.place hfull hcur.1 hplace⟩

variable {o : Op}

lemma counted_step {g : AppendGrowth} (hc : c.shard.Counted c.held)
    (hcond : c.Matched o ∧ c.Current o) (hstep : c.step g o = some c') :
    c'.shard.Counted c'.held := by
  obtain ⟨hmatch, hcur⟩ := hcond
  cases o with
  | intern data =>
    simp only [step] at hstep
    split_ifs at hstep with hlen
    · exact Option.some.inj hstep ▸ hc
    · obtain ⟨⟨s', r⟩, hint, heq⟩ := Option.map_eq_some_iff.mp hstep
      rcases counted_intern hc hcur hint with ⟨h, rfl, hc'⟩ | ⟨err, rfl, rfl⟩
      · exact heq ▸ hc'
      · exact heq ▸ hc
  | addRef h =>
    simp only [step, Option.some.injEq, Shard.addRef] at hstep
    cases hv : c.shard.validateHandle h with
    | some err =>
      simp only [hv] at hstep
      exact hstep ▸ hc
    | none =>
      simp only [hv] at hstep
      obtain ⟨sl, hsl, hd⟩ := Shard.slot_of_validate hv
      obtain ⟨hslot, hbuf, hbit⟩ := hcur hv
      exact hstep ▸ hc.bump_one hsl hd (hslot sl hsl) hbuf hbit
  | release h =>
    simp only [step] at hstep
    obtain ⟨⟨s', r⟩, hrel, heq⟩ := Option.map_eq_some_iff.mp hstep
    have hc' : c.shard.Counted (h :: c.held.erase h) := hc.perm (perm_cons_erase hmatch)
    rcases hc'.release hrel with ⟨rfl, hrest⟩ | ⟨hne, rfl⟩
    · exact heq ▸ hrest
    · obtain ⟨err, rfl⟩ := Option.ne_none_iff_exists'.mp hne
      exact heq ▸ hc
  | startCompaction =>
    cases hstep
    exact hc.startCompaction
  | migrateBatch n =>
    simp only [step] at hstep
    obtain ⟨⟨s', done⟩, hmig, rfl⟩ := Option.map_eq_some_iff.mp hstep
    exact (hc.migrateBatch hmig).1
  | checkOldBufferRelease =>
    cases hstep
    exact hc.checkOldBufferRelease.1
  | compact =>
    simp only [step] at hstep
    obtain ⟨s', hcomp, rfl⟩ := Option.map_eq_some_iff.mp hstep
    exact hc.sameTally_state (Shard.sameTally_compact hcomp)

lemma drained_of_end {g : AppendGrowth} (hc : c.shard.Counted c.held)
    (hstep : c.step g o = some c') (hbefore : c.shard.state = .compacting)
    (hafter : c'.shard.state = .normal) : ∀ h ∈ c.held, h.bufferBit ≠ !c.shard.currentBit := by
  -- both steps that end a compaction keep the references, and afterwards all carry the current bit
  have hkept : ∀ s : Shard, s.Counted c.held ∧ s.currentBit = c.shard.currentBit →
      s.state = .normal → ∀ h ∈ c.held, h.bufferBit ≠ !c.shard.currentBit := by
    intro s hs hn h hmem
    rw [hs.1.bit_of_normal hn h hmem, hs.2]
    exact (Bool.not_ne_self _).symm
  have hsame : ∀ s : Shard, s.state = c.shard.state → s.state ≠ .normal := by
    intro s hs hn
    rw [hs, hbefore] at hn
    cases hn
  cases o with
  | intern data =>
    simp only [step] at hstep
    split_ifs at hstep with hlen
    · exact absurd hafter (Option.some.inj hstep ▸ hsame _ rfl)
    · obtain ⟨⟨s', r⟩, hint, heq⟩ := Option.map_eq_some_iff.mp hstep
      have hst := hsame s' (Shard.state_intern hint)
      cases r <;> exact absurd hafter (heq ▸ hst)
  | addRef h =>
    simp only [step, Option.some.injEq, Shard.addRef] at hstep
    cases hv : c.shard.validateHandle h <;> simp only [hv] at hstep <;>
      exact absurd hafter (hstep ▸ hsame _ rfl)
  | release h =>
    simp only [step] at hstep
    obtain ⟨⟨s', r⟩, hrel, heq⟩ := Option.map_eq_some_iff.mp hstep
    have hst := hsame s' (Shard.state_release hrel)
    cases r <;> exact absurd hafter (heq ▸ hst)
  | startCompaction =>
    cases hstep
    rw [Shard.startCompaction, if_pos hbefore] at hafter
    exact absurd hafter (hsame _ rfl)
  | migrateBatch n =>
    simp only [step] at hstep
    obtain ⟨⟨s', done⟩, hmig, rfl⟩ := Option.map_eq_some_iff.mp hstep
    exact hkept s' (hc.migrateBatch hmig) hafter
  | checkOldBufferRelease =>
    cases hstep
    exact hkept _ hc.checkOldBufferRelease hafter
  | compact =>
    simp only [step] at hstep
    obtain ⟨s', hcomp, rfl⟩ := Option.map_eq_some_iff.mp hstep
    exact absurd hafter (hsame s' (Shard.sameTally_compact hcomp).2)

/-- **The counters are exact.** In every run of a new shard whose callers give back only references
they hold, and whose steps are current, the counter of a slot is the number of held references that
name it and the counter of a buffer the number of held references that carry its bit; a step that
ends a compaction, and with it drops the old buffer, is taken only when no held handle carries the
old bit; and while no compaction runs no held handle carries the other bit. Every state of such a
run is reached by a shorter one. -/
theorem counts_of_run (g : AppendGrowth) (id idx capacity : ℕ) (ops : List Op)
    (hmeets : Meets (step g) (fun c o => c.Matched o ∧ c.Current o)
      (start (Shard.new id idx capacity)) ops)
    (hrun : run (step g) (start (Shard.new id idx capacity)) ops = some c) :
    (∀ (i : ℕ) (sl : Slot), c.shard.slots[i]? = some sl → sl.refCount = slotRefs c.held i) ∧
    (∀ b, (c.shard.buffers.get b).refCount = bufferRefs c.held b) ∧
    (∀ o c', c.step g o = some c' → c.shard.state = .compacting → c'.shard.state = .normal →
      ∀ h ∈ c.held, h.bufferBit ≠ !c.shard.currentBit) ∧
    (c.shard.state = .normal → ∀ h ∈ c.held, h.bufferBit ≠ !c.shard.currentBit) := by
  have hc : c.shard.Counted c.held :=
    run_keeps (I := fun c : Holder => c.shard.Counted c.held)
      (fun c o c' hc hcond hstep => counted_step hc hcond hstep) ops _ _
      (Shard.counted_new id idx capacity) hmeets hrun
  refine ⟨hc.slot_count, hc.buf_count, ?_, ?_⟩
  · exact fun o c' hstep hbefore hafter => drained_of_end hc hstep hbefore hafter
  · intro hn h hmem
    rw [hc.bit_of_normal hn h hmem]
    exact (Bool.not_ne_self _).symm

/-- A run in which one content is held through both buffers while it is migrated. -/
theorem counts_of_run_both_buffers :
    ∃ c, run (step doubling) (start (Shard.new 0 0 64)) [.intern [1, 2], .startCompaction,
        .migrateBatch 1, .intern [1, 2], .addRef (newHandleWithBuffer false 0 0)] = some c ∧
      (∀ (i : ℕ) (sl : Slot), c.shard.slots[i]? = some sl → sl.refCount = slotRefs c.held i) ∧
      (∀ b, (c.shard.buffers.get b).refCount = bufferRefs c.held b) := by
  have hrun : (run (step doubling) (start (Shard.new 0 0 64)) [.intern [1, 2], .startCompaction,
      .migrateBatch 1, .intern [1, 2], .addRef (newHandleWithBuffer false 0 0)]).isSome := by
    decide +kernel
  have hcounts := counts_of_run doubling 0 0 64 _ (by decide +kernel) (some_get hrun).symm
  exact ⟨_, (some_get hrun).symm, hcounts.1, hcounts.2.1⟩

/-- The run that shows a reference through the dropped buffer: the index entry of the empty string
outlives its slot and the compaction that drops its buffer, and is handed out once the slot is
reused. The next compaction starts with the counter of that buffer at zero, and the one after it
drops the buffer although the reference is held. -/
theorem counts_stale_bit :
    Meets (step doubling) Matched (start (Shard.new 0 0 64)) [.intern [],
        .release (newHandleWithBuffer false 0 0), .startCompaction, .migrateBatch 1,
        .intern [120], .intern [], .startCompaction, .migrateBatch 1,
        .release (newHandleWithBuffer true 0 0), .checkOldBufferRelease, .startCompaction] ∧
    ∃ c, run (step doubling) (start (Shard.new 0 0 64)) [.intern [],
        .release (newHandleWithBuffer false 0 0), .startCompaction, .migrateBatch 1,
        .intern [120], .intern [], .startCompaction, .migrateBatch 1,
        .release (newHandleWithBuffer true 0 0), .checkOldBufferRelease, .startCompaction] =
          some c ∧
      (c.shard.buffers.get false).refCount = 0 ∧ bufferRefs c.held false = 1 ∧
      ∃ c', c.step doubling (.migrateBatch 1) = some c' ∧ c.shard.state = .compacting ∧
        c'.shard.state = .normal ∧ newHandleWithBuffer false 0 0 ∈ c.held ∧
        (newHandleWithBuffer false 0 0).bufferBit = !c.shard.currentBit := by
  refine ⟨by decide +kernel, ?_⟩
  have hrun : (run (step doubling) (start (Shard.new 0 0 64)) [.intern [],
      .release (newHandleWithBuffer false 0 0), .startCompaction, .migrateBatch 1,
      .intern [120], .intern [], .startCompaction, .migrateBatch 1,
      .release (newHandleWithBuffer true 0 0), .checkOldBufferRelease, .startCompaction]).isSome =
      true := by decide +kernel
  have hnext : ((get _ hrun).step doubling (.migrateBatch 1)).isSome := by
    decide +kernel +revert
  refine ⟨_, (some_get hrun).symm, by decide +kernel +revert, by decide +kernel +revert, _,
    (some_get hnext).symm, by decide +kernel +revert, by decide +kernel +revert,
    by decide +kernel +revert, by decide +kernel +revert⟩

end Holder

end Ze.AttrPool
