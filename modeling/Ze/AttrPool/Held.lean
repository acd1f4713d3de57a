import Mathlib.Data.List.Perm.Basic
import Ze.AttrPool.Steps

/-!
# A shard and the references its callers hold

`Held s held` is the invariant of a shard whose callers hold the handles `held`, one for each
reference, and give back only what they hold: the counters are exact, a held handle reads its slot
through the buffer of its bytes or through the old buffer of a compaction that has copied them
(`Held.bits`), and an index entry names a live slot that holds its key, but for the entry of the
empty key (`Held.indexed_nil`).
-/

namespace Ze.AttrPool

open Ze.Lib List

lemma int32_eq {z : ℤ} (h₁ : -2 ^ 31 ≤ z) (h₂ : z < 2 ^ 31) : int32 z = z :=
  Int.bmod_eq_of_le_mul_two (by norm_num; omega) (by norm_num; omega)

def slotRefs (held : List Handle) (i : ℕ) : ℕ := held.countP fun h => decide (h.shardSlot = i)

def bufferRefs (held : List Handle) (b : Bool) : ℕ := held.countP fun h => decide (h.bufferBit = b)

section

variable {held held' : List Handle} {h : Handle} {i : ℕ}

lemma slotRefs_cons (h : Handle) (held : List Handle) (i : ℕ) :
    slotRefs (h :: held) i = slotRefs held i + if h.shardSlot = i then 1 else 0 := by
  rw [slotRefs, countP_cons, slotRefs]
  simp only [decide_eq_true_eq]

lemma bufferRefs_cons (h : Handle) (held : List Handle) (b : Bool) :
    bufferRefs (h :: held) b = bufferRefs held b + if h.bufferBit = b then 1 else 0 := by
  rw [bufferRefs, countP_cons, bufferRefs]
  simp only [decide_eq_true_eq]

lemma slotRefs_le (held : List Handle) (i : ℕ) : slotRefs held i ≤ held.length :=
  countP_le_length

lemma bufferRefs_le (held : List Handle) (b : Bool) : bufferRefs held b ≤ held.length :=
  countP_le_length

lemma slotRefs_pos (hmem : h ∈ held) : 0 < slotRefs held h.shardSlot :=
  countP_pos_iff.2 ⟨h, hmem, decide_eq_true rfl⟩

lemma bufferBit_ne_of_bufferRefs {b : Bool} (h₀ : bufferRefs held b = 0) (hmem : h ∈ held) :
    h.bufferBit ≠ b := fun hb => by
  have : 0 < bufferRefs held b := countP_pos_iff.2 ⟨h, hmem, decide_eq_true hb⟩
  omega

lemma exists_of_slotRefs_pos (hpos : 0 < slotRefs held i) : ∃ h ∈ held, h.shardSlot = i := by
  obtain ⟨h, hmem, hi⟩ := countP_pos_iff.1 hpos
  exact ⟨h, hmem, of_decide_eq_true hi⟩

lemma of_evicted {ix : Index} {d k : Bytes} (hk : Function.update ix d none k = some h) :
    k ≠ d ∧ ix k = some h := by
  by_cases hkd : k = d
  · rw [hkd, Function.update_self] at hk
    cases hk
  · rw [Function.update_of_ne hkd] at hk
    exact ⟨hkd, hk⟩

end

namespace Shard

variable {s s' : Shard} {held held' : List Handle} {h : Handle} {i : ℕ} {sl : Slot} {d : Bytes}

def Reads (s : Shard) (h : Handle) (d : Bytes) : Prop :=
  ∃ sl, s.slots[h.shardSlot]? = some sl ∧ sl.Holds s.buffers h.bufferBit d

def Kept (s s' : Shard) (held : List Handle) : Prop :=
  ∀ h ∈ held, ∀ d, s.Reads h d → s'.Reads h d

/-- The handle reads its slot through a buffer that has the slot's bytes: that of the slot's
`liveBit`, or the old buffer of a compaction that has already copied the slot. -/
def GoodBit (s : Shard) (h : Handle) (sl : Slot) : Prop :=
  h.bufferBit = s.liveBit h.shardSlot sl ∨
    (s.state = .compacting ∧ h.bufferBit = !s.currentBit ∧ h.shardSlot < s.compactCursor ∧
      ∃ d, sl.Holds s.buffers s.currentBit d ∧ sl.Holds s.buffers (!s.currentBit) d)

/-- The invariant of a shard whose callers hold the references `held`. -/
structure Held (s : Shard) (held : List Handle) : Prop where
  layout : s.Layout
  few : held.length < 2 ^ 31
  own : ∀ h ∈ held, h = s.handle h.bufferBit h.shardSlot ∧ ∃ sl : Slot, s.slots[h.shardSlot]? =
    some sl
  slot_count : ∀ (i : ℕ) (sl : Slot), s.slots[i]? = some sl → sl.refCount = slotRefs held i
  dead_free : ∀ (i : ℕ) (sl : Slot), s.slots[i]? = some sl → sl.dead = true → slotRefs held i = 0
  buf_count : ∀ b, (s.buffers.get b).refCount = bufferRefs held b
  bits : ∀ h ∈ held, ∀ sl : Slot, s.slots[h.shardSlot]? = some sl → s.GoodBit h sl
  indexed : ∀ k h, s.index k = some h → k ≠ [] → ∃ sl : Slot, s.slots[h.shardSlot]? = some sl ∧
    sl.dead = false ∧ h = s.handle (s.liveBit h.shardSlot sl) h.shardSlot ∧
    sl.Holds s.buffers (s.liveBit h.shardSlot sl) k
  indexed_nil : ∀ h, s.index [] = some h → h = s.handle h.bufferBit h.shardSlot ∧
    ∃ sl : Slot, s.slots[h.shardSlot]? = some sl ∧
      (sl.dead = false → sl.length = 0 → h.bufferBit = s.liveBit h.shardSlot sl)

namespace Held

lemma perm (hh : s.Held held) (hp : held.Perm held') : s.Held held' where
  layout := hh.layout
  few := hp.length_eq ▸ hh.few
  own := fun h hmem => hh.own h (hp.mem_iff.2 hmem)
  slot_count := fun i sl hi => by rw [hh.slot_count i sl hi, slotRefs, slotRefs, hp.countP_eq]
  dead_free := fun i sl hi hd => by
    have := hh.dead_free i sl hi hd
    rwa [slotRefs, hp.countP_eq] at this
  buf_count := fun b => by rw [hh.buf_count b, bufferRefs, bufferRefs, hp.countP_eq]
  bits := fun h hmem => hh.bits h (hp.mem_iff.2 hmem)
  indexed := hh.indexed
  indexed_nil := hh.indexed_nil

lemma alive_of_mem (hh : s.Held held) (hmem : h ∈ held) (hsl : s.slots[h.shardSlot]? = some sl) :
    sl.dead = false := by
  by_contra hd
  have := hh.dead_free _ sl hsl (by simpa using hd)
  have := slotRefs_pos hmem
  omega

lemma exists_mem (hh : s.Held held) (hsl : s.slots[i]? = some sl) (hd : sl.dead = false) :
    ∃ h ∈ held, h.shardSlot = i := by
  have hpos := hh.layout.alive i sl hsl hd
  rw [hh.slot_count i sl hsl] at hpos
  exact exists_of_slotRefs_pos (by exact_mod_cast hpos)


end Held

/-! ## Reading through a held handle -/

lemma liveBit_of_lt_cursor (hlt : i < s.compactCursor) : s.liveBit i sl = s.currentBit := by
  refine liveBit_of_not_waiting ?_
  rw [waiting_iff]
  rintro ⟨-, hle, -⟩
  omega

lemma GoodBit.holds_iff (hg : s.GoodBit h sl) :
    sl.Holds s.buffers h.bufferBit d ↔ sl.Holds s.buffers (s.liveBit h.shardSlot sl) d := by
  rcases hg with hbit | ⟨-, hbit, hlt, e, hcur, hold⟩
  · rw [hbit]
  · rw [hbit, liveBit_of_lt_cursor hlt]
    constructor
    · exact fun hd => hd.unique hold ▸ hcur
    · exact fun hd => hd.unique hcur ▸ hold

lemma goodBit_of_eq (hbit : h.bufferBit = s.liveBit h.shardSlot sl) : s.GoodBit h sl :=
  .inl hbit

lemma validateHandle_eq_none (hl : s.Layout) (hown : h = s.handle h.bufferBit h.shardSlot)
    (hsl : s.slots[h.shardSlot]? = some sl) (hd : sl.dead = false) : s.validateHandle h = none := by
  have hidx : h.poolIdx = s.idx := by
    rw [hown]
    exact poolIdx_handle hl.idx_lt _ _
  have hvalid : h.isValid := by
    rw [Handle.isValid, hidx]
    exact decide_eq_true hl.idx_lt
  simp [validateHandle, hvalid, hidx, hsl, hd]

lemma Held.get_eq (hh : s.Held held) (hmem : h ∈ held) (hr : s.Reads h d) :
    s.get h = some (.ok d) := by
  obtain ⟨sl, hsl, hd⟩ := hr
  have hv := validateHandle_eq_none hh.layout (hh.own h hmem).1 hsl (hh.alive_of_mem hmem hsl)
  simp only [get, hv, hsl, hd.region_eq (hh.layout.small _), Option.map_some]

/-! ## Counters and marks -/

lemma Relabels.kept (hr : s.Relabels s') (held : List Handle) : s.Kept s' held := by
  rintro h - d ⟨sl, hsl, hd⟩
  have hlt := (List.getElem?_eq_some_iff.mp hsl).1
  obtain ⟨sl₀, h₀, hlen, hoff, -⟩ := hr.slots h.shardSlot _
    (getElem?_eq_getElem (by rw [hr.length]; exact hlt))
  obtain rfl : sl₀ = sl := Option.some.inj (h₀.symm.trans hsl)
  exact ⟨_, getElem?_eq_getElem (by rw [hr.length]; exact hlt),
    hd.congr hlen (by rw [hoff]) (hr.data _)⟩

lemma GoodBit.relabel {sl' : Slot} (hr : s.Relabels s') (hg : s.GoodBit h sl)
    (hlen : sl'.length = sl.length) (hoff : sl'.offsets = sl.offsets)
    (hm : sl'.migrated = sl.migrated) : s'.GoodBit h sl' := by
  rcases hg with hbit | ⟨hc, hbit, hlt, d, hcur, hold⟩
  · exact .inl (by rw [hr.liveBit hm, hbit])
  · refine .inr ⟨hr.state ▸ hc, by rw [hr.bit, hbit], hr.cursor ▸ hlt, d, ?_, ?_⟩
    · rw [hr.bit]
      exact hcur.congr hlen (by rw [hoff]) (hr.data _)
    · rw [hr.bit]
      exact hold.congr hlen (by rw [hoff]) (hr.data _)

lemma Held.relabel (hh : s.Held held) (hr : s.Relabels s') (hl' : s'.Layout)
    (hfew : held'.length < 2 ^ 31) (hmem : ∀ x ∈ held', x = s.handle x.bufferBit x.shardSlot ∧
      ∃ sl, s.slots[x.shardSlot]? = some sl ∧ s.GoodBit x sl)
    (hcount : ∀ (j : ℕ) (sl' : Slot), s'.slots[j]? = some sl' → sl'.refCount = slotRefs held' j ∧
      (sl'.dead → slotRefs held' j = 0))
    (hbuf : ∀ b, (s'.buffers.get b).refCount = bufferRefs held' b)
    (hindex : ∀ k x, s'.index k = some x → s.index k = some x)
    (hdead : ∀ (j : ℕ) (sl sl' : Slot), s.slots[j]? = some sl → s'.slots[j]? = some sl' →
      sl'.dead = false → sl.dead = false)
    (hkeep : ∀ k x, s'.index k = some x → k ≠ [] → ∀ sl', s'.slots[x.shardSlot]? = some sl' →
      sl'.dead = false) : s'.Held held' := by
  -- the slot of the new table that stands where `sl` stood
  have hslot : ∀ (j : ℕ) (sl : Slot), s.slots[j]? = some sl → ∃ sl' : Slot,
      s'.slots[j]? = some sl' ∧ sl'.length = sl.length ∧ sl'.offsets = sl.offsets ∧
        sl'.migrated = sl.migrated := by
    intro j sl hj
    have hlt : j < s'.slots.length := hr.length ▸ (List.getElem?_eq_some_iff.mp hj).1
    obtain ⟨sl₀, h₀, hrest⟩ := hr.slots j _ (getElem?_eq_getElem hlt)
    obtain rfl : sl₀ = sl := Option.some.inj (h₀.symm.trans hj)
    exact ⟨_, getElem?_eq_getElem hlt, hrest⟩
  refine ⟨hl', hfew, ?_, fun j sl' hj => (hcount j sl' hj).1, fun j sl' hj => (hcount j sl' hj).2,
    hbuf, ?_, ?_, ?_⟩
  · intro x hx
    obtain ⟨hown, sl, hsl, -⟩ := hmem x hx
    obtain ⟨sl', hsl', -⟩ := hslot _ sl hsl
    rw [hr.handle]
    exact ⟨hown, sl', hsl'⟩
  · intro x hx sl' hsl'
    obtain ⟨-, sl, hsl, hg⟩ := hmem x hx
    obtain ⟨sl₁, h₁, hlen, hoff, hm⟩ := hslot _ sl hsl
    obtain rfl : sl₁ = sl' := Option.some.inj (h₁.symm.trans hsl')
    exact hg.relabel hr hlen hoff hm
  · intro k x hx hk
    obtain ⟨sl, hsl, hd, hown, hholds⟩ := hh.indexed k x (hindex k x hx) hk
    obtain ⟨sl', hsl', hlen, hoff, hm⟩ := hslot _ sl hsl
    refine ⟨sl', hsl', hkeep k x hx hk sl' hsl', ?_, ?_⟩
    · rw [hr.handle, hr.liveBit hm]
      exact hown
    · rw [hr.liveBit hm]
      exact hholds.congr hlen (by rw [hoff]) (hr.data _)
  · intro x hx
    obtain ⟨hown, sl, hsl, hbit⟩ := hh.indexed_nil x (hindex _ x hx)
    obtain ⟨sl', hsl', hlen, -, hm⟩ := hslot _ sl hsl
    refine ⟨by rw [hr.handle]; exact hown, sl', hsl', fun hd' hlen' => ?_⟩
    rw [hr.liveBit hm]
    exact hbit (hdead _ sl sl' hsl hsl' hd') (hlen ▸ hlen')

lemma getElem?_bump (s : Shard) (h : Handle) (δ : ℤ) (j : ℕ) :
    (s.bump h δ).slots[j]? = (s.slots[j]?).map fun sl =>
      if h.shardSlot = j then { sl with refCount := int32 (sl.refCount + δ) } else sl := by
  rw [bump, getElem?_modify]
  split_ifs with hj
  · rfl
  · simp only [Option.map_eq_map, Option.map_id']

lemma exists_getElem?_bump {s : Shard} {h : Handle} {sl : Slot}
    (hsl : s.slots[h.shardSlot]? = some sl) (δ : ℤ) :
    ∃ sl₁, (s.bump h δ).slots[h.shardSlot]? = some sl₁ := by
  rw [getElem?_bump, hsl]
  exact ⟨_, rfl⟩

lemma refCount_bump (s : Shard) (h : Handle) (δ : ℤ) (b : Bool) :
    ((s.bump h δ).buffers.get b).refCount = if b = h.bufferBit then
      int32 ((s.buffers.get b).refCount + δ) else (s.buffers.get b).refCount := by
  rw [bump, Two.get_set]
  split_ifs with hb
  · rw [Buffer.refCount_addRefs, hb]
  · rfl

lemma Held.bump_one (hh : s.Held held) (hfew : held.length + 1 < 2 ^ 31)
    (hown : h = s.handle h.bufferBit h.shardSlot) (hsl : s.slots[h.shardSlot]? = some sl)
    (hd : sl.dead = false) (hg : s.GoodBit h sl) :
    (s.bump h 1).Held (h :: held) ∧ s.Kept (s.bump h 1) held := by
  have hr := relabels_bump s h 1
  have hcount : ∀ (j : ℕ) (sl' : Slot), (s.bump h 1).slots[j]? = some sl' →
      ∃ sl₀ : Slot, s.slots[j]? = some sl₀ ∧ sl'.dead = sl₀.dead ∧
        sl'.refCount = slotRefs (h :: held) j := by
    intro j sl' hj
    rw [getElem?_bump] at hj
    obtain ⟨sl₀, h₀, rfl⟩ := Option.map_eq_some_iff.1 hj
    have hc := hh.slot_count j sl₀ h₀
    have hle := slotRefs_le held j
    refine ⟨sl₀, h₀, by split_ifs <;> rfl, ?_⟩
    rw [slotRefs_cons]
    split_ifs with hji
    · simp only [hc]
      rw [int32_eq (by omega) (by omega)]
      norm_cast
    · exact_mod_cast hc
  have hdead0 : ∀ (j : ℕ) (sl₀ : Slot), s.slots[j]? = some sl₀ → sl₀.dead →
      slotRefs (h :: held) j = 0 := by
    intro j sl₀ h₀ hdj
    rw [slotRefs_cons, hh.dead_free j sl₀ h₀ hdj, if_neg]
    rintro rfl
    obtain rfl : sl = sl₀ := Option.some.inj (hsl.symm.trans h₀)
    rw [hd] at hdj
    cases hdj
  have hl' : (s.bump h 1).Layout := by
    refine hh.layout.relabel hr ?_ ?_ hh.layout.free_nodup
    · intro j sl₀ sl' h₀ hj hdj
      obtain ⟨sl₁, h₁, hde, hc⟩ := hcount j sl' hj
      obtain rfl : sl₁ = sl₀ := Option.some.inj (h₁.symm.trans h₀)
      refine ⟨hde.symm.trans hdj, ?_⟩
      have hpos := hh.layout.alive j sl₁ h₁ (hde.symm.trans hdj)
      rw [hh.slot_count j sl₁ h₁] at hpos
      rw [hc, slotRefs_cons]
      omega
    · intro j hj
      obtain ⟨sl₀, h₀, hdj⟩ := hh.layout.free_dead j hj
      rw [getElem?_bump, h₀]
      exact ⟨_, rfl, by split_ifs <;> exact hdj⟩
  refine ⟨hh.relabel hr hl' (by simpa using hfew) ?_ ?_ ?_ (fun _ _ hx => hx) ?_ ?_, hr.kept held⟩
  · intro x hx
    rcases mem_cons.1 hx with rfl | hx
    · exact ⟨hown, sl, hsl, hg⟩
    · obtain ⟨hox, slx, hslx⟩ := hh.own x hx
      exact ⟨hox, slx, hslx, hh.bits x hx slx hslx⟩
  · intro j sl' hj
    obtain ⟨sl₀, h₀, hde, hc⟩ := hcount j sl' hj
    exact ⟨hc, fun hdj => hdead0 j sl₀ h₀ (hde.symm.trans hdj)⟩
  · intro b
    have hle := bufferRefs_le held b
    rw [refCount_bump, hh.buf_count b, bufferRefs_cons]
    by_cases hb : b = h.bufferBit
    · rw [if_pos hb, if_pos hb.symm, int32_eq (by omega) (by omega)]
      norm_cast
    · rw [if_neg hb, if_neg (Ne.symm hb), Nat.add_zero]
  · intro j sl₀ sl' h₀ hj hdj
    obtain ⟨sl₁, h₁, hde, -⟩ := hcount j sl' hj
    obtain rfl : sl₁ = sl₀ := Option.some.inj (h₁.symm.trans h₀)
    exact hde.symm.trans hdj
  · intro k x hx hk sl' hj
    obtain ⟨slx, hslx, hdx, -⟩ := hh.indexed k x hx hk
    obtain ⟨sl₁, h₁, hde, -⟩ := hcount _ sl' hj
    obtain rfl : sl₁ = slx := Option.some.inj (h₁.symm.trans hslx)
    exact hde.trans hdx

variable {rest : List Handle}

section

variable (hh : s.Held (h :: rest))
include hh

lemma Held.slot_bump_neg {j : ℕ} {sl' : Slot} (hj : (s.bump h (-1)).slots[j]? = some sl') :
    ∃ sl₀ : Slot, s.slots[j]? = some sl₀ ∧ sl' = { sl₀ with refCount := slotRefs rest j } := by
  rw [getElem?_bump] at hj
  obtain ⟨sl₀, h₀, rfl⟩ := Option.map_eq_some_iff.1 hj
  have hc := hh.slot_count j sl₀ h₀
  have hle := slotRefs_le rest j
  have hfew := hh.few
  rw [length_cons] at hfew
  rw [slotRefs_cons] at hc
  refine ⟨sl₀, h₀, ?_⟩
  split_ifs with hji
  · rw [if_pos hji] at hc
    rw [hc, Nat.cast_add, Nat.cast_one, int32_eq (by omega) (by omega)]
    simp only [Int.add_neg_cancel_right]
  · rw [if_neg hji, Nat.add_zero] at hc
    rw [← hc]

lemma Held.buf_bump_neg (b : Bool) :
    ((s.bump h (-1)).buffers.get b).refCount = bufferRefs rest b := by
  have hc := hh.buf_count b
  have hle := bufferRefs_le rest b
  have hfew := hh.few
  rw [length_cons] at hfew
  rw [bufferRefs_cons] at hc
  rw [refCount_bump]
  by_cases hb : b = h.bufferBit
  · rw [if_pos hb.symm] at hc
    rw [if_pos hb, hc, Nat.cast_add, Nat.cast_one, int32_eq (by omega) (by omega),
      Int.add_neg_cancel_right]
  · rw [if_neg (Ne.symm hb), Nat.add_zero] at hc
    rw [if_neg hb, hc]

lemma Held.release_more (hmore : slotRefs rest h.shardSlot ≠ 0) : (s.bump h (-1)).Held rest := by
  have hr := relabels_bump s h (-1)
  have hpos : ∀ (j : ℕ) (sl₀ : Slot), s.slots[j]? = some sl₀ → sl₀.dead = false →
      0 < slotRefs rest j := by
    intro j sl₀ h₀ hd
    have hp := hh.layout.alive j sl₀ h₀ hd
    rw [hh.slot_count j sl₀ h₀, slotRefs_cons] at hp
    split_ifs at hp with hji
    · subst hji
      omega
    · omega
  have hfew := hh.few
  rw [length_cons] at hfew
  refine hh.relabel hr (hh.layout.relabel hr ?_ ?_ hh.layout.free_nodup) (by omega) ?_ ?_
    hh.buf_bump_neg (fun _ _ hx => hx) ?_ ?_
  · intro j sl₀ sl' h₀ hj hd
    obtain ⟨sl₁, h₁, rfl⟩ := hh.slot_bump_neg hj
    obtain rfl : sl₁ = sl₀ := Option.some.inj (h₁.symm.trans h₀)
    exact ⟨hd, Int.natCast_pos.2 (hpos j sl₁ h₁ hd)⟩
  · intro j hj
    obtain ⟨sl₀, h₀, hdj⟩ := hh.layout.free_dead j hj
    rw [getElem?_bump, h₀]
    exact ⟨_, rfl, by split_ifs <;> exact hdj⟩
  · intro x hx
    have hx' := mem_cons_of_mem h hx
    obtain ⟨hox, slx, hslx⟩ := hh.own x hx'
    exact ⟨hox, slx, hslx, hh.bits x hx' slx hslx⟩
  · intro j sl' hj
    obtain ⟨sl₁, h₁, rfl⟩ := hh.slot_bump_neg hj
    refine ⟨rfl, fun hd => ?_⟩
    have := hh.dead_free j sl₁ h₁ hd
    rw [slotRefs_cons] at this
    omega
  · intro j sl₀ sl' h₀ hj hd
    obtain ⟨sl₁, h₁, rfl⟩ := hh.slot_bump_neg hj
    obtain rfl : sl₁ = sl₀ := Option.some.inj (h₁.symm.trans h₀)
    exact hd
  · intro k x hx hk sl' hj
    obtain ⟨slx, hslx, hdx, -⟩ := hh.indexed k x hx hk
    obtain ⟨sl₁, h₁, rfl⟩ := hh.slot_bump_neg hj
    obtain rfl : sl₁ = slx := Option.some.inj (h₁.symm.trans hslx)
    exact hdx

lemma Held.release_last (hlast : slotRefs rest h.shardSlot = 0) :
    ∃ s', (s.bump h (-1)).retireSlot h.shardSlot h.bufferBit = some s' ∧ s'.Held rest ∧
      s.Relabels s' := by
  have hmem : h ∈ h :: rest := mem_cons_self
  obtain ⟨hown, sl, hsl⟩ := hh.own h hmem
  have hd := hh.alive_of_mem hmem hsl
  obtain ⟨d, hlive⟩ := hh.layout.stored _ sl hsl ((hh.layout.live_iff hsl).mpr hd)
  have hread : sl.Holds s.buffers h.bufferBit d := ((hh.bits h hmem sl hsl).holds_iff).mpr hlive
  have hrb := relabels_bump s h (-1)
  -- the slot whose counter has just reached zero
  obtain ⟨sl₁, hsl₁⟩ := exists_getElem?_bump hsl (-1)
  obtain ⟨sl₀, h₀, hsl₁eq⟩ := hh.slot_bump_neg hsl₁
  obtain rfl : sl₀ = sl := Option.some.inj (h₀.symm.trans hsl)
  have hread₁ : sl₁.Holds (s.bump h (-1)).buffers h.bufferBit d :=
    hread.congr (by rw [hsl₁eq]) (by rw [hsl₁eq]) (hrb.data _)
  have hret := retireSlot_spec hsl₁ (hread₁.region_eq (by rw [hrb.data]; exact hh.layout.small _))
  have hi := (List.getElem?_eq_some_iff.mp hsl₁).1
  refine ⟨_, hret, ?_⟩
  set ix := if 0 < ((s.bump h (-1)).buffers.get h.bufferBit).data.length then
    Function.update (s.bump h (-1)).index d none else (s.bump h (-1)).index with hix
  set s' : Shard := { s.bump h (-1) with
    slots := (s.bump h (-1)).slots.set h.shardSlot { sl₁ with dead := true }
    freeSlots := h.shardSlot :: (s.bump h (-1)).freeSlots
    index := ix }
  have hr : s.Relabels s' := hrb.trans (relabels_retire hsl₁ _ _)
  -- a slot of the new table: the retired one, or one with its counter
  have hslots : ∀ (j : ℕ) (sl' : Slot), s'.slots[j]? = some sl' → sl'.refCount = slotRefs rest j ∧
      ((j = h.shardSlot ∧ sl'.dead) ∨
       (j ≠ h.shardSlot ∧ ∃ slj : Slot, s.slots[j]? = some slj ∧ sl'.dead = slj.dead)) := by
    intro j sl' hj
    by_cases hji : h.shardSlot = j
    · subst hji
      simp only [s', getElem?_set_self hi, Option.some.injEq] at hj
      refine ⟨?_, .inl ⟨rfl, ?_⟩⟩
      · rw [← hj, hsl₁eq]
      · rw [← hj]
    · simp only [s', getElem?_set_ne hji] at hj
      obtain ⟨slj, hslj, rfl⟩ := hh.slot_bump_neg hj
      exact ⟨rfl, .inr ⟨Ne.symm hji, slj, hslj, rfl⟩⟩
  have hcount0 : ∀ (j : ℕ) (slj : Slot), s.slots[j]? = some slj → slj.dead →
      slotRefs rest j = 0 := by
    intro j slj hslj hdj
    have := hh.dead_free j slj hslj hdj
    rw [slotRefs_cons] at this
    omega
  have hfew := hh.few
  rw [length_cons] at hfew
  refine ⟨hh.relabel hr ?_ (by omega) ?_ ?_ hh.buf_bump_neg ?_ ?_ ?_, hr⟩
  · refine hh.layout.relabel hr ?_ ?_ ?_
    · intro j slj sl' hslj hj hdj
      obtain ⟨hc, ⟨-, hd'⟩ | ⟨hne, sl₂, h₂, hde⟩⟩ := hslots j sl' hj
      · rw [hd'] at hdj
        cases hdj
      · obtain rfl : sl₂ = slj := Option.some.inj (h₂.symm.trans hslj)
        have hdj' := hde.symm.trans hdj
        have hpos := hh.layout.alive j sl₂ h₂ hdj'
        rw [hh.slot_count j sl₂ h₂, slotRefs_cons, if_neg (Ne.symm hne), Nat.add_zero] at hpos
        exact ⟨hdj', by rw [hc]; exact hpos⟩
    · intro j hj
      rcases mem_cons.mp hj with rfl | hj
      · exact ⟨_, getElem?_set_self hi, rfl⟩
      · obtain ⟨slj, hslj, hdj⟩ := hh.layout.free_dead j hj
        have hne : h.shardSlot ≠ j := by
          rintro rfl
          obtain rfl : sl₀ = slj := Option.some.inj (hsl.symm.trans hslj)
          rw [hd] at hdj
          cases hdj
        refine ⟨slj, ?_, hdj⟩
        simp only [s', getElem?_set_ne hne, getElem?_bump, hslj, Option.map_some, if_neg hne]
    · refine nodup_cons.mpr ⟨?_, hh.layout.free_nodup⟩
      intro hfree
      obtain ⟨slj, hslj, hdj⟩ := hh.layout.free_dead _ hfree
      obtain rfl : sl₀ = slj := Option.some.inj (hsl.symm.trans hslj)
      rw [hd] at hdj
      cases hdj
  · intro x hx
    have hx' := mem_cons_of_mem h hx
    obtain ⟨hox, slx, hslx⟩ := hh.own x hx'
    exact ⟨hox, slx, hslx, hh.bits x hx' slx hslx⟩
  · intro j sl' hj
    obtain ⟨hc, ⟨rfl, -⟩ | ⟨-, slj, hslj, hde⟩⟩ := hslots j sl' hj
    · exact ⟨hc, fun _ => hlast⟩
    · exact ⟨hc, fun hdj => hcount0 j slj hslj (hde.symm.trans hdj)⟩
  · intro k x hx
    simp only [s', hix] at hx
    split_ifs at hx
    · exact (of_evicted hx).2
    · exact hx
  · intro j slj sl' hslj hj hdj
    obtain ⟨-, ⟨-, hd'⟩ | ⟨-, sl₂, h₂, hde⟩⟩ := hslots j sl' hj
    · rw [hd'] at hdj
      cases hdj
    · obtain rfl : sl₂ = slj := Option.some.inj (h₂.symm.trans hslj)
      exact hde.symm.trans hdj
  · intro k x hx hk sl' hj
    obtain ⟨-, ⟨hji, -⟩ | ⟨-, slj, hslj, hde⟩⟩ := hslots _ sl' hj
    · -- the entry would name the retired slot, but then it was under `d` and has been evicted
      simp only [s', hix] at hx
      split_ifs at hx with hb
      · obtain ⟨hkd, hx⟩ := of_evicted hx
        obtain ⟨slx, hslx, -, -, hholds⟩ := hh.indexed k x hx hk
        rw [hji] at hslx hholds
        obtain rfl : sl₀ = slx := Option.some.inj (hsl.symm.trans hslx)
        exact absurd (hholds.unique hlive) hkd
      · obtain ⟨slx, hslx, -, -, hholds⟩ := hh.indexed k x hx hk
        rw [hji] at hslx hholds
        obtain rfl : sl₀ = slx := Option.some.inj (hsl.symm.trans hslx)
        obtain rfl := hholds.unique hlive
        have := hread.2.le_length
        have := length_pos_iff.mpr hk
        rw [hrb.data] at hb
        omega
    · have hx' : s.index k = some x := by
        simp only [s', hix] at hx
        split_ifs at hx
        · exact (of_evicted hx).2
        · exact hx
      obtain ⟨slx, hslx, hdx, -⟩ := hh.indexed k x hx' hk
      obtain rfl : slj = slx := Option.some.inj (hslj.symm.trans hslx)
      exact hde.trans hdx

lemma Held.release : ∃ s', s.release h = some (s', none) ∧ s'.Held rest ∧ s.Relabels s' := by
  have hmem : h ∈ h :: rest := mem_cons_self
  obtain ⟨hown, sl, hsl⟩ := hh.own h hmem
  have hv := validateHandle_eq_none hh.layout hown hsl (hh.alive_of_mem hmem hsl)
  obtain ⟨sl₁, hsl₁⟩ := exists_getElem?_bump hsl (-1)
  have hc : sl₁.refCount = slotRefs rest h.shardSlot := by
    obtain ⟨sl₀, -, rfl⟩ := hh.slot_bump_neg hsl₁
    rfl
  simp only [Shard.release, validateHandleForRelease, hv, hsl₁, hc]
  by_cases hlast : slotRefs rest h.shardSlot = 0
  · obtain ⟨s', hs', hh', hr⟩ := hh.release_last hlast
    refine ⟨s', ?_, hh', hr⟩
    rw [if_pos (by omega), hs', Option.map_some]
  · refine ⟨s.bump h (-1), ?_, hh.release_more hlast, relabels_bump s h (-1)⟩
    rw [if_neg (by omega)]

end

end Shard

end Ze.AttrPool
