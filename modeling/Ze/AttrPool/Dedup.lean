import Ze.AttrPool.Ledger

/-!
# The dedup index of a shard

`IndexExact s`: the index has an entry for every live slot, under the slot's content and naming the
slot where its bytes live, and no other entry. `Indexed` is the half that makes contents unique
(`Indexed.unique`, `Indexed.intern_live`). `Exact` names the two places where the source loses an
entry:

* `retireSlot` evicts what the handle's own buffer holds, and nothing when that buffer has no bytes;
* `rebuildIndex` drops the entries of slots that were appended since the compaction started.
-/

namespace Ze.AttrPool

open Ze.Lib List
open Function (update_of_ne)

namespace Shard

variable {s s' : Shard} {h : Handle} {i j : ℕ} {sl : Slot} {d data : Bytes}

/-- The index has exactly one entry for each live slot, under its content and naming it in the
buffer where its bytes live, and no other entry.
Source: pool.go shard.index, "Dedup index: data content → Handle" -/
structure IndexExact (s : Shard) : Prop where
  entry_of_live : ∀ (i : ℕ) (sl : Slot), s.slots[i]? = some sl → sl.live = true →
    ∃ d, sl.Holds s.buffers (s.liveBit i sl) d ∧ s.index d = some (s.handle (s.liveBit i sl) i)
  live_of_entry : ∀ k h, s.index k = some h → ∃ (i : ℕ) (sl : Slot), s.slots[i]? = some sl ∧
    sl.live = true ∧ h = s.handle (s.liveBit i sl) i ∧ sl.Holds s.buffers (s.liveBit i sl) k

/-- The content of every live slot is indexed under it, in the buffer where its bytes live.
Source: pool.go shard.index -/
def Indexed (s : Shard) : Prop :=
  ∀ (i : ℕ) (sl : Slot), s.slots[i]? = some sl → sl.live = true →
    ∃ d, sl.Holds s.buffers (s.liveBit i sl) d ∧ s.index d = some (s.handle (s.liveBit i sl) i)

lemma IndexExact.indexed (he : s.IndexExact) : s.Indexed := he.entry_of_live

/-! ## What the index gives -/

lemma Indexed.index_eq (hx : s.Indexed) (hi : s.slots[i]? = some sl)
    (hlive : sl.live) (hd : sl.Holds s.buffers (s.liveBit i sl) d) :
    s.index d = some (s.handle (s.liveBit i sl) i) := by
  obtain ⟨e, hholds, hix⟩ := hx i sl hi hlive
  rw [hd.unique hholds]
  exact hix

variable {sl' : Slot} {δ : ℤ} {ix : Index}

lemma Indexed.unique (hl : s.Layout) (hx : s.Indexed)
    (hi : s.slots[i]? = some sl) (hlive : sl.live)
    (hd : sl.Holds s.buffers (s.liveBit i sl) d) (hj : s.slots[j]? = some sl')
    (hlive' : sl'.live) (hd' : sl'.Holds s.buffers (s.liveBit j sl') d) : i = j := by
  have h₁ := hx.index_eq hi hlive hd
  have h₂ := hx.index_eq hj hlive' hd'
  have heq := congrArg Handle.shardSlot (Option.some.inj (h₁.symm.trans h₂))
  rwa [shardSlot_handle _ _ (hl.slot_lt hi), shardSlot_handle _ _ (hl.slot_lt hj)] at heq

lemma Indexed.lookup_eq (hl : s.Layout) (hx : s.Indexed) (hi : s.slots[i]? = some sl)
    (hlive : sl.live) (hd : sl.Holds s.buffers (s.liveBit i sl) data) :
    s.lookup data = some (some (s.handle (s.liveBit i sl) i)) := by
  simp only [Shard.lookup, hx.index_eq hi hlive hd, shardSlot_handle _ _ (hl.slot_lt hi), hi, hlive,
    if_true]

/-- Interning the content of a live slot allocates nothing: only the counters move. -/
lemma Indexed.intern_live (g : AppendGrowth) (hl : s.Layout) (hx : s.Indexed)
    (hi : s.slots[i]? = some sl) (hlive : sl.live)
    (hd : sl.Holds s.buffers (s.liveBit i sl) data) :
    s.intern g false data =
      some (s.bump (s.handle (s.liveBit i sl) i) 1, .ok (s.handle (s.liveBit i sl) i)) := by
  simp only [intern, Bool.false_eq_true, if_false, hx.lookup_eq hl hi hlive hd, Option.bind_some]

lemma IndexExact.lookup (hl : s.Layout) (he : s.IndexExact) (data : Bytes) :
    s.lookup data = some none ∨
    ∃ (i : ℕ) (sl : Slot), s.slots[i]? = some sl ∧ sl.live ∧
      sl.Holds s.buffers (s.liveBit i sl) data ∧
      s.lookup data = some (some (s.handle (s.liveBit i sl) i)) := by
  cases hix : s.index data with
  | none => exact .inl (by simp only [Shard.lookup, hix])
  | some h =>
    obtain ⟨i, sl, hi, hlive, rfl, hd⟩ := he.live_of_entry data h hix
    exact .inr ⟨i, sl, hi, hlive, hd, he.indexed.lookup_eq hl hi hlive hd⟩

/-! ## Steps that move no bytes -/

lemma Indexed.relabel (hx : s.Indexed) (hr : s.Relabels s')
    (hlive : ∀ (j : ℕ) (sl sl' : Slot), s.slots[j]? = some sl → s'.slots[j]? = some sl' →
      sl'.live → sl.live ∧
        ∀ k, sl.Holds s.buffers (s.liveBit j sl) k → s'.index k = s.index k) : s'.Indexed := by
  intro j sl' hj hlj
  obtain ⟨sl, hsl, hlen, hoff, hm⟩ := hr.slots j sl' hj
  obtain ⟨hlsl, hsame⟩ := hlive j sl sl' hsl hj hlj
  obtain ⟨d, hd, hix⟩ := hx j sl hsl hlsl
  rw [hr.liveBit hm, hr.handle]
  exact ⟨d, hd.congr hlen (by rw [hoff]) (hr.data _), by rw [hsame d hd]; exact hix⟩

lemma IndexExact.relabel (he : s.IndexExact) (hr : s.Relabels s') (hx' : s'.Indexed)
    (hentry : ∀ k x, s'.index k = some x → s.index k = some x ∧
      ∀ (j : ℕ) (sl sl' : Slot), s.slots[j]? = some sl → s'.slots[j]? = some sl' →
        sl.live → sl.Holds s.buffers (s.liveBit j sl) k → sl'.live) :
    s'.IndexExact := by
  refine ⟨hx', ?_⟩
  intro k x hx
  obtain ⟨hx, hstill⟩ := hentry k x hx
  obtain ⟨j, sl, hsl, hlsl, rfl, hd⟩ := he.live_of_entry k x hx
  have hlt : j < s'.slots.length := hr.length ▸ (List.getElem?_eq_some_iff.mp hsl).1
  have hj := getElem?_eq_getElem hlt
  obtain ⟨sl₀, h₀, hlen, hoff, hm⟩ := hr.slots j _ hj
  obtain rfl : sl₀ = sl := Option.some.inj (h₀.symm.trans hsl)
  refine ⟨j, _, hj, hstill j sl₀ _ hsl hj hlsl hd, ?_, ?_⟩
  · rw [hr.liveBit hm, hr.handle]
  · rw [hr.liveBit hm]
    exact hd.congr hlen (by rw [hoff]) (hr.data _)

lemma freeSlots_bump (s : Shard) (h : Handle) (δ : ℤ) : (s.bump h δ).freeSlots = s.freeSlots := rfl

lemma slot_of_bump (hj : (s.bump h δ).slots[j]? = some sl') :
    ∃ sl : Slot, s.slots[j]? = some sl ∧ sl'.dead = sl.dead ∧
      sl'.refCount = if h.shardSlot = j then int32 (sl.refCount + δ) else sl.refCount := by
  rw [getElem?_bump] at hj
  obtain ⟨sl, hsl, rfl⟩ := Option.map_eq_some_iff.1 hj
  refine ⟨sl, hsl, ?_⟩
  split_ifs <;> exact ⟨rfl, rfl⟩

lemma Layout.bump (hl : s.Layout)
    (hpos : ∀ sl : Slot, s.slots[h.shardSlot]? = some sl → sl.dead = false →
      0 < int32 (sl.refCount + δ)) : (s.bump h δ).Layout := by
  refine hl.relabel (relabels_bump s h δ) ?_ ?_ hl.free_nodup
  · intro j sl sl' hsl hj hd
    obtain ⟨sl₀, h₀, hde, hc⟩ := slot_of_bump hj
    obtain rfl : sl₀ = sl := Option.some.inj (h₀.symm.trans hsl)
    refine ⟨hde.symm.trans hd, ?_⟩
    rw [hc]
    split_ifs with hji
    · subst hji
      exact hpos sl₀ hsl (hde.symm.trans hd)
    · exact hl.alive j sl₀ hsl (hde.symm.trans hd)
  · intro j hj
    obtain ⟨sl, hsl, hd⟩ := hl.free_dead j hj
    rw [getElem?_bump, hsl]
    exact ⟨_, rfl, by split_ifs <;> exact hd⟩

lemma live_bump (hl : s.Layout) (hl' : (s.bump h δ).Layout)
    (hsl : s.slots[j]? = some sl) (hj : (s.bump h δ).slots[j]? = some sl') :
    sl'.live ↔ sl.live := by
  obtain ⟨sl₀, h₀, hde, -⟩ := slot_of_bump hj
  obtain rfl : sl₀ = sl := Option.some.inj (h₀.symm.trans hsl)
  rw [hl'.live_iff hj, hl.live_iff hsl, hde]

lemma Indexed.bump (hl : s.Layout) (hx : s.Indexed) (hl' : (s.bump h δ).Layout) :
    (s.bump h δ).Indexed :=
  hx.relabel (relabels_bump s h δ) fun _ _ _ hsl hj hlive =>
    ⟨(live_bump hl hl' hsl hj).1 hlive, fun _ _ => rfl⟩

lemma IndexExact.bump (hl : s.Layout) (he : s.IndexExact)
    (hl' : (s.bump h δ).Layout) : (s.bump h δ).IndexExact := by
  refine he.relabel (relabels_bump s h δ) (he.indexed.bump hl hl') ?_
  exact fun k x hx => ⟨hx, fun j sl sl' hsl hj hlive _ => (live_bump hl hl' hsl hj).2 hlive⟩

/-- What giving back the last reference to a slot does, when the handle reads `d` from it: the slot
is dead, the others are as they were, and the entry of `d` goes unless the handle's buffer holds no
bytes.
Source: pool.go release, retireSlot -/
structure Retires (s : Shard) (h : Handle) (d : Bytes) (s' : Shard) : Prop where
  relabels : s.Relabels s'
  layout : s'.Layout
  slots : ∀ (j : ℕ) (sl' : Slot), s'.slots[j]? = some sl' →
    (j = h.shardSlot ∧ sl'.dead = true) ∨
    (j ≠ h.shardSlot ∧ ∃ slj : Slot, s.slots[j]? = some slj ∧ sl'.dead = slj.dead ∧
      sl'.refCount = slj.refCount)
  index : s'.index = if 0 < (s.buffers.get h.bufferBit).data.length then
    Function.update s.index d none else s.index

lemma retires_of_region (hl : s.Layout) (hsl : s.slots[h.shardSlot]? = some sl)
    (hd : sl.dead = false)
    (hregion : (s.buffers.get h.bufferBit).region (sl.offsets.get h.bufferBit) sl.length = some d) :
    ∃ s', (s.bump h (-1)).retireSlot h.shardSlot h.bufferBit = some s' ∧ s.Retires h d s' := by
  have hrb := relabels_bump s h (-1)
  obtain ⟨sl₁, hsl₁⟩ := exists_getElem?_bump hsl (-1)
  obtain ⟨sl₀, h₀, hlen, hoff, -⟩ := hrb.slots _ sl₁ hsl₁
  obtain rfl : sl₀ = sl := Option.some.inj (h₀.symm.trans hsl)
  have hregion₁ : ((s.bump h (-1)).buffers.get h.bufferBit).region (sl₁.offsets.get h.bufferBit)
      sl₁.length = some d := by
    rw [hlen, hoff, Shard.bump, Two.get_set_self]
    exact hregion
  have hret := retireSlot_spec hsl₁ hregion₁
  have hi := (List.getElem?_eq_some_iff.mp hsl₁).1
  refine ⟨_, hret, ?_⟩
  have hr := hrb.trans (relabels_retire hsl₁
    (if 0 < ((s.bump h (-1)).buffers.get h.bufferBit).data.length then
      Function.update (s.bump h (-1)).index d none else (s.bump h (-1)).index)
    (h.shardSlot :: (s.bump h (-1)).freeSlots))
  -- a slot of the new table: the retired one, or an untouched one
  have hslots : ∀ (j : ℕ) (sl' : Slot),
      ((s.bump h (-1)).slots.set h.shardSlot { sl₁ with dead := true })[j]? = some sl' →
      (j = h.shardSlot ∧ sl'.dead) ∨
      (j ≠ h.shardSlot ∧ ∃ slj : Slot, s.slots[j]? = some slj ∧ sl'.dead = slj.dead ∧
        sl'.refCount = slj.refCount) := by
    intro j sl' hj
    by_cases hji : h.shardSlot = j
    · subst hji
      simp only [getElem?_set_self hi, Option.some.injEq] at hj
      exact .inl ⟨rfl, by rw [← hj]⟩
    · simp only [getElem?_set_ne hji] at hj
      obtain ⟨slj, hslj, hde, hc⟩ := slot_of_bump hj
      rw [if_neg hji] at hc
      exact .inr ⟨Ne.symm hji, slj, hslj, hde, hc⟩
  have hnotfree : h.shardSlot ∉ s.freeSlots := by
    intro hmem
    obtain ⟨slj, hslj, hdj⟩ := hl.free_dead _ hmem
    obtain rfl : sl₀ = slj := Option.some.inj (hsl.symm.trans hslj)
    rw [hd] at hdj
    cases hdj
  refine ⟨hr, ?_, hslots, by rw [hrb.data]; rfl⟩
  refine hl.relabel hr ?_ ?_ (nodup_cons.mpr ⟨hnotfree, hl.free_nodup⟩)
  · intro j slj sl' hslj hj hdj
    rcases hslots j sl' hj with ⟨-, hd'⟩ | ⟨-, sl₂, h₂, hde, hc⟩
    · rw [hd'] at hdj
      cases hdj
    · obtain rfl : sl₂ = slj := Option.some.inj (h₂.symm.trans hslj)
      exact ⟨hde.symm.trans hdj, by rw [hc]; exact hl.alive j sl₂ hslj (hde.symm.trans hdj)⟩
  · intro j hj
    rcases mem_cons.mp hj with rfl | hj
    · exact ⟨_, getElem?_set_self hi, rfl⟩
    · obtain ⟨slj, hslj, hdj⟩ := hl.free_dead j hj
      have hne : h.shardSlot ≠ j := fun hji => hnotfree (hji ▸ hj)
      refine ⟨slj, ?_, hdj⟩
      simp only [getElem?_set_ne hne, getElem?_bump, hslj, Option.map_some, if_neg hne]

lemma Indexed.retire (hl : s.Layout) (hx : s.Indexed) (hsl : s.slots[h.shardSlot]? = some sl)
    (hd : sl.dead = false) (hcontent : sl.Holds s.buffers (s.liveBit h.shardSlot sl) d)
    (hret : s.Retires h d s') : s'.Indexed := by
  refine hx.relabel hret.relabels ?_
  intro j slj sl' hslj hj hlj
  rcases hret.slots j sl' hj with ⟨-, hd'⟩ | ⟨hne, sl₂, h₂, hde, -⟩
  · rw [(hret.layout.live_iff hj).1 hlj] at hd'
    cases hd'
  · obtain rfl : sl₂ = slj := Option.some.inj (h₂.symm.trans hslj)
    have hlive : sl₂.live :=
      (hl.live_iff hslj).2 (hde.symm.trans ((hret.layout.live_iff hj).1 hlj))
    refine ⟨hlive, fun k hk => ?_⟩
    have hkd : k ≠ d := by
      rintro rfl
      exact hne (hx.unique hl hslj hlive hk hsl ((hl.live_iff hsl).2 hd) hcontent)
    rw [hret.index]
    split_ifs
    · exact update_of_ne hkd _ _
    · rfl

lemma IndexExact.retire (hl : s.Layout) (he : s.IndexExact)
    (hsl : s.slots[h.shardSlot]? = some sl) (hd : sl.dead = false)
    (hcontent : sl.Holds s.buffers (s.liveBit h.shardSlot sl) d) (hret : s.Retires h d s')
    (hbytes : 0 < (s.buffers.get h.bufferBit).data.length) : s'.IndexExact := by
  refine he.relabel hret.relabels (he.indexed.retire hl hsl hd hcontent hret) ?_
  intro k x hx
  rw [hret.index, if_pos hbytes] at hx
  obtain ⟨hkd, hx⟩ := of_evicted hx
  refine ⟨hx, fun j slj sl' hslj hj hlj hk => ?_⟩
  rcases hret.slots j sl' hj with ⟨rfl, -⟩ | ⟨-, sl₂, h₂, hde, -⟩
  · obtain rfl : sl = slj := Option.some.inj (hsl.symm.trans hslj)
    exact absurd (hk.unique hcontent) hkd
  · obtain rfl : sl₂ = slj := Option.some.inj (h₂.symm.trans hslj)
    exact (hret.layout.live_iff hj).2 (hde.trans ((hl.live_iff hslj).1 hlj))

/-! ## Steps that move bytes -/

/-- A live slot that `rebuildIndex` skips although its bytes are in the current buffer: it was
appended since the compaction started.
Source: pool.go rebuildIndex, "During compaction, skip unmigrated slots" -/
def dropped (s : Shard) (i : ℕ) (sl : Slot) : Bool :=
  sl.live && s.skipped i sl && decide (s.compactSlotCount ≤ i)

lemma waiting_of_skipped (hlive : sl.live) (hskip : s.skipped i sl)
    (hkeep : s.dropped i sl = false) : s.waiting i sl := by
  rw [dropped, hlive, hskip, Bool.true_and, Bool.true_and, decide_eq_false_iff_not] at hkeep
  simp only [skipped, Bool.and_eq_true, decide_eq_true_eq, Bool.not_eq_true'] at hskip
  exact waiting_iff.2 ⟨hskip.1.1, hskip.1.2, by omega, hskip.2⟩

lemma Indexed.grown (hx : s.Indexed) {n : ℕ} (hgr : s.Grown n ix)
    (hkeep : ¬ s.cur.pos + n ≤ s.cur.cap → ∀ (j : ℕ) (sl : Slot), s.slots[j]? = some sl →
      s.dropped j sl = false) (hi : s.slots[i]? = some sl) (hlive : sl.live)
    (hd : sl.Holds s.buffers (s.liveBit i sl) d) : ix d = some (s.handle (s.liveBit i sl) i) := by
  have hix := hx.index_eq hi hlive hd
  rcases hgr with ⟨-, rfl⟩ | ⟨hfull, hr⟩
  · exact hix
  · rcases hr d with ⟨j, sl', hj, hf, hk⟩ | ⟨hnone, hk⟩
    · -- a slot filed under the content of slot `i` is slot `i`
      rw [Nat.zero_add] at hf hk
      have hbit := liveBit_of_not_waiting (not_waiting_of_not_skipped hf.2.1)
      have hk' := hx.index_eq hj hf.1 (by rw [hbit]; exact hf.2.2)
      rw [hbit] at hk'
      rw [hk, ← hk', hix]
    · have hskip : s.skipped i sl := by
        by_contra hskip
        rw [Bool.not_eq_true] at hskip
        refine hnone i sl hi ?_
        rw [Nat.zero_add]
        rw [liveBit_of_not_waiting (not_waiting_of_not_skipped hskip)] at hd
        exact ⟨hlive, hskip, hd⟩
      have hw := waiting_of_skipped hlive hskip (hkeep hfull i sl hi)
      rw [liveBit_of_waiting hw] at hix ⊢
      rw [hk, preserved, if_pos (waiting_iff.1 hw).1, hix]
      simp only [Option.filter_some, bufferBit_handle, BEq.rfl, if_true]

lemma Placed.handle (hp : s.Placed data s' i sl' ix) (b : Bool) (j : ℕ) :
    s'.handle b j = s.handle b j := by
  rw [Shard.handle, Shard.handle, hp.id, hp.idx]

lemma Indexed.placed (hl : s.Layout) (hx : s.Indexed)
    (hp : s.Placed data s' i sl' ix) (hgr : s.Grown data.length ix)
    (hmiss : s.lookup data = some none)
    (hkeep : ¬ s.cur.pos + data.length ≤ s.cur.cap → ∀ (j : ℕ) (sl : Slot),
      s.slots[j]? = some sl → s.dropped j sl = false) : s'.Indexed := by
  intro j slj hj hlj
  by_cases hji : j = i
  · subst hji
    obtain rfl : sl' = slj := Option.some.inj (hp.taken.slot.symm.trans hj)
    rw [hp.liveBit_new hl, hp.handle]
    exact ⟨data, hp.holds, by rw [hp.index, Function.update_self]⟩
  · rw [hp.taken.others j hji] at hj
    obtain ⟨d, hd, hix⟩ := hx j slj hj hlj
    rw [hp.liveBit, hp.handle]
    refine ⟨d, hp.holds_other hd, ?_⟩
    have hne : d ≠ data := by
      rintro rfl
      rw [hx.lookup_eq hl hj hlj hd] at hmiss
      cases hmiss
    rw [hp.index, update_of_ne hne]
    exact hx.grown hgr hkeep hj hlj hd

lemma IndexExact.placed (hl : s.Layout) (he : s.IndexExact)
    (hp : s.Placed data s' i sl' ix) (hgr : s.Grown data.length ix)
    (hmiss : s.lookup data = some none)
    (hkeep : ¬ s.cur.pos + data.length ≤ s.cur.cap → ∀ (j : ℕ) (sl : Slot),
      s.slots[j]? = some sl → s.dropped j sl = false) : s'.IndexExact := by
  constructor
  · exact he.indexed.placed hl hp hgr hmiss hkeep
  · intro k x hx
    rw [hp.index] at hx
    by_cases hkd : k = data
    · rw [hkd, Function.update_self, Option.some.injEq] at hx
      refine ⟨i, sl', hp.taken.slot, ?_, ?_, ?_⟩
      · rw [Slot.live, hp.taken.dead, hp.taken.refCount]
        rfl
      · rw [hp.handle, hp.liveBit_new hl, hx]
      · rw [hp.liveBit_new hl, hkd]
        exact hp.holds
    · rw [update_of_ne hkd] at hx
      obtain ⟨j, slj, hj, hlj, rfl, hd⟩ : ∃ (j : ℕ) (slj : Slot), s.slots[j]? = some slj ∧
          slj.live ∧ x = s.handle (s.liveBit j slj) j ∧
          slj.Holds s.buffers (s.liveBit j slj) k := by
        rcases hgr.entry hx with hx | ⟨j, slj, hj, hlj, hd, hbit, rfl⟩
        · exact he.live_of_entry k x hx
        · exact ⟨j, slj, hj, hlj, by rw [hbit], by rw [hbit]; exact hd⟩
      refine ⟨j, slj, ?_, hlj, by rw [hp.handle, hp.liveBit],
        by rw [hp.liveBit]; exact hp.holds_other hd⟩
      rw [hp.taken.others _ (hp.taken.ne_of_live hl hj ((hl.live_iff hj).1 hlj))]
      exact hj

lemma Indexed.startCompaction (hx : s.Indexed) : s.startCompaction.Indexed := by
  by_cases hc : s.state = .compacting
  · rw [Shard.startCompaction, if_pos hc]
    exact hx
  have hn := normal_of_not_compacting hc
  have heq := startCompaction_of_normal hn
  intro j sl' hj hlj
  have hhandle : s.startCompaction.handle s.currentBit j = s.handle s.currentBit j := by
    rw [heq]
    rfl
  rw [liveBit_startCompaction hn hj, hhandle]
  obtain ⟨slj, hslj, rfl⟩ := startCompaction_slot hn hj
  obtain ⟨d, hd, hix⟩ := hx j slj hslj hlj
  rw [liveBit_of_normal hn] at hd hix
  exact ⟨d, hd.congr rfl rfl (by rw [buffers_startCompaction hn]), by rw [heq]; exact hix⟩

lemma IndexExact.startCompaction (he : s.IndexExact) : s.startCompaction.IndexExact := by
  by_cases hc : s.state = .compacting
  · rw [Shard.startCompaction, if_pos hc]
    exact he
  have hn := normal_of_not_compacting hc
  have heq := startCompaction_of_normal hn
  have hhandle : ∀ b j, s.startCompaction.handle b j = s.handle b j := fun b j => by
    rw [heq]
    rfl
  constructor
  · exact he.indexed.startCompaction
  · intro k x hx
    have hx' : s.index k = some x := by rwa [heq] at hx
    obtain ⟨j, slj, hslj, hlj, rfl, hd⟩ := he.live_of_entry k x hx'
    rw [liveBit_of_normal hn] at hd
    have hj : s.startCompaction.slots[j]? = some { slj with migrated := false } := by
      rw [heq, getElem?_map, hslj]
      rfl
    refine ⟨j, _, hj, hlj, ?_, ?_⟩
    · rw [liveBit_startCompaction hn hj, hhandle, liveBit_of_normal hn]
    · rw [liveBit_startCompaction hn hj]
      exact hd.congr rfl rfl (by rw [buffers_startCompaction hn])

lemma Indexed.finish (hx : s.Indexed)
    (hnone : ∀ (i : ℕ) (sl : Slot), s.slots[i]? = some sl → sl.live →
      ¬ s.waiting i sl) : s.finishCompaction.Indexed := by
  intro j slj hj hlj
  obtain ⟨d, hd, hix⟩ := hx j slj hj hlj
  rw [liveBit_of_not_waiting (hnone j slj hj hlj)] at hd hix
  rw [liveBit_of_normal rfl]
  exact ⟨d, hd.congr rfl rfl (by simp only [finishCompaction, Two.get_set_not]), hix⟩

lemma IndexExact.finish (he : s.IndexExact)
    (hnone : ∀ (i : ℕ) (sl : Slot), s.slots[i]? = some sl → sl.live →
      ¬ s.waiting i sl) : s.finishCompaction.IndexExact := by
  have hlive : ∀ (j : ℕ) (slj : Slot), s.finishCompaction.liveBit j slj = s.currentBit :=
    fun j slj => liveBit_of_normal rfl
  have hdata : s.finishCompaction.buffers.get s.currentBit = s.buffers.get s.currentBit := by
    simp only [finishCompaction, Two.get_set_not]
  constructor
  · exact he.indexed.finish hnone
  · intro k x hx
    obtain ⟨j, slj, hj, hlj, rfl, hd⟩ := he.live_of_entry k x hx
    rw [liveBit_of_not_waiting (hnone j slj hj hlj)] at hd
    refine ⟨j, slj, hj, hlj, ?_, ?_⟩
    · rw [hlive, liveBit_of_not_waiting (hnone j slj hj hlj)]
      rfl
    · rw [hlive]
      exact hd.congr rfl rfl (by rw [hdata])

/-- A step of the migration over the slot at the cursor: the index follows the content of the slot
into the current buffer, and keeps every other entry. -/
structure Reindexes (s s' : Shard) (sl sl' : Slot) : Prop where
  advances : s.Advances s' sl'
  at_cursor : s.slots[s.compactCursor]? = some sl
  dead : sl'.dead = sl.dead
  cursor : sl.live → ∃ d, sl.Holds s.buffers (s.liveBit s.compactCursor sl) d ∧
    sl'.Holds s'.buffers s.currentBit d ∧
    s'.index d = some (s.handle s.currentBit s.compactCursor)
  others : ∀ k, ¬ (sl.live ∧ sl.Holds s.buffers (s.liveBit s.compactCursor sl) k) →
    s'.index k = s.index k

lemma Reindexes.live_iff (hr : s.Reindexes s' sl sl') (hl : s.Layout) (hl' : s'.Layout) :
    s'.slots[s.compactCursor]? = some sl' ∧ (sl'.live ↔ sl.live) := by
  have hslot' : s'.slots[s.compactCursor]? = some sl' := by
    rw [hr.advances.getElem? hr.at_cursor, if_pos rfl]
  exact ⟨hslot', by rw [hl'.live_iff hslot', hl.live_iff hr.at_cursor, hr.dead]⟩

lemma Indexed.advance (hl : s.Layout) (hl' : s'.Layout) (hx : s.Indexed)
    (hr : s.Reindexes s' sl sl') : s'.Indexed := by
  have ha := hr.advances
  intro j slj hj hlj
  rw [ha.getElem? hr.at_cursor] at hj
  split_ifs at hj with hji
  · cases hj
    obtain ⟨d, -, hd, hix⟩ := hr.cursor ((hr.live_iff hl hl').2.1 hlj)
    rw [hji, ha.liveBit_cursor, ha.handle]
    exact ⟨d, hd, hix⟩
  · obtain ⟨d, hd, hix⟩ := hx j slj hj hlj
    rw [ha.liveBit hji, ha.handle]
    refine ⟨d, ha.holds hd, ?_⟩
    rw [hr.others d fun hc => hji (hx.unique hl hj hlj hd hr.at_cursor hc.1 hc.2)]
    exact hix

lemma IndexExact.advance (hl : s.Layout) (hl' : s'.Layout) (he : s.IndexExact)
    (hr : s.Reindexes s' sl sl') : s'.IndexExact := by
  have ha := hr.advances
  obtain ⟨hslot', hlive⟩ := hr.live_iff hl hl'
  constructor
  · exact he.indexed.advance hl hl' hr
  · intro k x hx
    by_cases hk : sl.live ∧ sl.Holds s.buffers (s.liveBit s.compactCursor sl) k
    · obtain ⟨d, hd₀, hd, hix⟩ := hr.cursor hk.1
      obtain rfl := hk.2.unique hd₀
      refine ⟨_, sl', hslot', hlive.2 hk.1, ?_, ?_⟩
      · rw [ha.liveBit_cursor, ha.handle]
        exact Option.some.inj (hx.symm.trans hix)
      · rw [ha.liveBit_cursor]
        exact hd
    · rw [hr.others k hk] at hx
      obtain ⟨j, slj, hj, hlj, rfl, hd⟩ := he.live_of_entry k x hx
      have hji : j ≠ s.compactCursor := by
        rintro rfl
        obtain rfl : sl = slj := Option.some.inj (hr.at_cursor.symm.trans hj)
        exact hk ⟨hlj, hd⟩
      refine ⟨j, slj, by rw [ha.getElem? hr.at_cursor, if_neg hji]; exact hj, hlj, ?_, ?_⟩
      · rw [ha.liveBit hji, ha.handle]
      · rw [ha.liveBit hji]
        exact ha.holds hd

/-- The rule for a batch of the migration and the index: a property of shards that has every live
slot indexed, that moving the cursor keeps and that the end of a compaction keeps, is kept by the
batch. -/
lemma migrateBatch_keeps (g : AppendGrowth) {Q : Shard → Prop} (hindexed : ∀ s, Q s → s.Indexed)
    (hadvance : ∀ {s s' : Shard} {sl sl' : Slot}, s.Layout → s'.Layout → Q s →
      s.Reindexes s' sl sl' → Q s')
    (hfinish : ∀ s, Q s → (∀ (i : ℕ) (sl : Slot), s.slots[i]? = some sl → sl.live →
      ¬ s.waiting i sl) → Q s.finishCompaction) (hl : s.Layout) (hQ : Q s) (batchSize : ℤ)
    (hroom : s.state = .compacting →
      s.cur.data.length + batchBytes s.pending batchSize.toNat < 2 ^ 32) :
    ∃ s' done, s.migrateBatch g batchSize = some (s', done) ∧ s'.Layout ∧ Q s' := by
  by_cases hc : s.state = .compacting
  · let P : Shard → Prop := fun t => t.Layout ∧ Q t ∧ t.state = .compacting
    obtain ⟨t, ht, hlt, hQt, hct⟩ := migrateLoop_total g (P := P) (fun t ht => ⟨ht.1, ht.2.2⟩)
      (fun t sl ⟨hlt, hQt, hct⟩ hcur h₀ hd => by
        have ha := advances_afterClear t sl
        have hlive : ¬ sl.live := by rw [hlt.live_iff h₀, hd]; exact Bool.noConfusion
        have hl' := ha.layout hlt hct hcur h₀ rfl rfl hlt.small
          fun h => absurd ((hlt.live_iff h₀).2 h) hlive
        exact ⟨hl', hadvance hlt hl' hQt ⟨ha, h₀, rfl, fun h => absurd h hlive,
          fun _ _ => rfl⟩, hct⟩)
      (fun t sl ⟨hlt, hQt, hct⟩ hcur h₀ hd hm => by
        have ha := advances_afterPass h₀
        have hbit : t.liveBit t.compactCursor sl = t.currentBit := by
          refine liveBit_of_not_waiting ?_
          rw [waiting_iff, hm]
          rintro ⟨-, -, -, h⟩
          cases h
        have hlive := (hlt.live_iff h₀).2 hd
        obtain ⟨d, hholds, hix⟩ := hindexed t hQt _ sl h₀ hlive
        have hcurd := hholds
        rw [hbit] at hcurd hix
        have hl' := ha.layout hlt hct hcur h₀ rfl rfl hlt.small fun _ => ⟨d, hcurd⟩
        exact ⟨hl', hadvance hlt hl' hQt ⟨ha, h₀, rfl, fun _ => ⟨d, hholds, hcurd, hix⟩,
          fun _ _ => rfl⟩, hct⟩)
      (fun t sl d ⟨hlt, hQt, hct⟩ hcur h₀ hd hw hholds hr => by
        have ha := advances_afterCopy g t sl d
        have hlive := (hlt.live_iff h₀).2 hd
        have hl' := ha.layout hlt hct hcur h₀ rfl rfl (small_afterCopy g hlt hr)
          fun _ => ⟨d, holds_copied g hholds⟩
        have hold : sl.Holds t.buffers (t.liveBit t.compactCursor sl) d := by
          rw [liveBit_of_waiting hw]
          exact hholds
        refine ⟨hl', hadvance hlt hl' hQt ⟨ha, h₀, rfl,
          fun _ => ⟨d, hold, holds_copied g hholds, Function.update_self _ _ _⟩, ?_⟩, hct⟩
        intro k hk
        have hkd : k ≠ d := by
          rintro rfl
          exact hk ⟨hlive, hold⟩
        exact update_of_ne hkd _ _)
      (s.compactSlotCount - s.compactCursor) batchSize.toNat s ⟨hl, hQ, hc⟩ rfl (hroom hc)
    simp only [Shard.migrateBatch, hc, ne_eq, not_true_eq_false, if_false, ht, Option.map_some]
    split_ifs with hdone hzero
    · have hnone : ∀ (i : ℕ) (sl : Slot), t.slots[i]? = some sl → sl.live →
          ¬ t.waiting i sl := by
        intro i sl _ _ hw
        obtain ⟨-, h₁, h₂, -⟩ := waiting_iff.1 hw
        omega
      exact ⟨_, true, rfl, hlt.finish hnone, hfinish t hQt hnone⟩
    · exact ⟨t, true, rfl, hlt, hQt⟩
    · exact ⟨t, false, rfl, hlt, hQt⟩
  · refine ⟨s, true, ?_, hl, hQ⟩
    simp only [Shard.migrateBatch, ne_eq, hc, not_false_eq_true, if_true]

lemma Indexed.migrateBatch (g : AppendGrowth) (hl : s.Layout) (hx : s.Indexed) (batchSize : ℤ)
    (hroom : s.state = .compacting →
      s.cur.data.length + batchBytes s.pending batchSize.toNat < 2 ^ 32) :
    ∃ s' done, s.migrateBatch g batchSize = some (s', done) ∧ s'.Layout ∧ s'.Indexed :=
  migrateBatch_keeps g (fun _ h => h) (fun hl hl' hx hr => hx.advance hl hl' hr)
    (fun _ hx hnone => hx.finish hnone) hl hx batchSize hroom

lemma IndexExact.migrateBatch (g : AppendGrowth) (hl : s.Layout) (he : s.IndexExact) (batchSize : ℤ)
    (hroom : s.state = .compacting →
      s.cur.data.length + batchBytes s.pending batchSize.toNat < 2 ^ 32) :
    ∃ s' done, s.migrateBatch g batchSize = some (s', done) ∧ s'.Layout ∧ s'.IndexExact :=
  migrateBatch_keeps g (fun _ h => h.indexed) (fun hl hl' he hr => he.advance hl hl' hr)
    (fun _ he hnone => he.finish hnone) hl he batchSize hroom

/-! ## Runs of a shard -/

end Shard

/-- The operations on one shard. Source: pool.go, the methods of shard. -/
inductive ShardOp
  | intern (data : Bytes)
  | addRef (h : Handle)
  | release (h : Handle)
  | startCompaction
  | migrateBatch (batchSize : ℤ)

namespace Shard

variable {s s' : Shard} {h : Handle} {i j : ℕ} {sl : Slot} {d data : Bytes}

/-- One operation on a shard, strings that are too long being refused by the pool. `none` is a
panic.
Source: pool.go Intern, and the methods of shard -/
def step (g : AppendGrowth) (s : Shard) : ShardOp → Option Shard
  | .intern data =>
    if maxDataLength < data.length then some s else (s.intern g false data).map Prod.fst
  | .addRef h => some (s.addRef h).1
  | .release h => (s.release h).map Prod.fst
  | .startCompaction => some s.startCompaction
  | .migrateBatch batchSize => (s.migrateBatch g batchSize).map Prod.fst

/-- What a step owes for the index to stay exact:

* a release that retires a slot reads the slot's content through the handle, from a buffer that
  holds bytes;
* the buffer does not have to grow while there is a live slot that was appended since the
  ongoing compaction started;
* counters stay below `2 ^ 31` and buffers below `2 ^ 32`. -/
def Exact (s : Shard) : ShardOp → Prop
  | .intern data =>
    (∀ h ∈ (s.lookup data).join, ∀ sl ∈ s.slots[h.shardSlot]?, sl.refCount + 1 < 2 ^ 31) ∧
    (s.lookup data = some none → s.cur.data.length + data.length < 2 ^ 32 ∧
      (¬ s.cur.pos + data.length ≤ s.cur.cap →
        ∀ i < s.slots.length, ∀ sl ∈ s.slots[i]?, s.dropped i sl = false))
  | .addRef h => s.validateHandle h = none → ∀ sl ∈ s.slots[h.shardSlot]?, sl.refCount + 1 < 2 ^ 31
  | .release h => s.validateHandle h = none → ∀ sl ∈ s.slots[h.shardSlot]?,
      int32 (sl.refCount - 1) ≤ 0 →
      0 < (s.buffers.get h.bufferBit).data.length ∧
      (s.buffers.get h.bufferBit).region (sl.offsets.get h.bufferBit) sl.length =
        (s.buffers.get (s.liveBit h.shardSlot sl)).region
          (sl.offsets.get (s.liveBit h.shardSlot sl)) sl.length
  | .startCompaction => True
  | .migrateBatch batchSize => s.state = .compacting →
      s.cur.data.length + batchBytes s.pending batchSize.toNat < 2 ^ 32

instance (s : Shard) : (o : ShardOp) → Decidable (s.Exact o)
  | .intern _ => inferInstanceAs (Decidable ((∀ h ∈ _, ∀ sl ∈ _, _) ∧ (_ → _ ∧ (_ → ∀ i < _, _))))
  | .addRef _ => inferInstanceAs (Decidable (_ → ∀ sl ∈ _, _))
  | .release _ => inferInstanceAs (Decidable (_ → ∀ sl ∈ _, _ → _))
  | .startCompaction => isTrue trivial
  | .migrateBatch _ => inferInstanceAs (Decidable (_ → _))

lemma slot_of_validate (hv : s.validateHandle h = none) :
    ∃ sl : Slot, s.slots[h.shardSlot]? = some sl ∧ sl.dead = false := by
  rw [validateHandle] at hv
  split_ifs at hv
  split at hv
  · cases hv
  · next sl hsl =>
    split_ifs at hv with hd
    exact ⟨sl, hsl, by simpa using hd⟩

lemma IndexExact.intern (g : AppendGrowth) (hl : s.Layout) (he : s.IndexExact)
    (hlen : ¬ maxDataLength < data.length) (hx : s.Exact (.intern data)) :
    ∃ s' r, s.intern g false data = some (s', r) ∧ s'.Layout ∧ s'.IndexExact := by
  obtain ⟨hhit, hmiss⟩ := hx
  rcases he.lookup hl data with hlook | ⟨i, sl, hi, hlive, hd, hlook⟩
  · obtain ⟨hroom, hkeep⟩ := hmiss hlook
    by_cases hfull : maxSlotsPerShard ≤ s.slots.length ∧ s.freeSlots = []
    · refine ⟨s, .error .poolFull, ?_, hl, he⟩
      simp only [Shard.intern, Bool.false_eq_true, if_false, hlook, Option.bind_some, if_pos hfull]
    · obtain ⟨s', i, sl', ix, hplace, hp, hgr⟩ :=
        place_spec g hl (by rw [maxDataLength] at hlen; omega) hroom hfull
      refine ⟨s', .ok (s.handle s.currentBit i), ?_, hp.layout hl hroom,
        he.placed hl hp hgr hlook ?_⟩
      · simp only [Shard.intern, Bool.false_eq_true, if_false, hlook, Option.bind_some,
          if_neg hfull, hplace, Option.map_some]
      · exact fun hgrow j slj hj =>
          hkeep hgrow j (List.getElem?_eq_some_iff.mp hj).1 slj hj
  · have hslot := shardSlot_handle s (s.liveBit i sl) (hl.slot_lt hi)
    have hpos : ∀ sl₁ : Slot, s.slots[(s.handle (s.liveBit i sl) i).shardSlot]? = some sl₁ →
        sl₁.dead = false → 0 < int32 (sl₁.refCount + 1) := by
      intro sl₁ h₁ hd₁
      have hlt := hhit _ (by rw [hlook]; rfl) sl₁ h₁
      have hpos := hl.alive _ sl₁ h₁ hd₁
      rw [int32_eq (by omega) hlt]
      omega
    exact ⟨_, _, he.indexed.intern_live g hl hi hlive hd, hl.bump hpos, he.bump hl (hl.bump hpos)⟩

lemma IndexExact.release (hl : s.Layout) (he : s.IndexExact) (hx : s.Exact (.release h)) :
    ∃ s' r, s.release h = some (s', r) ∧ s'.Layout ∧ s'.IndexExact := by
  cases hv : s.validateHandle h with
  | some err =>
    exact ⟨s, some err, by simp only [Shard.release, validateHandleForRelease, hv], hl, he⟩
  | none =>
    obtain ⟨sl, hsl, hd⟩ := slot_of_validate hv
    obtain ⟨sl₁, hsl₁⟩ := exists_getElem?_bump hsl (-1)
    have hc : sl₁.refCount = int32 (sl.refCount - 1) := by
      obtain ⟨sl₀, h₀, -, hc⟩ := slot_of_bump hsl₁
      obtain rfl : sl₀ = sl := Option.some.inj (h₀.symm.trans hsl)
      rw [hc, if_pos rfl]
      rfl
    simp only [Shard.release, validateHandleForRelease, hv, hsl₁]
    by_cases hlast : sl₁.refCount ≤ 0
    · rw [if_pos hlast]
      obtain ⟨d, hcontent⟩ := hl.stored _ sl hsl ((hl.live_iff hsl).2 hd)
      obtain ⟨hbytes, hregion⟩ := hx hv sl hsl (hc ▸ hlast)
      rw [hcontent.region_eq (hl.small _)] at hregion
      obtain ⟨s', hs', hret⟩ := retires_of_region hl hsl hd hregion
      exact ⟨s', none, by rw [hs', Option.map_some], hret.layout,
        he.retire hl hsl hd hcontent hret hbytes⟩
    · rw [if_neg hlast]
      have hpos' : ∀ sl₀ : Slot, s.slots[h.shardSlot]? = some sl₀ → sl₀.dead = false →
          0 < int32 (sl₀.refCount + -1) := by
        intro sl₀ h₀ _
        obtain rfl : sl = sl₀ := Option.some.inj (hsl.symm.trans h₀)
        rw [hc] at hlast
        exact not_le.1 hlast
      exact ⟨_, none, rfl, hl.bump hpos', he.bump hl (hl.bump hpos')⟩

lemma IndexExact.step (g : AppendGrowth) (hs : s.Layout ∧ s.IndexExact) (o : ShardOp)
    (hx : s.Exact o) : ∃ s', s.step g o = some s' ∧ s'.Layout ∧ s'.IndexExact := by
  obtain ⟨hl, he⟩ := hs
  cases o with
  | intern data =>
    rw [Shard.step]
    split_ifs with hlen
    · exact ⟨s, rfl, hl, he⟩
    · obtain ⟨s', r, heq, hl', he'⟩ := he.intern g hl hlen hx
      exact ⟨s', by rw [heq, Option.map_some], hl', he'⟩
  | addRef h =>
    refine ⟨_, rfl, ?_⟩
    rw [addRef]
    cases hv : s.validateHandle h with
    | some err => exact ⟨hl, he⟩
    | none =>
      have hpos : ∀ sl : Slot, s.slots[h.shardSlot]? = some sl → sl.dead = false →
          0 < int32 (sl.refCount + 1) := by
        intro sl hsl hd
        have hlt := hx hv sl hsl
        have hpos := hl.alive _ sl hsl hd
        rw [int32_eq (by omega) hlt]
        omega
      exact ⟨hl.bump hpos, he.bump hl (hl.bump hpos)⟩
  | release h =>
    obtain ⟨s', r, heq, hl', he'⟩ := he.release hl hx
    exact ⟨s', by rw [Shard.step, heq, Option.map_some], hl', he'⟩
  | startCompaction => exact ⟨_, rfl, hl.startCompaction, he.startCompaction⟩
  | migrateBatch n =>
    obtain ⟨s', done, heq, hl', he'⟩ := he.migrateBatch g hl n hx
    exact ⟨s', by rw [Shard.step, heq, Option.map_some], hl', he'⟩

lemma indexExact_new (id idx capacity : ℕ) : (Shard.new id idx capacity).IndexExact where
  entry_of_live := fun i sl hi => by cases hi
  live_of_entry := fun k h hk => by cases hk

/-- **The dedup index stays exact.** In every run of a new shard whose steps are exact, no operation
panics; the index has one entry for each live slot, under its content and naming it where its bytes
live, and no other; so no two live slots hold the same content, and interning the content of a live
slot allocates no slot and no bytes but returns its handle. -/
theorem indexExact_of_run (g : AppendGrowth) {id idx : ℕ} (capacity : ℕ) (hid : id < 16)
    (hidx : idx < 31) (ops : List ShardOp)
    (hmeets : Meets (step g) Exact (Shard.new id idx capacity) ops) :
    ∃ s, run (step g) (Shard.new id idx capacity) ops = some s ∧ s.IndexExact ∧
      (∀ (i j : ℕ) (sl sl' : Slot) (d : Bytes), s.slots[i]? = some sl → sl.live →
        s.slots[j]? = some sl' → sl'.live → sl.Holds s.buffers (s.liveBit i sl) d →
        sl'.Holds s.buffers (s.liveBit j sl') d → i = j) ∧
      ∀ (i : ℕ) (sl : Slot) (d : Bytes), s.slots[i]? = some sl → sl.live →
        sl.Holds s.buffers (s.liveBit i sl) d →
        ∃ s', s.intern g false d = some (s', .ok (s.handle (s.liveBit i sl) i)) ∧
          s'.slots.length = s.slots.length ∧ s'.freeSlots = s.freeSlots ∧
          ∀ b, (s'.buffers.get b).data = (s.buffers.get b).data := by
  have hnew : (Shard.new id idx capacity).Layout ∧ (Shard.new id idx capacity).IndexExact :=
    ⟨(held_new capacity hid hidx).layout, indexExact_new id idx capacity⟩
  obtain ⟨s, hrun, hl, he⟩ :=
    run_total (fun s o hs hx => IndexExact.step g hs o hx) ops _ hnew hmeets
  refine ⟨s, hrun, he, ?_, ?_⟩
  · exact fun i j sl sl' d hi hlive hj hlive' hd hd' =>
      he.indexed.unique hl hi hlive hd hj hlive' hd'
  · intro i sl d hi hlive hd
    have hr := relabels_bump s (s.handle (s.liveBit i sl) i) 1
    exact ⟨_, he.indexed.intern_live g hl hi hlive hd, hr.length, freeSlots_bump s _ 1, hr.data⟩

/-- A run with a reused slot, a compaction and a release through the old buffer. -/
theorem indexExact_of_run_compacting :
    ∃ s, run (step doubling) (Shard.new 0 0 64) [.intern [1, 2], .intern [3],
        .release (newHandleWithBuffer false 0 1), .startCompaction, .intern [4], .migrateBatch 1,
        .intern [1, 2], .release (newHandleWithBuffer false 0 0), .migrateBatch 9] = some s ∧
      s.IndexExact := by
  obtain ⟨s, hrun, he, -⟩ := indexExact_of_run doubling 64 (show 0 < 16 by decide)
    (show 0 < 31 by decide) [.intern [1, 2], .intern [3],
      .release (newHandleWithBuffer false 0 1), .startCompaction, .intern [4], .migrateBatch 1,
      .intern [1, 2], .release (newHandleWithBuffer false 0 0), .migrateBatch 9] (by decide +kernel)
  exact ⟨s, hrun, he⟩

lemma not_indexExact_of_entry {k : Bytes} (hk : (s.index k).isSome)
    (hdead : ∀ sl ∈ s.slots, sl.live = false) : ¬ s.IndexExact := by
  intro he
  obtain ⟨h, hk⟩ := Option.isSome_iff_exists.1 hk
  obtain ⟨i, sl, hi, hlive, -⟩ := he.live_of_entry k h hk
  rw [hdead sl (mem_of_getElem? hi)] at hlive
  cases hlive

lemma not_indexExact_of_missing (hi : s.slots[i]? = some sl) (hlive : sl.live)
    (hmiss : s.index (((s.buffers.get (s.liveBit i sl)).data.drop
      (sl.offsets.get (s.liveBit i sl))).take sl.length) = none) : ¬ s.IndexExact := by
  intro he
  obtain ⟨d, hd, hix⟩ := he.entry_of_live i sl hi hlive
  rw [hd.1, hd.2.take_drop, hix] at hmiss
  cases hmiss

/-- The two ways an index stops being exact: the empty string released while the buffer has no bytes
keeps its entry, and a buffer that has to grow during a compaction loses the entry of the slot that
was appended since it started. -/
theorem index_stale_and_dropped :
    (∃ s, run (step doubling) (Shard.new 0 0 64)
        [.intern [], .release (newHandleWithBuffer false 0 0)] = some s ∧ ¬ s.IndexExact) ∧
    ∃ s, run (step doubling) (Shard.new 0 0 64)
        [.intern [1], .startCompaction, .intern [2], .intern (replicate 64 9)] = some s ∧
      ¬ s.IndexExact := by
  constructor
  · have hrun : (run (step doubling) (Shard.new 0 0 64)
        [.intern [], .release (newHandleWithBuffer false 0 0)]).isSome := by decide +kernel
    refine ⟨_, (Option.some_get hrun).symm, not_indexExact_of_entry (k := []) ?_ ?_⟩
    · decide +kernel +revert
    · decide +kernel +revert
  · have hrun : (run (step doubling) (Shard.new 0 0 64)
        [.intern [1], .startCompaction, .intern [2], .intern (replicate 64 9)]).isSome =
        true := by decide +kernel
    have hslot : (Option.get _ hrun).slots[1]? = some ⟨⟨0, 0⟩, 1, 1, false, false⟩ := by
      decide +kernel +revert
    exact ⟨_, (Option.some_get hrun).symm,
      not_indexExact_of_missing hslot rfl (by decide +kernel +revert)⟩

end Shard

end Ze.AttrPool
