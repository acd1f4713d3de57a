import Ze.AttrPool.Dedup

/-!
# When two handles name the same bytes

A handle carries the bit of the buffer it was handed out from, so that two handles of one content
can differ. `Alone` excludes two steps: interning a content that a compaction has already migrated
while handles of the old buffer are held (`handle_ne_same_bytes`), and a buffer that grows during a
compaction.
-/

namespace Ze.AttrPool

open Ze.Lib List
open Option (map_eq_some_iff some_ne_none)

namespace Shard

variable {s s' : Shard} {held : List Handle} {h : Handle} {data : Bytes}

/-! ## The index under held references -/

lemma Indexed.intern {g : AppendGrowth} (hh : s.Held held) (hx : s.Indexed)
    (hlen : data.length < 2 ^ 16)
    (hroom : s.lookup data = some none → s.cur.data.length + data.length < 2 ^ 32)
    (hkeep : s.lookup data = some none → ¬ s.cur.pos + data.length ≤ s.cur.cap →
      ∀ (j : ℕ) (sl : Slot), s.slots[j]? = some sl → s.dropped j sl = false)
    (hint : s.intern g false data = some (s', .ok h)) (hl' : s'.Layout) :
    s'.Indexed ∧ ((∃ sl, s.index data = some h ∧ s.slots[h.shardSlot]? = some sl ∧ sl.live) ∨
      ∀ x ∈ held, x.shardSlot ≠ h.shardSlot) := by
  have hl := hh.layout
  rw [Shard.intern, if_neg Bool.false_ne_true] at hint
  obtain ⟨found, hlook, hint⟩ := Option.bind_eq_some_iff.1 hint
  cases found with
  | some x =>
    obtain ⟨rfl, hxh⟩ := Prod.mk.inj (Option.some.inj hint)
    obtain rfl := Except.ok.inj hxh
    refine ⟨hx.bump hl hl', .inl ?_⟩
    rw [Shard.lookup] at hlook
    split at hlook
    · cases hlook
    · next y hy =>
      split at hlook
      · cases hlook
      · next sl hsl =>
        split_ifs at hlook with hlive
        · obtain rfl := Option.some.inj (Option.some.inj hlook)
          exact ⟨sl, hy, hsl, hlive⟩
        · exact absurd (Option.some.inj hlook) (some_ne_none x).symm
  | none =>
    dsimp only at hint
    split_ifs at hint with hfull
    · cases hint
    · obtain ⟨s₁, i, sl', ix, hplace, hp, hgr⟩ := place_spec g hl hlen (hroom hlook) hfull
      rw [hplace, Option.map_some, Option.some.injEq, Prod.mk.injEq] at hint
      obtain ⟨rfl, hih⟩ := hint
      cases hih
      refine ⟨hx.placed hl hp hgr hlook (hkeep hlook), .inr fun x hmem => ?_⟩
      rw [shardSlot_handle _ _ (hp.taken.lt hl)]
      obtain ⟨-, slx, hslx⟩ := hh.own x hmem
      exact hp.taken.ne_of_live hl hslx (hh.alive_of_mem hmem hslx)

lemma Indexed.release {rest : List Handle} {r : Option PoolError} (hh : s.Held (h :: rest))
    (hx : s.Indexed) (hrel : s.release h = some (s', r)) : s'.Indexed := by
  have hmem : h ∈ h :: rest := mem_cons_self
  obtain ⟨hown, sl, hsl⟩ := hh.own h hmem
  have hd := hh.alive_of_mem hmem hsl
  have hv := validateHandle_eq_none hh.layout hown hsl hd
  obtain ⟨sl₁, hsl₁⟩ := exists_getElem?_bump hsl (-1)
  have hc : sl₁.refCount = slotRefs rest h.shardSlot := by
    obtain ⟨sl₀, -, rfl⟩ := hh.slot_bump_neg hsl₁
    rfl
  simp only [Shard.release, validateHandleForRelease, hv, hsl₁, hc] at hrel
  split_ifs at hrel with hlast
  · obtain ⟨s₁, hret, heq⟩ := map_eq_some_iff.1 hrel
    obtain ⟨rfl, -⟩ := Prod.mk.inj heq
    obtain ⟨d, hlive⟩ := hh.layout.stored _ sl hsl ((hh.layout.live_iff hsl).2 hd)
    have hread : sl.Holds s.buffers h.bufferBit d := ((hh.bits h hmem sl hsl).holds_iff).2 hlive
    obtain ⟨s₂, hs₂, hretires⟩ :=
      retires_of_region hh.layout hsl hd (hread.region_eq (hh.layout.small _))
    obtain rfl : s₂ = s₁ := Option.some.inj (hs₂.symm.trans hret)
    exact hx.retire hh.layout hsl hd hlive hretires
  · obtain ⟨rfl, -⟩ := Prod.mk.inj (Option.some.inj hrel)
    exact hx.bump hh.layout (hh.release_more (by omega)).layout

lemma Indexed.checkOldBufferRelease (hh : s.Held held) (hx : s.Indexed) :
    s.checkOldBufferRelease.Indexed := by
  rw [Shard.checkOldBufferRelease]
  split_ifs with hc hzero
  · exact hx
  · exact hx.finish fun i sl hi hlive =>
      hh.not_waiting_of_drained hzero hi ((hh.layout.live_iff hi).1 hlive)
  · exact hx

lemma Indexed.compact {g : AppendGrowth} (hl : s.Layout) (hx : s.Indexed)
    (hroom : s.state = .normal → s.freeSlots ≠ [] → liveBytes s.slots < 2 ^ 32)
    (hcomp : s.compact g = some s') : s'.Indexed := by
  by_cases hc : s.state = .compacting
  · rw [Shard.compact, if_pos hc, Option.some.injEq] at hcomp
    exact hcomp ▸ hx
  by_cases hfree : s.freeSlots = []
  · rw [Shard.compact, if_neg hc, if_pos hfree, Option.some.injEq] at hcomp
    exact hcomp ▸ hx
  have hn := normal_of_not_compacting hc
  obtain ⟨slots', newBuf, ix, heq, hcd, hentry⟩ := compact_spec g hl hn hfree (hroom hn hfree)
  obtain rfl := Option.some.inj (heq.symm.trans hcomp)
  set s' : Shard := { s with
    slots := slots', buffers := s.buffers.set s.currentBit newBuf, index := ix }
  have hl' : s'.Layout := hcd.layout hl hn
  have hbit : ∀ (j : ℕ) (slj : Slot), s'.liveBit j slj = s.currentBit :=
    fun j slj => liveBit_of_normal hn
  intro i sl' hi hlive
  rw [hbit]
  -- the slot had its content before, and so had the slot that the entry names
  have hcontent : ∀ (j : ℕ) (slj : Slot) (d : Bytes), slots'[j]? = some slj → slj.live →
      slj.Holds (s.buffers.set s.currentBit newBuf) s.currentBit d →
      ∃ sl : Slot, s.slots[j]? = some sl ∧ sl.live ∧
        sl.Holds s.buffers (s.liveBit j sl) d := by
    intro j slj d hj hlj hd
    obtain ⟨sl, hsl, hcs⟩ := hcd.slots j slj hj
    have hlsl : sl.live := hcs.live_eq ▸ hlj
    obtain ⟨e, he⟩ := hl.stored j sl hsl hlsl
    have he' := he
    rw [liveBit_of_normal hn] at he'
    obtain rfl := hd.unique (hcs.holds hlsl he')
    exact ⟨sl, hsl, hlsl, he⟩
  obtain ⟨d, hd⟩ := hl'.stored i sl' hi hlive
  rw [hbit] at hd
  obtain ⟨x, hxd⟩ := Option.ne_none_iff_exists'.1 (hentry i sl' d hi hlive hd)
  obtain ⟨j, slj, hj, hlj, hdj, rfl⟩ := hcd.index d x hxd
  obtain ⟨sl, hsl, hlsl, hh⟩ := hcontent i sl' d hi hlive hd
  obtain ⟨slj₀, hslj, hlslj, hhj⟩ := hcontent j slj d hj hlj hdj
  obtain rfl := hx.unique hl hsl hlsl hh hslj hlslj hhj
  exact ⟨d, hd, hxd⟩

lemma indexed_new (id idx capacity : ℕ) : (Shard.new id idx capacity).Indexed :=
  fun i sl hi => by cases hi

end Shard

/-! ## Readings of held handles -/

namespace Pool

variable {p p' : Pool} {held : List Handle} {h : Handle} {d e : Bytes}

lemma Reads.unique (hd : p.Reads h d) (he : p.Reads h e) : d = e := by
  obtain ⟨s, hs, sl, hsl, hd⟩ := hd
  obtain ⟨t, ht, sl', hsl', he⟩ := he
  obtain rfl : s = t := Option.some.inj (hs.symm.trans ht)
  obtain rfl : sl = sl' := Option.some.inj (hsl.symm.trans hsl')
  exact hd.unique he

lemma Served.exists_reads (hp : p.Served held) (hmem : h ∈ held) : ∃ s sl d,
    p.shards[h.shardID]? = some s ∧ s.slots[h.shardSlot]? = some sl ∧ sl.live ∧
      sl.Holds s.buffers (s.liveBit h.shardSlot sl) d ∧ p.Reads h d := by
  obtain ⟨s, hs⟩ := hp.exists_shard hmem
  obtain ⟨-, -, hh⟩ := hp.shard _ s hs
  have hmem' : h ∈ ownRefs held h.shardID := mem_ownRefs.2 ⟨hmem, rfl⟩
  obtain ⟨-, sl, hsl⟩ := hh.own h hmem'
  have hlive := (hh.layout.live_iff hsl).2 (hh.alive_of_mem hmem' hsl)
  obtain ⟨d, hd⟩ := hh.layout.stored _ sl hsl hlive
  exact ⟨s, sl, d, hs, hsl, hlive, hd, s, hs, sl, hsl, (hh.bits h hmem' sl hsl).holds_iff.2 hd⟩

lemma Kept.reads_of (hk : p.Kept p' held) (hp : p.Served held) (hmem : h ∈ held)
    (hr : p'.Reads h d) : p.Reads h d := by
  obtain ⟨-, -, e, -, -, -, -, he⟩ := hp.exists_reads hmem
  rw [hr.unique (hk h hmem e he)]
  exact he

lemma Served.handle_ext (hp : p.Served held) {x y : Handle} (hx : x ∈ held) (hy : y ∈ held)
    (hid : x.shardID = y.shardID) (hslot : x.shardSlot = y.shardSlot)
    (hbit : x.bufferBit = y.bufferBit) : x = y := by
  obtain ⟨s, hs⟩ := hp.exists_shard hx
  obtain ⟨-, -, hh⟩ := hp.shard _ s hs
  have hxo := (hh.own x (mem_ownRefs.2 ⟨hx, rfl⟩)).1
  have hyo := (hh.own y (mem_ownRefs.2 ⟨hy, hid.symm⟩)).1
  rw [hxo, hyo, hslot, hbit]

end Pool

namespace Client

variable {c : Client} {p : Pool} {h : Handle} {data : Bytes}

/-- A pool with its books in which every live slot is indexed, every held handle is in the shard of
what it reads, and the held handles of one slot are of one buffer. -/
structure Canonical (c : Client) : Prop where
  good : c.Good
  indexed : ∀ s ∈ c.pool.shards, s.Indexed
  homed : ∀ h ∈ c.held, ∀ d, c.pool.Reads h d → shardOf d c.pool.shardMask = h.shardID
  one_bit : ∀ x ∈ c.held, ∀ y ∈ c.held, x.shardID = y.shardID → x.shardSlot = y.shardSlot →
    x.bufferBit = y.bufferBit

/-- Two held handles read the same string exactly when they carry the same shard and slot. -/
lemma Canonical.same_bytes_iff (hc : c.Canonical) {x y : Handle} (hx : x ∈ c.held)
    (hy : y ∈ c.held) : (∃ d, c.pool.Reads x d ∧ c.pool.Reads y d) ↔
      x.shardID = y.shardID ∧ x.shardSlot = y.shardSlot := by
  have hs := hc.good.served
  obtain ⟨s, sl, d, hsx, hslx, hlx, hdx, hrx⟩ := hs.exists_reads hx
  obtain ⟨t, sl', e, hsy, hsly, hly, hdy, hry⟩ := hs.exists_reads hy
  constructor
  · rintro ⟨b, hbx, hby⟩
    have hid : x.shardID = y.shardID := by
      rw [← hc.homed x hx b hbx, ← hc.homed y hy b hby]
    obtain rfl := hbx.unique hrx
    obtain rfl := hby.unique hry
    rw [hid] at hsx
    obtain rfl : s = t := Option.some.inj (hsx.symm.trans hsy)
    have hl := (hs.shard _ s hsx).2.2.layout
    exact ⟨hid, (hc.indexed s (mem_of_getElem? hsx)).unique hl hslx hlx hdx hsly hly hdy⟩
  · rintro ⟨hid, hslot⟩
    rw [hid] at hsx
    obtain rfl : s = t := Option.some.inj (hsx.symm.trans hsy)
    rw [hslot] at hslx hdx
    obtain rfl : sl = sl' := Option.some.inj (hslx.symm.trans hsly)
    obtain rfl := hdx.unique hdy
    exact ⟨d, hrx, hry⟩

/-! ## Steps -/

/-- The handle that interning returns is the only one held for its slot, or will be: a handle that
the index has for a live slot carries the buffer bit of every held handle of the slot, and a buffer
that has to grow during a compaction drops no index entry. -/
def Alone (c : Client) : Op → Prop
  | .intern data => ∀ s ∈ c.pool.shards[shardOf data c.pool.shardMask]?,
      (∀ h ∈ s.index data, ∀ sl ∈ s.slots[h.shardSlot]?, sl.live = true →
        ∀ x ∈ c.held, x.shardID = h.shardID → x.shardSlot = h.shardSlot →
          x.bufferBit = h.bufferBit) ∧
      (s.lookup data = some none → ¬ s.cur.pos + data.length ≤ s.cur.cap →
        ∀ i < s.slots.length, ∀ sl ∈ s.slots[i]?, s.dropped i sl = false)
  | _ => True

instance (c : Client) : (o : Op) → Decidable (c.Alone o)
  | .intern data => inferInstanceAs (Decidable
      (∀ s ∈ c.pool.shards[shardOf data c.pool.shardMask]?,
        (∀ h ∈ _, ∀ sl ∈ _, _ → ∀ x ∈ _, _ → _ → _) ∧ (_ → _ → ∀ i < _, ∀ sl ∈ _, _)))
  | .addRef _ | .release _ | .startCompaction | .migrateBatch _ | .checkOldBufferRelease
  | .compact => isTrue trivial

lemma Canonical.keep {held : List Handle} (hc : c.Canonical)
    (hgood : ({ c with pool := p, held := held } : Client).Good) (hsub : ∀ x ∈ held, x ∈ c.held)
    (hk : c.pool.Kept p held) (hx : ∀ s ∈ p.shards, s.Indexed)
    (hmask : p.shardMask = c.pool.shardMask) :
    ({ c with pool := p, held := held } : Client).Canonical where
  good := hgood
  indexed := hx
  homed := fun x hmem d hd => by
    obtain ⟨-, -, e, -, -, -, -, he⟩ := hc.good.served.exists_reads (hsub x hmem)
    rw [hd.unique (hk x hmem e he)]
    exact hmask ▸ hc.homed x (hsub x hmem) e he
  one_bit := fun x hx y hy => hc.one_bit x (hsub x hx) y (hsub y hy)

lemma indexed_set {k : ℕ} {s' : Shard} (hx : ∀ s ∈ p.shards, s.Indexed) (hs' : s'.Indexed) :
    ∀ s ∈ p.shards.set k s', s.Indexed := by
  intro s hs
  rcases mem_or_eq_of_mem_set hs with hs | rfl
  · exact hx s hs
  · exact hs'

lemma Canonical.intern {g : AppendGrowth} (hc : c.Canonical)
    (hcond : c.Fits (.intern data) ∧ c.Sound (.intern data) ∧ c.Alone (.intern data)) :
    ∃ c', c.step g (.intern data) = some c' ∧ c'.Canonical := by
  obtain ⟨hfits, hsound, halone⟩ := hcond
  have hserved := hc.good.served
  rcases hserved.intern g hsound.1 hfits (fun hd s hs => hsound.2 hd s hs) with
    ⟨err, heq⟩ | ⟨p', h, heq, hs', hk, hr⟩
  · exact ⟨c, by simp only [Client.step, heq, Option.map_some], hc⟩
  refine ⟨c.book p' h data, by simp only [Client.step, heq, Option.map_some], ?_⟩
  have hgood := hc.good.book hs' hk hr
  -- what the pool does is done by the shard of `data`
  obtain ⟨s, hs⟩ : ∃ s, c.pool.shards[shardOf data c.pool.shardMask]? = some s :=
    ⟨_, getElem?_eq_getElem (hserved.shardOf_lt data)⟩
  have hlen : ¬ maxDataLength < data.length := by
    intro hlen
    rw [Pool.intern, if_pos hlen] at heq
    cases heq
  simp only [Pool.intern, if_neg hlen, hs, hserved.not_shutdown] at heq
  obtain ⟨⟨s', r⟩, hint, heq⟩ := map_eq_some_iff.1 heq
  cases heq
  obtain ⟨hid, -, hh⟩ := hserved.shard _ s hs
  obtain ⟨hbits, hkeep⟩ := halone s hs
  have hset : ({ c.pool with shards := c.pool.shards.set (shardOf data c.pool.shardMask) s' } :
      Pool).shards[shardOf data c.pool.shardMask]? = some s' :=
    getElem?_set_self (hserved.shardOf_lt data)
  have hl' := (hs'.shard _ s' hset).2.2.layout
  obtain ⟨hx', horigin⟩ := (hc.indexed s (mem_of_getElem? hs)).intern hh
    (by rw [maxDataLength] at hlen; omega) (hfits s hs)
    (fun hmiss hgrow j sl hj => hkeep hmiss hgrow j (List.getElem?_eq_some_iff.mp hj).1 sl hj)
    hint hl'
  have hsid : h.shardID = shardOf data c.pool.shardMask := by
    have hlt := length_ownRefs_le c.held (shardOf data c.pool.shardMask)
    rcases hh.intern g (by rw [maxDataLength] at hlen; omega)
      (lt_of_le_of_lt (Nat.add_le_add_right hlt 1) hsound.1) (hfits s hs)
      (fun hd => hsound.2 hd s hs) with ⟨err, herr⟩ | ⟨s₁, h₁, hok, -, -, -, hsid, -⟩
    · rw [herr] at hint
      cases hint
    · rw [hint, Option.some.injEq, Prod.mk.injEq, Except.ok.injEq] at hok
      rw [hok.2, hsid, hid]
  have hnew : ∀ x ∈ c.held, x.shardID = h.shardID → x.shardSlot = h.shardSlot →
      x.bufferBit = h.bufferBit := by
    intro x hmem hxid hslot
    rcases horigin with ⟨sl, hix, hsl, hlive⟩ | hfresh
    · exact hbits h hix sl hsl hlive x hmem hxid hslot
    · exact absurd hslot (hfresh x (mem_ownRefs.2 ⟨hmem, hxid.trans hsid⟩))
  refine ⟨hgood, indexed_set hc.indexed hx', ?_, ?_⟩
  · intro x hmem d hd
    rcases mem_cons.1 hmem with rfl | hmem
    · rw [hd.unique hr]
      exact hsid.symm
    · exact hc.homed x hmem d (hk.reads_of hserved hmem hd)
  · intro x hx y hy hid hslot
    rcases mem_cons.1 hx with rfl | hxc
    · rcases mem_cons.1 hy with rfl | hyc
      · rfl
      · exact (hnew y hyc hid.symm hslot.symm).symm
    · rcases mem_cons.1 hy with rfl | hyc
      · exact hnew x hxc hid hslot
      · exact hc.one_bit x hxc y hyc hid hslot

lemma Canonical.step (g : AppendGrowth) (hc : c.Canonical) (o : Op)
    (hcond : c.Matched o ∧ c.Fits o ∧ c.Sound o ∧ c.Alone o) :
    ∃ c', c.step g o = some c' ∧ c'.Canonical := by
  obtain ⟨hmatch, hfits, hsound, halone⟩ := hcond
  have hserved := hc.good.served
  have hshard : ∀ s ∈ c.pool.shards, ∃ k, s.Held (ownRefs c.held k) := by
    intro s hs
    obtain ⟨k, hk⟩ := getElem?_of_mem hs
    exact ⟨k, (hserved.shard k s hk).2.2⟩
  obtain ⟨c', hstep, hgood⟩ := hc.good.step g o ⟨hmatch, hfits, hsound⟩
  cases o with
  | intern data => exact hc.intern ⟨hfits, hsound, halone⟩
  | addRef h =>
    refine ⟨c', hstep, ?_⟩
    cases hr : (c.pool.addRef h).2 with
    | none =>
      obtain ⟨hmem, hfew⟩ := hsound.resolve_right fun hne => hne hr
      obtain ⟨-, hs, hk⟩ := hserved.addRef hmem hfew
      rw [Client.step, ← Prod.eta (c.pool.addRef h), hr] at hstep
      cases hstep
      have hsub : ∀ x ∈ h :: c.held, x ∈ c.held := by
        intro x hx
        rcases mem_cons.1 hx with rfl | hx
        · exact hmem
        · exact hx
      obtain ⟨s, hsh⟩ := hserved.exists_shard hmem
      have hset : (c.pool.addRef h).1.shards = c.pool.shards.set h.shardID (s.addRef h).1 := by
        simp only [Pool.addRef, hsh]
      have hadd : (s.addRef h).1.Indexed := by
        obtain ⟨-, -, hh⟩ := hserved.shard _ s hsh
        have hle := length_ownRefs_le c.held h.shardID
        obtain ⟨heq, hh', -⟩ := hh.addRef (mem_ownRefs.2 ⟨hmem, rfl⟩)
          (lt_of_le_of_lt (Nat.add_le_add_right hle 1) hfew)
        rw [heq]
        exact (hc.indexed s (mem_of_getElem? hsh)).bump hh.layout hh'.layout
      refine hc.keep hgood hsub (fun x hx => hk x (hsub x hx)) ?_ ?_
      · rw [hset]
        exact indexed_set hc.indexed hadd
      · simp only [Pool.addRef, hsh]
    | some err =>
      have hp := Pool.addRef_refused (p := c.pool) (h :=
        h) (by rw [hr]; exact some_ne_none _)
      rw [Client.step, ← Prod.eta (c.pool.addRef h), hr, hp, Option.some.injEq] at hstep
      exact hstep ▸ hc
  | release h =>
    refine ⟨c', hstep, ?_⟩
    have hmem : h ∈ c.held := hmatch
    have hserved' : c.pool.Served (h :: c.held.erase h) :=
      hserved.perm (perm_cons_erase hmem)
    obtain ⟨p, heq, -, hk⟩ := hserved'.release
    simp only [Client.step, heq, Option.map_some] at hstep
    cases hstep
    obtain ⟨s, hsh⟩ := hserved.exists_shard hmem
    simp only [Pool.release, hsh] at heq
    obtain ⟨⟨s', r⟩, hrel, heq⟩ := map_eq_some_iff.1 heq
    cases heq
    obtain ⟨-, -, hh⟩ := hserved'.shard _ s hsh
    rw [ownRefs_cons_self] at hh
    have hx' := (hc.indexed s (mem_of_getElem? hsh)).release hh hrel
    exact hc.keep hgood (fun x hx => mem_of_mem_erase hx) hk (indexed_set hc.indexed hx') rfl
  | startCompaction =>
    obtain ⟨-, hk⟩ := hserved.startCompaction
    refine ⟨_, rfl, hc.keep (Option.some.inj hstep ▸ hgood) (fun _ hx => hx) hk ?_ rfl⟩
    intro s' hs'
    obtain ⟨s, hs, rfl⟩ := mem_map.1 hs'
    exact (hc.indexed s hs).startCompaction
  | migrateBatch n =>
    refine ⟨c', hstep, ?_⟩
    obtain ⟨p, done, heq, -, hk⟩ := hserved.migrateBatch g n hfits
    simp only [Client.step, heq, Option.map_some] at hstep
    cases hstep
    obtain ⟨rs, hrs, hp⟩ := map_eq_some_iff.1 heq
    cases hp
    refine hc.keep hgood (fun _ hx => hx) hk ?_ rfl
    intro s' hs'
    obtain ⟨r, hr, rfl⟩ := mem_map.1 hs'
    obtain ⟨s, hs, hsr⟩ := exists_of_mem_mapM _ _ hrs hr
    obtain ⟨k, hh⟩ := hshard s hs
    obtain ⟨s₁, done₁, heq₁, -, hx₁⟩ := (hc.indexed s hs).migrateBatch g hh.layout n (hfits s hs)
    rw [Option.some.inj (hsr.symm.trans heq₁)]
    exact hx₁
  | checkOldBufferRelease =>
    obtain ⟨-, hk⟩ := hserved.checkOldBufferRelease
    refine ⟨_, rfl, hc.keep (Option.some.inj hstep ▸ hgood) (fun _ hx => hx) hk ?_ rfl⟩
    intro s' hs'
    obtain ⟨s, hs, rfl⟩ := mem_map.1 hs'
    obtain ⟨k, hh⟩ := hshard s hs
    exact (hc.indexed s hs).checkOldBufferRelease hh
  | compact =>
    refine ⟨c', hstep, ?_⟩
    obtain ⟨p, heq, -, hk⟩ := hserved.compact g hfits
    simp only [Client.step, heq, Option.map_some] at hstep
    cases hstep
    obtain ⟨shards', hrs, rfl⟩ := map_eq_some_iff.1 heq
    refine hc.keep hgood (fun _ hx => hx) hk ?_ rfl
    intro s' hs'
    obtain ⟨s, hs, hcomp⟩ := exists_of_mem_mapM _ _ hrs hs'
    obtain ⟨k, hh⟩ := hshard s hs
    exact (hc.indexed s hs).compact hh.layout (hfits s hs) hcomp

/-- **Equal handles are equal bytes.** In every run from a new pool whose steps meet the conditions
of `get_of_promised` and are alone, two held handles are the same value exactly when they name the
same bytes, also while a compaction runs. Every state of such a run is reached by a shorter one. -/
theorem handle_eq_iff (g : AppendGrowth) {idx : ℕ} {initialCapacity shards : ℤ}
    (hnew : Pool.newWithShards idx initialCapacity shards = .ok p) (ops : List Op)
    (hmeets : Meets (step g) (fun c o => c.Matched o ∧ c.Fits o ∧ c.Sound o ∧ c.Alone o)
      (start p) ops) :
    ∃ c, run (step g) (start p) ops = some c ∧ ∀ x ∈ c.held, ∀ y ∈ c.held,
      (x = y ↔ ∃ d, c.pool.get x = some (.ok d) ∧ c.pool.get y = some (.ok d)) := by
  have hstart : (start p).Canonical := by
    refine ⟨⟨Pool.served_new hnew, fun h hmem => absurd hmem not_mem_nil⟩, ?_,
      fun h hmem => absurd hmem not_mem_nil, fun h hmem => absurd hmem not_mem_nil⟩
    intro s hs
    rw [Pool.newWithShards] at hnew
    split_ifs at hnew
    cases hnew
    obtain ⟨i, -, rfl⟩ := mem_map.1 hs
    exact Shard.indexed_new _ _ _
  obtain ⟨c, hrun, hc⟩ :=
    run_total (fun c o hc hcond => Canonical.step g hc o hcond) ops _ hstart hmeets
  refine ⟨c, hrun, fun x hx y hy => ?_⟩
  have hs := hc.good.served
  constructor
  · rintro rfl
    obtain ⟨-, -, d, -, -, -, -, hd⟩ := hs.exists_reads hx
    exact ⟨d, hs.get_eq hx hd, hs.get_eq hx hd⟩
  · rintro ⟨d, hdx, hdy⟩
    obtain ⟨-, -, a, -, -, -, -, ha⟩ := hs.exists_reads hx
    obtain ⟨-, -, b, -, -, -, -, hb⟩ := hs.exists_reads hy
    have hda : a = d := Except.ok.inj (Option.some.inj ((hs.get_eq hx ha).symm.trans hdx))
    have hdb : b = d := Except.ok.inj (Option.some.inj ((hs.get_eq hy hb).symm.trans hdy))
    subst hda hdb
    obtain ⟨hid, hslot⟩ := (hc.same_bytes_iff hx hy).1 ⟨_, ha, hb⟩
    exact hs.handle_ext hx hy hid hslot (hc.one_bit x hx y hy hid hslot)

/-- A run that interns during and after a compaction, on a pool of two shards. -/
theorem handle_eq_iff_compacting :
    ∃ p, Pool.newWithShards 0 0 2 = .ok p ∧
      ∃ c, run (step doubling) (start p) [.intern [1, 2], .startCompaction, .intern [3],
          .intern [1, 2], .migrateBatch 7, .intern [3], .release (newHandleWithBuffer false 0 0),
          .intern [4]] = some c ∧ ∀ x ∈ c.held, ∀ y ∈ c.held,
        (x = y ↔ ∃ d, c.pool.get x = some (.ok d) ∧ c.pool.get y = some (.ok d)) :=
  ⟨_, rfl, handle_eq_iff doubling (show Pool.newWithShards 0 0 2 = .ok _ from rfl) _
    (by decide +kernel)⟩

/-- The run that shows two handles of one content: it is interned, migrated and interned again while
the first handle is held. Both handles return the same byte, and they differ in the bit of the
buffer. -/
theorem handle_ne_same_bytes :
    ∃ p, Pool.newWithShards 0 0 1 = .ok p ∧
      Meets (step doubling) (fun c o => c.Matched o ∧ c.Fits o ∧ c.Sound o) (start p)
        [.intern [1], .startCompaction, .migrateBatch 1, .intern [1]] ∧
      ∃ c, run (step doubling) (start p)
          [.intern [1], .startCompaction, .migrateBatch 1, .intern [1]] = some c ∧
        newHandleWithBuffer false 0 0 ∈ c.held ∧ newHandleWithBuffer true 0 0 ∈ c.held ∧
        newHandleWithBuffer false 0 0 ≠ newHandleWithBuffer true 0 0 ∧
        c.pool.get (newHandleWithBuffer false 0 0) = some (.ok [1]) ∧
        c.pool.get (newHandleWithBuffer true 0 0) = some (.ok [1]) := by
  refine ⟨⟨0, false, 0, [Shard.new 0 0 64]⟩, rfl, by decide +kernel, ?_⟩
  have hrun : (run (step doubling) (start ⟨0, false, 0, [Shard.new 0 0 64]⟩)
      [.intern [1], .startCompaction, .migrateBatch 1, .intern [1]]).isSome := by
    decide +kernel
  exact ⟨_, (Option.some_get hrun).symm, by decide +kernel +revert, by decide +kernel +revert,
    by decide +kernel, rfl, rfl⟩

end Client

end Ze.AttrPool
