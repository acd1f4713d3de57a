import Ze.Lib.Run
import Ze.AttrPool.Compaction

/-!
# The attribute pool

`Pool` of `attrpool/pool.go`: up to sixteen shards, selected by a hash of the interned bytes, and
the operations that route to a shard or visit every shard. As for a shard, `none` is a panic.

`Pool.Served p held`: every shard is in order for the references that carry its id.
-/

namespace Ze.AttrPool

open Ze.Lib List
open Option (map_eq_some_iff map_some)

structure Pool where
  idx : ℕ
  shutdown : Bool
  shardMask : UInt32
  shards : List Shard

def shardOf (data : Bytes) (mask : UInt32) : ℕ :=
  let h := data.foldl (fun h b => (h ^^^ b.toUInt32) * 16777619) (2166136261 : UInt32)
  let h := h ^^^ (h >>> 16)
  (h &&& mask).toNat

namespace Pool

def numShards : ℕ := 16

def newWithShards (idx : ℕ) (initialCapacity shards : ℤ) : Except PoolError Pool :=
  if 31 ≤ idx then .error .invalidIdx
  else if shards < 1 ∨ shards > numShards ∨ shards.toNat &&& (shards.toNat - 1) ≠ 0 then
    .error .invalidShardCount
  else
    let perShardCapacity := max (initialCapacity.tdiv shards) 64
    .ok {
      idx := idx
      shutdown := false
      shardMask := UInt32.ofNat (shards.toNat - 1)
      shards := (range shards.toNat).map fun i => Shard.new i idx perShardCapacity.toNat }

def intern (g : AppendGrowth) (p : Pool) (data : Bytes) : Option (Pool × Except PoolError Handle) :=
  if maxDataLength < data.length then some (p, .error .dataTooLarge)
  else
    let k := shardOf data p.shardMask
    match p.shards[k]? with
    | none => none
    | some s => (s.intern g p.shutdown data).map fun (s', r) =>
      ({ p with shards := p.shards.set k s' }, r)

/-- Source: pool.go Get, shardForHandle. -/
def get (p : Pool) (h : Handle) : Option (Except PoolError Bytes) :=
  match p.shards[h.shardID]? with
  | none => some (.error .wrongPool)
  | some s => s.get h

/-- Source: pool.go Release, shardForHandle. -/
def release (p : Pool) (h : Handle) : Option (Pool × Option PoolError) :=
  match p.shards[h.shardID]? with
  | none => some (p, some .wrongPool)
  | some s => (s.release h).map fun (s', r) => ({ p with shards := p.shards.set h.shardID s' }, r)

/-- Source: pool.go AddRef, shardForHandle. -/
def addRef (p : Pool) (h : Handle) : Pool × Option PoolError :=
  match p.shards[h.shardID]? with
  | none => (p, some .wrongPool)
  | some s => ({ p with shards := p.shards.set h.shardID (s.addRef h).1 }, (s.addRef h).2)

def startCompaction (p : Pool) : Pool :=
  { p with shards := p.shards.map Shard.startCompaction }

def migrateBatch (g : AppendGrowth) (p : Pool) (batchSize : ℤ) : Option (Pool × Bool) :=
  (p.shards.mapM fun s : Shard => s.migrateBatch g batchSize).map fun rs =>
    ({ p with shards := rs.map Prod.fst }, rs.all Prod.snd)

def checkOldBufferRelease (p : Pool) : Pool :=
  { p with shards := p.shards.map Shard.checkOldBufferRelease }

def compact (g : AppendGrowth) (p : Pool) : Option Pool :=
  (p.shards.mapM fun s : Shard => s.compact g).map fun shards => { p with shards := shards }

end Pool

/-! ## Held references by shard -/

def ownRefs (held : List Handle) (k : ℕ) : List Handle :=
  held.filter fun h => decide (h.shardID = k)

lemma mem_ownRefs {held : List Handle} {k : ℕ} {h : Handle} :
    h ∈ ownRefs held k ↔ h ∈ held ∧ h.shardID = k := by
  rw [ownRefs, mem_filter, decide_eq_true_eq]

lemma ownRefs_cons_self (h : Handle) (held : List Handle) :
    ownRefs (h :: held) h.shardID = h :: ownRefs held h.shardID := by
  rw [ownRefs, filter_cons, if_pos (decide_eq_true rfl), ownRefs]

lemma ownRefs_cons_of_ne {h : Handle} {k : ℕ} (hk : k ≠ h.shardID) (held : List Handle) :
    ownRefs (h :: held) k = ownRefs held k := by
  rw [ownRefs, filter_cons, if_neg, ownRefs]
  rw [decide_eq_true_eq]
  exact Ne.symm hk

lemma length_ownRefs_le (held : List Handle) (k : ℕ) : (ownRefs held k).length ≤ held.length :=
  length_filter_le _ _

namespace Pool

variable {p p' : Pool} {held held' : List Handle} {h : Handle} {d data : Bytes} {k : ℕ}
  {s s' : Shard}

def Reads (p : Pool) (h : Handle) (d : Bytes) : Prop :=
  ∃ s, p.shards[h.shardID]? = some s ∧ s.Reads h d

def Kept (p p' : Pool) (held : List Handle) : Prop :=
  ∀ h ∈ held, ∀ d, p.Reads h d → p'.Reads h d

/-- The invariant of a pool whose callers hold the references `held`. -/
structure Served (p : Pool) (held : List Handle) : Prop where
  not_shutdown : p.shutdown = false
  mask : p.shardMask.toNat + 1 = p.shards.length
  few : held.length < 2 ^ 31
  shard_lt : ∀ h ∈ held, h.shardID < p.shards.length
  shard : ∀ (k : ℕ) (s : Shard), p.shards[k]? = some s →
    s.id = k ∧ s.idx = p.idx ∧ s.Held (ownRefs held k)

lemma Served.shardOf_lt (hp : p.Served held) (data : Bytes) :
    shardOf data p.shardMask < p.shards.length := by
  rw [← hp.mask, shardOf, UInt32.toNat_and]
  exact Nat.lt_succ_of_le Nat.and_le_right

lemma Served.exists_shard (hp : p.Served held) (hmem : h ∈ held) :
    ∃ s, p.shards[h.shardID]? = some s :=
  ⟨_, getElem?_eq_getElem (hp.shard_lt h hmem)⟩

lemma Served.get_eq (hp : p.Served held) (hmem : h ∈ held) (hr : p.Reads h d) :
    p.get h = some (.ok d) := by
  obtain ⟨s, hs, hr⟩ := hr
  simp only [get, hs]
  exact (hp.shard _ s hs).2.2.get_eq (mem_ownRefs.2 ⟨hmem, rfl⟩) hr

lemma Served.perm (hp : p.Served held) (hperm : held.Perm held') : p.Served held' where
  not_shutdown := hp.not_shutdown
  mask := hp.mask
  few := hperm.length_eq ▸ hp.few
  shard_lt := fun h hmem => hp.shard_lt h (hperm.mem_iff.2 hmem)
  shard := fun k s hs => by
    obtain ⟨h₁, h₂, h₃⟩ := hp.shard k s hs
    exact ⟨h₁, h₂, h₃.perm (hperm.filter _)⟩

lemma Served.set (hp : p.Served held) (hs : p.shards[k]? = some s) (hid : s'.id = s.id)
    (hidx : s'.idx = s.idx) (hs' : s'.Held (ownRefs held' k))
    (hother : ∀ j, j ≠ k → ownRefs held' j = ownRefs held j)
    (hlt : ∀ h ∈ held', h.shardID < p.shards.length) (hfew : held'.length < 2 ^ 31) :
    ({ p with shards := p.shards.set k s' } : Pool).Served held' where
  not_shutdown := hp.not_shutdown
  mask := by
    rw [length_set]
    exact hp.mask
  few := hfew
  shard_lt := by
    intro x hx
    rw [length_set]
    exact hlt x hx
  shard := by
    intro j t hj
    by_cases hjk : k = j
    · subst hjk
      simp only [getElem?_set_self (List.getElem?_eq_some_iff.mp hs).1, Option.some.injEq] at hj
      obtain ⟨h₁, h₂, -⟩ := hp.shard k s hs
      subst hj
      exact ⟨hid.trans h₁, hidx.trans h₂, hs'⟩
    · simp only [getElem?_set_ne hjk] at hj
      obtain ⟨h₁, h₂, h₃⟩ := hp.shard j t hj
      exact ⟨h₁, h₂, by rw [hother j (Ne.symm hjk)]; exact h₃⟩

lemma kept_set (hs : p.shards[k]? = some s) (hk : s.Kept s' (ownRefs held k)) :
    p.Kept { p with shards := p.shards.set k s' } held := by
  rintro x hx d ⟨t, ht, hr⟩
  by_cases hxk : k = x.shardID
  · subst hxk
    obtain rfl : s = t := Option.some.inj (hs.symm.trans ht)
    exact ⟨s', getElem?_set_self (List.getElem?_eq_some_iff.mp hs).1,
      hk x (mem_ownRefs.2 ⟨hx, rfl⟩) d hr⟩
  · exact ⟨t, by simp only [getElem?_set_ne hxk]; exact ht, hr⟩

lemma Served.each (hp : p.Served held) {shards' : List Shard}
    (hlen : shards'.length = p.shards.length)
    (heach : ∀ (k : ℕ) (s' : Shard), shards'[k]? = some s' → ∃ s, p.shards[k]? = some s ∧
      (s.Held (ownRefs held k) → s'.Held (ownRefs held k) ∧ s.Kept s' (ownRefs held k) ∧
        s'.id = s.id ∧ s'.idx = s.idx)) :
    ({ p with shards := shards' } : Pool).Served held ∧ p.Kept { p with shards :=
      shards' } held := by
  constructor
  · refine ⟨hp.not_shutdown, by rw [hlen]; exact hp.mask, hp.few, ?_, ?_⟩
    · intro x hx
      rw [hlen]
      exact hp.shard_lt x hx
    · intro j t hj
      obtain ⟨s, hs, hstep⟩ := heach j t hj
      obtain ⟨h₁, h₂, h₃⟩ := hp.shard j s hs
      obtain ⟨hh, -, hid, hidx⟩ := hstep h₃
      exact ⟨hid.trans h₁, hidx.trans h₂, hh⟩
  · rintro x hx d ⟨t, ht, hr⟩
    have hlt : x.shardID < shards'.length := by
      rw [hlen]
      exact hp.shard_lt x hx
    obtain ⟨s, hs, hstep⟩ := heach _ _ (getElem?_eq_getElem hlt)
    obtain rfl : s = t := Option.some.inj (hs.symm.trans ht)
    exact ⟨_, getElem?_eq_getElem hlt,
      (hstep (hp.shard _ s hs).2.2).2.1 x (mem_ownRefs.2 ⟨hx, rfl⟩) d hr⟩

/-! ## The operations under held references -/

lemma Served.intern (g : AppendGrowth) (hp : p.Served held) (hfew : held.length + 1 < 2 ^ 31)
    (hroom : ∀ s, p.shards[shardOf data p.shardMask]? = some s →
      s.lookup data = some none → s.cur.data.length + data.length < 2 ^ 32)
    (hstale : data = [] → ∀ s, p.shards[shardOf data p.shardMask]? = some s → s.NoStaleEmpty) :
    (∃ err, p.intern g data = some (p, .error err)) ∨
    ∃ p' h, p.intern g data = some (p', .ok h) ∧ p'.Served (h :: held) ∧ p.Kept p' held ∧
      p'.Reads h data := by
  by_cases hlen : maxDataLength < data.length
  · exact .inl ⟨.dataTooLarge, by rw [Pool.intern, if_pos hlen]⟩
  have hlt := hp.shardOf_lt data
  obtain ⟨s, hs⟩ : ∃ s, p.shards[shardOf data p.shardMask]? = some s :=
    ⟨_, getElem?_eq_getElem hlt⟩
  obtain ⟨hid, -, hh⟩ := hp.shard _ s hs
  have hle := length_ownRefs_le held (shardOf data p.shardMask)
  rcases hh.intern g (by rw [maxDataLength] at hlen; omega) (by omega) (hroom s hs)
    (fun hd => hstale hd s hs) with ⟨err, herr⟩ | ⟨s', h, hok, hh', hk, hr, hsid, hid', hidx'⟩
  · rw [← hp.not_shutdown] at herr
    refine .inl ⟨err, ?_⟩
    simp only [Pool.intern, if_neg hlen, hs, herr, map_some]
    rw [getElem?_eq_getElem hlt, Option.some.injEq] at hs
    rw [← hs, set_getElem_self]
  · rw [← hp.not_shutdown] at hok
    have hsk : h.shardID = shardOf data p.shardMask := hsid.trans hid
    refine .inr ⟨{ p with shards := p.shards.set (shardOf data p.shardMask) s' }, h, ?_, ?_,
      kept_set hs hk, s', ?_, hr⟩
    · simp only [Pool.intern, if_neg hlen, hs, hok, map_some]
    · refine hp.set hs hid' hidx' ?_ ?_ ?_ (by simpa using hfew)
      · rw [← hsk, ownRefs_cons_self, hsk]
        exact hh'
      · intro j hj
        rw [ownRefs_cons_of_ne (by rw [hsk]; exact hj)]
      · intro x hx
        rcases mem_cons.1 hx with rfl | hx
        · rw [hsk]
          exact hlt
        · exact hp.shard_lt x hx
    · simp only [hsk]
      exact getElem?_set_self hlt

lemma Served.addRef (hp : p.Served held) (hmem : h ∈ held) (hfew : held.length + 1 < 2 ^ 31) :
    (p.addRef h).2 = none ∧ (p.addRef h).1.Served (h :: held) ∧ p.Kept (p.addRef h).1 held := by
  obtain ⟨s, hs⟩ := hp.exists_shard hmem
  obtain ⟨-, -, hh⟩ := hp.shard _ s hs
  have hle := length_ownRefs_le held h.shardID
  obtain ⟨heq, hh', hk⟩ := hh.addRef (mem_ownRefs.2 ⟨hmem, rfl⟩) (by omega)
  simp only [Pool.addRef, hs, heq]
  refine ⟨trivial, hp.set hs rfl rfl ?_ ?_ ?_ (by simpa using hfew), kept_set hs hk⟩
  · rw [ownRefs_cons_self]
    exact hh'
  · intro j hj
    rw [ownRefs_cons_of_ne hj]
  · intro x hx
    rcases mem_cons.1 hx with rfl | hx
    · exact hp.shard_lt _ hmem
    · exact hp.shard_lt x hx

lemma addRef_refused (herr : (p.addRef h).2 ≠ none) : (p.addRef h).1 = p := by
  rw [Pool.addRef] at herr ⊢
  cases hs : p.shards[h.shardID]? with
  | none => rfl
  | some s =>
    simp only [hs, Shard.addRef] at herr ⊢
    cases hv : s.validateHandle h with
    | none => simp only [hv, ne_eq, not_true_eq_false] at herr
    | some err =>
      obtain ⟨hlt, rfl⟩ := List.getElem?_eq_some_iff.mp hs
      simp only [set_getElem_self]

lemma Served.release (hp : p.Served (h :: held)) :
    ∃ p', p.release h = some (p', none) ∧ p'.Served held ∧ p.Kept p' held := by
  obtain ⟨s, hs⟩ := hp.exists_shard mem_cons_self
  obtain ⟨-, -, hh⟩ := hp.shard _ s hs
  rw [ownRefs_cons_self] at hh
  obtain ⟨s', heq, hh', hr⟩ := hh.release
  have hfew := hp.few
  rw [length_cons] at hfew
  refine ⟨{ p with shards := p.shards.set h.shardID s' }, ?_, ?_, kept_set hs (hr.kept _)⟩
  · simp only [Pool.release, hs, heq, map_some]
  · refine hp.set hs hr.id hr.idx hh' ?_ ?_ (by omega)
    · intro j hj
      rw [ownRefs_cons_of_ne hj]
    · exact fun x hx => hp.shard_lt x (mem_cons_of_mem _ hx)

lemma Served.startCompaction (hp : p.Served held) :
    p.startCompaction.Served held ∧ p.Kept p.startCompaction held := by
  refine hp.each (length_map _) fun k s' hk => ?_
  rw [getElem?_map] at hk
  obtain ⟨s, hs, rfl⟩ := map_eq_some_iff.1 hk
  refine ⟨s, hs, fun hh => ?_⟩
  obtain ⟨hh', hkept⟩ := hh.startCompaction
  refine ⟨hh', hkept, ?_, ?_⟩ <;> rw [Shard.startCompaction] <;> split_ifs <;> rfl

lemma Served.checkOldBufferRelease (hp : p.Served held) :
    p.checkOldBufferRelease.Served held ∧ p.Kept p.checkOldBufferRelease held := by
  refine hp.each (length_map _) fun k s' hk => ?_
  rw [getElem?_map] at hk
  obtain ⟨s, hs, rfl⟩ := map_eq_some_iff.1 hk
  refine ⟨s, hs, fun hh => ?_⟩
  obtain ⟨hh', hkept⟩ := hh.checkOldBufferRelease
  refine ⟨hh', hkept, ?_, ?_⟩ <;> rw [Shard.checkOldBufferRelease] <;> split_ifs <;> rfl

lemma Served.migrateBatch (g : AppendGrowth) (hp : p.Served held) (batchSize : ℤ)
    (hroom : ∀ s ∈ p.shards, s.state = .compacting →
      s.cur.data.length + Shard.batchBytes s.pending batchSize.toNat < 2 ^ 32) :
    ∃ p' done, p.migrateBatch g batchSize = some (p', done) ∧ p'.Served held ∧ p.Kept p' held := by
  have hbatch : ∀ (k : ℕ) (s : Shard), p.shards[k]? = some s → ∃ s' done,
      s.migrateBatch g batchSize = some (s', done) ∧ s'.Held (ownRefs held k) ∧
        s.Kept s' (ownRefs held k) ∧ s'.id = s.id ∧ s'.idx = s.idx := fun k s hs =>
    (hp.shard k s hs).2.2.migrateBatch g batchSize (hroom s (mem_of_getElem? hs))
  obtain ⟨rs, hrs, hlen, hget⟩ := mapM_total p.shards
    (f := fun s : Shard => s.migrateBatch g batchSize) fun k s hs => by
      obtain ⟨s', done, heq, -⟩ := hbatch k s hs
      exact ⟨(s', done), heq⟩
  refine ⟨{ p with shards := rs.map Prod.fst }, rs.all Prod.snd, ?_, hp.each ?_ ?_⟩
  · rw [Pool.migrateBatch, hrs, map_some]
  · rw [length_map, hlen]
  · intro k s' hk
    rw [getElem?_map] at hk
    obtain ⟨r, hr, rfl⟩ := map_eq_some_iff.1 hk
    obtain ⟨s, hs, heq⟩ := hget k r hr
    obtain ⟨s₁, done, heq₁, hrest⟩ := hbatch k s hs
    obtain rfl : r = (s₁, done) := Option.some.inj (heq.symm.trans heq₁)
    exact ⟨s, hs, fun _ => hrest⟩

lemma Served.compact (g : AppendGrowth) (hp : p.Served held)
    (hroom : ∀ s ∈ p.shards, s.state = .normal → s.freeSlots ≠ [] →
      Shard.liveBytes s.slots < 2 ^ 32) :
    ∃ p', p.compact g = some p' ∧ p'.Served held ∧ p.Kept p' held := by
  have hcompact : ∀ (k : ℕ) (s : Shard), p.shards[k]? = some s → ∃ s', s.compact g = some s' ∧
      s'.Held (ownRefs held k) ∧ s.Kept s' (ownRefs held k) ∧ s'.id = s.id ∧ s'.idx = s.idx :=
    fun k s hs => (hp.shard k s hs).2.2.compact g (hroom s (mem_of_getElem? hs))
  obtain ⟨shards', hrs, hlen, hget⟩ := mapM_total p.shards (f := fun s : Shard => s.compact g)
    fun k s hs => by
      obtain ⟨s', heq, -⟩ := hcompact k s hs
      exact ⟨s', heq⟩
  refine ⟨{ p with shards := shards' }, ?_, hp.each hlen ?_⟩
  · rw [Pool.compact, hrs, map_some]
  · intro k s' hk
    obtain ⟨s, hs, heq⟩ := hget k s' hk
    obtain ⟨s₁, heq₁, hrest⟩ := hcompact k s hs
    obtain rfl : s' = s₁ := Option.some.inj (heq.symm.trans heq₁)
    exact ⟨s, hs, fun _ => hrest⟩

lemma served_new {idx : ℕ} {initialCapacity shards : ℤ}
    (hnew : newWithShards idx initialCapacity shards = .ok p) : p.Served [] := by
  rw [newWithShards] at hnew
  split_ifs at hnew with hidx hshards
  cases hnew
  simp only [not_or, not_lt, numShards] at hshards
  refine ⟨rfl, ?_, by norm_num, fun h hmem => absurd hmem not_mem_nil, ?_⟩
  · have hlt : shards.toNat - 1 < UInt32.size := by
      rw [UInt32.size]
      omega
    simp only [length_map, length_range, UInt32.toNat_ofNat_of_lt' hlt]
    omega
  · intro k s hs
    rw [getElem?_map] at hs
    obtain ⟨i, hi, rfl⟩ := map_eq_some_iff.1 hs
    obtain ⟨hlt, rfl⟩ := List.getElem?_eq_some_iff.mp hi
    rw [length_range] at hlt
    simp only [getElem_range]
    exact ⟨rfl, rfl, Shard.held_new _ (by omega) (by omega)⟩

end Pool

end Ze.AttrPool
