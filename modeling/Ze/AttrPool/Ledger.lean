import Ze.AttrPool.Pool

/-!
# What interned bytes a handle returns

A pool with the books of its callers: the references they hold, and the strings each handle was
handed out for since it was last held by nobody. The clause of `Sound` about `Intern` is a defect of
`retireSlot` (`get_stale_empty`).
-/

namespace Ze.AttrPool

open Ze.Lib List
open Option (map_some)

/-- The operations of a pool that change its state or its references.
Source: pool.go, the exported operations of Pool -/
inductive Op
  | intern (data : Bytes)
  | addRef (h : Handle)
  | release (h : Handle)
  | startCompaction
  | migrateBatch (batchSize : ℤ)
  | checkOldBufferRelease
  | compact

/-- The growth of a slice that at least doubles its capacity, as the Go runtime's does for small
slices. -/
def doubling : AppendGrowth where
  grow c n := max (2 * c) n
  le_grow _ _ := le_max_right _ _

/-- A pool and the books of its callers: the references they hold, one entry each, and the strings
every handle was handed out for since nobody held it. -/
structure Client where
  pool : Pool
  held : List Handle
  promised : Handle → List Bytes

namespace Client

def start (p : Pool) : Client := ⟨p, [], fun _ => []⟩

/-- Books a handle that `Intern` returned for `data`. A handle that nobody held starts afresh. -/
def book (c : Client) (p : Pool) (h : Handle) (data : Bytes) : Client where
  pool := p
  held := h :: c.held
  promised := Function.update c.promised h (data :: if h ∈ c.held then c.promised h else [])

/-- One operation of the pool, and what it does to the books. `none` is a panic.
Source: pool.go, the exported operations of Pool -/
def step (g : AppendGrowth) (c : Client) : Op → Option Client
  | .intern data => (c.pool.intern g data).map fun
      | (p, .ok h) => c.book p h data
      | (p, .error _) => { c with pool := p }
  | .addRef h => some (match c.pool.addRef h with
      | (p, none) => { c with pool := p, held := h :: c.held }
      | (p, some _) => { c with pool := p })
  | .release h => (c.pool.release h).map fun
      | (p, none) => { c with pool := p, held := c.held.erase h }
      | (p, some _) => { c with pool := p }
  | .startCompaction => some { c with pool := c.pool.startCompaction }
  | .migrateBatch batchSize => (c.pool.migrateBatch g batchSize).map fun (p, _) =>
    { c with pool := p }
  | .checkOldBufferRelease => some { c with pool := c.pool.checkOldBufferRelease }
  | .compact => (c.pool.compact g).map fun p => { c with pool := p }

/-- A reference is given back only while it is held. -/
def Matched (c : Client) : Op → Prop
  | .release h => h ∈ c.held
  | _ => True

/-- The step leaves every shard buffer below `2 ^ 32` bytes: the bytes it appends to a buffer are
those of the string it places, of the slots the batch copies, or of the live slots. -/
def Fits (c : Client) : Op → Prop
  | .intern data => ∀ s ∈ c.pool.shards[shardOf data c.pool.shardMask]?,
      s.lookup data = some none → s.cur.data.length + data.length < 2 ^ 32
  | .migrateBatch batchSize => ∀ s ∈ c.pool.shards, s.state = .compacting →
      s.cur.data.length + Shard.batchBytes s.pending batchSize.toNat < 2 ^ 32
  | .compact => ∀ s ∈ c.pool.shards, s.state = .normal → s.freeSlots ≠ [] →
      Shard.liveBytes s.slots < 2 ^ 32
  | _ => True

/-- The empty string is interned only while its shard does not index it under a live slot of other
bytes; a reference is added to a handle that is held, or is refused; and at most `2 ^ 31 - 1`
references are held. -/
def Sound (c : Client) : Op → Prop
  | .intern data => c.held.length + 1 < 2 ^ 31 ∧ (data = [] →
      ∀ s ∈ c.pool.shards[shardOf data c.pool.shardMask]?, s.NoStaleEmpty)
  | .addRef h => (h ∈ c.held ∧ c.held.length + 1 < 2 ^ 31) ∨ (c.pool.addRef h).2 ≠ none
  | _ => True

instance (c : Client) : (o : Op) → Decidable (c.Matched o)
  | .release h => inferInstanceAs (Decidable (h ∈ c.held))
  | .intern _ | .addRef _ | .startCompaction | .migrateBatch _ | .checkOldBufferRelease
  | .compact => isTrue trivial

instance (c : Client) : (o : Op) → Decidable (c.Fits o)
  | .intern data => inferInstanceAs (Decidable
      (∀ s ∈ c.pool.shards[shardOf data c.pool.shardMask]?, _ → _))
  | .migrateBatch _ => inferInstanceAs (Decidable (∀ s ∈ c.pool.shards, _ → _))
  | .compact => inferInstanceAs (Decidable (∀ s ∈ c.pool.shards, _ → _ → _))
  | .addRef _ | .release _ | .startCompaction | .checkOldBufferRelease => isTrue trivial

instance (c : Client) : (o : Op) → Decidable (c.Sound o)
  | .intern _ => inferInstanceAs (Decidable (_ ∧ (_ → _)))
  | .addRef _ => inferInstanceAs (Decidable (_ ∨ _))
  | .release _ | .startCompaction | .migrateBatch _ | .checkOldBufferRelease | .compact =>
    isTrue trivial

/-- The invariant of a pool with its books: every held handle reads each string it was handed out
for. -/
structure Good (c : Client) : Prop where
  served : c.pool.Served c.held
  reads : ∀ h ∈ c.held, ∀ d ∈ c.promised h, c.pool.Reads h d

variable {c : Client} {p : Pool} {h : Handle} {data : Bytes}

lemma Good.keep (hg : c.Good) (hs : p.Served c.held) (hk : c.pool.Kept p c.held) :
    ({ c with pool := p } : Client).Good :=
  ⟨hs, fun h hmem d hd => hk h hmem d (hg.reads h hmem d hd)⟩

lemma Good.book (hg : c.Good) (hs : p.Served (h :: c.held)) (hk : c.pool.Kept p c.held)
    (hr : p.Reads h data) : (c.book p h data).Good := by
  refine ⟨hs, fun x hx d hd => ?_⟩
  by_cases hxh : x = h
  · subst hxh
    simp only [Client.book, Function.update_self, mem_cons] at hd
    rcases hd with rfl | hd
    · exact hr
    · split_ifs at hd with hmem
      · exact hk x hmem d (hg.reads x hmem d hd)
      · cases hd
  · simp only [Client.book, Function.update_of_ne hxh] at hd
    have hmem : x ∈ c.held := (mem_cons.1 hx).resolve_left hxh
    exact hk x hmem d (hg.reads x hmem d hd)

lemma Good.step (g : AppendGrowth) (hg : c.Good) (o : Op)
    (hcond : c.Matched o ∧ c.Fits o ∧ c.Sound o) : ∃ c', c.step g o = some c' ∧ c'.Good := by
  obtain ⟨hmatch, hfits, hsound⟩ := hcond
  cases o with
  | intern data =>
    rcases hg.served.intern g hsound.1 hfits (fun hd s hs => hsound.2 hd s hs) with
      ⟨err, heq⟩ | ⟨p, h, heq, hs, hk, hr⟩
    · exact ⟨c, by simp only [Client.step, heq, map_some], hg⟩
    · exact ⟨c.book p h data, by simp only [Client.step, heq, map_some], hg.book hs hk hr⟩
  | addRef h =>
    cases hr : (c.pool.addRef h).2 with
    | none =>
      obtain ⟨hmem, hfew⟩ := hsound.resolve_right fun hne => hne hr
      obtain ⟨-, hs, hk⟩ := hg.served.addRef hmem hfew
      refine ⟨{ c with pool := (c.pool.addRef h).1, held := h :: c.held }, ?_, hs, ?_⟩
      · rw [Client.step, ← Prod.eta (c.pool.addRef h), hr]
      · intro x hx d hd
        have hx' : x ∈ c.held := by
          rcases mem_cons.1 hx with rfl | hx
          · exact hmem
          · exact hx
        exact hk x hx' d (hg.reads x hx' d hd)
    | some err =>
      refine ⟨c, ?_, hg⟩
      have hp := Pool.addRef_refused (p := c.pool) (h :=
        h) (by rw [hr]; exact Option.some_ne_none _)
      rw [Client.step, ← Prod.eta (c.pool.addRef h), hr, hp]
  | release h =>
    have hperm := perm_cons_erase hmatch
    have hserved : c.pool.Served (h :: c.held.erase h) := hg.served.perm hperm
    obtain ⟨p, heq, hs, hk⟩ := hserved.release
    refine ⟨{ c with pool := p, held := c.held.erase h }, ?_, hs, ?_⟩
    · simp only [Client.step, heq, map_some]
    · exact fun x hx d hd => hk x hx d (hg.reads x (mem_of_mem_erase hx) d hd)
  | startCompaction =>
    obtain ⟨hs, hk⟩ := hg.served.startCompaction
    exact ⟨_, rfl, hg.keep hs hk⟩
  | migrateBatch n =>
    obtain ⟨p, done, heq, hs, hk⟩ := hg.served.migrateBatch g n hfits
    exact ⟨_, by simp only [Client.step, heq, map_some], hg.keep hs hk⟩
  | checkOldBufferRelease =>
    obtain ⟨hs, hk⟩ := hg.served.checkOldBufferRelease
    exact ⟨_, rfl, hg.keep hs hk⟩
  | compact =>
    obtain ⟨p, heq, hs, hk⟩ := hg.served.compact g hfits
    exact ⟨_, by simp only [Client.step, heq, map_some], hg.keep hs hk⟩

/-- **Interned bytes come back.** In every run from a new pool whose steps give back only held
references, keep every buffer below `2 ^ 32` bytes and are sound, no operation panics, and in the
state reached `Get` of a held handle returns each string the handle was handed out for. Every state
of such a run is reached by a shorter one. -/
theorem get_of_promised (g : AppendGrowth) {idx : ℕ} {initialCapacity shards : ℤ}
    (hnew : Pool.newWithShards idx initialCapacity shards = .ok p) (ops : List Op)
    (hmeets : Meets (step g) (fun c o => c.Matched o ∧ c.Fits o ∧ c.Sound o) (start p) ops) :
    ∃ c, run (step g) (start p) ops = some c ∧
      ∀ h ∈ c.held, ∀ d ∈ c.promised h, c.pool.get h = some (.ok d) := by
  have hstart : (start p).Good :=
    ⟨Pool.served_new hnew, fun h hmem => absurd hmem not_mem_nil⟩
  obtain ⟨c, hrun, hgood⟩ := run_total (fun c o hg hc => Good.step g hg o hc) ops _ hstart hmeets
  exact ⟨c, hrun, fun h hmem d hd => hgood.served.get_eq hmem (hgood.reads h hmem d hd)⟩

/-- A run that compacts while references are held, on a pool of two shards. -/
theorem get_of_promised_compacting :
    ∃ p, Pool.newWithShards 0 0 2 = .ok p ∧
      ∃ c, run (step doubling) (start p) [.intern [1, 2], .intern [], .startCompaction,
          .intern [3], .migrateBatch 1, .addRef (newHandleWithBuffer false 0 0),
          .release (newHandleWithBuffer false 0 0), .intern [1, 2], .migrateBatch 7,
          .checkOldBufferRelease, .compact] = some c ∧
        ∀ h ∈ c.held, ∀ d ∈ c.promised h, c.pool.get h = some (.ok d) :=
  ⟨_, rfl, get_of_promised doubling (show Pool.newWithShards 0 0 2 = .ok _ from rfl) _
    (by decide +kernel)⟩

/-- The run that shows the stale entry of the empty string: its slot is retired while the buffer is
empty, reused for another string, and then handed out for the empty string again. Callers give back
only what they hold and the buffers hold one byte, but `Get` returns the other string. -/
theorem get_stale_empty :
    ∃ p, Pool.newWithShards 0 0 1 = .ok p ∧
      Meets (step doubling) (fun c o => c.Matched o ∧ c.Fits o) (start p)
        [.intern [], .release (newHandleWithBuffer false 0 0), .intern [120], .intern []] ∧
      ∃ c, run (step doubling) (start p)
          [.intern [], .release (newHandleWithBuffer false 0 0), .intern [120], .intern []] =
            some c ∧
        newHandleWithBuffer false 0 0 ∈ c.held ∧ [] ∈ c.promised (newHandleWithBuffer false 0 0) ∧
        c.pool.get (newHandleWithBuffer false 0 0) = some (.ok [120]) := by
  refine ⟨⟨0, false, 0, [Shard.new 0 0 64]⟩, rfl, by decide +kernel, ?_⟩
  have hrun : (run (step doubling) (start ⟨0, false, 0, [Shard.new 0 0 64]⟩)
      [.intern [], .release (newHandleWithBuffer false 0 0), .intern [120], .intern []]).isSome =
      true := by decide +kernel
  exact ⟨_, (Option.some_get hrun).symm, by decide +kernel +revert, by decide +kernel +revert, rfl⟩

end Client

end Ze.AttrPool
