import Ze.Lib.Run
import Ze.Reactor.RecentCache
import Mathlib.Data.List.TakeWhile

/-!
# Who still owes an ack

The entries of the cache carry counts, not names. Here the cache runs beside the history that gives
the counts their meaning: to whom each update was handed, which of them have unregistered since, and
every ack that was accepted. `owing` is the consumers that an update waits for.

Default file: `recent_cache.go`.
-/

namespace Ze.Reactor

open Ze.Lib List

/-! ## One id at a time -/

section

variable {N : Type}

/-- What the cache holds for an id: its entry, and how often its buffers went back to the pool. -/
def slot (c : Cache N) (k : UInt64) : Option CacheEntry × ℕ :=
  (c.entries.items k, c.returned.count k)

/-- An operation at one id that changes what the cache holds for it by `g`, and nothing else. -/
def ActsBy (f : Cache N → UInt64 → Cache N)
    (g : Option CacheEntry × ℕ → Option CacheEntry × ℕ) : Prop :=
  ∀ c id k, slot (f c id) k = if k = id then g (slot c id) else slot c k

lemma slot_foldl {f : Cache N → UInt64 → Cache N}
    {g : Option CacheEntry × ℕ → Option CacheEntry × ℕ} (hf : ActsBy f g) :
    (ids : List UInt64) → ids.Nodup → ∀ (c : Cache N) (k : UInt64),
      slot (ids.foldl f c) k = if k ∈ ids then g (slot c k) else slot c k
  | [], _, c, k => by simp
  | id :: ids, hnd, c, k => by
    obtain ⟨hid, hnd'⟩ := nodup_cons.1 hnd
    rw [foldl_cons, slot_foldl hf ids hnd' (f c id) k, hf c id k]
    by_cases hk : k = id
    · subst hk
      rw [if_neg hid, if_pos rfl, if_pos mem_cons_self]
    · rw [if_neg hk]
      by_cases hmem : k ∈ ids
      · rw [if_pos hmem, if_pos (mem_cons_of_mem _ hmem)]
      · have hnot : k ∉ id :: ids := by
          rw [mem_cons, not_or]
          exact ⟨hk, hmem⟩
        rw [if_neg hmem, if_neg hnot]

/-- A changed entry, stored or evicted. Source: e.totalConsumers() <= 0. -/
def settleSlot (e : CacheEntry) (n : ℕ) : Option CacheEntry × ℕ :=
  if e.totalConsumers ≤ 0 then (none, n + 1) else (some e, n)

/-- An ack counted at an entry. Source: ackEntryLocked. -/
def ackSlot : Option CacheEntry × ℕ → Option CacheEntry × ℕ
  | (none, n) => (none, n)
  | (some e, n) =>
    if e.pending then (some { e with earlyAckCount := e.earlyAckCount + 1 }, n)
    else settleSlot { e with pendingConsumers := e.pendingConsumers - 1 } n

/-- An unordered consumer that leaves an entry. Source: UnregisterConsumer. -/
def leaveSlot (bit : UInt32) : Option CacheEntry × ℕ → Option CacheEntry × ℕ
  | (none, n) => (none, n)
  | (some e, n) =>
    let e' := { e with ackedUnordered := e.ackedUnordered &&& ~~~bit }
    if e.ackedUnordered &&& bit != 0 then (some e', n) else ackSlot (some e', n)

/-- The bits of an entry changed by `f`. Source: ackedUnordered. -/
def reBit (f : UInt32 → UInt32) : Option CacheEntry × ℕ → Option CacheEntry × ℕ
  | (none, n) => (none, n)
  | (some e, n) => (some { e with ackedUnordered := f e.ackedUnordered }, n)

@[simp] lemma reBit_id (s : Option CacheEntry × ℕ) : reBit (fun b => b) s = s := by
  obtain ⟨_ | e, n⟩ := s
  · rfl
  · rfl

lemma any_reBit (f : UInt32 → UInt32) (s : Option CacheEntry × ℕ) :
    (reBit f s).1.any (fun e => !e.pending) = s.1.any fun e => !e.pending := by
  obtain ⟨_ | e, n⟩ := s
  · rfl
  · rfl

lemma isSome_reBit (f : UInt32 → UInt32) (s : Option CacheEntry × ℕ) :
    (reBit f s).1.isSome = s.1.isSome := by
  obtain ⟨_ | e, n⟩ := s
  · rfl
  · rfl

lemma leaveSlot_eq (bit : UInt32) (s : Option CacheEntry × ℕ) :
    leaveSlot bit s =
      if (s.1.map fun e => e.ackedUnordered &&& bit != 0).getD false then reBit (· &&& ~~~bit) s
      else ackSlot (reBit (· &&& ~~~bit) s) := by
  obtain ⟨_ | e, n⟩ := s
  · rfl
  · rfl

lemma slot_set (c : Cache N) (id k : UInt64) (e : CacheEntry) :
    slot { c with entries := c.entries.set id e } k =
      if k = id then (some e, c.returned.count id) else slot c k := by
  unfold slot SeqMap.set
  by_cases hk : k = id
  · subst hk
    simp
  · simp [hk]

lemma slot_evictLocked (c : Cache N) (id k : UInt64) :
    slot (c.evictLocked id) k =
      if k = id then (none, c.returned.count id + 1) else slot c k := by
  unfold slot Cache.evictLocked SeqMap.delete
  by_cases hk : k = id
  · subst hk
    simp
  · have hne : id ≠ k := fun h => hk h.symm
    simp [hk, count_append, hne]

lemma slot_settle (c : Cache N) (id k : UInt64) (e : CacheEntry) :
    slot (c.settle id e) k =
      if k = id then settleSlot e (c.returned.count id) else slot c k := by
  unfold Cache.settle settleSlot
  split_ifs with htot hk hk
  · rw [slot_evictLocked, if_pos hk]
  · rw [slot_evictLocked, if_neg hk, slot_set, if_neg hk]
  · rw [slot_set, if_pos hk]
  · rw [slot_set, if_neg hk]

lemma actsBy_ackEntryLocked : ActsBy (N := N) Cache.ackEntryLocked ackSlot := by
  intro c id k
  unfold Cache.ackEntryLocked
  rcases hid : c.entries.items id with _ | e
  · by_cases hk : k = id
    · subst hk
      simp [slot, ackSlot, hid]
    · simp [hk]
  · have hs : slot c id = (some e, c.returned.count id) := by
      rw [slot, hid]
    simp only
    by_cases hp : e.pending
    · rw [if_pos hp, slot_set, hs, ackSlot, if_pos hp]
    · rw [if_neg hp, slot_settle, hs, ackSlot, if_neg hp]

lemma actsBy_leaveUnordered (bit : UInt32) :
    ActsBy (N := N) (Cache.leaveUnordered bit) (leaveSlot bit) := by
  intro c id k
  unfold Cache.leaveUnordered Cache.hasBit
  rcases hid : c.entries.items id with _ | e
  · have hclear : c.clearBit bit id = c := by
      rw [Cache.clearBit, hid]
    have hack : c.ackEntryLocked id = c := by
      rw [Cache.ackEntryLocked, hid]
    simp only [Option.map_none, Option.getD_none, Bool.false_eq_true, if_false]
    rw [hclear, hack]
    by_cases hk : k = id
    · subst hk
      simp [slot, leaveSlot, hid]
    · simp [hk]
  · have hs : slot c id = (some e, c.returned.count id) := by
      rw [slot, hid]
    have hclear : c.clearBit bit id = { c with
        entries := c.entries.set id { e with ackedUnordered := e.ackedUnordered &&& ~~~bit } } := by
      rw [Cache.clearBit, hid]
    simp only [Option.map_some, Option.getD_some]
    rw [hclear, hs, leaveSlot]
    by_cases hb : (e.ackedUnordered &&& bit != 0)
    · rw [if_pos hb, if_pos hb, slot_set]
    · rw [if_neg hb, if_neg hb, actsBy_ackEntryLocked, slot_set, slot_set, if_pos rfl]
      by_cases hk : k = id
      · rw [if_pos hk, if_pos hk]
      · rw [if_neg hk, if_neg hk, if_neg hk]

end

/-! ## The history -/

variable {N : Type} [DecidableEq N]

/-- An accepted ack, and whether the consumer acks in order. -/
structure Ack (N : Type) where
  plugin : N
  id : UInt64
  ordered : Bool

/-- The cache with its history: the updates that were added, to whom each was handed and who of them
has not unregistered since, the acks of the consumers that are registered, the retains that are not
released, and the releases that still have to look under the lock. -/
structure World (N : Type) where
  cache : Cache N := {}
  added : List UInt64 := []
  delivered : UInt64 → Finset N := fun _ => ∅
  waits : UInt64 → Finset N := fun _ => ∅
  acks : List (Ack N) := []
  retains : UInt64 → ℕ := fun _ => 0
  slow : List UInt64 := []

/-- What happens to the cache. Source: recent_cache.go; server/events.go
onMessageBatchReceived. -/
inductive Op (N : Type)
  | add (id : UInt64)
  | deliver (id : UInt64) (c : N)
  | activate (id : UInt64)
  | ack (id : UInt64) (c : N)
  | register (c : N) (unordered : Bool)
  | unregister (c : N)
  | retain (id : UInt64)
  | release (id : UInt64)
  | releaseSlow (id : UInt64)

/-- The consumer on whose behalf entries are counted. Source: Ack, UnregisterConsumer. -/
def Op.consumer : Op N → Option N
  | .ack _ c => some c
  | .unregister c => some c
  | _ => none

namespace World

/-- The consumer has acked the update, or in order a later one. Source: Ack. -/
def acked (w : World N) (c : N) (id : UInt64) : Bool :=
  w.acks.any fun a => a.plugin = c && (a.id = id || (a.ordered && id ≤ a.id))

def owing (w : World N) (id : UInt64) : Finset N :=
  (w.waits id).filter fun c => w.acked c id = false

/-- Whether the id has an entry that is activated. Source: pending. -/
def live (w : World N) (id : UInt64) : Bool :=
  (w.cache.entries.items id).any fun e => !e.pending

/-- The acks that came before the entry was activated. Source: earlyAckCount. -/
def earlyAcks (w : World N) (id : UInt64) : ℕ :=
  ((w.cache.entries.items id).map (·.earlyAckCount)).getD 0

/-- One operation. An update is added once, handed to a registered consumer at most once while it is
pending, and activated with the number of those it was handed to; a release follows a retain.
Source: recent_cache.go; events.go onMessageBatchReceived -/
def step (w : World N) : Op N → Option (World N)
  | .add id =>
    if id ∈ w.added then none
    else some { w with cache := w.cache.add id, added := id :: w.added }
  | .deliver id c =>
    if (w.cache.entries.items id).any (·.pending) ∧ (w.cache.pluginLastAck c).isSome ∧
        c ∉ w.delivered id then
      some { w with
        delivered := Function.update w.delivered id (insert c (w.delivered id))
        waits := Function.update w.waits id (insert c (w.waits id)) }
    else none
  | .activate id =>
    if (w.cache.entries.items id).any (·.pending) then
      some { w with cache := w.cache.activate id (w.delivered id).card }
    else none
  | .ack id c =>
    match w.cache.ack id c with
    | none => some w
    | some cache =>
      some { w with
        cache
        acks := w.acks ++ [⟨c, id, (w.cache.unorderedBit.lookup c).isNone⟩] }
  | .register c unordered =>
    some { w with cache := w.cache.registerCacheConsumer c unordered }
  | .unregister c =>
    some { w with
      cache := w.cache.unregisterConsumer c
      waits := fun id => (w.waits id).erase c
      acks := w.acks.filter (·.plugin ≠ c) }
  | .retain id =>
    match w.cache.retain id with
    | none => some w
    | some cache =>
      some { w with cache, retains := Function.update w.retains id (w.retains id + 1) }
  | .release id =>
    if 0 < w.retains id then
      let retains := Function.update w.retains id (w.retains id - 1)
      match w.cache.decrement id with
      | none => some { w with retains }
      | some (cache, due) =>
        some { w with cache, retains, slow := if due then id :: w.slow else w.slow }
    else none
  | .releaseSlow id =>
    if id ∈ w.slow then some { w with cache := w.cache.decrementSlow id, slow := w.slow.erase id }
    else none

/-- The entries at which an ack is counted. Source: Ack. -/
def ackCounts (w : World N) (id : UInt64) (c : N) : List UInt64 :=
  if (w.cache.unorderedBit.lookup c).isSome then [id]
  else if id ≤ (w.cache.pluginLastAck c).getD 0 ∨ (w.cache.entries.items id).isNone then []
  else w.cache.ackRange id ((w.cache.pluginLastAck c).getD 0)

/-- The entries at which a consumer that unregisters is counted. Source: UnregisterConsumer. -/
def leaveCounts (w : World N) (c : N) : List UInt64 :=
  if (w.cache.pluginLastAck c).isNone then []
  else
    match w.cache.unorderedBit.lookup c with
    | some bit => (w.cache.leaveRange c).filter fun id => !w.cache.hasBit bit id
    | none => w.cache.leaveRange c

/-- A consumer is counted at an activated entry only when it owes it; when an entry is activated, no
more acks came early than there are consumers it was handed to that no longer owe it, unless none
does; and the retain counter does not overflow.
Source: Activate, Ack, UnregisterConsumer, retainN. -/
def Owed (w : World N) : Op N → Prop
  | .ack id c => ∀ k ∈ w.ackCounts id c, w.live k = true → c ∈ w.owing k
  | .unregister c => ∀ k ∈ w.leaveCounts c, w.live k = true → c ∈ w.owing k
  | .activate id => w.earlyAcks id ≤ (w.delivered id \ w.owing id).card ∨ w.owing id = ∅
  | .retain id => w.retains id + 1 < 2 ^ 31
  | _ => True

instance (w : World N) : (op : Op N) → Decidable (w.Owed op)
  -- over the list, not over all identifiers
  | .ack id c => decidableBAll (fun k => w.live k = true → c ∈ w.owing k) (w.ackCounts id c)
  | .unregister c => decidableBAll (fun k => w.live k = true → c ∈ w.owing k) (w.leaveCounts c)
  | .activate id => inferInstanceAs
      (Decidable (w.earlyAcks id ≤ (w.delivered id \ w.owing id).card ∨ w.owing id = ∅))
  | .retain id => inferInstanceAs (Decidable (w.retains id + 1 < 2 ^ 31))
  | .add _ | .deliver _ _ | .register _ _ | .release _ | .releaseSlow _ =>
    inferInstanceAs (Decidable True)

/-- Every update that was added is in the cache with its buffers, or is owed by nobody and not
retained, and its buffers went back once.
Source: evictLocked. -/
def Safe (w : World N) : Prop :=
  ∀ id ∈ w.added,
    ((w.cache.entries.items id).isSome ∧ w.cache.returned.count id = 0) ∨
      (w.cache.entries.items id = none ∧ w.owing id = ∅ ∧ w.retains id = 0 ∧
        w.cache.returned.count id = 1)

end World
/-! ## The invariant -/

/-- What holds of one id: an entry is an update that was added, whose buffers are out; its retain
counter is the retains that are not released, and once activated it waits for at least as many acks
as there are consumers that owe one. An id without an entry is owed by nobody, not retained, and its
buffers went back once if it was added. -/
def Kept (s : Option CacheEntry × ℕ) (added : Bool) (delivered owing : Finset N) (retains : ℕ) :
    Prop :=
  match s with
  | (some e, n) =>
    added = true ∧ n = 0 ∧ e.retainCount = retains ∧ retains < 2 ^ 31 ∧ owing ⊆ delivered ∧
      (e.pending = false → owing.card ≤ e.pendingConsumers)
  | (none, n) => owing = ∅ ∧ retains = 0 ∧ n = if added then 1 else 0

section

variable {s : Option CacheEntry × ℕ} {added : Bool} {delivered owing owing' : Finset N}
  {retains : ℕ}

omit [DecidableEq N] in
lemma Kept.mono (h : Kept s added delivered owing retains) (hsub : owing' ⊆ owing) :
    Kept s added delivered owing' retains := by
  obtain ⟨_ | e, n⟩ := s
  · obtain ⟨h₁, h₂, h₃⟩ := h
    exact ⟨Finset.subset_empty.1 (h₁ ▸ hsub), h₂, h₃⟩
  · obtain ⟨h₁, h₂, h₃, h₄, h₅, h₆⟩ := h
    exact ⟨h₁, h₂, h₃, h₄, hsub.trans h₅, fun hp => (Finset.card_le_card hsub).trans (h₆ hp)⟩

omit [DecidableEq N] in
lemma Kept.settle {e : CacheEntry} (hadded : added) (hret : e.retainCount = retains)
    (hlt : retains < 2 ^ 31) (hsub : owing ⊆ delivered) (hcard : owing.card ≤ e.pendingConsumers) :
    Kept (settleSlot e 0) added delivered owing retains := by
  unfold settleSlot CacheEntry.totalConsumers
  split_ifs with htot
  · rw [hret] at htot
    have hretains : retains = 0 := by omega
    refine ⟨?_, hretains, ?_⟩
    · rw [← Finset.card_eq_zero]
      omega
    · rw [hadded]
      rfl
  · exact ⟨hadded, rfl, hret, hlt, hsub, fun _ => hcard⟩

lemma Kept.ackSlot (h : Kept s added delivered owing retains) {c : N}
    (hlive : s.1.any (fun e => !e.pending) → c ∈ owing) (hsub : owing' ⊆ owing.erase c) :
    Kept (ackSlot s) added delivered owing' retains := by
  have hmono := hsub.trans (Finset.erase_subset c owing)
  obtain ⟨_ | e, n⟩ := s
  · exact h.mono hmono
  · obtain ⟨h₁, rfl, h₃, h₄, h₅, h₆⟩ := h
    by_cases hp : e.pending
    · rw [Reactor.ackSlot, if_pos hp]
      refine ⟨h₁, rfl, h₃, h₄, hmono.trans h₅, fun hf => ?_⟩
      rw [hp] at hf
      cases hf
    · have hp' : e.pending = false := by simpa using hp
      have hc : c ∈ owing := hlive (by simp [hp'])
      have hcard := Finset.card_le_card hsub
      rw [Finset.card_erase_of_mem hc] at hcard
      have hbound := h₆ hp'
      rw [Reactor.ackSlot, if_neg hp]
      refine Kept.settle h₁ ?_ h₄ (hmono.trans h₅) ?_
      · exact h₃
      · simp only
        omega

omit [DecidableEq N] in
lemma Kept.reBit (h : Kept s added delivered owing retains) (f : UInt32 → UInt32) :
    Kept (reBit f s) added delivered owing retains := by
  obtain ⟨_ | e, n⟩ := s
  · exact h
  · exact h

end

/-! ## Every operation keeps it -/

section

omit [DecidableEq N] in
lemma log_ackEntryLocked (c : Cache N) (id : UInt64) :
    (c.ackEntryLocked id).entries.log = c.entries.log := by
  unfold Cache.ackEntryLocked Cache.settle
  split
  · rfl
  · split_ifs <;> rfl

omit [DecidableEq N] in
lemma log_leaveUnordered (bit : UInt32) (c : Cache N) (id : UInt64) :
    (Cache.leaveUnordered bit c id).entries.log = c.entries.log := by
  have hclear : (c.clearBit bit id).entries.log = c.entries.log := by
    unfold Cache.clearBit
    split <;> rfl
  unfold Cache.leaveUnordered
  split_ifs
  · exact hclear
  · rw [log_ackEntryLocked, hclear]

omit [DecidableEq N] in
lemma log_foldl {f : Cache N → UInt64 → Cache N}
    (hf : ∀ c id, (f c id).entries.log = c.entries.log) (ids : List UInt64) (c : Cache N) :
    (ids.foldl f c).entries.log = c.entries.log := by
  induction ids generalizing c with
  | nil => rfl
  | cons id ids ih => rw [foldl_cons, ih, hf]

lemma nodup_insertLog {k : UInt64} {l : List UInt64} (hk : k ∉ l) (hl : l.Nodup) :
    (SeqMap.insertLog k l).Nodup := by
  have hperm : (SeqMap.insertLog k l).Perm (k :: l) := by
    clear hk hl
    induction l with
    | nil => exact List.Perm.refl _
    | cons x xs ih =>
      rw [SeqMap.insertLog]
      split_ifs
      · exact List.Perm.refl _
      · exact (ih.cons x).trans (List.Perm.swap k x xs)
  exact hperm.nodup_iff.2 (nodup_cons.2 ⟨hk, hl⟩)

omit [DecidableEq N] in
lemma nodup_since {c : Cache N} (h : c.entries.log.Nodup) (n : UInt64) :
    (c.entries.since n).Nodup :=
  h.filter _

omit [DecidableEq N] in
lemma nodup_ackRange {c : Cache N} (h : c.entries.log.Nodup) (id lastAck : UInt64) :
    (c.ackRange id lastAck).Nodup := by
  have htake : ((c.entries.since (lastAck + 1)).takeWhile (· < id)).Nodup :=
    (nodup_since h _).sublist (takeWhile_sublist _)
  refine List.Nodup.append htake (nodup_singleton id) ?_
  intro k hk hid
  have hlt : k < id := by simpa using mem_takeWhile_imp hk
  rw [mem_singleton] at hid
  exact absurd (hid ▸ hlt) (UInt64.lt_irrefl _)

omit [DecidableEq N] in
lemma le_of_mem_ackRange {c : Cache N} {id lastAck k : UInt64} (h : k ∈ c.ackRange id lastAck) :
    k ≤ id := by
  rcases mem_append.1 h with hk | hk
  · exact UInt64.le_of_lt (by simpa using mem_takeWhile_imp hk)
  · rw [mem_singleton] at hk
    exact hk ▸ UInt64.le_refl _

end

namespace World

structure Inv (w : World N) : Prop where
  log : w.cache.entries.log.Nodup
  kept : ∀ id, Kept (slot w.cache id) (decide (id ∈ w.added)) (w.delivered id) (w.owing id)
    (w.retains id)

section

variable {w w' : World N}

lemma inv_start : Inv ({} : World N) where
  log := nodup_nil
  kept _ := ⟨rfl, rfl, rfl⟩

variable {id k : UInt64}

lemma Inv.kept_of_items (h : w.Inv) {o : Option CacheEntry} (hit : w.cache.entries.items id = o) :
    Kept (o, w.cache.returned.count id) (decide (id ∈ w.added)) (w.delivered id) (w.owing id)
      (w.retains id) := by
  rw [← hit]
  exact h.kept id

lemma Inv.safe (h : w.Inv) : w.Safe := by
  intro id hid
  rcases hit : w.cache.entries.items id with _ | e
  · obtain ⟨ho, hr, hn⟩ := h.kept_of_items hit
    simp only [hid, decide_true, if_true] at hn
    exact .inr ⟨rfl, ho, hr, hn⟩
  · exact .inl ⟨rfl, (h.kept_of_items hit).2.1⟩

lemma owing_ack_subset (a : Ack N) (cache : Cache N) (k : UInt64) :
    owing { w with cache, acks := w.acks ++ [a] } k ⊆ w.owing k ∧
      ((a.id = k ∨ (a.ordered ∧ k ≤ a.id)) →
        owing { w with cache, acks := w.acks ++ [a] } k ⊆ (w.owing k).erase a.plugin) := by
  have hsub : owing { w with cache, acks := w.acks ++ [a] } k ⊆ w.owing k := by
    intro c hc
    rw [owing, Finset.mem_filter] at hc ⊢
    refine ⟨hc.1, ?_⟩
    have hacked := hc.2
    rw [acked, any_append, Bool.or_eq_false_iff] at hacked
    exact hacked.1
  refine ⟨hsub, fun hreach c hc => ?_⟩
  rw [Finset.mem_erase]
  refine ⟨?_, hsub hc⟩
  rintro rfl
  rw [owing, Finset.mem_filter] at hc
  have hacked := hc.2
  rw [acked, any_append, Bool.or_eq_false_iff] at hacked
  have hlast := hacked.2
  rcases hreach with hid | ⟨hord, hle⟩
  · simp [hid] at hlast
  · simp [hord, hle] at hlast

lemma owing_unregister_subset (c : N) (cache : Cache N) (k : UInt64) :
    owing { w with
      cache
      waits := fun id => (w.waits id).erase c
      acks := w.acks.filter (·.plugin ≠ c) } k ⊆ (w.owing k).erase c := by
  intro d hd
  rw [owing, Finset.mem_filter] at hd
  obtain ⟨hwait, hacked⟩ := hd
  rw [Finset.mem_erase] at hwait
  rw [Finset.mem_erase, owing, Finset.mem_filter]
  refine ⟨hwait.1, hwait.2, ?_⟩
  rw [acked, any_eq_false] at hacked ⊢
  intro a ha hmatch
  have hplugin : a.plugin = d := by
    simp only [Bool.and_eq_true, decide_eq_true_eq] at hmatch
    exact hmatch.1
  refine hacked a ?_ hmatch
  rw [mem_filter]
  refine ⟨ha, ?_⟩
  rw [hplugin]
  simpa using hwait.1

lemma slot_ack {c : N} {cache : Cache N} (hlog : w.cache.entries.log.Nodup)
    (hack : w.cache.ack id c = some cache) :
    cache.entries.log = w.cache.entries.log ∧
      ∀ k, ∃ f, slot cache k =
        if k ∈ w.ackCounts id c then ackSlot (reBit f (slot w.cache k)) else slot w.cache k := by
  unfold Cache.ack at hack
  split at hack
  · rename_i bit hbit
    have hcounts : w.ackCounts id c = [id] := by
      rw [ackCounts, hbit]
      rfl
    unfold Cache.ackUnordered at hack
    rcases hit : w.cache.entries.items id with _ | e
    · rw [hit] at hack
      cases hack
    · rw [hit] at hack
      simp only [Option.some.injEq] at hack
      let c₁ : Cache N := { w.cache with
        entries := w.cache.entries.set id { e with ackedUnordered := e.ackedUnordered ||| bit } }
      have hslot : ∀ k, slot cache k = slot (c₁.ackEntryLocked id) k := by
        intro k
        rw [← hack]
        rfl
      refine ⟨?_, fun k => ⟨(· ||| bit), ?_⟩⟩
      · rw [← hack]
        exact log_ackEntryLocked c₁ id
      · rw [hslot, actsBy_ackEntryLocked, slot_set, slot_set, if_pos rfl, hcounts]
        by_cases hk : k = id
        · subst hk
          rw [if_pos rfl, if_pos (mem_singleton_self k), slot, hit]
          rfl
        · rw [if_neg hk, if_neg hk, if_neg (by simpa using hk)]
  · rename_i hbit
    unfold Cache.ackOrdered at hack
    simp only at hack
    split_ifs at hack with hle hnone
    · cases hack
      have hcounts : w.ackCounts id c = [] := by
        rw [ackCounts, hbit, if_neg (by simp), if_pos (.inl hle)]
      refine ⟨rfl, fun k => ⟨fun b => b, ?_⟩⟩
      rw [hcounts, if_neg not_mem_nil]
    · rw [Option.some.injEq] at hack
      have hcounts : w.ackCounts id c = w.cache.ackRange id ((w.cache.pluginLastAck c).getD 0) := by
        rw [ackCounts, hbit, if_neg (by simp), if_neg (by rw [not_or]; exact ⟨hle, hnone⟩)]
      have hnd := nodup_ackRange hlog id ((w.cache.pluginLastAck c).getD 0)
      refine ⟨?_, fun k => ⟨fun b => b, ?_⟩⟩
      · rw [← hack]
        exact log_foldl log_ackEntryLocked _ w.cache
      · rw [reBit_id, hcounts, ← slot_foldl actsBy_ackEntryLocked _ hnd w.cache k, ← hack]
        rfl

lemma reaches_of_mem_ackCounts {c : N} (hk : k ∈ w.ackCounts id c) :
    id = k ∨ ((w.cache.unorderedBit.lookup c).isNone ∧ k ≤ id) := by
  unfold ackCounts at hk
  split_ifs at hk with hbit hnone
  · rw [mem_singleton] at hk
    exact .inl hk.symm
  · cases hk
  · refine .inr ⟨?_, le_of_mem_ackRange hk⟩
    rw [← Option.not_isSome]
    simp only [hbit, Bool.not_false]

lemma Inv.ack (h : w.Inv) {c : N} (howed : w.Owed (.ack id c))
    (hstep : w.step (.ack id c) = some w') : w'.Inv := by
  simp only [step] at hstep
  split at hstep
  · cases hstep
    exact h
  · rename_i cache hack
    cases hstep
    obtain ⟨hlog, hslot⟩ := slot_ack h.log hack
    refine ⟨hlog ▸ h.log, fun k => ?_⟩
    obtain ⟨hsub, herase⟩ := owing_ack_subset (w := w)
      ⟨c, id, (w.cache.unorderedBit.lookup c).isNone⟩ cache k
    obtain ⟨f, hf⟩ := hslot k
    rw [hf]
    split_ifs with hk
    · refine ((h.kept k).reBit f).ackSlot (fun hp => howed k hk ?_)
        (herase (reaches_of_mem_ackCounts hk))
      rw [any_reBit] at hp
      exact hp
    · exact (h.kept k).mono hsub

lemma slot_unregister (hlog : w.cache.entries.log.Nodup) (c : N) :
    (w.cache.unregisterConsumer c).entries.log = w.cache.entries.log ∧
      ∀ k, ∃ f, slot (w.cache.unregisterConsumer c) k =
        if k ∈ w.leaveCounts c then ackSlot (reBit f (slot w.cache k))
        else reBit f (slot w.cache k) := by
  by_cases hreg : (w.cache.pluginLastAck c).isNone
  · rw [Cache.unregisterConsumer, if_pos hreg, leaveCounts, if_pos hreg]
    refine ⟨rfl, fun k => ⟨fun b => b, ?_⟩⟩
    rw [if_neg not_mem_nil, reBit_id]
  · let rest : Cache N := { w.cache with
      pluginLastAck := Function.update w.cache.pluginLastAck c none
      consumerFloor := Function.update w.cache.consumerFloor c none
      unorderedBit := w.cache.unorderedBit.filter (·.1 ≠ c) }
    have hnd : (w.cache.leaveRange c).Nodup := by
      unfold Cache.leaveRange
      split
      · split_ifs
        · exact nodup_nil
        · exact nodup_since hlog _
      · exact nodup_since hlog _
    rcases hbit : w.cache.unorderedBit.lookup c with _ | bit
    · have hcache : w.cache.unregisterConsumer c =
          (w.cache.leaveRange c).foldl Cache.ackEntryLocked rest := by
        rw [Cache.unregisterConsumer, if_neg hreg, hbit]
      have hcounts : w.leaveCounts c = w.cache.leaveRange c := by
        rw [leaveCounts, if_neg hreg, hbit]
      refine ⟨?_, fun k => ⟨fun b => b, ?_⟩⟩
      · rw [hcache, log_foldl log_ackEntryLocked]
      · rw [hcache, slot_foldl actsBy_ackEntryLocked _ hnd, hcounts, reBit_id]
        rfl
    · have hcache : w.cache.unregisterConsumer c =
          (w.cache.leaveRange c).foldl (Cache.leaveUnordered bit) rest := by
        rw [Cache.unregisterConsumer, if_neg hreg, hbit]
      have hcounts : w.leaveCounts c =
          (w.cache.leaveRange c).filter fun id => !w.cache.hasBit bit id := by
        rw [leaveCounts, if_neg hreg, hbit]
      refine ⟨?_, fun k => ?_⟩
      · rw [hcache, log_foldl (log_leaveUnordered bit)]
      · have hrest : slot rest k = slot w.cache k := rfl
        rw [hcache, slot_foldl (actsBy_leaveUnordered bit) _ hnd, hcounts, hrest]
        by_cases hk : k ∈ w.cache.leaveRange c
        · refine ⟨(· &&& ~~~bit), ?_⟩
          rw [if_pos hk, leaveSlot_eq]
          simp only [mem_filter, hk, true_and]
          rcases hb : w.cache.hasBit bit k
          · rw [if_neg (by rw [slot, ← Cache.hasBit, hb]; exact Bool.false_ne_true),
              if_pos (by simp)]
          · rw [if_pos (by rw [slot, ← Cache.hasBit, hb]), if_neg (by simp)]
        · refine ⟨fun b => b, ?_⟩
          rw [if_neg hk, reBit_id, if_neg (fun hf => hk (mem_of_mem_filter hf))]

lemma Inv.unregister (h : w.Inv) {c : N} (howed : w.Owed (.unregister c))
    (hstep : w.step (.unregister c) = some w') : w'.Inv := by
  simp only [step] at hstep
  cases hstep
  obtain ⟨hlog, hslot⟩ := slot_unregister h.log c
  refine ⟨hlog ▸ h.log, fun k => ?_⟩
  have hsub := owing_unregister_subset (w := w) c (w.cache.unregisterConsumer c) k
  obtain ⟨f, hf⟩ := hslot k
  simp only
  rw [hf]
  split_ifs with hk
  · refine ((h.kept k).reBit f).ackSlot (fun hp => howed k hk ?_) hsub
    rw [any_reBit] at hp
    exact hp
  · exact ((h.kept k).reBit f).mono (hsub.trans (Finset.erase_subset c _))

lemma Inv.add (h : w.Inv) (hstep : w.step (.add id) = some w') : w'.Inv := by
  simp only [step] at hstep
  split_ifs at hstep with hid
  cases hstep
  refine ⟨?_, fun k => ?_⟩
  · refine nodup_insertLog ?_ (h.log.filter _)
    simp
  · by_cases hk : k = id
    · subst hk
      have hslot : slot (w.cache.add k) k =
          (some { pending := true }, w.cache.returned.count k) := by
        simp [slot, Cache.add, SeqMap.put]
      -- an id that was not added has no entry, owes nothing and gave nothing back
      rcases hit : w.cache.entries.items k with _ | e
      · obtain ⟨howing, hret, hcount⟩ := h.kept_of_items hit
        simp only [hid, decide_false, Bool.false_eq_true, if_false] at hcount
        have howing' : owing { w with cache := w.cache.add k, added := k :: w.added } k = ∅ :=
          howing
        rw [hslot, howing']
        refine ⟨by simp, hcount, ?_, ?_, Finset.empty_subset _, fun _ => ?_⟩
        · simp [hret]
        · simp [hret]
        · rw [Finset.card_empty]
      · exact absurd (h.kept_of_items hit).1 (by simp [hid])
    · have hslot : slot (w.cache.add id) k = slot w.cache k := by
        simp [slot, Cache.add, SeqMap.put, hk]
      have hmem : decide (k ∈ id :: w.added) = decide (k ∈ w.added) := by
        simp [hk]
      rw [hslot, hmem]
      exact h.kept k

lemma Inv.deliver (h : w.Inv) {c : N} (hstep : w.step (.deliver id c) = some w') : w'.Inv := by
  simp only [step] at hstep
  split_ifs at hstep with hguard
  cases hstep
  refine ⟨h.log, fun k => ?_⟩
  by_cases hk : k = id
  · subst hk
    obtain ⟨e, hit, hp⟩ := (Option.any_eq_true _ _).1 hguard.1
    obtain ⟨h₁, h₂, h₃, h₄, h₅, -⟩ := h.kept_of_items hit
    simp only [slot, hit, Function.update_self]
    refine ⟨h₁, h₂, h₃, h₄, ?_, fun hf => ?_⟩
    · intro d hd
      simp only [owing, Finset.mem_filter, Function.update_self, Finset.mem_insert] at hd
      rw [Finset.mem_insert]
      rcases hd.1 with rfl | hwait
      · exact .inl rfl
      · refine .inr (h₅ ?_)
        rw [owing, Finset.mem_filter]
        exact ⟨hwait, hd.2⟩
    · rw [hp] at hf
      cases hf
  · simp only [Function.update_of_ne hk]
    have howing : owing { w with
        delivered := Function.update w.delivered id (insert c (w.delivered id))
        waits := Function.update w.waits id (insert c (w.waits id)) } k = w.owing k := by
      simp only [owing, Function.update_of_ne hk]
      rfl
    rw [howing]
    exact h.kept k

lemma Inv.activate (h : w.Inv) (howed : w.Owed (.activate id))
    (hstep : w.step (.activate id) = some w') : w'.Inv := by
  simp only [step] at hstep
  split_ifs at hstep with hguard
  cases hstep
  obtain ⟨e, hit, -⟩ := (Option.any_eq_true _ _).1 hguard
  have hcache : w.cache.activate id (w.delivered id).card = w.cache.settle id { e with
        pending := false
        pendingConsumers := (w.delivered id).card - e.earlyAckCount
        earlyAckCount := 0 } := by
    rw [Cache.activate, hit]
  refine ⟨?_, fun k => ?_⟩
  · rw [hcache, Cache.settle]
    split_ifs
    · exact h.log
    · exact h.log
  · simp only
    rw [hcache, slot_settle]
    split_ifs with hk
    · subst hk
      obtain ⟨h₁, h₂, h₃, h₄, h₅, -⟩ := h.kept_of_items hit
      rw [h₂]
      refine Kept.settle h₁ h₃ h₄ h₅ ?_
      have hearly : w.earlyAcks k = e.earlyAckCount := by
        rw [earlyAcks, hit]
        rfl
      have hcard := Finset.card_sdiff_add_card_eq_card h₅
      change (w.owing k).card ≤ (w.delivered k).card - e.earlyAckCount
      rcases howed with hle | hnone
      · rw [hearly] at hle
        omega
      · rw [hnone, Finset.card_empty]
        exact Nat.zero_le _
    · exact h.kept k

lemma Inv.register (h : w.Inv) {c : N} {unordered : Bool}
    (hstep : w.step (.register c unordered) = some w') : w'.Inv := by
  simp only [step] at hstep
  cases hstep
  have hframe : (w.cache.registerCacheConsumer c unordered).entries = w.cache.entries ∧
      (w.cache.registerCacheConsumer c unordered).returned = w.cache.returned := by
    unfold Cache.registerCacheConsumer Cache.setConsumerUnordered Cache.registerConsumer
    split_ifs <;> exact ⟨rfl, rfl⟩
  refine ⟨?_, fun k => ?_⟩
  · rw [hframe.1]
    exact h.log
  · have hslot : slot (w.cache.registerCacheConsumer c unordered) k = slot w.cache k := by
      rw [slot, hframe.1, hframe.2]
      rfl
    rw [hslot]
    exact h.kept k

lemma wrap32_natCast {n : ℕ} (h : n < 2 ^ 31) : wrap32 (n : ℤ) = n := by
  unfold wrap32
  rw [Int.bmod_eq_of_le]
  · omega
  · omega

lemma Inv.recount (h : w.Inv) {e : CacheEntry} (hit : w.cache.entries.items id = some e) {n : ℕ}
    (hn : n < 2 ^ 31) {m : ℤ} (hm : m = n) (slow : List UInt64) :
    Inv { w with
      cache := { w.cache with entries := w.cache.entries.set id { e with retainCount := wrap32 m } }
      retains := Function.update w.retains id n
      slow } := by
  refine ⟨h.log, fun k => ?_⟩
  simp only
  rw [slot_set]
  split_ifs with hk
  · subst hk
    obtain ⟨h₁, h₂, -, -, h₅, h₆⟩ := h.kept_of_items hit
    rw [Function.update_self, hm, wrap32_natCast hn]
    exact ⟨h₁, h₂, rfl, hn, h₅, h₆⟩
  · rw [Function.update_of_ne hk]
    exact h.kept k

lemma Inv.retain (h : w.Inv) (howed : w.Owed (.retain id))
    (hstep : w.step (.retain id) = some w') : w'.Inv := by
  simp only [step] at hstep
  unfold Cache.retain at hstep
  rcases hit : w.cache.entries.items id with _ | e
  · simp only [hit] at hstep
    cases hstep
    exact h
  · simp only [hit] at hstep
    cases hstep
    refine h.recount hit howed ?_ w.slow
    rw [(h.kept_of_items hit).2.2.1, Nat.cast_succ]

lemma Inv.release (h : w.Inv) (hstep : w.step (.release id) = some w') : w'.Inv := by
  simp only [step] at hstep
  split_ifs at hstep with hpos
  unfold Cache.decrement at hstep
  rcases hit : w.cache.entries.items id with _ | e
  · have hzero := (h.kept_of_items hit).2.1
    omega
  · simp only [hit] at hstep
    cases hstep
    obtain ⟨-, -, h₃, h₄, -⟩ := h.kept_of_items hit
    exact h.recount hit (by omega) (by omega) _

lemma Inv.releaseSlow (h : w.Inv) (hstep : w.step (.releaseSlow id) = some w') : w'.Inv := by
  simp only [step] at hstep
  split_ifs at hstep with hdue
  cases hstep
  unfold Cache.decrementSlow
  rcases hit : w.cache.entries.items id with _ | e
  · exact ⟨h.log, h.kept⟩
  · by_cases hev : e.totalConsumers ≤ 0 ∧ e.pending = false
    · simp only [if_pos hev]
      refine ⟨h.log, fun k => ?_⟩
      simp only
      rw [slot_evictLocked]
      split_ifs with hk
      · subst hk
        obtain ⟨h₁, h₂, h₃, h₄, h₅, h₆⟩ := h.kept_of_items hit
        have hsettle := Kept.settle h₁ h₃ h₄ h₅ (h₆ hev.2)
        rw [settleSlot, if_pos hev.1] at hsettle
        rw [h₂]
        exact hsettle
      · exact h.kept k
    · simp only [if_neg hev]
      exact ⟨h.log, h.kept⟩

lemma Inv.step (h : w.Inv) {op : Op N} (howed : w.Owed op) (hstep : w.step op = some w') :
    w'.Inv := by
  cases op with
  | add id => exact h.add hstep
  | deliver id c => exact h.deliver hstep
  | activate id => exact h.activate howed hstep
  | ack id c => exact h.ack howed hstep
  | register c unordered => exact h.register hstep
  | unregister c => exact h.unregister howed hstep
  | retain id => exact h.retain howed hstep
  | release id => exact h.release hstep
  | releaseSlow id => exact h.releaseSlow hstep

lemma mem_added_step {op : Op N} (hstep : w.step op = some w')
    (hid : id ∈ w.added) : id ∈ w'.added := by
  cases op with
  | add k =>
    simp only [World.step] at hstep
    split_ifs at hstep
    cases hstep
    exact mem_cons_of_mem _ hid
  | register c unordered | unregister c =>
    cases hstep
    exact hid
  | deliver k c | activate k | releaseSlow k =>
    simp only [World.step] at hstep
    split_ifs at hstep
    cases hstep
    exact hid
  | ack k c | retain k =>
    simp only [World.step] at hstep
    split at hstep <;> cases hstep <;> exact hid
  | release k =>
    simp only [World.step] at hstep
    split_ifs at hstep
    split at hstep <;> cases hstep <;> exact hid

/-! ## Who evicts an entry -/

omit [DecidableEq N] in
lemma live_of_ackSlot {s : Option CacheEntry × ℕ} (hin : s.1.isSome) (hout : (ackSlot s).1 = none) :
    s.1.any (fun e => !e.pending) := by
  obtain ⟨_ | e, n⟩ := s
  · cases hin
  · by_cases hp : e.pending
    · rw [ackSlot, if_pos hp] at hout
      cases hout
    · simpa using hp

omit [DecidableEq N] in
lemma live_of_evicted {cache : Cache N} {f : UInt32 → UInt32}
    (hin : (w.cache.entries.items k).isSome)
    (hslot : slot cache k = ackSlot (reBit f (slot w.cache k)))
    (hout : cache.entries.items k = none) : w.live k := by
  have hout' : (ackSlot (reBit f (slot w.cache k))).1 = none := by
    rw [← hslot]
    exact hout
  have hlive := live_of_ackSlot (by rw [isSome_reBit]; exact hin) hout'
  rw [any_reBit] at hlive
  exact hlive

/-- **No entry is evicted on behalf of a consumer that does not owe it.** -/
lemma Inv.evicted_owed (h : w.Inv) {op : Op N} (howed : w.Owed op)
    (hstep : w.step op = some w') (hin : (w.cache.entries.items k).isSome)
    (hout : w'.cache.entries.items k = none) {c : N} (hc : op.consumer = some c) :
    c ∈ w.owing k := by
  have hne : w.cache.entries.items k ≠ none := by
    intro hnone
    rw [hnone] at hin
    cases hin
  cases op with
  | ack id d =>
    cases hc
    simp only [World.step] at hstep
    split at hstep
    · cases hstep
      exact absurd hout hne
    · rename_i cache hack
      cases hstep
      obtain ⟨f, hf⟩ := (slot_ack h.log hack).2 k
      split_ifs at hf with hk
      · exact howed k hk (live_of_evicted hin hf hout)
      · exact absurd ((congrArg Prod.fst hf).symm.trans hout) hne
  | unregister d =>
    cases hc
    simp only [World.step] at hstep
    cases hstep
    obtain ⟨f, hf⟩ := (slot_unregister h.log c).2 k
    split_ifs at hf with hk
    · exact howed k hk (live_of_evicted hin hf hout)
    · have hgone : (reBit f (slot w.cache k)).1 = none := by
        rw [← hf]
        exact hout
      have hsome : (reBit f (slot w.cache k)).1.isSome :=
        (isSome_reBit f (slot w.cache k)).trans hin
      rw [hgone] at hsome
      cases hsome
  | add _ | deliver _ _ | activate _ | register _ _ | retain _ | release _ | releaseSlow _ =>
    cases hc

end

/-- **An entry is evicted when nobody owes it.** In every run in which consumers are counted only at
activated entries that they owe, no entry is activated with more early acks than consumers that are
done with it, and the retain counter does not overflow: every update that was added is in the cache
with its buffers, or nobody owes it, every retain is released and its buffers went back once; and an
operation that evicts an entry leaves it owed by nobody and not retained, and if it is an ack or an
unregistration, it is of a consumer that owed the entry until then. -/
theorem evicted_settled (ops : List (Op N)) (hops : Meets step Owed ({} : World N) ops)
    (w : World N) (hw : run step {} ops = some w) :
    w.Safe ∧ ∀ op w', w.Owed op → w.step op = some w' →
      ∀ id, (w.cache.entries.items id).isSome → w'.cache.entries.items id = none →
        w'.owing id = ∅ ∧ w'.retains id = 0 ∧ w'.cache.returned.count id = 1 ∧
          ∀ c, op.consumer = some c → c ∈ w.owing id := by
  have h : w.Inv := run_keeps (fun s o s' hs hc hstep => Inv.step hs hc hstep) ops {} w inv_start
    hops hw
  refine ⟨h.safe, fun op w' howed hstep id hin hout => ?_⟩
  have h' := h.step howed hstep
  have hkept := h'.kept id
  have hslot : slot w'.cache id = (none, w'.cache.returned.count id) := by
    rw [slot, hout]
  have hadded : id ∈ w.added := by
    obtain ⟨e, he⟩ := Option.isSome_iff_exists.1 hin
    have hk := h.kept id
    rw [slot, he] at hk
    exact of_decide_eq_true hk.1
  have hadded' : id ∈ w'.added := mem_added_step hstep hadded
  rw [hslot] at hkept
  obtain ⟨howing, hret, hcount⟩ := hkept
  simp only [hadded', decide_true, if_true] at hcount
  exact ⟨howing, hret, hcount, fun c hc => h.evicted_owed howed hstep hin hout hc⟩

/-- An update that is handed to an ordered and an unordered consumer, acked early by one of them,
activated, retained, and acked by the other. -/
def shared : List (Op String) :=
  [.register "rib" false, .register "rs" true, .add 1, .deliver 1 "rib", .deliver 1 "rs",
    .ack 1 "rs", .activate 1, .retain 1, .ack 1 "rib", .release 1]

/-- It is still in the cache, and the part of the release under the lock evicts it. -/
theorem evicted_settled_shared :
    ∃ w w', run step ({} : World String) shared = some w ∧ w.step (.releaseSlow 1) = some w' ∧
      (w.cache.entries.items 1).isSome ∧ w'.cache.entries.items 1 = none ∧ w.Safe ∧
      w'.owing 1 = ∅ ∧ w'.retains 1 = 0 ∧ w'.cache.returned.count 1 = 1 := by
  have hrun : (run step ({} : World String) shared).any (fun w =>
      (w.cache.entries.items 1).isSome &&
        (w.step (.releaseSlow 1)).any fun w' => (w'.cache.entries.items 1).isNone) := by
    decide +kernel
  obtain ⟨w, hw, hall⟩ := (Option.any_eq_true _ _).1 hrun
  rw [Bool.and_eq_true] at hall
  obtain ⟨hin, hlast⟩ := hall
  obtain ⟨w', hw', hout⟩ := (Option.any_eq_true _ _).1 hlast
  rw [Option.isNone_iff_eq_none] at hout
  have hmeets : Meets step Owed ({} : World String) shared := by decide +kernel
  obtain ⟨hsafe, hevict⟩ := evicted_settled shared hmeets w hw
  obtain ⟨h₁, h₂, h₃, -⟩ := hevict (.releaseSlow 1) w' trivial hw' 1 hin hout
  exact ⟨w, w', hw, hw', hin, hout, hsafe, h₁, h₂, h₃⟩

/-- **A consumer acks an update that it never received.** Two ordered consumers; update 1 is handed
to the second alone and update 2 to the first. The ack of update 2 is counted at update 1 as well,
which is evicted while the second consumer owes it. -/
theorem evicted_while_owed :
    ∃ w, run step ({} : World String)
        [.register "first" false, .register "second" false, .add 1, .deliver 1 "second",
          .activate 1, .add 2, .deliver 2 "first", .activate 2, .ack 2 "first"] = some w ∧
      ¬ w.Safe ∧ w.cache.entries.items 1 = none ∧ w.delivered 1 = {"second"} ∧
      w.owing 1 = {"second"} ∧ w.cache.returned = [1, 2] := by
  have hrun : (run step ({} : World String)
      [.register "first" false, .register "second" false, .add 1, .deliver 1 "second",
        .activate 1, .add 2, .deliver 2 "first", .activate 2, .ack 2 "first"]).any (fun w =>
      (w.cache.entries.items 1).isNone && decide (w.delivered 1 = {"second"}) &&
        decide (w.owing 1 = {"second"}) && decide (w.cache.returned = [1, 2]) &&
        decide (1 ∈ w.added)) := by
    decide +kernel
  obtain ⟨w, hw, hall⟩ := (Option.any_eq_true _ _).1 hrun
  simp only [Bool.and_eq_true, decide_eq_true_eq, Option.isNone_iff_eq_none] at hall
  obtain ⟨⟨⟨⟨hnone, hdel⟩, howing⟩, hret⟩, hadded⟩ := hall
  refine ⟨w, hw, fun hsafe => ?_, hnone, hdel, howing, hret⟩
  rcases hsafe 1 hadded with ⟨hin, -⟩ | ⟨-, hempty, -⟩
  · rw [hnone] at hin
    cases hin
  · rw [howing] at hempty
    exact absurd hempty (Finset.singleton_ne_empty _)

end World

end Ze.Reactor
