import Ze.Lib.GoMap
import Ze.Rpki.Aspa

/-!
# The routes tracked for ASPA re-validation

`aSPATracker` of `rpki/aspa_tracker.go`: the routes with the AS path and the state they were last
verified with, and a reverse index from each AS number to the routes whose path names it. `World`
lets routes come and go between a change of the cache and its re-validation, and lets the reported
sets be handed over in any order. The peer's name, group and AS number, the log line and the lock
are left out.
-/

namespace Ze.Rpki

open List

open Ze.Lib (RangeOrder SetIndex)

/-! ## Routes -/

structure RouteKey where
  peerAddr : String
  family : String
  pfx : String
  pathID : UInt32
deriving DecidableEq, Repr

structure TrackedRoute where
  key : RouteKey
  msgID : UInt64
  path : List UInt32
  aspaState : ASPAState
  mode : ASPAMode
  neighbor : ASPANeighbor
deriving DecidableEq, Repr

namespace TrackedRoute

/-- The state of a fresh verification of the route. Source: revalidate, newState -/
def verified (rt : TrackedRoute) (cache : ASPACache) : ASPAState :=
  rt.neighbor.verify (verifyASPAPath cache rt.path rt.mode) rt.path

/-- The route with the state of a fresh verification. -/
def refresh (cache : ASPACache) (rt : TrackedRoute) : TrackedRoute :=
  { rt with aspaState := rt.verified cache }

/-- The stored state is the one of a fresh verification. -/
def Fresh (cache : ASPACache) (rt : TrackedRoute) : Prop :=
  rt.aspaState = rt.verified cache

variable {cache cache' : ASPACache} {rt : TrackedRoute}

lemma fresh_refresh : (rt.refresh cache).Fresh cache := rfl

lemma refresh_comp_refresh :
    TrackedRoute.refresh cache ∘ TrackedRoute.refresh cache = TrackedRoute.refresh cache := rfl

lemma Fresh.of_lookup_eq (h : rt.Fresh cache)
    (heq : ∀ asn ∈ rt.path, cache'.records.lookup asn = cache.records.lookup asn) :
    rt.Fresh cache' := by
  unfold Fresh verified at h ⊢
  rw [verifyASPAPath_congr heq]
  exact h

end TrackedRoute

/-! ## The reverse index -/

abbrev ReverseIndex := SetIndex UInt32 RouteKey

namespace ReverseIndex

/-- The routes under an AS number; an absent entry has none. -/
def routesOf (ix : ReverseIndex) (asn : UInt32) : Finset RouteKey := SetIndex.at_ ix asn

/-- Source: addToIndexLocked. -/
def add (ix : ReverseIndex) (rt : TrackedRoute) : ReverseIndex :=
  rt.path.foldl (fun ix asn => SetIndex.put ix asn rt.key) ix

/-- An entry whose set becomes empty is deleted. Source: removeFromIndexLocked -/
def remove (ix : ReverseIndex) (rt : TrackedRoute) : ReverseIndex :=
  rt.path.foldl (fun ix asn => SetIndex.drop ix asn rt.key) ix

variable {ix : ReverseIndex} {k : RouteKey} {a : UInt32} {rt : TrackedRoute}

lemma mem_routesOf_add :
    k ∈ (ix.add rt).routesOf a ↔ (a ∈ rt.path ∧ k = rt.key) ∨ k ∈ ix.routesOf a := by
  unfold add
  induction rt.path generalizing ix with
  | nil => simp
  | cons asn path ih =>
    rw [foldl_cons, ih, routesOf, SetIndex.mem_at_put, mem_cons]
    unfold routesOf
    tauto

lemma mem_routesOf_remove :
    k ∈ (ix.remove rt).routesOf a ↔ ¬(a ∈ rt.path ∧ k = rt.key) ∧ k ∈ ix.routesOf a := by
  unfold remove
  induction rt.path generalizing ix with
  | nil => simp
  | cons asn path ih =>
    rw [foldl_cons, ih, routesOf, SetIndex.mem_at_drop, mem_cons]
    unfold routesOf
    tauto

lemma noEmpty_add (h : SetIndex.NoEmpty ix) : SetIndex.NoEmpty (ix.add rt) := by
  unfold ReverseIndex.add
  induction rt.path generalizing ix with
  | nil => exact h
  | cons asn path ih => exact ih h.put

lemma noEmpty_remove (h : SetIndex.NoEmpty ix) : SetIndex.NoEmpty (ix.remove rt) := by
  unfold ReverseIndex.remove
  induction rt.path generalizing ix with
  | nil => exact h
  | cons asn path ih => exact ih h.drop

end ReverseIndex

/-! ## The tracker -/

def maxTrackedRoutes : ℕ := 1000000

structure ASPATracker where
  routes : Finmap fun _ : RouteKey => TrackedRoute
  reverseIndex : ReverseIndex

namespace ASPATracker

/-- Source: newASPATracker; clear leaves the same state. -/
def new : ASPATracker := ⟨∅, ∅⟩

def count (t : ASPATracker) : ℕ := t.routes.keys.card

/-- The route is filed and indexed. Source: Track, after the checks. -/
def file (t : ASPATracker) (rt : TrackedRoute) : ASPATracker :=
  ⟨t.routes.insert rt.key rt, t.reverseIndex.add rt⟩

/-- The stored route `existing` leaves the index and the table.
Source: Remove and removePeer, the two deletes -/
def drop (t : ASPATracker) (key : RouteKey) (existing : TrackedRoute) : ASPATracker :=
  ⟨t.routes.erase key, t.reverseIndex.remove existing⟩

/-- A route older than the stored one is ignored, and a new one when the tracker is full. -/
def track (t : ASPATracker) (rt : TrackedRoute) : ASPATracker :=
  match t.routes.lookup rt.key with
  | some existing =>
    if rt.msgID ≠ 0 ∧ rt.msgID < existing.msgID then t
    else file { t with reverseIndex := t.reverseIndex.remove existing } rt
  | none => if maxTrackedRoutes ≤ t.count then t else t.file rt

def remove (t : ASPATracker) (key : RouteKey) (msgID : UInt64) : ASPATracker :=
  match t.routes.lookup key with
  | none => t
  | some existing =>
    if msgID ≠ 0 ∧ msgID < existing.msgID then t else t.drop key existing

/-- One turn of the loop over the table. Source: removePeer. -/
def removeOfPeer (peerAddr : String) (t : ASPATracker) (key : RouteKey) : ASPATracker :=
  match t.routes.lookup key with
  | none => t
  | some route => if key.peerAddr = peerAddr then t.drop key route else t

def removePeer (t : ASPATracker) (peerAddr : String) (ord : RangeOrder RouteKey) : ASPATracker :=
  (ord.keys t.routes.keys).foldl (removeOfPeer peerAddr) t

/-- The routes the index gives for the changed customers. Source: revalidate, first loop -/
def affected (t : ASPATracker) (changedCustomers : Finset UInt32) : Finset RouteKey :=
  changedCustomers.biUnion t.reverseIndex.routesOf

/-- One turn of the second loop: a route whose state changed is written and reported.
Source: revalidate -/
def revalidateKey (cache : ASPACache) (acc : ASPATracker × List TrackedRoute) (key : RouteKey) :
    ASPATracker × List TrackedRoute :=
  match acc.1.routes.lookup key with
  | none => acc
  | some rt =>
    if rt.verified cache ≠ rt.aspaState then
      ({ acc.1 with routes := acc.1.routes.insert key (rt.refresh cache) },
        acc.2 ++ [rt.refresh cache])
    else acc

def revalidate (t : ASPATracker) (cache : ASPACache) (changedCustomers : Finset UInt32)
    (ord : RangeOrder RouteKey) : ASPATracker × List TrackedRoute :=
  (ord.keys (t.affected changedCustomers)).foldl (revalidateKey cache) (t, [])

/-- The index lists under each AS number exactly the tracked routes whose path names it, and has an
entry for no other AS number. -/
def IndexExact (t : ASPATracker) : Prop :=
  SetIndex.NoEmpty t.reverseIndex ∧
    ∀ asn key, key ∈ t.reverseIndex.routesOf asn ↔
      ∃ rt, t.routes.lookup key = some rt ∧ asn ∈ rt.path

/-- Each route is filed under its own key, and the index is exact. -/
structure WF (t : ASPATracker) : Prop where
  keyed : ∀ key rt, t.routes.lookup key = some rt → rt.key = key
  exact : t.IndexExact

variable {t : ASPATracker} {rt existing : TrackedRoute} {key : RouteKey} {cache : ASPACache}

lemma wf_new : new.WF := by
  refine ⟨?_, ?_, ?_⟩
  · simp [new]
  · simp [new, SetIndex.NoEmpty]
  · simp [new, ReverseIndex.routesOf, SetIndex.at_]

lemma WF.file {ix : ReverseIndex} (hkeyed : ∀ key rt, t.routes.lookup key = some rt → rt.key =
    key) (hne : SetIndex.NoEmpty ix)
    (hix : ∀ asn key, key ∈ ix.routesOf asn ↔
      key ≠ rt.key ∧ ∃ rt', t.routes.lookup key = some rt' ∧ asn ∈ rt'.path) :
    (file { t with reverseIndex := ix } rt).WF := by
  refine ⟨?_, ?_, ?_⟩
  · intro key r hr
    by_cases hk : key = rt.key
    · subst hk
      simp only [ASPATracker.file, Finmap.lookup_insert, Option.some.injEq] at hr
      rw [← hr]
    · simp only [ASPATracker.file, Finmap.lookup_insert_of_ne _ hk] at hr
      exact hkeyed key r hr
  · exact ReverseIndex.noEmpty_add hne
  · intro asn key
    simp only [ASPATracker.file]
    rw [ReverseIndex.mem_routesOf_add, hix]
    by_cases hk : key = rt.key
    · subst hk
      simp
    · rw [Finmap.lookup_insert_of_ne _ hk]
      simp [hk]

lemma WF.mem_routesOf_remove (h : t.WF) (hl : t.routes.lookup key = some existing)
    (asn : UInt32) (k : RouteKey) :
    k ∈ (t.reverseIndex.remove existing).routesOf asn ↔
      k ≠ key ∧ ∃ rt, t.routes.lookup k = some rt ∧ asn ∈ rt.path := by
  rw [ReverseIndex.mem_routesOf_remove, h.exact.2, h.keyed key existing hl]
  by_cases hk : k = key
  · subst hk
    simp [hl]
  · simp [hk]

lemma WF.drop (h : t.WF) (hl : t.routes.lookup key = some existing) : (t.drop key existing).WF := by
  refine ⟨?_, ReverseIndex.noEmpty_remove h.exact.1, ?_⟩
  · intro k r hr
    by_cases hk : k = key
    · subst hk
      simp [ASPATracker.drop] at hr
    · simp only [ASPATracker.drop, Finmap.lookup_erase_ne hk] at hr
      exact h.keyed k r hr
  · intro asn k
    simp only [ASPATracker.drop]
    rw [h.mem_routesOf_remove hl]
    by_cases hk : k = key
    · subst hk
      simp
    · simp [hk, Finmap.lookup_erase_ne hk]

lemma WF.track (h : t.WF) : (t.track rt).WF := by
  unfold ASPATracker.track
  cases hl : t.routes.lookup rt.key with
  | none =>
    simp only
    split_ifs
    · exact h
    · refine WF.file h.keyed h.exact.1 ?_
      intro asn key
      rw [h.exact.2]
      by_cases hk : key = rt.key
      · subst hk
        simp [hl]
      · simp [hk]
  | some existing =>
    simp only
    split_ifs
    · exact h
    · exact WF.file h.keyed (ReverseIndex.noEmpty_remove h.exact.1) (h.mem_routesOf_remove hl)

lemma WF.remove {msgID : UInt64} (h : t.WF) : (t.remove key msgID).WF := by
  unfold ASPATracker.remove
  split
  · exact h
  · next existing hl =>
    split_ifs
    · exact h
    · exact h.drop hl

variable {peerAddr : String} {ord : RangeOrder RouteKey} {r : TrackedRoute}
  {changed : Finset UInt32}

lemma WF.removePeer (h : t.WF) : (t.removePeer peerAddr ord).WF := by
  unfold ASPATracker.removePeer
  induction ord.keys t.routes.keys generalizing t with
  | nil => exact h
  | cons key keys ih =>
    apply ih
    unfold removeOfPeer
    split
    · exact h
    · next route hl =>
      split_ifs
      · exact h.drop hl
      · exact h

/-! ## What an operation does to the table -/

lemma lookup_track (h : (t.track rt).routes.lookup key = some r) :
    t.routes.lookup key = some r ∨ r = rt := by
  have hfile : ∀ t' : ASPATracker, t'.routes = t.routes →
      (t'.file rt).routes.lookup key = some r → t.routes.lookup key = some r ∨ r = rt := by
    intro t' ht' hr
    by_cases hk : key = rt.key
    · subst hk
      simp only [ASPATracker.file, Finmap.lookup_insert, Option.some.injEq] at hr
      exact .inr hr.symm
    · simp only [ASPATracker.file, Finmap.lookup_insert_of_ne _ hk, ht'] at hr
      exact .inl hr
  unfold track at h
  split at h
  · split_ifs at h
    · exact .inl h
    · exact hfile _ rfl h
  · split_ifs at h
    · exact .inl h
    · exact hfile t rfl h

lemma lookup_drop {k : RouteKey}
    (h : (t.drop k existing).routes.lookup key = some r) : t.routes.lookup key = some r := by
  by_cases hk : key = k
  · subst hk
    simp [drop] at h
  · simpa only [drop, Finmap.lookup_erase_ne hk] using h

lemma lookup_remove {k : RouteKey} {msgID : UInt64}
    (h : (t.remove k msgID).routes.lookup key = some r) : t.routes.lookup key = some r := by
  unfold remove at h
  split at h
  · exact h
  · split_ifs at h
    · exact h
    · exact lookup_drop h

lemma lookup_removeOfPeer {k : RouteKey}
    (h : (removeOfPeer peerAddr t k).routes.lookup key = some r) :
    t.routes.lookup key = some r := by
  unfold removeOfPeer at h
  split at h
  · exact h
  · split_ifs at h
    · exact lookup_drop h
    · exact h

lemma lookup_removePeer
    (h : (t.removePeer peerAddr ord).routes.lookup key = some r) :
    t.routes.lookup key = some r := by
  unfold removePeer at h
  generalize ord.keys t.routes.keys = keys at h
  induction keys generalizing t with
  | nil => exact h
  | cons k keys ih => exact lookup_removeOfPeer (ih h)

lemma lookup_revalidateKey (acc : ASPATracker × List TrackedRoute) (key k : RouteKey) :
    (revalidateKey cache acc k).1.routes.lookup key =
      if key = k then (acc.1.routes.lookup key).map (TrackedRoute.refresh cache)
      else acc.1.routes.lookup key := by
  unfold revalidateKey
  cases hl : acc.1.routes.lookup k with
  | none =>
    split_ifs with hk
    · rw [hk, hl]
      rfl
    · rfl
  | some rt =>
    simp only
    split_ifs with hne hk hk
    · subst hk
      simp [hl]
    · exact Finmap.lookup_insert_of_ne _ hk
    · subst hk
      have hsame : rt.refresh cache = rt := by
        unfold TrackedRoute.refresh
        rw [not_not.1 hne]
      simp [hl, hsame]
    · rfl

lemma reverseIndex_revalidateKey (acc : ASPATracker × List TrackedRoute) (k : RouteKey) :
    (revalidateKey cache acc k).1.reverseIndex = acc.1.reverseIndex := by
  unfold revalidateKey
  split
  · rfl
  · split_ifs <;> rfl

lemma lookup_foldl_revalidateKey (key : RouteKey) :
    (keys : List RouteKey) → (acc : ASPATracker × List TrackedRoute) →
      (keys.foldl (revalidateKey cache) acc).1.routes.lookup key =
        if key ∈ keys then (acc.1.routes.lookup key).map (TrackedRoute.refresh cache)
        else acc.1.routes.lookup key
  | [], _ => by simp
  | k :: keys, acc => by
      rw [foldl_cons, lookup_foldl_revalidateKey key keys, lookup_revalidateKey]
      by_cases hk : key = k
      · subst hk
        simp [TrackedRoute.refresh_comp_refresh]
      · simp [hk]

lemma reverseIndex_foldl_revalidateKey :
    (keys : List RouteKey) → (acc : ASPATracker × List TrackedRoute) →
      (keys.foldl (revalidateKey cache) acc).1.reverseIndex = acc.1.reverseIndex
  | [], _ => rfl
  | k :: keys, acc => by
      rw [foldl_cons, reverseIndex_foldl_revalidateKey keys, reverseIndex_revalidateKey]

lemma lookup_revalidate (h : t.WF) (hl : t.routes.lookup key = some rt) :
    (t.revalidate cache changed ord).1.routes.lookup key =
      some (if ∃ asn ∈ changed, asn ∈ rt.path then rt.refresh cache else rt) := by
  unfold revalidate
  have hmem : key ∈ ord.keys (t.affected changed) ↔ ∃ asn ∈ changed, asn ∈ rt.path := by
    rw [ord.mem_keys]
    unfold affected
    rw [Finset.mem_biUnion]
    simp [h.exact.2, hl]
  rw [lookup_foldl_revalidateKey, hl]
  simp only [hmem]
  split_ifs <;> rfl

lemma exists_of_lookup_revalidate
    (h : (t.revalidate cache changed ord).1.routes.lookup key = some rt) :
    ∃ old, t.routes.lookup key = some old ∧ old.key = rt.key ∧ old.path = rt.path := by
  unfold revalidate at h
  rw [lookup_foldl_revalidateKey] at h
  split_ifs at h
  · obtain ⟨old, hold, rfl⟩ := Option.map_eq_some_iff.1 h
    exact ⟨old, hold, rfl, rfl⟩
  · exact ⟨rt, h, rfl, rfl⟩

lemma WF.revalidate (h : t.WF) : (t.revalidate cache changed ord).1.WF := by
  have hix : (t.revalidate cache changed ord).1.reverseIndex = t.reverseIndex :=
    reverseIndex_foldl_revalidateKey _ _
  refine ⟨?_, ?_, ?_⟩
  · intro key rt hrt
    obtain ⟨old, hold, hkey, -⟩ := exists_of_lookup_revalidate hrt
    rw [← hkey]
    exact h.keyed key old hold
  · rw [hix]
    exact h.exact.1
  · intro asn key
    rw [hix, h.exact.2]
    constructor
    · rintro ⟨rt, hrt, hasn⟩
      refine ⟨_, lookup_revalidate h hrt, ?_⟩
      split_ifs <;> exact hasn
    · rintro ⟨rt, hrt, hasn⟩
      obtain ⟨old, hold, -, hpath⟩ := exists_of_lookup_revalidate hrt
      exact ⟨old, hold, hpath ▸ hasn⟩

end ASPATracker

/-! ## The cache and the tracker together -/

/-- What the plugin does to its cache and its tracker. `revalidate` is given a reported set of
customers; the state of a tracked route is computed when it is tracked.
Source: rpki.go and rtr_session.go, the callers -/
inductive ASPAOp where
  | track (rt : TrackedRoute)
  | remove (key : RouteKey) (msgID : UInt64)
  | removePeer (peerAddr : String) (ord : RangeOrder RouteKey)
  | clear
  | applyDelta (dels : List UInt32) (adds : List ASPARecord)
  | replace (recs : List ASPARecord)
  | revalidate (changed : Finset UInt32) (ord : RangeOrder RouteKey)

/-- The cache, the tracker, and the sets of changed customers that the cache reported and that were
not yet handed to `revalidate`. -/
structure World where
  cache : ASPACache
  tracker : ASPATracker
  pending : List (Finset UInt32)

namespace World

def start : World := ⟨ASPACache.new, ASPATracker.new, []⟩

/-- Source: rpki.go, rtr_session.go, rtr_expire.go, the calls of the tracker and the cache. -/
def step (w : World) : ASPAOp → World
  | .track rt => { w with tracker := w.tracker.track (rt.refresh w.cache) }
  | .remove key msgID => { w with tracker := w.tracker.remove key msgID }
  | .removePeer peerAddr ord => { w with tracker := w.tracker.removePeer peerAddr ord }
  | .clear => { w with tracker := ASPATracker.new }
  | .applyDelta dels adds =>
    { w with cache := w.cache.applyDelta dels adds
             pending := ASPACache.changedCustomers dels adds :: w.pending }
  | .replace recs =>
    { w with cache := (w.cache.replace recs).1
             pending := (w.cache.replace recs).2 :: w.pending }
  | .revalidate changed ord =>
    { w with tracker := (w.tracker.revalidate w.cache changed ord).1
             pending := w.pending.erase changed }

/-- A route is fresh, or a set that names an AS of its path is still to be handed over. -/
def Due (w : World) (rt : TrackedRoute) : Prop :=
  rt.Fresh w.cache ∨ ∃ changed ∈ w.pending, ∃ asn ∈ changed, asn ∈ rt.path

structure Inv (w : World) : Prop where
  wf : w.tracker.WF
  due : ∀ key rt, w.tracker.routes.lookup key = some rt → w.Due rt

variable {w : World}

lemma inv_start : start.Inv := by
  refine ⟨ASPATracker.wf_new, ?_⟩
  simp [start, ASPATracker.new]

lemma Due.of_change {rt : TrackedRoute} {cache : ASPACache} {changed : Finset UInt32} (h : w.Due rt)
    (heq : ∀ asn, asn ∉ changed → cache.records.lookup asn = w.cache.records.lookup asn) :
    Due { w with cache := cache, pending := changed :: w.pending } rt := by
  by_cases hmeets : ∃ asn ∈ changed, asn ∈ rt.path
  · exact .inr ⟨changed, mem_cons_self, hmeets⟩
  · rcases h with hfresh | ⟨s, hs, hmem⟩
    · refine .inl (hfresh.of_lookup_eq ?_)
      intro asn hasn
      exact heq asn fun hc => hmeets ⟨asn, hc, hasn⟩
    · exact .inr ⟨s, mem_cons_of_mem changed hs, hmem⟩

lemma Inv.due_revalidate (h : w.Inv) {changed : Finset UInt32} {ord : RangeOrder RouteKey}
    {key : RouteKey} {rt : TrackedRoute}
    (hl : (w.step (.revalidate changed ord)).tracker.routes.lookup key = some rt) :
    (w.step (.revalidate changed ord)).Due rt := by
  simp only [step] at hl
  obtain ⟨old, hold, -, -⟩ := ASPATracker.exists_of_lookup_revalidate hl
  rw [ASPATracker.lookup_revalidate h.wf hold, Option.some.injEq] at hl
  split_ifs at hl with hmeets
  · subst hl
    exact .inl TrackedRoute.fresh_refresh
  · subst hl
    rcases h.due key old hold with hfresh | ⟨s, hs, hmem⟩
    · exact .inl hfresh
    · have hne : s ≠ changed := by
        rintro rfl
        exact hmeets hmem
      exact .inr ⟨s, (mem_erase_of_ne hne).mpr hs, hmem⟩

lemma Inv.step (h : w.Inv) (op : ASPAOp) : (w.step op).Inv := by
  cases op with
  | track rt =>
    refine ⟨h.wf.track, ?_⟩
    intro key r hr
    rcases ASPATracker.lookup_track hr with hold | rfl
    · exact h.due key r hold
    · exact .inl TrackedRoute.fresh_refresh
  | remove k msgID =>
    exact ⟨h.wf.remove, fun key r hr => h.due key r (ASPATracker.lookup_remove hr)⟩
  | removePeer peerAddr ord =>
    exact ⟨h.wf.removePeer, fun key r hr => h.due key r (ASPATracker.lookup_removePeer hr)⟩
  | clear =>
    refine ⟨ASPATracker.wf_new, ?_⟩
    simp [World.step, ASPATracker.new]
  | applyDelta dels adds =>
    refine ⟨h.wf, fun key r hr => (h.due key r hr).of_change ?_⟩
    intro asn hasn
    exact ASPACache.lookup_applyDelta hasn
  | replace recs =>
    refine ⟨h.wf, fun key r hr => (h.due key r hr).of_change ?_⟩
    intro asn hasn
    exact ASPACache.lookup_replace hasn
  | revalidate changed ord =>
    exact ⟨h.wf.revalidate, fun key r hr => h.due_revalidate hr⟩

lemma Inv.run (h : w.Inv) (ops : List ASPAOp) : (ops.foldl World.step w).Inv := by
  induction ops generalizing w with
  | nil => exact h
  | cons op ops ih => exact ih (h.step op)

/-- **Theorem.** In every run, the reverse index maps each AS number to exactly the tracked routes
whose path contains it; and whenever each set of customers the cache reported was handed to
`revalidate`, every tracked route has the state of a fresh verification of its path against the
current cache. -/
theorem fresh_and_indexed (ops : List ASPAOp) :
    (ops.foldl World.step start).tracker.IndexExact ∧
      ((ops.foldl World.step start).pending = [] →
        ∀ key rt, (ops.foldl World.step start).tracker.routes.lookup key = some rt →
          rt.aspaState = rt.verified (ops.foldl World.step start).cache) := by
  have hinv : (ops.foldl World.step start).Inv := inv_start.run ops
  refine ⟨hinv.wf.exact, ?_⟩
  intro hdone key rt hrt
  rcases hinv.due key rt hrt with hfresh | ⟨changed, hmem, -⟩
  · exact hfresh
  · rw [hdone] at hmem
    cases hmem

/-- A route whose origin later authorises another provider: tracked as unknown, it is invalid once
the full set of records was handed over. -/
theorem fresh_and_indexed_denied :
    let rt : TrackedRoute :=
      ⟨⟨"192.0.2.1", "ipv4/unicast", "198.51.100.0/24", 0⟩, 7, [65001, 65002], .none, .upstream,
        ⟨65001, false⟩⟩
    let ops : List ASPAOp := [.track rt, .replace [⟨65002, [65003]⟩], .revalidate {65002} default]
    let w := ops.foldl World.step start
    (start.step (.track rt)).tracker.routes.lookup rt.key =
        some { rt with aspaState := .unknown } ∧
      w.tracker.routes.lookup rt.key = some { rt with aspaState := .invalid } ∧
      w.pending = [] ∧
      ∀ key r, w.tracker.routes.lookup key = some r → r.aspaState = r.verified w.cache := by
  intro rt ops w
  have htracked : (start.step (.track rt)).tracker.routes.lookup rt.key =
      some { rt with aspaState := .unknown } := by decide +kernel
  have hdone : w.pending = [] := by decide +kernel
  refine ⟨htracked, ?_, hdone, (fresh_and_indexed ops).2 hdone⟩
  have hwf : (start.step (.track rt)).tracker.WF := (inv_start.step _).wf
  refine (ASPATracker.lookup_revalidate hwf htracked).trans ?_
  decide +kernel

end World

end Ze.Rpki
