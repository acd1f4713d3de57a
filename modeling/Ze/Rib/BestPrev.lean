import Mathlib.Tactic.IntervalCases
import Mathlib.Algebra.Order.Group.Multiset
import Mathlib.Tactic.Abel
import Ze.Lib.Run
import Ze.Lib.Holders
import Ze.Rib.PeerInterner

/-!
# Stored best paths and their peers

Elections (`checkRouteBestChange`) and purges (`purgeBestPrevForPeer`) run at the same time. Each
holds the lock of one shard of the stored records at a time, and the interner has its own locks, so
what one of them does between two calls of the interner is one step.

Default file: `rib_bestchange.go`.
-/

set_option linter.unusedSectionVars false

namespace Ze.Rib

open Ze.Lib List
open Multiset (add_cons coe_add coe_count coe_nil coe_singleton cons_add cons_coe le_cons_self
  map_add map_coe mem_add mem_coe mem_of_le singleton_add)
open Option (elim_none elim_some map_eq_some_iff)
open Prod (fst)

/-! ## Records -/

/-- Source: plugins/rib/rib_bestchange.go. -/
abbrev BestPathRecord := BitVec 64

def packBestPath (metricIdx peerIdx nextHopIdx flags : Index) : BestPathRecord :=
  metricIdx.setWidth 64 <<< 48 ||| peerIdx.setWidth 64 <<< 32 |||
    nextHopIdx.setWidth 64 <<< 16 ||| flags.setWidth 64

namespace BestPathRecord

def metricIdx (r : BestPathRecord) : Index := (r >>> 48).setWidth 16

def peerIdx (r : BestPathRecord) : Index := (r >>> 32).setWidth 16

def nextHopIdx (r : BestPathRecord) : Index := (r >>> 16).setWidth 16

def flags (r : BestPathRecord) : Index := r.setWidth 16

end BestPathRecord

lemma peerIdx_packBestPath (metricIdx peerIdx nextHopIdx flags : Index) :
    BestPathRecord.peerIdx (packBestPath metricIdx peerIdx nextHopIdx flags) = peerIdx := by
  apply BitVec.eq_of_getElem_eq
  intro i hi
  unfold BestPathRecord.peerIdx packBestPath
  interval_cases i <;> simp

def flagEBGP : Index := 1#16

def flagHadSRv6SID : Index := 2#16

def flagBlackhole : Index := 4#16

structure BestPathMetrics where
  aigp : UInt64 := 0
  med : UInt32 := 0
  hasAIGP : Bool := false
  deriving DecidableEq, Repr, Inhabited

/-- What an election reads of the path that won: its own fields, and what its entry resolves to.
Source: checkRouteBestChange: newBest and the variables set from it. -/
structure Winner (Peer Hop Route : Type) where
  peerAddr : Peer
  pathID : UInt32 := 0
  addPath : Bool := false
  route : Route
  nextHop : Hop
  metrics : BestPathMetrics := {}
  isEBGP : Bool := false
  labels : List UInt32 := []
  /-- The SRv6 SID is valid. -/
  srv6SID : Bool := false
  /-- The route type is Blackhole. -/
  blackhole : Bool := false
  attrFingerprint : UInt64 := 0

/-- A stored record, with the label values kept beside it.
Source: bestPrevRecord, opaqueBestPrev, and the labels of bestPrevStore. -/
structure BestPrevRecord (Peer Route : Type) where
  rec_ : BestPathRecord
  attrFingerprint : UInt64
  pathID : UInt32
  addPath : Bool
  route : Route
  labels : List UInt32
  /-- The peer whose route won. -/
  won : Peer

def BestPrevRecord.peerIdx {Peer Route : Type} (p : BestPrevRecord Peer Route) : Index :=
  BestPathRecord.peerIdx p.rec_

/-- The reference of a stored record. Source: bestPrevInterner. -/
def BestPrevRecord.ref {Peer Route : Type} (p : BestPrevRecord Peer Route) : Index × Peer :=
  (p.peerIdx, p.won)

/-- Source: checkRouteBestChange: flags. -/
def Winner.flags {Peer Hop Route : Type} (w : Winner Peer Hop Route) : Index :=
  (if w.isEBGP then flagEBGP else 0#16) ||| (if w.srv6SID then flagHadSRv6SID else 0#16) |||
    (if w.blackhole then flagBlackhole else 0#16)

/-- The record that an election stores.
Source: checkRouteBestChange: newRec, and the arguments of insert. -/
def Winner.record {Peer Hop Route : Type} (w : Winner Peer Hop Route)
    (metricIdx peerIdx nextHopIdx : Index) : BestPrevRecord Peer Route where
  rec_ := packBestPath metricIdx peerIdx nextHopIdx w.flags
  attrFingerprint := w.attrFingerprint
  pathID := w.pathID
  addPath := w.addPath
  route := w.route
  labels := w.labels
  won := w.peerAddr

def sameAttributeSet (recorded current : UInt64) : Bool :=
  if recorded = 0 then false else recorded == current

/-- What the indices of a record resolve to.
Source: checkRouteBestChange: prevPeer, prevNextHop, prevMetrics. -/
structure Resolved (Peer Hop : Type) where
  peer : Peer
  nextHop : Hop
  metrics : BestPathMetrics

/-- Source: checkRouteBestChange: sameBest, where there is a record. -/
def sameBest {Peer Hop Route : Type} [DecidableEq Peer] [DecidableEq Hop] [DecidableEq Route]
    (p : BestPrevRecord Peer Route) (r : Resolved Peer Hop) (w : Winner Peer Hop Route) : Bool :=
  decide (p.labels = w.labels) && (decide (r.peer = w.peerAddr) &&
    (decide (p.pathID = w.pathID) && decide (p.addPath = w.addPath) && decide (p.route = w.route) &&
    decide (r.nextHop = w.nextHop) && decide (r.metrics = w.metrics) &&
    ((BestPathRecord.flags p.rec_ &&& flagEBGP != 0#16) == w.isEBGP) &&
    ((BestPathRecord.flags p.rec_ &&& flagBlackhole != 0#16) == w.blackhole) &&
    !w.srv6SID && (BestPathRecord.flags p.rec_ &&& flagHadSRv6SID == 0#16) &&
    sameAttributeSet p.attrFingerprint w.attrFingerprint))

/-! ## Tasks -/

/-- Where an election or a purge stands. Source: checkRouteBestChange, purgeBestPrevForPeer. -/
inductive Task (Peer Hop Route Key Shard : Type)
  /-- The shard is locked and the record looked up. -/
  | locked (key : Key) (prev : Option (BestPrevRecord Peer Route))
  /-- The indices of the record are resolved. -/
  | resolved (key : Key) (prev : Option (BestPrevRecord Peer Route × Resolved Peer Hop))
  /-- The winner's peer is interned. -/
  | admitted (key : Key) (prev : Option (BestPrevRecord Peer Route)) (w : Winner Peer Hop Route)
    (peerIdx : Index)
  /-- So is its next hop. -/
  | hopped (key : Key) (prev : Option (BestPrevRecord Peer Route)) (w : Winner Peer Hop Route)
    (peerIdx nextHopIdx : Index)
  /-- One reference is to be given back, and the shard unlocked. -/
  | releasing (key : Key) (idx : Index) (peer : Peer)
  /-- A purge between two shards. -/
  | scan (peer : Peer) (idx : Index) (todo : List Shard)
  /-- A purge in a shard. -/
  | sweep (peer : Peer) (idx : Index) (shard : Shard) (todo : List Shard)
  /-- A record is deleted and its reference to be given back. -/
  | dropped (peer : Peer) (idx : Index) (shard : Shard) (todo : List Shard)

/-- What a task does next. Source: checkRouteBestChange, purgeBestPrevForPeer. -/
inductive Action (Peer Hop Route Key : Type)
  | resolve
  | elect (newBest : Option (Winner Peer Hop Route))
  | internNextHop
  | internMetric
  | release
  | lockShard
  | drop (key : Key)
  | unlockShard

/-- What happens next. Source: rib_bestchange.go. -/
inductive Event (Peer Hop Route Key Shard : Type)
  | check (key : Key)
  | purge (peer : Peer) (todo : List Shard)
  | act (task : ℕ) (action : Action Peer Hop Route Key)

/-- The interner, the stored records and the tasks that run. Source: plugins/rib/rib.go RIBManager:
bestPrev, bestPathInterner. -/
structure Manager (Peer Hop Route Key Shard : Type) where
  interner : PeerTable Peer := {}
  nextHops : ValueTable Hop := {}
  metrics : ValueTable BestPathMetrics := {}
  records : List (Key × BestPrevRecord Peer Route) := []
  tasks : List (Task Peer Hop Route Key Shard) := []
  panicked : Option Panic := none

section

variable {Peer Hop Route Key Shard : Type}

/-- The shard whose lock a task holds. Source: plugins/rib/bestprev_shard.go bestPrevShard.mu. -/
def Task.shard (shardOf : Key → Shard) : Task Peer Hop Route Key Shard → Option Shard
  | .locked key _ | .resolved key _ | .admitted key _ _ _ | .hopped key _ _ _ _
  | .releasing key _ _ => some (shardOf key)
  | .scan _ _ _ => none
  | .sweep _ _ shard _ | .dropped _ _ shard _ => some shard

/-- The references that a task holds. Source: internPeer, retainPeer, releasePeer. -/
def Task.pins : Task Peer Hop Route Key Shard → List (Index × Peer)
  | .locked _ _ | .resolved _ _ => []
  | .admitted _ _ w idx | .hopped _ _ w idx _ => [(idx, w.peerAddr)]
  | .releasing _ idx peer | .scan peer idx _ | .sweep peer idx _ _ => [(idx, peer)]
  | .dropped peer idx _ _ => [(idx, peer), (idx, peer)]

/-- No task holds the lock of a shard. Source: bestprev_shard.go bestPrevShard.mu. -/
def Manager.unlocked [DecidableEq Shard] (shardOf : Key → Shard)
    (s : Manager Peer Hop Route Key Shard) (shard : Shard) : Bool :=
  s.tasks.all fun t => t.shard shardOf ≠ some shard

variable [DecidableEq Peer] [Inhabited Peer] [DecidableEq Hop] [Inhabited Hop] [DecidableEq Route]
  [DecidableEq Key] [DecidableEq Shard]

/-- A reference is given back; a panic ends the run. Source: releasePeer. -/
def Manager.release (s : Manager Peer Hop Route Key Shard) (idx : Index) :
    Manager Peer Hop Route Key Shard :=
  match s.interner.releasePeer idx with
  | .error p => { s with panicked := some p }
  | .ok b => { s with interner := b }

/-- What the indices of a record resolve to now. Source: checkRouteBestChange. -/
def Manager.resolve (s : Manager Peer Hop Route Key Shard) (p : BestPrevRecord Peer Route) :
    Resolved Peer Hop where
  peer := s.interner.peerAt p.peerIdx
  nextHop := s.nextHops.at_ (BestPathRecord.nextHopIdx p.rec_)
  metrics := s.metrics.at_ (BestPathRecord.metricIdx p.rec_)

/-- An election with a winner that is not the recorded best: its peer is interned, or the table is
full and the record stays.
Source: checkRouteBestChange. -/
def Manager.admitWinner (s : Manager Peer Hop Route Key Shard) (key : Key)
    (prev : Option (BestPrevRecord Peer Route)) (w : Winner Peer Hop Route) :
    Manager Peer Hop Route Key Shard × Option (Task Peer Hop Route Key Shard) :=
  match s.interner.internPeer w.peerAddr with
  | (none, b) => ({ s with interner := b }, none)
  | (some idx, b) => ({ s with interner := b }, some (.admitted key prev w idx))

/-- One step of a task, and where it stands then; `none` behind its end. A step that has to wait, or
that the task does not take, is not there.
Source: checkRouteBestChange, purgeBestPrevForPeer. -/
def Manager.act (shardOf : Key → Shard) (s : Manager Peer Hop Route Key Shard) :
    Task Peer Hop Route Key Shard → Action Peer Hop Route Key →
      Option (Manager Peer Hop Route Key Shard × Option (Task Peer Hop Route Key Shard))
  | .locked key prev, .resolve =>
    some (s, some (.resolved key (prev.map fun p => (p, s.resolve p))))
  | .resolved _ none, .elect none => some (s, none)
  | .resolved key (some (p, _)), .elect none =>
    some ({ s with records := Table.drop s.records key }, some (.releasing key p.peerIdx p.won))
  | .resolved key none, .elect (some w) => some (s.admitWinner key none w)
  | .resolved key (some (p, r)), .elect (some w) =>
    if sameBest p r w then
      some ({ s with records := Table.put s.records key { p with won := w.peerAddr } }, none)
    else some (s.admitWinner key (some p) w)
  | .admitted key prev w idx, .internNextHop =>
    match s.nextHops.intern w.nextHop with
    | (none, t) => some ({ s with nextHops := t }, some (.releasing key idx w.peerAddr))
    | (some nextHopIdx, t) =>
      some ({ s with nextHops := t }, some (.hopped key prev w idx nextHopIdx))
  | .hopped key prev w idx nextHopIdx, .internMetric =>
    match s.metrics.intern w.metrics with
    | (none, t) => some ({ s with metrics := t }, some (.releasing key idx w.peerAddr))
    | (some metricIdx, t) =>
      some ({ s with
        metrics := t
        records := Table.put s.records key (w.record metricIdx idx nextHopIdx) },
        prev.map fun p => .releasing key p.peerIdx p.won)
  | .releasing _ idx _, .release => some (s.release idx, none)
  | .scan _ idx [], .release => some (s.release idx, none)
  | .scan peer idx (shard :: todo), .lockShard =>
    if s.unlocked shardOf shard then some (s, some (.sweep peer idx shard todo)) else none
  | .sweep peer idx shard todo, .drop key =>
    match s.records.lookup key with
    | none => none
    | some p =>
      if shardOf key = shard ∧ p.peerIdx = idx then
        some ({ s with records := Table.drop s.records key }, some (.dropped peer idx shard todo))
      else none
  | .dropped peer idx shard todo, .release =>
    some (s.release idx, some (.sweep peer idx shard todo))
  | .sweep peer idx shard todo, .unlockShard =>
    if s.records.all fun e => shardOf e.1 ≠ shard ∨ e.2.peerIdx ≠ idx then
      some (s, some (.scan peer idx todo))
    else none
  | _, _ => none

/-- One step of the manager. Source: checkRouteBestChange, purgeBestPrevForPeer. -/
def Manager.step (shardOf : Key → Shard) (s : Manager Peer Hop Route Key Shard)
    (e : Event Peer Hop Route Key Shard) : Option (Manager Peer Hop Route Key Shard) :=
  if s.panicked.isSome then none
  else
    match e with
    | .check key =>
      if s.unlocked shardOf (shardOf key) then
        some { s with tasks := s.tasks ++ [.locked key (s.records.lookup key)] }
      else none
    | .purge peer todo =>
      match s.interner.retainPeer peer with
      | (none, _) => some s
      | (some idx, b) => some { s with interner := b, tasks := s.tasks ++ [.scan peer idx todo] }
    | .act i action =>
      (s.tasks[i]?).bind fun t => (s.act shardOf t action).map fun r =>
        { r.1 with tasks := stepped r.1.tasks i r.2 }

/-! ## References of a step -/

/-- The references of stored records. Source: bestPrevStore. -/
def refsOf (records : List (Key × BestPrevRecord Peer Route)) : Multiset (Index × Peer) :=
  ↑(records.map fun e => e.2.ref)

/-- The references of the records and of one task. Source: rib_bestchange.go. -/
def Manager.localRefs (s : Manager Peer Hop Route Key Shard)
    (t : Option (Task Peer Hop Route Key Shard)) : Multiset (Index × Peer) :=
  refsOf s.records + ((t.elim [] Task.pins : List (Index × Peer)) : Multiset (Index × Peer))

/-- What a task that holds a shard knows of the record it is about. Source: checkRouteBestChange. -/
def Task.Agrees (records : List (Key × BestPrevRecord Peer Route)) :
    Task Peer Hop Route Key Shard → Prop
  | .locked key prev => records.lookup key = prev
  | .resolved key prev => records.lookup key = prev.map fst ∧ ∀ x ∈ prev, x.2.peer = x.1.won
  | .admitted key prev _ _ => records.lookup key = prev
  | .hopped key prev _ _ _ => records.lookup key = prev
  | _ => True

section

variable {records : List (Key × BestPrevRecord Peer Route)} {key : Key}
  {p : BestPrevRecord Peer Route}

lemma refsOf_of_lookup (hkeys : (records.map fst).Nodup) (h : records.lookup key = some p) :
    refsOf records = p.ref ::ₘ refsOf (Table.drop records key) :=
  Multiset.coe_eq_coe.2 ((Table.perm_of_lookup hkeys h).map _)

lemma refsOf_put (records : List (Key × BestPrevRecord Peer Route)) (key : Key)
    (p : BestPrevRecord Peer Route) :
    refsOf (Table.put records key p) = p.ref ::ₘ refsOf (Table.drop records key) := rfl

end

/-- What one step of a task does, where `others` are the references that other tasks hold: the peer
table stays right, nothing panics, and no record of another shard changes. Source:
rib_bestchange.go. -/
structure Moves (shardOf : Key → Shard) (others : Multiset (Index × Peer))
    (s : Manager Peer Hop Route Key Shard) (t : Task Peer Hop Route Key Shard)
    (s' : Manager Peer Hop Route Key Shard) (t' : Option (Task Peer Hop Route Key Shard)) :
    Prop where
  holds : s'.interner.Holds (s'.localRefs t' + others)
  change : s.localRefs (some t) ≤ s'.localRefs t' ∨ s'.localRefs t' ≤ s.localRefs (some t)
  tasks : s'.tasks = s.tasks
  calm : s'.panicked = none
  keys : (s'.records.map fst).Nodup
  agrees : ∀ u ∈ t', u.Agrees s'.records
  shard : ∀ u ∈ t', ∀ sh, u.shard shardOf = some sh →
    t.shard shardOf = some sh ∨ s.unlocked shardOf sh = true
  frame : ∀ key, t.shard shardOf ≠ some (shardOf key) →
    s'.records.lookup key = s.records.lookup key

section

variable {shardOf : Key → Shard} {others : Multiset (Index × Peer)}
  {s s' : Manager Peer Hop Route Key Shard} {t : Task Peer Hop Route Key Shard}
  {t' : Option (Task Peer Hop Route Key Shard)} {a : Action Peer Hop Route Key}

variable {i : Index} {v : Peer} {prev : Option (BestPrevRecord Peer Route)} {r : Resolved Peer Hop}
  {w : Winner Peer Hop Route}

lemma Manager.release_eq {rest : Multiset (Index × Peer)} (h : s.interner.Holds ((i, v) ::ₘ rest)) :
    ∃ b, s.release i = { s with interner := b } ∧ b.Holds rest := by
  obtain ⟨b, hb, hrest⟩ := PeerTable.holds_releasePeer h
  refine ⟨b, ?_, hrest⟩
  rw [Manager.release, hb]

lemma moves_release (hkeys : (s.records.map fst).Nodup)
    (hcalm : s.panicked = none) (hpins : t.pins = (i, v) :: (t'.elim [] Task.pins))
    (hagrees : ∀ u ∈ t', u.Agrees s.records) (hshard : ∀ u ∈ t', u.shard shardOf = t.shard shardOf)
    (hh : s.interner.Holds (s.localRefs (some t) + others)) :
    Moves shardOf others s t (s.release i) t' := by
  have hlocal : s.localRefs (some t) = (i, v) ::ₘ s.localRefs t' := by
    rw [Manager.localRefs, Manager.localRefs, elim_some, hpins, ← cons_coe, add_cons]
  rw [hlocal, cons_add] at hh
  obtain ⟨b, hrelease, hb⟩ := Manager.release_eq hh
  rw [hrelease]
  refine ⟨hb, .inr ?_, rfl, hcalm, hkeys, hagrees, fun u hu sh hsh => .inl ?_, fun _ _ => rfl⟩
  · rw [hlocal]
    exact le_cons_self _ _
  · rw [← hshard u hu, hsh]

lemma moves_keep (hint : s'.interner = s.interner)
    (hlocal : s'.localRefs t' = s.localRefs (some t)) (htasks : s'.tasks = s.tasks)
    (hcalm : s'.panicked = none) (hkeys : (s'.records.map fst).Nodup)
    (hagrees : ∀ u ∈ t', u.Agrees s'.records) (hshard : ∀ u ∈ t', ∀ sh, u.shard shardOf = some sh →
      t.shard shardOf = some sh ∨ s.unlocked shardOf sh)
    (hframe : ∀ key, t.shard shardOf ≠ some (shardOf key) →
      s'.records.lookup key = s.records.lookup key)
    (hh : s.interner.Holds (s.localRefs (some t) + others)) : Moves shardOf others s t s' t' := by
  refine ⟨?_, .inl (le_of_eq hlocal.symm), htasks, hcalm, hkeys, hagrees, hshard, hframe⟩
  rw [hint, hlocal]
  exact hh

lemma ref_mem_localRefs {key : Key} {p : BestPrevRecord Peer Route}
    (h : s.records.lookup key = some p) (t : Option (Task Peer Hop Route Key Shard))
    (others : Multiset (Index × Peer)) : p.ref ∈ s.localRefs t + others := by
  apply mem_add.2 (.inl (mem_add.2 (.inl _)))
  exact mem_coe.2 (mem_map.2 ⟨_, Table.mem_of_lookup h, rfl⟩)

lemma moves_locked {key : Key} (hkeys : (s.records.map fst).Nodup) (hcalm : s.panicked = none)
    (hagrees : s.records.lookup key = prev)
    (hh : s.interner.Holds (s.localRefs (some (.locked key prev)) + others)) :
    Moves shardOf others s (.locked key prev) s
      (some (.resolved key (prev.map fun p => (p, s.resolve p)))) := by
  refine ⟨hh, .inl (le_of_eq rfl), rfl, hcalm, hkeys, ?_, ?_, fun _ _ => rfl⟩
  · rintro u ⟨⟩
    refine ⟨?_, ?_⟩
    · rw [hagrees, Option.map_map]
      exact (Option.map_id' ..).symm
    · intro x hx
      obtain ⟨p, rfl, rfl⟩ := map_eq_some_iff.1 hx
      exact hh.peerAt_eq (ref_mem_localRefs hagrees _ others)
  · rintro u ⟨⟩ sh hsh
    exact .inl hsh

lemma moves_admission {key : Key} {prev : Option (BestPrevRecord Peer Route × Resolved Peer Hop)}
    (hkeys : (s.records.map fst).Nodup) (hcalm : s.panicked = none)
    (hagrees : s.records.lookup key = prev.map fst)
    (hh : s.interner.Holds (s.localRefs (some (.resolved key prev)) + others))
    (w : Winner Peer Hop Route) :
    Moves shardOf others s (.resolved key prev) (s.admitWinner key (prev.map fst) w).1
      (s.admitWinner key (prev.map fst) w).2 := by
  have hintern := PeerTable.holds_internPeer hh w.peerAddr
  rw [Manager.admitWinner]
  rcases hi : s.interner.internPeer w.peerAddr with ⟨_ | idx, b⟩ <;> rw [hi] at hintern
  · exact ⟨hintern, .inl (le_of_eq rfl), rfl, hcalm, hkeys, fun u hu => (by cases hu),
      fun u hu => (by cases hu), fun _ _ => rfl⟩
  · have hlocal : Manager.localRefs { s with interner := b }
        (some (.admitted key (prev.map fst) w idx)) =
          (idx, w.peerAddr) ::ₘ s.localRefs (some (.resolved key prev)) := by
      simp only [Manager.localRefs, elim_some, Task.pins, coe_singleton, coe_nil, add_zero]
      rw [add_comm, singleton_add]
    refine ⟨?_, .inl ?_, rfl, hcalm, hkeys, ?_, ?_, fun _ _ => rfl⟩
    · rw [hlocal, cons_add]
      exact hintern
    · rw [hlocal]
      exact le_cons_self _ _
    · rintro u ⟨⟩
      exact hagrees
    · rintro u ⟨⟩ sh hsh
      exact .inl hsh

lemma ne_of_shard {key x : Key} (h : some (shardOf key) ≠ some (shardOf x)) : x ≠ key :=
  fun heq => h (by rw [heq])

lemma moves_withdraw {key : Key} {p : BestPrevRecord Peer Route}
    (hkeys : (s.records.map fst).Nodup) (hcalm : s.panicked = none)
    (hagrees : s.records.lookup key = some p)
    (hh : s.interner.Holds (s.localRefs (some (.resolved key (some (p, r)))) + others)) :
    Moves shardOf others s (.resolved key (some (p, r)))
      { s with records := Table.drop s.records key } (some (.releasing key p.peerIdx p.won)) := by
  refine moves_keep rfl ?_ rfl hcalm (Table.nodup_drop hkeys key) ?_ ?_ ?_ hh
  · simp only [Manager.localRefs, elim_some, Task.pins, coe_singleton, coe_nil, add_zero]
    rw [refsOf_of_lookup hkeys hagrees, add_comm, singleton_add]
    rfl
  · rintro u ⟨⟩
    trivial
  · rintro u ⟨⟩ sh hsh
    exact .inl hsh
  · intro x hx
    rw [Table.lookup_drop, if_neg (ne_of_shard hx)]

lemma moves_same {key : Key} {p : BestPrevRecord Peer Route} (hkeys : (s.records.map fst).Nodup)
    (hcalm : s.panicked = none) (hagrees : s.records.lookup key = some p) (hpeer : r.peer = p.won)
    (hsame : sameBest p r w)
    (hh : s.interner.Holds (s.localRefs (some (.resolved key (some (p, r)))) + others)) :
    Moves shardOf others s (.resolved key (some (p, r)))
      { s with records := Table.put s.records key { p with won := w.peerAddr } } none := by
  -- the peer that was resolved is the winner's, and the one the record was stored for
  have hwon : w.peerAddr = p.won := by
    have hresolved : r.peer = w.peerAddr :=
      of_decide_eq_true (Bool.and_eq_true_iff.1 (Bool.and_eq_true_iff.1 hsame).2).1
    rw [← hresolved, hpeer]
  refine moves_keep rfl ?_ rfl hcalm (Table.nodup_put hkeys key _) ?_ ?_ ?_ hh
  · simp only [Manager.localRefs, elim_some, elim_none, Task.pins, coe_nil, add_zero]
    rw [refsOf_of_lookup hkeys hagrees, refsOf_put, hwon]
  · rintro u ⟨⟩
  · rintro u ⟨⟩
  · intro x hx
    rw [Table.lookup_put, if_neg (ne_of_shard hx)]

lemma moves_insert {key : Key} {idx nextHopIdx : Index} (metricIdx : Index)
    (metrics : ValueTable BestPathMetrics) (hkeys : (s.records.map fst).Nodup)
    (hcalm : s.panicked = none) (hagrees : s.records.lookup key = prev)
    (hh : s.interner.Holds (s.localRefs (some (.hopped key prev w idx nextHopIdx)) + others)) :
    Moves shardOf others s (.hopped key prev w idx nextHopIdx)
      { s with
        metrics := metrics
        records := Table.put s.records key (w.record metricIdx idx nextHopIdx) }
      (prev.map fun p => .releasing key p.peerIdx p.won) := by
  have href : (w.record metricIdx idx nextHopIdx).ref = (idx, w.peerAddr) := by
    rw [BestPrevRecord.ref, BestPrevRecord.peerIdx, Winner.record, peerIdx_packBestPath]
  refine moves_keep rfl ?_ rfl hcalm (Table.nodup_put hkeys key _) ?_ ?_ ?_ hh
  · simp only [Manager.localRefs, elim_some, Task.pins, refsOf_put, href]
    rcases prev with _ | p
    · rw [Table.drop_of_lookup hagrees, coe_singleton, add_comm, add_comm (refsOf _)]
      rfl
    · rw [refsOf_of_lookup hkeys hagrees, coe_singleton, ← singleton_add, ← singleton_add p.ref]
      change {(idx, w.peerAddr)} + _ + {p.ref} = _
      abel
  · intro u hu
    obtain ⟨p, -, rfl⟩ := map_eq_some_iff.1 hu
    trivial
  · intro u hu sh hsh
    obtain ⟨p, -, rfl⟩ := map_eq_some_iff.1 hu
    exact .inl hsh
  · intro x hx
    rw [Table.lookup_put, if_neg (ne_of_shard hx)]

lemma moves_drop {key : Key} {p : BestPrevRecord Peer Route} {peer : Peer} {todo : List Shard}
    (hkeys : (s.records.map fst).Nodup) (hcalm : s.panicked = none)
    (hlookup : s.records.lookup key = some p) (hh : s.interner.Holds
      (s.localRefs (some (.sweep peer p.peerIdx (shardOf key) todo)) + others)) :
    Moves shardOf others s (.sweep peer p.peerIdx (shardOf key) todo)
      { s with records := Table.drop s.records key }
      (some (.dropped peer p.peerIdx (shardOf key) todo)) := by
  -- the record names the peer of the purge
  have hpeer : p.won = peer := by
    refine hh.peer_unique (ref_mem_localRefs hlookup _ others) ?_
    apply mem_add.2 (.inl (mem_add.2 (.inr _)))
    exact mem_coe.2 mem_cons_self
  refine moves_keep rfl ?_ rfl hcalm (Table.nodup_drop hkeys key) ?_ ?_ ?_ hh
  · simp only [Manager.localRefs, elim_some, Task.pins]
    rw [refsOf_of_lookup hkeys hlookup, BestPrevRecord.ref, hpeer, ← cons_coe, add_cons, cons_add]
  · rintro u ⟨⟩
    trivial
  · rintro u ⟨⟩ sh hsh
    exact .inl hsh
  · intro x hx
    rw [Table.lookup_drop, if_neg (ne_of_shard hx)]

lemma moves_local {u : Task Peer Hop Route Key Shard} (nextHops : ValueTable Hop)
    (metrics : ValueTable BestPathMetrics) (hkeys : (s.records.map fst).Nodup)
    (hcalm : s.panicked = none) (hpins : u.pins = t.pins) (hagrees : u.Agrees s.records)
    (hshard : ∀ sh, u.shard shardOf = some sh → t.shard shardOf = some sh ∨ s.unlocked shardOf sh)
    (hh : s.interner.Holds (s.localRefs (some t) + others)) :
    Moves shardOf others s t { s with nextHops := nextHops, metrics := metrics } (some u) := by
  refine moves_keep rfl ?_ rfl hcalm hkeys ?_ ?_ (fun _ _ => rfl) hh
  · simp only [Manager.localRefs, elim_some, hpins]
  · rintro _ ⟨⟩
    exact hagrees
  · rintro _ ⟨⟩
    exact hshard

lemma act_moves (hkeys : (s.records.map fst).Nodup) (hcalm : s.panicked = none)
    (hagrees : t.Agrees s.records) (hh : s.interner.Holds (s.localRefs (some t) + others))
    (h : s.act shardOf t a = some (s', t')) : Moves shardOf others s t s' t' := by
  rw [Manager.act.eq_def] at h
  split at h
  · cases h
    exact moves_locked hkeys hcalm hagrees hh
  · cases h
    exact ⟨hh, .inl (le_of_eq rfl), rfl, hcalm, hkeys, fun u hu => (by cases hu),
      fun u hu => (by cases hu), fun _ _ => rfl⟩
  · cases h
    exact moves_withdraw hkeys hcalm hagrees.1 hh
  · obtain ⟨rfl, rfl⟩ := Prod.mk.inj (Option.some.inj h)
    exact moves_admission hkeys hcalm hagrees.1 hh _
  · split_ifs at h with hsame
    · cases h
      exact moves_same hkeys hcalm hagrees.1 (hagrees.2 _ rfl) hsame hh
    · obtain ⟨rfl, rfl⟩ := Prod.mk.inj (Option.some.inj h)
      exact moves_admission hkeys hcalm hagrees.1 hh _
  · split at h
    · cases h
      exact moves_local _ _ hkeys hcalm rfl trivial (fun sh hsh => .inl hsh) hh
    · cases h
      exact moves_local _ _ hkeys hcalm rfl hagrees (fun sh hsh => .inl hsh) hh
  · split at h
    · cases h
      exact moves_local _ _ hkeys hcalm rfl trivial (fun sh hsh => .inl hsh) hh
    · cases h
      exact moves_insert _ _ hkeys hcalm hagrees hh
  · cases h
    exact moves_release hkeys hcalm rfl (fun u hu => (by cases hu)) (fun u hu => (by cases hu)) hh
  · cases h
    exact moves_release hkeys hcalm rfl (fun u hu => (by cases hu)) (fun u hu => (by cases hu)) hh
  · split_ifs at h with hfree
    cases h
    refine moves_local s.nextHops s.metrics hkeys hcalm rfl trivial (fun sh hsh => .inr ?_) hh
    cases hsh
    exact hfree
  · split at h
    · cases h
    · split_ifs at h with hmatch
      cases h
      obtain ⟨rfl, rfl⟩ := hmatch
      exact moves_drop hkeys hcalm (by assumption) hh
  · cases h
    refine moves_release hkeys hcalm rfl ?_ ?_ hh
    · rintro u ⟨⟩
      trivial
    · rintro u ⟨⟩
      rfl
  · split_ifs at h
    cases h
    exact moves_local s.nextHops s.metrics hkeys hcalm rfl trivial (fun sh hsh => (by cases hsh)) hh
  · cases h

end

/-! ## The invariant -/

/-- The references that tasks hold. Source: internPeer, retainPeer. -/
def Manager.pins (s : Manager Peer Hop Route Key Shard) : List (Index × Peer) :=
  s.tasks.flatMap Task.pins

/-- The references of the records and of the tasks. Source: bestPrevInterner. -/
def Manager.refs (s : Manager Peer Hop Route Key Shard) : Multiset (Index × Peer) :=
  refsOf s.records + (s.pins : Multiset (Index × Peer))

/-- The peer table is right for the references that are held, a key has one record and a shard one
holder, who knows its record; nothing has panicked. Source: rib_bestchange.go. -/
structure Inv (shardOf : Key → Shard) (s : Manager Peer Hop Route Key Shard) : Prop where
  holds : s.interner.Holds s.refs
  keys : (s.records.map fst).Nodup
  shards : (s.tasks.filterMap (Task.shard shardOf)).Nodup
  agrees : ∀ t ∈ s.tasks, t.Agrees s.records
  calm : s.panicked = none

section

variable {shardOf : Key → Shard} {s s' : Manager Peer Hop Route Key Shard}
  {e : Event Peer Hop Route Key Shard}

lemma Manager.unlocked_iff {sh : Shard} :
    s.unlocked shardOf sh ↔ sh ∉ s.tasks.filterMap (Task.shard shardOf) := by
  rw [Manager.unlocked, all_eq_true]
  simp only [mem_filterMap, not_exists, not_and, decide_eq_true_eq, ne_eq]

lemma Task.Agrees.frame (shardOf : Key → Shard) {u : Task Peer Hop Route Key Shard}
    {records records' : List (Key × BestPrevRecord Peer Route)}
    (hframe : ∀ key, u.shard shardOf = some (shardOf key) →
      records'.lookup key = records.lookup key) (h : u.Agrees records) : u.Agrees records' := by
  rcases u with ⟨key, prev⟩ | ⟨key, prev⟩ | ⟨key, prev, w, idx⟩ | ⟨key, prev, w, idx, nextHopIdx⟩ |
    _ | _ | _ | _
  · exact (hframe key rfl).trans h
  · exact ⟨(hframe key rfl).trans h.1, h.2⟩
  · exact (hframe key rfl).trans h
  · exact (hframe key rfl).trans h
  all_goals trivial

lemma Inv.begin (h : Inv shardOf s) {b : PeerTable Peer} {t : Task Peer Hop Route Key Shard}
    (hb : b.Holds (t.pins + s.refs)) (hagrees : t.Agrees s.records)
    (hshard : ∀ sh, t.shard shardOf = some sh → s.unlocked shardOf sh) :
    Inv shardOf { s with interner := b, tasks := s.tasks ++ [t] } := by
  refine ⟨?_, h.keys, ?_, ?_, h.calm⟩
  · have hrefs : Manager.refs { s with interner := b, tasks := s.tasks ++ [t] } =
        t.pins + s.refs := by
      simp only [Manager.refs, Manager.pins, flatMap_append, flatMap_singleton, ← coe_add]
      abel
    rw [hrefs]
    exact hb
  · rw [filterMap_append, nodup_append]
    refine ⟨h.shards, ?_, ?_⟩
    · rw [filterMap_cons, filterMap_nil]
      rcases t.shard shardOf with _ | sh
      · exact nodup_nil
      · exact nodup_singleton sh
    · intro a ha c hc heq
      subst heq
      obtain ⟨u, hu, hsh⟩ := mem_filterMap.1 hc
      obtain rfl := mem_singleton.1 hu
      exact Manager.unlocked_iff.1 (hshard a hsh) ha
  · intro u hu
    rcases mem_append.1 hu with hu | hu
    · exact h.agrees u hu
    · obtain rfl := mem_singleton.1 hu
      exact hagrees

lemma Inv.act (h : Inv shardOf s) {i : ℕ} {t : Task Peer Hop Route Key Shard}
    {t' : Option (Task Peer Hop Route Key Shard)} {a : Action Peer Hop Route Key}
    (hi : s.tasks[i]? = some t) (hact : s.act shardOf t a = some (s', t')) :
    Inv shardOf { s' with tasks := stepped s'.tasks i t' } ∧
      (s.refs ≤ Manager.refs { s' with tasks := stepped s'.tasks i t' } ∨
        Manager.refs { s' with tasks := stepped s'.tasks i t' } ≤ s.refs) := by
  obtain ⟨before, behind, hsplit, hstepped⟩ := exists_split hi
  have hmem : t ∈ s.tasks := by
    rw [hsplit]
    exact mem_append_right _ mem_cons_self
  have hothers : ∀ u ∈ before ++ behind, u ∈ s.tasks := by
    intro u hu
    rw [hsplit]
    exact (mem_append.1 hu).elim (mem_append_left _)
      fun hu => mem_append_right _ (mem_cons_of_mem _ hu)
  have hrefs : s.refs = s.localRefs (some t) +
      ↑(before.flatMap Task.pins ++ behind.flatMap Task.pins) := by
    simp only [Manager.refs, Manager.localRefs, Manager.pins, hsplit, flatMap_append,
      flatMap_cons, elim_some, ← coe_add]
    abel
  have hmoves := act_moves h.keys h.calm (h.agrees t hmem) (hrefs ▸ h.holds) hact
  have hrefs' : Manager.refs { s' with tasks := stepped s'.tasks i t' } = s'.localRefs t' +
      ↑(before.flatMap Task.pins ++ behind.flatMap Task.pins) := by
    rcases t' with _ | u <;>
      simp only [Manager.refs, Manager.localRefs, Manager.pins, hmoves.tasks, hstepped,
        flatMap_append, flatMap_cons, flatMap_nil, elim_some,
        elim_none, Option.toList_some, Option.toList_none, ← coe_add,
        coe_nil]
    · abel
    · abel
  refine ⟨⟨?_, hmoves.keys, ?_, ?_, hmoves.calm⟩, ?_⟩
  · rw [hrefs']
    exact hmoves.holds
  · have hshards := h.shards
    rw [hsplit] at hshards
    simp only [hmoves.tasks, hstepped]
    refine nodup_locks_of_step hshards fun u hu sh hsh => ?_
    rw [← hsplit, ← Manager.unlocked_iff]
    exact hmoves.shard u hu sh hsh
  · have hshards := h.shards
    rw [hsplit] at hshards
    simp only [hmoves.tasks, hstepped]
    intro u hu
    have hcases : u ∈ before ++ behind ∨ u ∈ t' := by
      rw [mem_append, mem_append, Option.mem_toList] at hu
      rw [mem_append]
      tauto
    rcases hcases with hu | hu
    · -- another task holds another shard
      refine (h.agrees u (hothers u hu)).frame shardOf fun key hkey => hmoves.frame key ?_
      exact lock_ne_of_nodup hshards hu hkey
    · exact hmoves.agrees u hu
  · rw [hrefs, hrefs']
    exact hmoves.change.imp (fun hle => add_le_add_left hle _) fun hle => add_le_add_left hle _

lemma Inv.step (h : Inv shardOf s) (hstep : s.step shardOf e = some s') :
    Inv shardOf s' ∧ (s.refs ≤ s'.refs ∨ s'.refs ≤ s.refs) := by
  have hcalm : ¬ s.panicked.isSome := by
    rw [h.calm]
    simp
  rw [Manager.step.eq_def, if_neg hcalm] at hstep
  rcases e with key | ⟨peer, todo⟩ | ⟨i, a⟩
  · simp only at hstep
    split_ifs at hstep with hfree
    cases hstep
    refine ⟨?_, .inl ?_⟩
    · have hholds : s.interner.Holds ((Task.locked key (s.records.lookup key) :
          Task Peer Hop Route Key Shard).pins + s.refs) := by
        rw [Task.pins, coe_nil, zero_add]
        exact h.holds
      refine h.begin hholds rfl fun sh hsh => ?_
      cases hsh
      exact hfree
    · simp [Manager.refs, Manager.pins, Task.pins]
  · have hretain := PeerTable.holds_retainPeer h.holds peer
    simp only at hstep
    rcases hr : s.interner.retainPeer peer with ⟨_ | idx, b⟩ <;> rw [hr] at hstep hretain
    · cases hstep
      exact ⟨h, .inl (le_refl _)⟩
    · cases hstep
      refine ⟨?_, .inl ?_⟩
      · have hholds : b.Holds ((Task.scan peer idx todo :
            Task Peer Hop Route Key Shard).pins + s.refs) := by
          rw [Task.pins, coe_singleton, singleton_add]
          exact hretain
        exact h.begin hholds trivial fun sh hsh => (by cases hsh)
      · simp only [Manager.refs, Manager.pins, flatMap_append, ← coe_add, ← add_assoc]
        exact Multiset.le_add_right _ _
  · simp only [Option.bind_eq_some_iff, map_eq_some_iff] at hstep
    obtain ⟨t, ht, ⟨s₁, t'⟩, hact, rfl⟩ := hstep
    exact h.act ht hact

lemma inv_new (shardOf : Key → Shard) : Inv shardOf ({} : Manager Peer Hop Route Key Shard) :=
  ⟨PeerTable.holds_new, nodup_nil, nodup_nil, fun t ht => (by cases ht), rfl⟩

end

/-! ## References in every run -/

/-- The number of stored records that name an index. Source: bestPrevStore. -/
def Manager.recordsNaming (s : Manager Peer Hop Route Key Shard) (i : Index) : ℕ :=
  (s.records.filter fun e => e.2.peerIdx = i).length

/-- The number of pins that name an index. Source: internPeer, retainPeer. -/
def Manager.pinsNaming (s : Manager Peer Hop Route Key Shard) (i : Index) : ℕ :=
  (s.pins.filter fun r => r.1 = i).length

/-- The count of an index is the number of records and pins that name it; what is referenced before
and after a step names the same peer; a pin and a record resolve to the peer they were acquired for,
and a record to the peer whose route won; nothing has panicked, and no step panics.
Source: bestPrevInterner. -/
structure Balanced (shardOf : Key → Shard) (s : Manager Peer Hop Route Key Shard) : Prop where
  counts : ∀ i : Index, i.toNat < s.interner.peers.length →
    s.interner.peerRefs[i.toNat]? = some (s.recordsNaming i + s.pinsNaming i)
  steady : ∀ e s', s.step shardOf e = some s' → ∀ i,
    0 < s.recordsNaming i + s.pinsNaming i → 0 < s'.recordsNaming i + s'.pinsNaming i →
      s'.interner.peers[i.toNat]? = s.interner.peers[i.toNat]?
  calm : s.panicked = none ∧ ∀ e s', s.step shardOf e = some s' → s'.panicked = none
  pinned : ∀ r ∈ s.pins, s.interner.peers[r.1.toNat]? = some r.2
  resolves : ∀ key p, s.records.lookup key = some p →
    s.interner.peers[p.peerIdx.toNat]? = some p.won

section

variable {shardOf : Key → Shard} {s : Manager Peer Hop Route Key Shard}

lemma count_refs (s : Manager Peer Hop Route Key Shard) (i : Index) :
    (s.refs.map fst).count i = s.recordsNaming i + s.pinsNaming i := by
  rw [Manager.refs, refsOf, map_add, Multiset.count_add, map_coe,
    map_coe, coe_count, coe_count, map_map, count_eq_countP,
    count_eq_countP, countP_map, countP_map, countP_eq_length_filter, countP_eq_length_filter]
  rfl

lemma exists_ref {i : Index} (h : 0 < s.recordsNaming i + s.pinsNaming i) :
    ∃ v, (i, v) ∈ s.refs := by
  rw [← count_refs, Multiset.count_pos] at h
  obtain ⟨⟨j, v⟩, hr, rfl⟩ := Multiset.mem_map.mp h
  exact ⟨v, hr⟩

lemma Inv.balanced (h : Inv shardOf s) : Balanced shardOf s := by
  refine ⟨fun i hi => ?_, fun e s' hstep i hi hi' => ?_,
    ⟨h.calm, fun e s' hstep => (h.step hstep).1.calm⟩, fun r hr => ?_, fun key p hp => ?_⟩
  · rw [h.holds.counts i hi, count_refs]
  · obtain ⟨hinv', hchange⟩ := h.step hstep
    obtain ⟨v, hv⟩ := exists_ref hi
    obtain ⟨w, hw⟩ := exists_ref hi'
    -- one of the two references is there before and after the step
    rcases hchange with hle | hle
    · rw [h.holds.resolves _ hv, hinv'.holds.resolves _ (mem_of_le hle hv)]
    · rw [hinv'.holds.resolves _ hw, h.holds.resolves _ (mem_of_le hle hw)]
  · exact h.holds.resolves r (mem_add.2 (.inr (mem_coe.2 hr)))
  · refine h.holds.resolves p.ref (mem_add.2 (.inl (mem_coe.2 ?_)))
    exact mem_map.2 ⟨_, Table.mem_of_lookup hp, rfl⟩

end

/-- In every run of elections and purges, in any order of their steps, the counts of the peer table
are balanced. -/
theorem balanced_of_run (shardOf : Key → Shard) (events : List (Event Peer Hop Route Key Shard))
    (s : Manager Peer Hop Route Key Shard) (h : run (Manager.step shardOf) {} events = some s) :
    Balanced shardOf s := by
  refine Inv.balanced (run_inv (I := Inv shardOf) ?_ events {} s (inv_new shardOf) h)
  intro s e s' hinv hstep
  exact (hinv.step hstep).1

/-- A route of peer 7 wins under key 0; while a purge takes it away, a route of peer 8 wins under
key 1. Source: rib_bestchange.go. -/
def purgeInFlight : List (Event ℕ ℕ Unit ℕ ℕ) :=
  [.check 0, .act 0 .resolve, .act 0 (.elect (some { peerAddr := 7, route := (), nextHop := 1 })),
    .act 0 .internNextHop, .act 0 .internMetric,
    .check 1, .act 0 .resolve, .purge 7 [0, 1], .act 1 .lockShard, .act 1 (.drop 0),
    .act 0 (.elect (some { peerAddr := 8, route := (), nextHop := 1 })),
    .act 1 .release, .act 1 .unlockShard, .act 0 .internNextHop, .act 0 .internMetric,
    .act 0 .lockShard, .act 0 .unlockShard, .act 0 .release]

end

/-- The slot of peer 7 is free behind that run, and that of peer 8 has one reference. -/
theorem balanced_of_purgeInFlight : ∃ s, run (Manager.step (· % 2)) {} purgeInFlight = some s ∧
    s.interner.peerRefs = [0, 1] ∧ Balanced (· % 2) s := by
  have hrun : (run (Manager.step (· % 2)) {} purgeInFlight).any
      (fun s => s.interner.peerRefs == [0, 1]) := by
    decide +kernel
  obtain ⟨s, hs, hrefs⟩ := (Option.any_eq_true _ _).1 hrun
  exact ⟨s, hs, beq_iff_eq.1 hrefs, balanced_of_run (· % 2) purgeInFlight s hs⟩

end Ze.Rib
