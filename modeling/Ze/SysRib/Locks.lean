import Ze.Lib.LockTrace
import Ze.SysRib.Cascade

/-!
# The locks of the Loc-RIB's shards

Every lookup of the resolver takes the read locks of all shards of a family, one after the other.
The worker makes its lookups with no such lock in hand. The walk at start-up processes each prefix
inside `Iterate`, with the lock of its shard held.
-/

namespace Ze.SysRib

open Ze.Lib (RangeOrder LockOp)
open Ze.Lib.LockOp List
open Ze.LocRib (Family View Change)
open Ze.Net (Addr Prefix)

/-! ## Shards -/

/-- The shards of a family: their number, and the one that a prefix is hashed to.
Source: locrib/shard.go shardCount, shardIndex -/
structure Sharding where
  count : ℕ
  index : Prefix → ℕ
  index_lt : ∀ p, index p < count

/-- A shard of a family, by its lock. Source: shard.go shard.mu. -/
abbrev Shard := Family × ℕ

/-- Source: shard.go. -/
def Sharding.shardFor (sh : Sharding) (key : PrefixKey) : Shard := (key.1, sh.index key.2)

/-- The locks that a lookup takes; a family that the Loc-RIB does not hold yet has no shards.
Source: locrib/manager.go LPM -/
def lpmLocks (sh : Sharding) (families : Finset Family) (addr : Addr) : List Shard :=
  if !addr.isValid then []
  else if familyForAddr addr ∈ families then
    (range sh.count).map fun i => (familyForAddr addr, i)
  else []

/-! ## What is looked up -/

/-- The addresses that `Resolve` looks up. Source: nhresolver.go Resolve. -/
def resolveLookups (lpm : Lpm) (addr : Addr) : List Addr :=
  if !addr.isValid then [] else chain lpm addr

/-- Source: sysrib.go resolveMember. -/
def memberLookups (lpm : Lpm) (path : ForwardingPath) : List Addr :=
  if !path.nextHop.isValid then []
  else if path.onLink then []
  else resolveLookups lpm path.nextHop

/-- The loop of `chainCovered`. Source: nhresolver.go chainCovered. -/
def chainLookups (lpm : Lpm) (pfx : Prefix) : ℕ → Addr → List Addr
  | 0, _ => []
  | n + 1, current =>
    if contains pfx current then []
    else
      current :: match lpm (familyForAddr current) current with
        | none => []
        | some path =>
          if discards path.routeType || path.onLink || !path.nextHop.isValid ||
              path.nextHop == current then []
          else chainLookups lpm pfx n path.nextHop

/-- Source: nhresolver.go CoveredNHs. -/
def coveredLookups (lpm : Lpm) (order : RangeOrder Addr) (t : Tracking) (pfx : Prefix) :
    List Addr :=
  (order.keys t.keys).flatMap (chainLookups lpm pfx maxRecursionDepth)

namespace SysRIB

/-- Source: sysrib.go fibEntry. -/
def fibEntryLookups (s : SysRIB) (env : Env) (key : PrefixKey) (best : ProtocolRoute) : List Addr :=
  match env.lpm with
  | none => []
  | some lpm =>
    let sid := if best.srv6SID.isValid then resolveLookups lpm best.srv6SID else []
    if best.srv6SID.isValid && !(resolve lpm best.srv6SID).resolved then sid
    else
      let group := (groupMembers env.range s.fibPermitted (s.protocols key) best).flatMap
        (memberLookups lpm)
      if !best.nextHop.isValid then sid ++ group
      else sid ++ memberLookups lpm (routePath best best.nextHop) ++ group

/-- Source: sysrib.go recomputeBest. -/
def recomputeLookups (s : SysRIB) (env : Env) (key : PrefixKey) : List Addr :=
  match selectWinner env (s.protocols key) with
  | none => []
  | some winner =>
    if winner.osInstalled then []
    else if !s.fibPermitted winner.protocol then []
    else s.fibEntryLookups env key winner

/-- Source: sysrib.go processEvent, the loop body. -/
def changeLookups (s : SysRIB) (os : String → Bool) (env : Env) (batch : IncomingBatch)
    (c : IncomingChange) : List Addr :=
  let key : PrefixKey := (batch.family, c.pfx)
  if !c.pfx.isValid then []
  else
    match c.action with
    | .add | .update =>
      if batch.protocol = "" then []
      else
        let s := s.untrackNextHopGroup env key
        (s.storeRoute batch key (s.routeOf os batch c)).recomputeLookups env key
    | .withdraw => ((s.untrackNextHopGroup env key).deleteRoute batch key).recomputeLookups env key
    | .unspecified | .del => []

/-- Source: sysrib.go processEvent. -/
def changesLookups (os : String → Bool) (env : Env) (batch : IncomingBatch) :
    SysRIB → List IncomingChange → List Addr
  | _, [] => []
  | s, c :: cs =>
    s.changeLookups os env batch c ++
      changesLookups os env batch (s.processChange os env batch c).1 cs

/-- Source: sysrib.go processEvent. -/
def eventLookups (s : SysRIB) (os : String → Bool) (env : Env) (batch : IncomingBatch) :
    List Addr :=
  if batch.family = ⟨0, 0⟩ then [] else changesLookups os env batch s batch.changes

/-- Source: sysrib.go cascadeRecompute. -/
def cascadeLookups (s : SysRIB) (env : Env) (key : PrefixKey) : List Addr :=
  match s.best.lookup key with
  | none => []
  | some best =>
    if best.osInstalled || !s.fibPermitted best.protocol || env.lpm.isNone then []
    else s.fibEntryLookups env key best

end SysRIB

/-- What `fibEntry` looks up for the one route of a prefix: its SID, and unless that is unreachable
its gateway and its siblings'. -/
def routeLookups (lpm : Lpm) (route : ProtocolRoute) : List Addr :=
  (if route.srv6SID.isValid then resolveLookups lpm route.srv6SID else []) ++
    if route.srv6SID.isValid && !(resolve lpm route.srv6SID).resolved then []
    else memberLookups lpm (routePath route route.nextHop) ++
      (siblingPaths route).flatMap (memberLookups lpm)

namespace SysRIB

variable {st : Setup} {s : SysRIB} {env : Env} {lpm : Lpm} {key : PrefixKey} {v : View}

instance (s : SysRIB) (route : ProtocolRoute) : Decidable (s.Programs route) :=
  inferInstanceAs (Decidable (_ ∧ _))

lemma fibEntryLookups_stored (hs : s.protocols key = stored st v) (henv : env.lpm = some lpm) :
    s.fibEntryLookups env key (locRoute st v) = routeLookups lpm (locRoute st v) := by
  unfold fibEntryLookups routeLookups
  rw [henv, hs]
  dsimp only
  rw [groupMembers_stored]
  by_cases hsid : ((locRoute st v).srv6SID.isValid &&
      !(resolve lpm (locRoute st v).srv6SID).resolved)
  · rw [if_pos hsid, if_pos hsid, append_nil]
  · rw [if_neg hsid, if_neg hsid]
    by_cases hnh : (!(locRoute st v).nextHop.isValid)
    · have hown : memberLookups lpm (routePath (locRoute st v) (locRoute st v).nextHop) = [] :=
        if_pos hnh
      rw [if_pos hnh, hown, nil_append]
    · rw [if_neg hnh, append_assoc]

lemma recomputeLookups_stored (hroutes : s.routes.lookup key = some (stored st v))
    (henv : env.lpm = some lpm) : s.recomputeLookups env key =
      if s.Programs (locRoute st v) then routeLookups lpm (locRoute st v) else [] := by
  have hwinner : selectWinner env (s.protocols key) = some (locRoute st v) :=
    selectWinner_protocols (u := some v) hroutes
  have hprotocols : s.protocols key = stored st v := by
    unfold protocols
    rw [hroutes, Option.getD_some]
  unfold recomputeLookups
  rw [hwinner]
  dsimp only
  rw [fibEntryLookups_stored hprotocols henv]
  by_cases hos : (locRoute st v).osInstalled
  · rw [if_pos hos, if_neg]
    rintro ⟨hnot, -⟩
    rw [hos] at hnot
    cases hnot
  · rw [if_neg hos]
    by_cases hpermit : s.fibPermitted (locRoute st v).protocol
    · have hprograms : s.Programs (locRoute st v) := ⟨by simpa using hos, hpermit⟩
      rw [if_pos hprograms, hpermit]
      rfl
    · rw [if_pos (by simpa using hpermit), if_neg fun hprograms => hpermit hprograms.2]

lemma eventLookups_announce (hv : World.WellFormed st key (some v)) (henv : env.lpm = some lpm) :
    s.eventLookups st.os env (changeToBatch st.reg (.add key v)) =
      if s.Programs (locRoute st v) then routeLookups lpm (locRoute st v) else [] := by
  obtain ⟨hfam, hvalid, hname⟩ := hv
  have hload : (s.untrackNextHopGroup env key).storeRoute (announceBatch st.reg .add key v) key
      (locRoute st v) = (s.untrackNextHopGroup env key).load st key (some v) := rfl
  have hevent : s.eventLookups st.os env (changeToBatch st.reg (.add key v)) =
      ((s.untrackNextHopGroup env key).load st key (some v)).recomputeLookups env key := by
    rw [← hload]
    simp [eventLookups, changesLookups, changeLookups, changeToBatch, announceBatch, hfam, hvalid,
      hname v rfl, routeOf, locRoute, protoType]
  have hroutes : ((s.untrackNextHopGroup env key).load st key (some v)).routes.lookup key =
      some (stored st v) := by
    rw [lookup_load, if_pos rfl, Option.map_some]
  rw [hevent, recomputeLookups_stored hroutes henv]
  obtain ⟨t, ht⟩ := s.untrackNextHopGroup_eq env key
  rw [ht]
  rfl

end SysRIB

/-! ## What is locked -/

/-- The families that a step of the Loc-RIB makes shards for. Source: manager.go insert.
-/
def Act.creates : Act → Finset Family
  | .report key (some _) _ => {key.1}
  | .handoff key (some _) _ => {key.1}
  | _ => ∅

/-- The system, and the families that the Loc-RIB has shards for.
Source: manager.go RIB.families -/
structure Located where
  world : World
  families : Finset Family

namespace Located

variable (st : Setup) (sh : Sharding)

/-- A step, with the order in which it ranges over the tracked next-hops. -/
abbrev Move := Act × RangeOrder Addr

def step (same : View → View → Prop) [DecidableRel same] (l : Located) (move : Move) :
    Option Located :=
  (l.world.step st same move.1).map fun w => ⟨w, l.families ∪ move.1.creates⟩

def looked (l : Located) (addrs : List Addr) : List Shard :=
  addrs.flatMap (lpmLocks sh l.families)

/-- What the event of a change looks up. Source: sysrib.go processLocRIBChange, replayPath. -/
def eventLookups (l : Located) (choice : Choice) (c : Change) : List Addr :=
  l.world.rib.eventLookups st.os (l.world.env choice) (changeToBatch st.reg c)

/-- What a step of the walk or of the worker takes and lets go. The walk holds the lock of the shard
it is in while it replays a prefix; `Inspect` lets go of it before the change is processed.
Source: sysrib.go run, replayPath, processLocRIBChange, processCascade, locrib_feed.go
resyncOverflow, manager.go Iterate, Inspect -/
def workOps (l : Located) (choice : Choice) (order : RangeOrder Addr) : List (LockOp Shard) :=
  match l.world.worker with
  | .seed (k :: _) =>
    if l.world.offering.lookup k ≠ none then []
    else
      during (sh.shardFor k) <| brief <| l.looked sh <|
        (l.world.loc.current k).elim [] fun v => l.eventLookups st choice (.add k v)
  | .event c _ => brief (l.looked sh (l.eventLookups st choice c))
  | .cover pfx _ =>
    brief (l.looked sh (coveredLookups l.world.loc.lpm order l.world.rib.tracking pfx))
  | .cascade (key :: _) _ _ =>
    let (rib, change) := l.world.rib.cascadeRecompute (l.world.env choice) key
    brief <| l.looked sh <| l.world.rib.cascadeLookups (l.world.env choice) key ++
      if change = none then [] else coveredLookups l.world.loc.lpm order rib.tracking key.2
  | .resume (.keys (k :: _)) => brief (if k.1 ∈ l.families then [sh.shardFor k] else [])
  | _ => []

def lockOps (l : Located) : Move → List (LockOp Shard)
  | (.work choice, order) => l.workOps st sh choice order
  | _ => []

/-- What the walk and the worker do with the locks of the shards along a run. -/
def trace (same : View → View → Prop) [DecidableRel same] (l : Located) (moves : List Move) :
    List (LockOp Shard) :=
  (Ze.Lib.observed (step st same) (fun l move => some (l.lockOps st sh move)) l moves).flatten

/-- The walk replays a prefix with a route that Ze programs, and the resolution of the route's SID,
gateway and siblings looks up an address in the prefix's own family. -/
def Relocks (l : Located) : Move → Prop
  | (.work _, _) =>
    match l.world.worker with
    | .seed (k :: _) =>
      l.world.offering.lookup k = none ∧
        ∃ v ∈ l.world.loc.current k, l.world.rib.Programs (locRoute st v) ∧
          ∃ a ∈ routeLookups l.world.loc.lpm (locRoute st v), familyForAddr a = k.1
    | _ => False
  | _ => False

end Located

/-! ## A lookup in the family of the held shard -/

section

variable {lpm : Lpm} {a x : Addr} {sh : Sharding} {families : Finset Family}

lemma isValid_of_mem_resolveLookups (hx : x ∈ resolveLookups lpm a) : x.isValid := by
  unfold resolveLookups at hx
  split_ifs at hx with ha
  · cases hx
  · refine Ze.Lib.walk_forall (P := fun y => y.isValid = true) ?_ maxRecursionDepth a ?_ x hx
    · intro y z _ hz
      unfold hop at hz
      split at hz
      · cases hz
      · split_ifs at hz with hend
        cases hz
        simp only [Bool.or_eq_true, Bool.not_eq_true', not_or, Bool.not_eq_false] at hend
        exact hend.1.2
    · simpa using ha

lemma isValid_of_mem_memberLookups {path : ForwardingPath} (hx : x ∈ memberLookups lpm path) :
    x.isValid := by
  unfold memberLookups at hx
  split_ifs at hx
  · cases hx
  · cases hx
  · exact isValid_of_mem_resolveLookups hx

lemma isValid_of_mem_routeLookups {route : ProtocolRoute} (hx : x ∈ routeLookups lpm route) :
    x.isValid := by
  unfold routeLookups at hx
  rcases mem_append.1 hx with hx | hx
  · split_ifs at hx
    · exact isValid_of_mem_resolveLookups hx
    · cases hx
  · split_ifs at hx
    · cases hx
    · rcases mem_append.1 hx with hx | hx
      · exact isValid_of_mem_memberLookups hx
      · obtain ⟨path, -, hx⟩ := mem_flatMap.1 hx
        exact isValid_of_mem_memberLookups hx

lemma mem_lpmLocks {shard : Shard} (hfam : shard.1 ∈ families) (hindex : shard.2 < sh.count)
    (ha : a.isValid) : shard ∈ lpmLocks sh families a ↔ familyForAddr a = shard.1 := by
  unfold lpmLocks
  rw [if_neg (by simp [ha])]
  constructor
  · intro hmem
    split_ifs at hmem
    · obtain ⟨i, -, rfl⟩ := mem_map.1 hmem
      rfl
    · cases hmem
  · intro heq
    rw [heq, if_pos hfam]
    exact mem_map.2 ⟨shard.2, mem_range.2 hindex, rfl⟩

end

namespace Located

variable {st : Setup} {sh : Sharding} {same : View → View → Prop} {l l' : Located} {move : Move}

/-- Every view of the Loc-RIB is well formed, in a family that has shards. -/
def Placed (st : Setup) (l : Located) : Prop :=
  ∀ k v, l.world.loc.current k = some v → World.WellFormed st k (some v) ∧ k.1 ∈ l.families

/-- The prefix that the walk replays is looked up with the lock of its shard held. -/
lemma shardFor_mem_looked (sh : Sharding) (choice : Choice) {k : PrefixKey} (h : l.Placed st) :
    sh.shardFor k ∈ l.looked sh
        ((l.world.loc.current k).elim [] fun v => l.eventLookups st choice (.add k v)) ↔
      ∃ v ∈ l.world.loc.current k, l.world.rib.Programs (locRoute st v) ∧
        ∃ a ∈ routeLookups l.world.loc.lpm (locRoute st v), familyForAddr a = k.1 := by
  cases hcurrent : l.world.loc.current k with
  | none => simp [looked]
  | some v =>
    obtain ⟨hwf, hfam⟩ := h k v hcurrent
    have hlooks : l.eventLookups st choice (.add k v) = _ :=
      @SysRIB.eventLookups_announce st l.world.rib (l.world.env choice) _ k v hwf rfl
    simp only [Option.elim_some, Option.mem_some_iff, exists_eq_left', hlooks]
    unfold looked
    rw [mem_flatMap]
    by_cases hprograms : l.world.rib.Programs (locRoute st v)
    · rw [if_pos hprograms]
      simp only [hprograms, true_and]
      refine exists_congr fun a => and_congr_right fun ha => ?_
      exact mem_lpmLocks hfam (sh.index_lt k.2) (isValid_of_mem_routeLookups ha)
    · rw [if_neg hprograms]
      simp [hprograms]

lemma exists_brief (st : Setup) (sh : Sharding) (choice : Choice) (order : RangeOrder Addr)
    (hseed : ∀ k ks, l.world.worker ≠ .seed (k :: ks)) :
    ∃ ls, l.workOps st sh choice order = brief ls := by
  unfold workOps
  split
  · next k ks hworker => exact absurd hworker (hseed k ks)
  · exact ⟨_, rfl⟩
  · exact ⟨_, rfl⟩
  · exact ⟨_, rfl⟩
  · exact ⟨_, rfl⟩
  · exact ⟨[], rfl⟩

lemma after_lockOps (l : Located) (move : Move) : after [] (l.lockOps st sh move) = [] := by
  unfold lockOps
  split
  · next choice order =>
    by_cases hseed : ∃ k ks, l.world.worker = .seed (k :: ks)
    · obtain ⟨k, ks, hworker⟩ := hseed
      unfold workOps
      rw [hworker]
      dsimp only
      split_ifs
      · rfl
      · exact after_during_brief [] _ _
    · obtain ⟨ls, hls⟩ := exists_brief st sh choice order fun k ks hworker =>
        hseed ⟨k, ks, hworker⟩
      rw [hls]
      exact after_brief [] ls
  · rfl

/-- Only the walk holds a lock when it looks something up. -/
lemma obeys_lockOps (h : l.Placed st) : Obeys [] (l.lockOps st sh move) ↔ ¬l.Relocks st move := by
  unfold lockOps Relocks
  split
  · next choice order =>
    by_cases hseed : ∃ k ks, l.world.worker = .seed (k :: ks)
    · obtain ⟨k, ks, hworker⟩ := hseed
      unfold workOps
      rw [hworker]
      dsimp only
      by_cases hoffer : l.world.offering.lookup k = none
      · rw [if_neg (not_not_intro hoffer), obeys_during_brief, ← shardFor_mem_looked sh choice h]
        constructor
        · rintro ⟨-, hobeys⟩ ⟨-, hmem⟩
          exact hobeys _ hmem mem_cons_self
        · intro hnot
          refine ⟨not_mem_nil, fun shard hmem hheld => hnot ⟨hoffer, ?_⟩⟩
          rw [mem_singleton] at hheld
          exact hheld ▸ hmem
      · rw [if_pos hoffer]
        exact iff_of_true trivial fun hrelocks => hoffer hrelocks.1
    · have hworker : ∀ k ks, l.world.worker ≠ .seed (k :: ks) := fun k ks hworker =>
        hseed ⟨k, ks, hworker⟩
      obtain ⟨ls, hls⟩ := exists_brief st sh choice order hworker
      rw [hls, obeys_brief]
      refine iff_of_true (by simp) ?_
      split
      · next k ks hwalk => exact absurd hwalk (hworker k ks)
      · exact id
  · exact iff_of_true trivial id

lemma loc_of_steps {act : Act} {w w' : World} (hsteps : World.Steps st same w act w') :
    w'.loc = w.loc ∨ ∃ key new lpm, w'.loc = ⟨Function.update w.loc.current key new, lpm⟩ ∧
      World.WellFormed st key new ∧
        ∀ v ∈ new, key.1 ∈ act.creates ∨ ∃ u, w.loc.current key = some u := by
  have hbrings := World.brings_base hsteps
  cases hsteps with
  | @queue key new lpm | @crowd key new lpm | @handoff key new lpm =>
    refine .inr ⟨key, new, lpm, rfl, hbrings, ?_⟩
    rintro v ⟨⟩
    exact .inl (Finset.mem_singleton_self _)
  | @silent key u v lpm hu => exact .inr ⟨key, some v, lpm, rfl, hbrings, fun _ _ => .inr ⟨u, hu⟩⟩
  | work hworks => exact .inl (World.loc_works hworks)
  | _ => exact .inl rfl

lemma Placed.step [DecidableRel same] (h : l.Placed st) (hstep : l.step st same move = some l') :
    l'.Placed st := by
  obtain ⟨w, hw, rfl⟩ := Option.map_eq_some_iff.1 hstep
  intro k v hk
  rcases loc_of_steps (World.steps_of_step hw) with hloc | ⟨key, new, lpm, hloc, hnew, hfam⟩
  · dsimp only at hk ⊢
    rw [hloc] at hk
    exact ⟨(h k v hk).1, Finset.mem_union_left _ (h k v hk).2⟩
  · dsimp only at hk ⊢
    rw [hloc] at hk
    dsimp only at hk
    by_cases hkey : k = key
    · subst hkey
      rw [Function.update_self] at hk
      subst hk
      refine ⟨hnew, ?_⟩
      rcases hfam v rfl with hfam | ⟨u, hu⟩
      · exact Finset.mem_union_right _ hfam
      · exact Finset.mem_union_left _ (h k u hu).2
    · rw [Function.update_of_ne hkey] at hk
      exact ⟨(h k v hk).1, Finset.mem_union_left _ (h k v hk).2⟩

end Located

/-! ## The theorem -/

namespace World

/-- In a run of the walk and of the worker, whatever the Loc-RIB holds and however it changes, a
shard's lock that is held is never asked for again, iff the walk replays no prefix with a
route that Ze programs and that is looked up in the prefix's own family. -/
theorem locks_obeyed_iff (st : Setup) (sh : Sharding) (same : View → View → Prop)
    [DecidableRel same] (loc : Loc) (families : Finset Family) (rib : SysRIB) (ks : List PrefixKey)
    (hloc : ∀ k v, loc.current k = some v →
      World.WellFormed st k (some v) ∧ k.1 ∈ families) (moves : List Located.Move) :
    Obeys [] (Located.trace st sh same ⟨World.start loc rib ks, families⟩ moves) ↔
      Ze.Lib.Meets (Located.step st same) (fun l move => ¬l.Relocks st move)
        ⟨World.start loc rib ks, families⟩ moves :=
  obeys_observed (fun _ _ _ => Located.Placed.step) Located.after_lockOps
    (fun _ _ => Located.obeys_lockOps) moves _ hloc

def oneShard : Sharding := ⟨1, fun _ => 0, fun _ => Nat.one_pos⟩

/-- Ranges that meet the gateway of the one tracked route. -/
noncomputable def gatewayOrder : RangeOrder Addr :=
  RangeOrder.listing [.v4 0xc0000201#32] (nodup_singleton _)

def deviceOnly : PrefixKey → Option View :=
  fun k => if k = deviceKey then some deviceView else none

/-- The walk replays the connected route, then the worker takes the route over the gateway that it
covers, and looks for prefixes that depend on it. -/
noncomputable def connectedFirst : List Located.Move :=
  [(.work coverChoice, gatewayOrder), (.work coverChoice, gatewayOrder),
    (.report (gatewayKey ⟨1, 1⟩) (some gatewayView)
      (Loc.of (Function.update deviceOnly (gatewayKey ⟨1, 1⟩) (some gatewayView))).lpm,
        gatewayOrder),
    (.receive, gatewayOrder), (.work coverChoice, gatewayOrder), (.work coverChoice, gatewayOrder),
    (.work coverChoice, gatewayOrder), (.work coverChoice, gatewayOrder)]

def connectedStart : Located :=
  ⟨World.start (Loc.of deviceOnly) (emptyRIB (fun _ => none) fun _ => none) [deviceKey], {⟨1, 1⟩}⟩

/-- A connected route before the walk, and a route over it after: no lock is asked for twice. -/
theorem locks_obeyed_connectedFirst :
    (∃ l, Ze.Lib.run (Located.step (staticSetup 1) (· = ·)) connectedStart connectedFirst =
      some l) ∧
      Ze.Lib.Meets (Located.step (staticSetup 1) (· = ·))
        (fun l move => ¬l.Relocks (staticSetup 1) move) connectedStart connectedFirst := by
  have hcurrent : ∀ k v, (Loc.of deviceOnly).current k = some v →
      WellFormed (staticSetup 1) k (some v) ∧ k.1 ∈ ({⟨1, 1⟩} : Finset Family) := by
    intro k v hv
    have hv : deviceOnly k = some v := hv
    unfold deviceOnly at hv
    split_ifs at hv with hk
    subst hk
    cases hv
    exact ⟨by decide +kernel, by decide +kernel⟩
  refine ⟨Option.isSome_iff_exists.1 (by decide +kernel), ?_⟩
  refine (locks_obeyed_iff (staticSetup 1) oneShard (· = ·) (Loc.of deviceOnly) {⟨1, 1⟩}
    (emptyRIB (fun _ => none) fun _ => none) [deviceKey] hcurrent connectedFirst).1 ?_
  decide +kernel

/-- 10.0.0.0/8 over the gateway 192.0.2.1, in the Loc-RIB before the walk: its replay looks the
gateway up in the shard that the walk holds. -/
theorem walk_relocks :
    (∃ l, Ze.Lib.run (Located.step (staticSetup 1) (· = ·)) ⟨coverStart ⟨1, 1⟩, {⟨1, 1⟩}⟩
        [(.work coverChoice, gatewayOrder)] = some l) ∧
      ¬Obeys [] (Located.trace (staticSetup 1) oneShard (· = ·) ⟨coverStart ⟨1, 1⟩, {⟨1, 1⟩}⟩
        [(.work coverChoice, gatewayOrder)]) := by
  refine ⟨Option.isSome_iff_exists.1 ?_, ?_⟩
  · decide +kernel
  · decide +kernel

end World

end Ze.SysRib
