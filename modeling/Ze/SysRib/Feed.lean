import Ze.SysRib.State

/-!
# The worker and the feed of Loc-RIB changes

`locrib_feed.go` and the worker of `run` in `sysrib.go`. A change of the Loc-RIB is offered to a
bounded channel while the lock of its shard is held. When the channel is full, the prefix is
recorded in an overflow set, which the worker takes once it has drained the channel.

`World.step` is one step of any party. Unreported moves of the Loc-RIB within a relation `same` are
allowed: its own comparison of two views ignores the order of the next-hops.
-/

namespace Ze.SysRib

open Ze.Lib (RangeOrder SetIndex Delta lookup_insert_eq lookup_erase_eq)
open Ze.LocRib (Path ProtocolID View Change)
open Ze.Net (Addr Prefix)

/-! ## From a Loc-RIB change to a batch -/

/-- The names of the registered protocols; the unspecified one has none.
Source: redistevents/registry.go ProtocolName -/
structure Registry where
  name : ProtocolID → String
  unspecified : name 0 = ""

/-- Source: sysrib.go. -/
def bgpProtocolTypeFromPath (reg : Registry) (p : Path) : ProtocolType :=
  if reg.name p.source ≠ "bgp" then .unspecified else if p.isEBGP then .ebgp else .ibgp

/-- The batch of a change that carries a best path. Source: sysrib.go changeToBatch. -/
def announceBatch (reg : Registry) (action : RouteAction) (key : PrefixKey) (v : View) :
    IncomingBatch where
  protocol := reg.name v.1.source
  family := key.1
  fromLocRIB := true
  changes := [{
    action := action
    pfx := key.2
    nextHop := v.1.nextHop
    interface := v.1.interface
    weight := v.1.weight
    onLink := v.1.onLink
    priority := v.1.adminDistance.toNat
    metric := v.1.metric
    labels := v.1.labels
    srv6SID := v.1.srv6SID
    routeType := v.1.routeType
    protocolType := bgpProtocolTypeFromPath reg v.1
    ecmpNextHops := v.2
    backupNextHop := v.1.backupNextHop
    backupRepairLabels := v.1.backupRepairLabels
    backupInterface := v.1.backupInterface
    backupOnLink := v.1.backupOnLink }]

/-- A removal carries the zero path, whose protocol has no name. Source: sysrib.go. -/
def changeToBatch (reg : Registry) : Change → IncomingBatch
  | .add key v => announceBatch reg .add key v
  | .update key v => announceBatch reg .update key v
  | .remove key =>
    { protocol := reg.name 0, family := key.1, fromLocRIB := true,
      changes := [{ action := .withdraw, pfx := key.2 }] }

def value : Change → Option View
  | .add _ v => some v
  | .update _ v => some v
  | .remove _ => none

/-! ## The parties -/

/-- What the worker reads of the Loc-RIB: the view of a prefix, and the longest match.
Source: locrib.RIB -/
structure Loc where
  current : PrefixKey → Option View
  lpm : Lpm

inductive Offer where
  | full
  | recorded
  deriving DecidableEq, Repr

/-- What the worker does after the change in hand: ask for the overflow, or read the next of the
prefixes it took.
Source: locrib_feed.go resyncOverflow -/
inductive Rest where
  | take
  | keys (ks : List PrefixKey)

def Rest.toRead : Rest → List PrefixKey
  | .take => []
  | .keys ks => ks

/-- Where the worker stands. `seed` is the walk over the Loc-RIB before the worker starts.
Source: sysrib.go run, processLocRIBChange, processCascade -/
inductive Phase where
  | seed (ks : List PrefixKey)
  | idle
  | event (c : Change) (rest : Rest)
  | cover (pfx : Prefix) (rest : Rest)
  | cascade (work : List PrefixKey) (seen : Finset PrefixKey) (rest : Rest)
  | resume (rest : Rest)

def Phase.isIdle : Phase → Bool
  | .idle => true
  | _ => false

lemma Phase.eq_idle {p : Phase} (h : p.isIdle) : p = .idle := by
  cases p with
  | idle => rfl
  | _ => cases h

/-- The Loc-RIB, the feed, the offers under way, the worker and the system RIB.
Source: locrib_feed.go locRIBFeed -/
structure World where
  loc : Loc
  ch : List Change
  overflow : Finset PrefixKey
  wake : Bool
  offering : Finmap fun _ : PrefixKey => Offer
  worker : Phase
  rib : SysRIB

def locRIBFeedSize : ℕ := 4096

/-- What stays the same in a run: the size of the channel, the declaration of the protocols the
operating system installs, and the registry. -/
structure Setup where
  cap : ℕ
  os : String → Bool
  reg : Registry

/-- The choices the language leaves open in one step of the worker. -/
structure Choice where
  range : RangeOrder String
  sort : PathSort
  ord : RangeOrder PrefixKey

/-- One step of any party. A change of the Loc-RIB names the new view of the prefix and the new
longest matches.
Source: locrib_feed.go, sysrib.go run -/
inductive Act where
  | report (key : PrefixKey) (new : Option View) (lpm : Lpm)
  | handoff (key : PrefixKey) (new : Option View) (lpm : Lpm)
  | silent (key : PrefixKey) (v : View) (lpm : Lpm)
  | record (key : PrefixKey)
  | wake (key : PrefixKey)
  | receive
  | woken
  | work (choice : Choice)

/-- The change a prefix is reported with. Source: locrib/manager.go insert, the switch. -/
def changeFor (key : PrefixKey) (prev new : Option View) : Change :=
  match new with
  | none => .remove key
  | some v => if prev.isNone then .add key v else .update key v

def coveredNHs (lpm : Lpm) (t : Tracking) (pfx : Prefix) : Finset Addr :=
  t.keys.filter fun nh => chainCovered lpm nh pfx = true

/-- The prefixes that depend on next-hops, in the family of their address.
Source: sysrib.go processCascade, nhresolver.go Dependents -/
def dependentKeys (t : Tracking) (nhs : Finset Addr) : Finset PrefixKey :=
  (nhs.biUnion fun nh => SetIndex.at_ t nh).image fun p => (familyForPrefix p, p)

namespace World

variable (st : Setup)

/-- The Loc-RIB holds valid prefixes of a family, and paths of registered protocols.
Source: manager.go insert, registry.go RegisterProtocol -/
def WellFormed (key : PrefixKey) (new : Option View) : Prop :=
  key.1 ≠ ⟨0, 0⟩ ∧ key.2.isValid = true ∧ ∀ v ∈ new, st.reg.name v.1.source ≠ ""

instance (key : PrefixKey) (new : Option View) : Decidable (WellFormed st key new) :=
  inferInstanceAs (Decidable (_ ∧ _ ∧ _))

/-- A prefix whose offer is over changes; the lock of its shard serialises its changes. -/
def MayChange (w : World) (key : PrefixKey) (new : Option View) : Prop :=
  w.offering.lookup key = none ∧ WellFormed st key new ∧ (new ≠ none ∨ w.loc.current key ≠ none)

instance (w : World) (key : PrefixKey) (new : Option View) : Decidable (MayChange st w key new) :=
  inferInstanceAs (Decidable (_ ∧ _ ∧ _))

def change (w : World) (key : PrefixKey) (new : Option View) (lpm : Lpm) : World :=
  { w with loc := ⟨Function.update w.loc.current key new, lpm⟩ }

def env (w : World) (choice : Choice) : Env := ⟨some w.loc.lpm, choice.range, choice.sort⟩

/-- The system RIB after the event of a change. Source: sysrib.go processLocRIBChange. -/
def processed (w : World) (choice : Choice) (c : Change) : SysRIB :=
  (w.rib.processEvent st.os (w.env choice) (changeToBatch st.reg c)).1

/-- One step of the worker. Source: sysrib.go run, processLocRIBChange, processCascade,
locrib_feed.go resyncOverflow. -/
def work (w : World) (choice : Choice) : Option World :=
  match w.worker with
  | .idle => none
  | .seed [] => some { w with worker := .idle }
  | .seed (k :: ks) =>
    if w.offering.lookup k ≠ none then none
    else
      match w.loc.current k with
      | none => some { w with worker := .seed ks }
      | some v => some { w with worker := .seed ks, rib := w.processed st choice (.add k v) }
  | .event c rest =>
    some { w with worker := .cover c.key.2 rest, rib := w.processed st choice c }
  | .cover pfx rest =>
    let nhs := coveredNHs w.loc.lpm w.rib.tracking pfx
    let first := dependentKeys w.rib.tracking nhs
    some { w with worker := .cascade (choice.ord.keys first) first rest }
  | .cascade [] _ rest => some { w with worker := .resume rest }
  | .cascade (key :: rem) seen rest =>
    let (rib, change) := w.rib.cascadeRecompute (w.env choice) key
    if change = none then some { w with worker := .cascade rem seen rest, rib := rib }
    else
      let nhs := coveredNHs w.loc.lpm rib.tracking key.2
      let new := dependentKeys rib.tracking nhs \ seen
      some { w with worker := .cascade (rem ++ choice.ord.keys new) (seen ∪ new) rest, rib := rib }
  | .resume .take =>
    if w.overflow = ∅ ∨ w.ch ≠ [] then some { w with worker := .idle }
    else some { w with worker := .resume (.keys (choice.ord.keys w.overflow)), overflow := ∅ }
  | .resume (.keys []) => some { w with worker := .idle }
  | .resume (.keys (k :: ks)) =>
    if w.offering.lookup k ≠ none then none
    else
      match w.loc.current k with
      | none => some { w with worker := .event (.remove k) (.keys ks) }
      | some v => some { w with worker := .event (.add k v) (.keys ks) }

variable (same : View → View → Prop) [DecidableRel same]

/-- One step of any party; `none` when it cannot be taken.
Source: locrib_feed.go offer, sysrib.go run -/
def step (w : World) : Act → Option World
  | .report key new lpm =>
    if ¬MayChange st w key new then none
    else
      let c := changeFor key (w.loc.current key) new
      let w' := w.change key new lpm
      if w.ch.length < st.cap then some { w' with ch := w.ch ++ [c] }
      else some { w' with offering := w.offering.insert key .full }
  | .handoff key new lpm =>
    match w.worker, w.ch with
    | .idle, [] =>
      if ¬MayChange st w key new then none
      else
        let c := changeFor key (w.loc.current key) new
        some { w.change key new lpm with worker := .event c .take }
    | _, _ => none
  | .silent key v lpm =>
    match w.loc.current key with
    | none => none
    | some u =>
      if w.offering.lookup key = none ∧ same u v ∧ WellFormed st key (some v) then
        some (w.change key (some v) lpm)
      else none
  | .record key =>
    if w.offering.lookup key = some .full then
      some { w with
        overflow := insert key w.overflow
        offering := w.offering.insert key .recorded }
    else none
  | .wake key =>
    if w.offering.lookup key = some .recorded then
      some { w with wake := true, offering := w.offering.erase key }
    else none
  | .receive =>
    match w.worker, w.ch with
    | .idle, c :: ch => some { w with ch := ch, worker := .event c .take }
    | _, _ => none
  | .woken =>
    match w.worker with
    | .idle => if w.wake then some { w with wake := false, worker := .resume .take } else none
    | _ => none
  | .work choice => w.work st choice

/-- The state when the handler was registered: the walk has every prefix of the Loc-RIB before it.
Source: sysrib.go run -/
def start (loc : Loc) (rib : SysRIB) (ks : List PrefixKey) : World :=
  ⟨loc, [], ∅, false, ∅, .seed ks, rib⟩

end World

/-! ## What an event stores -/

/-- The route stored for a view of the Loc-RIB. Source: sysrib.go changeToBatch, processEvent.
-/
def locRoute (st : Setup) (v : View) : ProtocolRoute where
  protocol := st.reg.name v.1.source
  protocolType := if bgpProtocolTypeFromPath st.reg v.1 = .unspecified then st.reg.name v.1.source
    else (bgpProtocolTypeFromPath st.reg v.1).string
  osInstalled := st.os (st.reg.name v.1.source)
  nextHop := v.1.nextHop
  nextHopInterface := v.1.interface
  nextHopWeight := v.1.weight
  nextHopOnLink := v.1.onLink
  priority := v.1.adminDistance.toNat
  incomingPriority := v.1.adminDistance.toNat
  rankedByLocRIB := true
  metric := v.1.metric
  labels := v.1.labels
  srv6SID := v.1.srv6SID
  routeType := v.1.routeType
  backupNextHop := v.1.backupNextHop
  backupLabels := v.1.backupRepairLabels
  backupInterface := v.1.backupInterface
  backupOnLink := v.1.backupOnLink
  ecmpNextHops := v.2

/-- The one slot of a prefix that the Loc-RIB holds. -/
def stored (st : Setup) (v : View) : Protocols :=
  (∅ : Protocols).insert (st.reg.name v.1.source) (locRoute st v)

namespace SysRIB

variable (s : SysRIB) (env : Env) (key : PrefixKey)

/-- The state with another view stored for a prefix. -/
def load (st : Setup) (s : SysRIB) (key : PrefixKey) : Option View → SysRIB
  | some v => { s with routes := s.routes.insert key (stored st v) }
  | none => { s with routes := s.routes.erase key }

lemma lookup_load (st : Setup) (u : Option View) (k : PrefixKey) :
    (s.load st key u).routes.lookup k =
      if k = key then u.map (stored st) else s.routes.lookup k := by
  cases u with
  | none => exact lookup_erase_eq _ _ _
  | some v => exact lookup_insert_eq _ _ _ _

lemma routes_untrackNextHopGroup : (s.untrackNextHopGroup env key).routes = s.routes := by
  unfold untrackNextHopGroup
  split_ifs <;> rfl

lemma routes_untrack (pfx : Prefix) (route : Option ProtocolRoute) :
    (s.untrack env pfx route).routes = s.routes := by
  unfold untrack
  split_ifs <;> rfl

lemma routes_recordDeclinedWinner (prev : Option ProtocolRoute) (winner : ProtocolRoute)
    (protocols : Protocols) :
    (s.recordDeclinedWinner env key prev winner protocols).1.routes = s.routes := by
  unfold recordDeclinedWinner
  dsimp only
  split_ifs <;> exact routes_untrack _ env key.2 _

lemma routes_selectBest : (s.selectBest env key).1.routes = s.routes := by
  unfold selectBest
  dsimp only
  split
  · split
    · rfl
    · exact routes_untrack _ env key.2 _
  · split_ifs
    · exact s.routes_recordDeclinedWinner env key _ _ _
    · exact s.routes_recordDeclinedWinner env key _ _ _
    · unfold programWinner
      dsimp only
      split
      · split_ifs <;> rfl
      · split_ifs <;> rfl

lemma routes_recomputeBest : (s.recomputeBest env key).1.routes = s.routes := by
  unfold recomputeBest
  dsimp only
  have htrack : ∀ t : SysRIB, (t.trackNextHopGroup env key).routes = t.routes := by
    intro t
    unfold trackNextHopGroup
    split
    · rfl
    · split_ifs <;> rfl
  rw [htrack, routes_selectBest, routes_untrackNextHopGroup]

lemma routes_cascadeRecompute : (s.cascadeRecompute env key).1.routes = s.routes := by
  unfold cascadeRecompute
  split
  · rfl
  · dsimp only
    split_ifs
    · rfl
    · rfl
    · rfl
    · unfold fibInstall
      split_ifs <;> rfl

end SysRIB

namespace World

variable {st : Setup}

lemma processed_eq (w : World) (choice : Choice) {c : Change} (hc : WellFormed st c.key (value c)) :
    w.processed st choice c =
      (((w.rib.untrackNextHopGroup (w.env choice) c.key).load st c.key (value c)).recomputeBest
        (w.env choice) c.key).1 := by
  obtain ⟨hfam, hvalid, hname⟩ := hc
  have hannounce : ∀ (action : RouteAction) (key : PrefixKey) (v : View),
      action = .add ∨ action = .update → key.1 ≠ ⟨0, 0⟩ → key.2.isValid →
      st.reg.name v.1.source ≠ "" →
      (w.rib.processEvent st.os (w.env choice) (announceBatch st.reg action key v)).1 =
        (((w.rib.untrackNextHopGroup (w.env choice) key).load st key (some v)).recomputeBest
          (w.env choice) key).1 := by
    intro action key v haction hfam hvalid hname
    have hload : (w.rib.untrackNextHopGroup (w.env choice) key).storeRoute
        (announceBatch st.reg action key v) key (locRoute st v) =
        (w.rib.untrackNextHopGroup (w.env choice) key).load st key (some v) := rfl
    rw [← hload]
    rcases haction with rfl | rfl <;>
      simp [SysRIB.processEvent, announceBatch, SysRIB.collect, SysRIB.processChange, hfam,
        hvalid, hname, SysRIB.routeOf, locRoute, protoType]
  unfold processed
  cases c with
  | add key v => exact hannounce .add key v (.inl rfl) hfam hvalid (hname v rfl)
  | update key v => exact hannounce .update key v (.inr rfl) hfam hvalid (hname v rfl)
  | remove key =>
    simp only [Delta.key] at hfam hvalid
    have hload : (w.rib.untrackNextHopGroup (w.env choice) key).deleteRoute
        (changeToBatch st.reg (.remove key)) key =
        (w.rib.untrackNextHopGroup (w.env choice) key).load st key none := by
      unfold SysRIB.deleteRoute changeToBatch
      rw [if_pos st.reg.unspecified]
      rfl
    have hbody : (w.rib.processEvent st.os (w.env choice) (changeToBatch st.reg (.remove key))).1 =
        (((w.rib.untrackNextHopGroup (w.env choice) key).deleteRoute
          (changeToBatch st.reg (.remove key)) key).recomputeBest (w.env choice) key).1 := by
      simp [SysRIB.processEvent, changeToBatch, SysRIB.collect, SysRIB.processChange, hfam, hvalid]
    rw [hbody, hload]
    rfl

lemma routes_processed (w : World) (choice : Choice) {c : Change}
    (hc : WellFormed st c.key (value c)) (k : PrefixKey) :
    (w.processed st choice c).routes.lookup k =
      if k = c.key then (value c).map (stored st) else w.rib.routes.lookup k := by
  rw [processed_eq w choice hc, SysRIB.routes_recomputeBest, SysRIB.lookup_load,
    SysRIB.routes_untrackNextHopGroup]

end World

end Ze.SysRib
