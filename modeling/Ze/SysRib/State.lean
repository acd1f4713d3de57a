import Ze.SysRib.Route

/-!
# The system RIB

`sysRIB` of `sysrib.go` and `fibimport.go`, with the table of tracked next-hops that `nhresolver.go`
keeps for it. Its four entry points answer the changes the FIB plugins are owed.

Go stores one object in `routes` and in `best`. Here both hold the value, and
`reapplyAdminDistances`, the one place that writes through the object, re-ranks it in both. What the
log lines read (`distanceSpoken`, `fibSpoken`) and the metrics are left out.

Default file: `sysrib.go`.
-/

namespace Ze.SysRib

open Ze.Lib (RangeOrder SetIndex mapValues)
open Ze.LocRib (Family NextHop)
open Ze.Net (Addr Prefix)

/-! ## State -/

/-- What Ze last programmed for a prefix; `proved` says that the resolver proved the path. -/
structure InstalledPath where
  nextHop : Addr := .zero
  iface : String := ""
  weight : UInt8 := 0
  labels : List UInt32 := []
  srv6SID : Addr := .zero
  onLink : Bool := false
  proved : Bool := false
  deriving DecidableEq, Repr

inductive FibVerdict where
  | proved
  | unproved
  | forbidden
  deriving DecidableEq, Repr

def installedEntry (entry : FibEntry) (verdict : FibVerdict) : InstalledPath where
  nextHop := entry.nextHop
  iface := entry.interface
  onLink := entry.onLink
  weight := entry.weight
  labels := entry.labels
  srv6SID := entry.srv6SID
  proved := decide (verdict = .proved)

def InstalledPath.matches (p : InstalledPath) (entry : FibEntry) : Bool :=
  p.nextHop == entry.nextHop && p.iface == entry.interface && p.onLink == entry.onLink &&
    p.weight == entry.weight && p.srv6SID == entry.srv6SID && p.labels == entry.labels

/-- The routes of the protocols that hold a prefix, by protocol name. -/
abbrev Protocols := Finmap fun _ : String => ProtocolRoute

abbrev Tracking := SetIndex Addr Prefix

structure SysRIB where
  routes : Finmap fun _ : PrefixKey => Protocols
  best : Finmap fun _ : PrefixKey => ProtocolRoute
  lastECMP : Finmap fun _ : PrefixKey => List ECMPPath
  installed : Finmap fun _ : PrefixKey => InstalledPath
  adminDist : String → Option ℤ
  fibPermit : String → Option Bool
  tracking : Tracking

/-- A protocol that the set does not hold is permitted. Source: fibimport.go. -/
def fibPermits (permit : String → Option Bool) (protocol : String) : Bool :=
  (permit protocol).getD true

/-! ## Tracked next-hops -/

/-- The addresses whose resolution a route depends on: its gateway, the gateways of its siblings,
and its SID. A gateway on a link needs no resolution.
Source: fibimport.go trackNextHops -/
def ProtocolRoute.trackedAddrs (route : ProtocolRoute) : List Addr :=
  (if route.nextHop.isValid && !route.nextHopOnLink then [route.nextHop] else []) ++
    (route.ecmpNextHops.filter fun nh => nh.addr.isValid && !nh.onLink).map (·.addr) ++
    (if route.srv6SID.isValid then [route.srv6SID] else [])

def trackNextHops (t : Tracking) (pfx : Prefix) (route : ProtocolRoute) : Tracking :=
  route.trackedAddrs.foldl (fun t nh => SetIndex.put t nh pfx) t

def untrackNextHops (t : Tracking) (pfx : Prefix) (route : ProtocolRoute) : Tracking :=
  route.trackedAddrs.foldl (fun t nh => SetIndex.drop t nh pfx) t

namespace SysRIB

/-- Source: newSysRIB. -/
def new : SysRIB where
  routes := ∅
  best := ∅
  lastECMP := ∅
  installed := ∅
  adminDist := fun _ => none
  fibPermit := fun _ => none
  tracking := ∅

def programmedByZe (s : SysRIB) (key : PrefixKey) : Bool := (s.installed.lookup key).isSome

def effectivePriority (s : SysRIB) (protocolType : String) (incomingPriority : ℤ) : ℤ :=
  (s.adminDist protocolType).getD incomingPriority

def fibPermitted (s : SysRIB) (protocol : String) : Bool := fibPermits s.fibPermit protocol

/-- The routes stored for a prefix; an absent entry has none. -/
def protocols (s : SysRIB) (key : PrefixKey) : Protocols := (s.routes.lookup key).getD ∅

/-- The table without what the prefix depends on: its best route and every stored one.
Source: fibimport.go. -/
def untrackNextHopGroup (s : SysRIB) (env : Env) (key : PrefixKey) : SysRIB :=
  if env.lpm.isNone then s
  else
    { s with
      tracking := ((s.best.lookup key).toList ++ env.range.values (s.protocols key)).foldl
        (fun t route => untrackNextHops t key.2 route) s.tracking }

/-- The table with what the prefix depends on, when Ze means to program it: the winner and the
routes equal to it in cost. Source: fibimport.go. -/
def trackNextHopGroup (s : SysRIB) (env : Env) (key : PrefixKey) : SysRIB :=
  match s.best.lookup key with
  | none => s
  | some winner =>
    if winner.osInstalled || !s.fibPermitted winner.protocol || env.lpm.isNone then s
    else
      let members := (env.range.values (s.protocols key)).filter fun route =>
        route.protocol != winner.protocol && route.priority == winner.priority &&
          route.metric == winner.metric && s.fibPermitted route.protocol
      { s with
        tracking := (winner :: members).foldl (fun t route => trackNextHops t key.2 route)
          s.tracking }

/-- The previous winner's dependencies are released. Source: fibimport.go untrackNextHops. -/
def untrack (s : SysRIB) (env : Env) (pfx : Prefix) (route : Option ProtocolRoute) : SysRIB :=
  if env.lpm.isNone then s
  else { s with tracking := route.toList.foldl (fun t r => untrackNextHops t pfx r) s.tracking }

/-! ## What the FIB owes -/

/-- Source: ecmp.go. -/
def ecmpCollect (s : SysRIB) (env : Env) (protocols : Protocols) (winner : ProtocolRoute) :
    List ForwardingPath :=
  if !s.fibPermitted winner.protocol then []
  else ecmpGroup env s.fibPermitted protocols winner

def ecmpCollectResolved (s : SysRIB) (env : Env) (lpm : Lpm) (protocols : Protocols)
    (winner : ProtocolRoute) : List ForwardingPath :=
  finishECMP env.sort
    ((groupMembers env.range s.fibPermitted protocols winner).filterMap (resolveMember lpm))

/-- The entry to program for a prefix and the resolver's verdict on its path; the entry is empty
when the verdict forbids the write. -/
def fibEntry (s : SysRIB) (env : Env) (key : PrefixKey) (best : ProtocolRoute) :
    FibEntry × FibVerdict :=
  let protocols := s.protocols key
  let own := routePath best best.nextHop
  match env.lpm with
  | none => (fibChange best own (s.ecmpCollect env protocols best), .proved)
  | some lpm =>
    if best.srv6SID.isValid && !(resolve lpm best.srv6SID).resolved then ({}, .forbidden)
    else
      let group := s.ecmpCollectResolved env lpm protocols best
      if !best.nextHop.isValid then (fibChange best own group, .proved)
      else
        match resolveMember lpm own with
        | some path => (fibChange best path group, .proved)
        | none =>
          match group with
          | [] => (fibChange best own (s.ecmpCollect env protocols best), .unproved)
          | promoted :: rest => (fibChange best promoted rest, .proved)

def record (s : SysRIB) (key : PrefixKey) (entry : FibEntry) (verdict : FibVerdict) : SysRIB :=
  { s with
    lastECMP := s.lastECMP.insert key entry.ecmpPaths
    installed := s.installed.insert key (installedEntry entry verdict) }

/-- Nothing is outstanding for the prefix any more. -/
def erase (s : SysRIB) (key : PrefixKey) : SysRIB :=
  { s with
    lastECMP := s.lastECMP.erase key
    installed := s.installed.erase key }

/-- The withdrawal of a prefix that Ze had programmed. -/
def withdrawal (s : SysRIB) (key : PrefixKey) : Option OutgoingChange :=
  if s.programmedByZe key then some (.remove key) else none

/-- An entry goes out as an update when Ze holds an install for the prefix, else as an add. -/
def announcement (s : SysRIB) (key : PrefixKey) (entry : FibEntry) : OutgoingChange :=
  if s.programmedByZe key then .update key entry else .add key entry

/-! ## Selecting the best route -/

/-- Source: recomputeBest, the loop over protocols. -/
def keepWinner (winner : Option ProtocolRoute) (route : ProtocolRoute) : Option ProtocolRoute :=
  match winner with
  | none => some route
  | some w =>
    if route.priority < w.priority ∨ (route.priority = w.priority ∧
      route.protocol < w.protocol) then
      some route
    else some w

/-- The route of the lowest priority, ties broken by the protocol's name. Source: recomputeBest -/
def selectWinner (env : Env) (protocols : Protocols) : Option ProtocolRoute :=
  (env.range.values protocols).foldl keepWinner none

/-- A winner that Ze does not program is recorded, and what Ze had programmed is withdrawn.
Source: sysrib.go recordOSInstalledWinner, fibimport.go recordWithheldWinner -/
def recordDeclinedWinner (s : SysRIB) (env : Env) (key : PrefixKey) (prev : Option ProtocolRoute)
    (winner : ProtocolRoute) (protocols : Protocols) : SysRIB × Option OutgoingChange :=
  let s' := { s with
    best := s.best.insert key winner
    lastECMP := s.lastECMP.insert key (ecmpPaths (s.ecmpCollect env protocols winner)) }
  let s' := s'.untrack env key.2 prev
  if s.programmedByZe key then
    ({ s' with installed := s'.installed.erase key }, some (.remove key))
  else (s', none)

abbrev recordOSInstalledWinner := @recordDeclinedWinner

abbrev recordWithheldWinner := @recordDeclinedWinner

/-- Every field of a route that the FIB programs, compared between two winners.
Source: recomputeBest, the no-op test -/
def sameProgram (prev winner : ProtocolRoute) : Bool :=
  prev.protocol == winner.protocol && prev.nextHop == winner.nextHop &&
    prev.nextHopInterface == winner.nextHopInterface &&
    prev.nextHopWeight == winner.nextHopWeight && prev.nextHopOnLink == winner.nextHopOnLink &&
    prev.priority == winner.priority && prev.metric == winner.metric &&
    prev.backupNextHop == winner.backupNextHop &&
    prev.backupInterface == winner.backupInterface && prev.backupOnLink == winner.backupOnLink &&
    prev.backupLabels == winner.backupLabels && prev.srv6SID == winner.srv6SID &&
    prev.routeType == winner.routeType && prev.labels == winner.labels

/-- The no-op test. Source: recomputeBest. -/
def unchanged (s : SysRIB) (key : PrefixKey) (prev winner : ProtocolRoute) (entry : FibEntry)
    (verdict : FibVerdict) : Bool :=
  sameProgram prev winner && !ecmpChanged ((s.lastECMP.lookup key).getD []) entry.ecmpPaths &&
    (verdict != .proved || ((s.installed.lookup key).getD {}).matches entry)

/-- A winner that Ze programs, over no previous winner or over one. Source: recomputeBest -/
def programWinner (s : SysRIB) (env : Env) (key : PrefixKey) (prev : Option ProtocolRoute)
    (winner : ProtocolRoute) : SysRIB × Option OutgoingChange :=
  let s' := { s with best := s.best.insert key winner }
  let (entry, verdict) := s'.fibEntry env key winner
  match prev with
  | none =>
    if verdict = .forbidden then (s', none)
    else (s'.record key entry verdict, some (.add key entry))
  | some prev =>
    if verdict = .forbidden then (s'.erase key, s.withdrawal key)
    else if s.unchanged key prev winner entry verdict then (s', none)
    else (s'.record key entry verdict, some (s.announcement key entry))

/-- The body of `recomputeBest`, between the release of the tracked next-hops and their renewal.
Source: recomputeBest -/
def selectBest (s : SysRIB) (env : Env) (key : PrefixKey) : SysRIB × Option OutgoingChange :=
  let protocols := s.protocols key
  let prev := s.best.lookup key
  match selectWinner env protocols with
  | none =>
    match prev with
    | none => (s, none)
    | some route =>
      (({ s with best := s.best.erase key }.erase key).untrack env key.2 (some route),
        s.withdrawal key)
  | some winner =>
    if winner.osInstalled then recordOSInstalledWinner s env key prev winner protocols
    else if !s.fibPermitted winner.protocol then
      recordWithheldWinner s env key prev winner protocols
    else s.programWinner env key prev winner

def recomputeBest (s : SysRIB) (env : Env) (key : PrefixKey) : SysRIB × Option OutgoingChange :=
  let (s', change) := (s.untrackNextHopGroup env key).selectBest env key
  (s'.trackNextHopGroup env key, change)

/-! ## Protocol changes -/

end SysRIB

/-- Source: routeaction.go Action. -/
inductive RouteAction where
  | unspecified
  | add
  | del
  | update
  | withdraw
  deriving DecidableEq, Repr

inductive ProtocolType where
  | unspecified
  | ebgp
  | ibgp
  deriving DecidableEq, Repr

def ProtocolType.string : ProtocolType → String
  | .unspecified => "unspecified"
  | .ebgp => "ebgp"
  | .ibgp => "ibgp"

/-- Source: ribevents.go BestChangeEntry, the fields the system RIB reads. -/
structure IncomingChange where
  action : RouteAction
  pfx : Prefix
  nextHop : Addr := .zero
  interface : String := ""
  onLink : Bool := false
  weight : UInt8 := 0
  priority : ℤ := 0
  metric : UInt32 := 0
  protocolType : ProtocolType := .unspecified
  routeType : UInt8 := 0
  labels : List UInt32 := []
  srv6SID : Addr := .zero
  ecmpNextHops : List NextHop := []
  backupNextHop : Addr := .zero
  backupRepairLabels : List UInt32 := []
  backupInterface : String := ""
  backupOnLink : Bool := false
  deriving DecidableEq, Repr

/-- Source: ribevents.go BestChangeBatch. -/
structure IncomingBatch where
  protocol : String
  family : Family
  fromLocRIB : Bool
  changes : List IncomingChange
  deriving DecidableEq, Repr

/-- The type a route's distance is looked up under. Source: processEvent. -/
def protoType (batch : IncomingBatch) (c : IncomingChange) : String :=
  if c.protocolType = .unspecified then batch.protocol else c.protocolType.string

namespace SysRIB

/-- The route stored for an announced change. `os` is the declaration of the protocols whose entries
the operating system creates.
Source: processEvent -/
def routeOf (s : SysRIB) (os : String → Bool) (batch : IncomingBatch) (c : IncomingChange) :
    ProtocolRoute where
  protocol := batch.protocol
  protocolType := protoType batch c
  osInstalled := os batch.protocol
  nextHop := c.nextHop
  nextHopInterface := c.interface
  nextHopWeight := c.weight
  nextHopOnLink := c.onLink
  priority := if batch.fromLocRIB then c.priority
    else s.effectivePriority (protoType batch c) c.priority
  incomingPriority := c.priority
  rankedByLocRIB := batch.fromLocRIB
  metric := c.metric
  labels := c.labels
  srv6SID := c.srv6SID
  routeType := c.routeType
  backupNextHop := c.backupNextHop
  backupLabels := c.backupRepairLabels
  backupInterface := c.backupInterface
  backupOnLink := c.backupOnLink
  ecmpNextHops := c.ecmpNextHops

/-- A Loc-RIB change replaces every route of the prefix; one of the event bus the slot of its
protocol.
Source: processEvent -/
def storeRoute (s : SysRIB) (batch : IncomingBatch) (key : PrefixKey) (pr : ProtocolRoute) :
    SysRIB :=
  let slots : Protocols := if batch.fromLocRIB then ∅ else s.protocols key
  { s with routes := s.routes.insert key (slots.insert batch.protocol pr) }

/-- A withdrawal without a protocol takes every route of the prefix. Source: processEvent -/
def deleteRoute (s : SysRIB) (batch : IncomingBatch) (key : PrefixKey) : SysRIB :=
  if batch.protocol = "" then { s with routes := s.routes.erase key }
  else
    match s.routes.lookup key with
    | none => s
    | some slots =>
      let slots := slots.erase batch.protocol
      if slots.keys = ∅ then { s with routes := s.routes.erase key }
      else { s with routes := s.routes.insert key slots }

/-- One change of a batch. Source: processEvent, the loop body. -/
def processChange (s : SysRIB) (os : String → Bool) (env : Env) (batch : IncomingBatch)
    (c : IncomingChange) : SysRIB × Option OutgoingChange :=
  let key : PrefixKey := (batch.family, c.pfx)
  if !c.pfx.isValid then (s, none)
  else
    match c.action with
    | .add | .update =>
      if batch.protocol = "" then (s, none)
      else
        let s := s.untrackNextHopGroup env key
        (s.storeRoute batch key (s.routeOf os batch c)).recomputeBest env key
    | .withdraw => ((s.untrackNextHopGroup env key).deleteRoute batch key).recomputeBest env key
    | .unspecified | .del => (s, none)

def collect {ω : Type} (body : SysRIB → ω → SysRIB × Option OutgoingChange) :
    SysRIB → List ω → SysRIB × List OutgoingChange
  | s, [] => (s, [])
  | s, o :: os =>
    let (s', change) := body s o
    let (s'', changes) := collect body s' os
    (s'', change.toList ++ changes)

def processEvent (s : SysRIB) (os : String → Bool) (env : Env) (batch : IncomingBatch) :
    SysRIB × List OutgoingChange :=
  if batch.family = ⟨0, 0⟩ then (s, [])
  else collect (fun s c => s.processChange os env batch c) s batch.changes

/-! ## Distances -/

/-- Source: register.go declareDistances, the system RIB's own table. -/
def declareDistances (s : SysRIB) (dist : String → Option ℤ) : SysRIB :=
  { s with adminDist := dist }

/-- A route's priority under the current distances; one ranked by the Loc-RIB keeps its own.
Source: reapplyAdminDistances, first loop -/
def rerank (s : SysRIB) (route : ProtocolRoute) : ProtocolRoute :=
  if route.rankedByLocRIB then route
  else { route with priority := s.effectivePriority route.protocolType route.incomingPriority }

/-- The state with every stored route ranked again. Source: reapplyAdminDistances. -/
def ranked (s : SysRIB) : SysRIB :=
  { s with
    routes := mapValues (mapValues s.rerank) s.routes
    best := mapValues s.rerank s.best }

/-- Every stored route is ranked again, then every prefix selected again, in the order of a range
over `routes`. -/
def reapplyAdminDistances (s : SysRIB) (env : Env) (ord : RangeOrder PrefixKey) :
    SysRIB × List OutgoingChange :=
  collect (fun s key => s.recomputeBest env key) s.ranked (ord.keys s.ranked.routes.keys)

/-! ## Cascades and permissions -/

/-- The tail of a cascade and of a permission change: what an answer of `fibEntry` owes. -/
def fibInstall (s : SysRIB) (key : PrefixKey) (entry : FibEntry) (verdict : FibVerdict) :
    SysRIB × Option OutgoingChange :=
  if verdict = .forbidden then (s.erase key, s.withdrawal key)
  else if s.programmedByZe key && ((s.installed.lookup key).getD {}).matches entry &&
      !ecmpChanged ((s.lastECMP.lookup key).getD []) entry.ecmpPaths then
    ({ s with installed := s.installed.insert key (installedEntry entry verdict) }, none)
  else (s.record key entry verdict, some (s.announcement key entry))

/-- A prefix whose covering route moved is resolved again; one whose proved path was lost is
withdrawn. -/
def cascadeRecompute (s : SysRIB) (env : Env) (key : PrefixKey) : SysRIB × Option OutgoingChange :=
  match s.best.lookup key with
  | none => (s, none)
  | some best =>
    if best.osInstalled || !s.fibPermitted best.protocol || env.lpm.isNone then (s, none)
    else
      let (entry, verdict) := s.fibEntry env key best
      if verdict = .unproved ∧ s.programmedByZe key = false then (s, none)
      else if verdict = .unproved ∧ ((s.installed.lookup key).getD {}).proved = true then
        (s.erase key, some (.remove key))
      else s.fibInstall key entry verdict

def fibStateChange (s : SysRIB) (env : Env) (key : PrefixKey) (route : ProtocolRoute) :
    SysRIB × Option OutgoingChange :=
  if route.osInstalled then (s, none)
  else
    let (entry, verdict) := s.fibEntry env key route
    s.fibInstall key entry verdict

def groupPermissionChanged (s : SysRIB) (env : Env) (key : PrefixKey) (winner : ProtocolRoute)
    (previous : String → Option Bool) : Bool :=
  ecmpChanged (ecmpPaths (ecmpGroup env (fibPermits previous) (s.protocols key) winner))
    (ecmpPaths (ecmpGroup env s.fibPermitted (s.protocols key) winner))

/-- One prefix of the sweep after a change of the permission set.
Source: fibimport.go applyFIBImport, the loop body -/
def sweep (s : SysRIB) (env : Env) (previous : String → Option Bool) (key : PrefixKey) :
    SysRIB × Option OutgoingChange :=
  match s.best.lookup key with
  | none => (s, none)
  | some route =>
    let s := (s.untrackNextHopGroup env key).trackNextHopGroup env key
    if !s.fibPermitted route.protocol then
      ((s.untrack env key.2 (some route)).erase key, s.withdrawal key)
    else if fibPermits previous route.protocol then
      if s.groupPermissionChanged env key route previous then s.fibStateChange env key route
      else (s, none)
    else
      let s := if route.osInstalled || env.lpm.isNone then s
        else { s with tracking := trackNextHops s.tracking key.2 route }
      s.fibStateChange env key route

/-- The sweep goes over `best` in the order of a range. Source: fibimport.go. -/
def applyFIBImport (s : SysRIB) (env : Env) (permit : String → Option Bool)
    (ord : RangeOrder PrefixKey) : SysRIB × List OutgoingChange :=
  collect (fun t key => t.sweep env s.fibPermit key) { s with fibPermit := permit }
    (ord.keys s.best.keys)

/-- An entry point of the system RIB; a cascade is the sequence of the prefixes it works through.
Source: sysrib.go, fibimport.go, register.go -/
inductive Op where
  | processEvent (batch : IncomingBatch)
  | cascade (keys : List PrefixKey)
  | declareDistances (dist : String → Option ℤ)
  | reapplyAdminDistances (ord : RangeOrder PrefixKey)
  | applyFIBImport (permit : String → Option Bool) (ord : RangeOrder PrefixKey)

/-- One call, with the Loc-RIB it reads. Source: sysrib.go, fibimport.go, register.go. -/
def step (os : String → Bool) (s : SysRIB) (call : Env × Op) : SysRIB × List OutgoingChange :=
  match call.2 with
  | .processEvent batch => s.processEvent os call.1 batch
  | .cascade keys => collect (fun s key => s.cascadeRecompute call.1 key) s keys
  | .declareDistances dist => (s.declareDistances dist, [])
  | .reapplyAdminDistances ord => s.reapplyAdminDistances call.1 ord
  | .applyFIBImport permit ord => s.applyFIBImport call.1 permit ord

/-- A run of calls, with every change they answered. -/
def run (os : String → Bool) : SysRIB → List (Env × Op) → SysRIB × List OutgoingChange
  | s, [] => (s, [])
  | s, call :: calls =>
    let (s', changes) := s.step os call
    let (s'', rest) := run os s' calls
    (s'', changes ++ rest)

end SysRIB

end Ze.SysRib
