import Ze.Net.Prefix

/-!
# Paths of the Loc-RIB and the import gate

A `Path` is what one source offers for a prefix. The Loc-RIB overwrites three of its fields whenever
it stores or re-judges the path: `hidden` and `hiddenBy` (the verdict of the import policy,
`admitted`) and `adminDistance` (`resolvedDistance`). The producer's own values of the fields a
chain may set are kept beside them.

Default file: `core/rib/policy/policy.go`.
-/

namespace Ze.LocRib

open Ze.Net (Addr Prefix)

abbrev ProtocolID := UInt16

/-- Source: core/family/family.go. -/
structure Family where
  afi : UInt16
  safi : UInt8
  deriving DecidableEq, Repr

/-- Source: core/rib/nexthop NextHop. -/
structure NextHop where
  addr : Addr := .zero
  interface : String := ""
  onLink : Bool := false
  weight : UInt8 := 0
  deriving DecidableEq, Repr

inductive ChainRole where
  | unspecified
  | source
  | central
  deriving DecidableEq, Repr

structure ProducerValues where
  tag : UInt32 := 0
  hasTag : Bool := false
  distance : UInt8 := 0
  hasDistance : Bool := false
  deriving DecidableEq, Repr

/-- One route option for a prefix, from one source. The defaults are Go's zero values.
Source: core/rib/locrib/candidate.go. -/
structure Path where
  source : ProtocolID := 0
  inst : UInt32 := 0
  nextHop : Addr := .zero
  interface : String := ""
  onLink : Bool := false
  weight : UInt8 := 0
  /-- Owned by the RIB. -/
  adminDistance : UInt8 := 0
  distanceOverride : UInt8 := 0
  hasDistanceOverride : Bool := false
  metric : UInt32 := 0
  labels : List UInt32 := []
  srv6SID : Addr := .zero
  isEBGP : Bool := false
  isBGP : Bool := false
  aigp : UInt64 := 0
  aigpPresent : Bool := false
  metricRecursive : Bool := false
  backupNextHop : Addr := .zero
  backupInterface : String := ""
  backupOnLink : Bool := false
  backupRepairLabels : List UInt32 := []
  ecmp : List NextHop := []
  routeType : UInt8 := 0
  tag : UInt32 := 0
  hasTag : Bool := false
  level : UInt8 := 0
  ospfRouteType : UInt8 := 0
  /-- An import chain rejected the path. Owned by the RIB. -/
  hidden : Bool := false
  /-- Owned by the RIB. -/
  hiddenBy : ChainRole := .unspecified
  original : ProducerValues := {}
  deriving DecidableEq, Repr

abbrev PathKey := ProtocolID × UInt32

namespace Path

/-- Source: candidate.go. -/
def valid (p : Path) : Bool :=
  p.source != 0

/-- Source: candidate.go. -/
def key (p : Path) : PathKey :=
  (p.source, p.inst)

/-- The path may be selected. Source: core/rib/locrib/entry.go selectBest. -/
def selectable (p : Path) : Bool :=
  p.valid && !p.hidden

end Path

/-! ## The import policy -/

structure Route where
  family : Family
  pfx : Prefix
  source : ProtocolID
  isEBGP : Bool
  isBGP : Bool
  nextHop : Addr
  interface : String
  metric : UInt32
  tag : UInt32
  hasTag : Bool
  level : UInt8
  ospfRouteType : UInt8
  deriving DecidableEq, Repr

/-- The set actions the Loc-RIB applies. The metric ones are of export attachments only. -/
structure Sets where
  distance : UInt8 := 0
  hasDistance : Bool := false
  tag : UInt32 := 0
  hasTag : Bool := false
  deriving DecidableEq, Repr

inductive Action where
  | unspecified
  | accept
  | reject
  deriving DecidableEq, Repr

structure Verdict where
  action : Action := .unspecified
  sets : Sets := {}
  rejectedBy : ChainRole := .unspecified
  deriving DecidableEq, Repr

abbrev Chain := Route → Verdict

structure Snapshot where
  bySource : ProtocolID → Option Chain
  central : Option Chain

def Sets.override (first later : Sets) : Sets :=
  let first :=
    if later.hasDistance then { first with distance := later.distance, hasDistance := true }
    else first
  if later.hasTag then { first with tag := later.tag, hasTag := true } else first

/-- The route as the source chain's set actions leave it. Source: Snapshot.Evaluate -/
def Route.withTag (r : Route) (sets : Sets) : Route :=
  if sets.hasTag then { r with tag := sets.tag, hasTag := true } else r

/-- The central chain, after the set actions of the source chain. Source: Snapshot.Evaluate -/
def Snapshot.evaluateCentral (s : Snapshot) (r : Route) (sets : Sets) : Verdict :=
  match s.central with
  | none => { action := .accept, sets }
  | some chain =>
    let v := chain r
    if v.action ≠ .accept then { action := .reject, rejectedBy := .central }
    else { action := .accept, sets := sets.override v.sets }

def Snapshot.evaluate (s : Snapshot) (r : Route) : Verdict :=
  match s.bySource r.source with
  | none => s.evaluateCentral r {}
  | some chain =>
    let v := chain r
    if v.action ≠ .accept then { action := .reject, rejectedBy := .source }
    else s.evaluateCentral (r.withTag v.sets) v.sets

/-! ## The import gate -/

/-- Source: core/rib/locrib/policy.go. -/
def routeView (fam : Family) (pfx : Prefix) (p : Path) : Route where
  family := fam
  pfx := pfx
  source := p.source
  isEBGP := p.isEBGP
  isBGP := p.isBGP
  nextHop := p.nextHop
  interface := p.interface
  metric := p.metric
  tag := p.tag
  hasTag := p.hasTag
  level := p.level
  ospfRouteType := p.ospfRouteType

/-- The path the Loc-RIB stores for an offered one; no snapshot is the no-policy state.
Source: core/rib/locrib/policy.go admit -/
def admitted (snap : Option Snapshot) (fam : Family) (pfx : Prefix) (p : Path) : Path :=
  let p := { p with
    hidden := false
    hiddenBy := .unspecified
    original :=
      ⟨p.tag, p.hasTag, p.distanceOverride, p.hasDistanceOverride⟩ }
  match snap with
  | none => p
  | some snap =>
    let v := snap.evaluate (routeView fam pfx p)
    if v.action ≠ .accept then { p with hidden := true, hiddenBy := v.rejectedBy }
    else
      let p :=
        if v.sets.hasDistance then
          { p with distanceOverride := v.sets.distance, hasDistanceOverride := true }
        else p
      if v.sets.hasTag then { p with tag := v.sets.tag, hasTag := true } else p

/-- Source: core/rib/locrib/policy.go. -/
def producerPath (p : Path) : Path :=
  { p with
    tag := p.original.tag
    hasTag := p.original.hasTag
    distanceOverride := p.original.distance
    hasDistanceOverride := p.original.hasDistance
    hidden := false
    hiddenBy := .unspecified }

/-! ## Administrative distance -/

/-- What a ranking reads: the published policy, the declared distances, and the names under which
protocols are registered. Source: core/rib/policy/policy.go Current, core/rib/distance/distance.go
Of, core/redistevents ProtocolName. -/
structure Published where
  snapshot : Option Snapshot
  declared : String → Option UInt8
  protocolName : ProtocolID → String

/-- Source: core/rib/locrib/distance.go. -/
def undeclaredDistance : UInt8 := 255

/-- Source: core/rib/distance/distance.go. -/
def bootstrap : List (String × UInt8) :=
  [("connected", 0), ("static", 10), ("ebgp", 20), ("ospf", 110), ("isis", 115), ("ibgp", 200)]

/-- Source: core/rib/locrib/distance.go. -/
def distanceProtocol (pub : Published) (p : Path) : String :=
  let name := pub.protocolName p.source
  if p.isEBGP then "ebgp"
  else if p.isBGP then "ibgp"
  else if name = "bgp" then "ibgp"
  else name

/-- Source: core/rib/locrib/distance.go resolvedDistance, core/rib/distance/distance.go Resolve -/
def resolvedDistance (pub : Published) (p : Path) : UInt8 :=
  if p.hasDistanceOverride then p.distanceOverride
  else
    let name := distanceProtocol pub p
    match pub.declared name with
    | some d => d
    | none => (bootstrap.lookup name).getD undeclaredDistance

end Ze.LocRib
