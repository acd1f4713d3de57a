import Mathlib.Order.Fin.Basic
import Ze.Lib.Heap
import Ze.Lib.SortedMap
import Ze.Net.Addr

/-!
# The search of an area

`internal/plugins/ospf/spf/spf.go`, stage 1 of RFC 2328 Section 16.1: the shortest-path search over
the routers and transit networks of one area, with its two-way checks, its heap and the next hops it
hands down. The graph is the one of `graph.go`; what only the route builder reads of it (flags,
masks, origins) is left out.

Default file: `spf.go`.
-/

namespace Ze.OspfSpf

open Ze.Lib Ze.Net

/-! ## The graph -/

abbrev RouterId := Fin (2 ^ 32)

abbrev LinkStateId := Fin (2 ^ 32)

abbrev AreaId := Fin (2 ^ 32)

/-- Source: packet/lsa_router.go RouterLinkTypeP2P and the others; other is any other octet.
-/
inductive LinkType
  | p2p
  | transit
  | stub
  | virtual
  | other
  deriving DecidableEq

structure RouterLink where
  linkId : LinkStateId
  linkData : BitVec 32
  type : LinkType
  metric : UInt16
  deriving DecidableEq

/-- Point-to-point, as virtual links are. Source: the two types that are tested together. -/
def RouterLink.isP2P (l : RouterLink) : Bool :=
  decide (l.type = .p2p) || decide (l.type = .virtual)

/-- Source: lsa_router.go RouterLinkTypeTransit. -/
def RouterLink.isTransit (l : RouterLink) : Bool := decide (l.type = .transit)

/-- Source: graph.go VertexID, VertexKind. -/
inductive VertexId
  | router (id : RouterId)
  | network (id : LinkStateId)

/-- The place of a vertex in the order of `compareVertexID`: the routers first.
Source: compareVertexID. -/
def VertexId.rank : VertexId → ℕ
  | .router id => id.val
  | .network id => 2 ^ 32 + id.val

lemma VertexId.rank_injective : Function.Injective VertexId.rank := by
  intro a b h
  cases a <;> cases b <;> simp only [VertexId.rank, VertexId.router.injEq,
    VertexId.network.injEq, reduceCtorEq] at h ⊢
  · exact Fin.ext h
  · omega
  · omega
  · exact Fin.ext (by omega)

instance : LinearOrder VertexId := LinearOrder.lift' VertexId.rank VertexId.rank_injective

/-- Source: graph.go VertexKind, VertexNetwork. -/
def VertexId.isNetwork : VertexId → Bool
  | .router _ => false
  | .network _ => true

/-- One area: the links of each router and the routers attached to each transit network. Source:
graph.go. -/
structure Graph where
  area : AreaId
  routers : SortedMap RouterId (List RouterLink)
  networks : SortedMap LinkStateId (List RouterId)

/-- The links of a router, none where it has no Router-LSA. Source: g.Routers[id]. -/
def Graph.links (g : Graph) (id : RouterId) : List RouterLink := (g.routers.lookup id).getD []

/-- The routers attached to a network, none where it has no Network-LSA.
Source: g.Networks[id]. -/
def Graph.attached (g : Graph) (id : LinkStateId) : List RouterId := (g.networks.lookup id).getD []

/-! ## The two-way check -/

def twoWayRouterLink (g : Graph) (fromId toId : RouterId) : Bool :=
  (g.links toId).any fun l => l.isP2P && l.linkId = fromId

def twoWayRouterNetworkLink (g : Graph) (router : RouterId) (network : LinkStateId) : Bool :=
  (g.attached network).contains router &&
    (g.links router).any fun l => l.isTransit && l.linkId = network

/-! ## Next hops -/

structure NextHop where
  addr : Addr
  iface : String
  router : RouterId
  onLink : Bool
  deriving DecidableEq

/-- What makes two next hops the same. Source: containsNextHop. -/
def NextHop.key (nh : NextHop) : Addr × String := (nh.addr, nh.iface)

structure NextHopSource where
  p2pNextHop : Graph → RouterId → RouterId → RouterLink → Option NextHop
  transitNextHop : Graph → RouterId → RouterId → RouterLink → Option NextHop

abbrev LinkAdjacency := AreaId → RouterId → ℕ → RouterId → Option (Addr × String)

/-- The first octet is zero. -/
def linkDataIsIfIndex (data : BitVec 32) : Bool := decide (data.toNat < 2 ^ 24)

def p2pNeighborAddress (g : Graph) (neighbor root : RouterId) : Option Addr :=
  match (g.links neighbor).find? fun l => l.isP2P && l.linkId = root with
  | none => none
  | some l =>
    if l.type = .p2p ∧ linkDataIsIfIndex l.linkData then none else some (.v4 l.linkData)

def transitRouterAddress (g : Graph) (router : RouterId) (network : LinkStateId) : Option Addr :=
  ((g.links router).find? fun l => l.isTransit && l.linkId = network).map fun l => .v4 l.linkData

def unnumberedNextHop (adj : Option LinkAdjacency) (g : Graph) (neighbor root : RouterId)
    (link : RouterLink) : Option NextHop :=
  match adj with
  | none => none
  | some adj =>
    (adj g.area root link.linkData.toNat neighbor).map fun x => ⟨x.1, x.2, neighbor, true⟩

def v4NextHop (adj : Option LinkAdjacency) : NextHopSource where
  p2pNextHop g neighbor root link :=
    if link.type = .p2p ∧ linkDataIsIfIndex link.linkData then
      unnumberedNextHop adj g neighbor root link
    else (p2pNeighborAddress g neighbor root).map fun addr => ⟨addr, "", neighbor, false⟩
  transitNextHop g router _ link :=
    (transitRouterAddress g router link.linkId).map fun addr => ⟨addr, "", router, false⟩

def containsNextHop (hops : List NextHop) (nh : NextHop) : Bool :=
  hops.any fun x => x.key = nh.key

/-- One next hop joins a list unless it is invalid, there already, or one too many.
Source: mergeNextHops, the body of the loop. -/
def addNextHop (maxPaths : ℕ) (out : List NextHop) (nh : NextHop) : List NextHop :=
  if !nh.addr.isValid then out
  else if containsNextHop out nh then out
  else if maxPaths ≤ out.length then out
  else out ++ [nh]

def mergeNextHops (a b : List NextHop) (maxPaths : ℕ) : List NextHop :=
  b.foldl (addNextHop maxPaths) a

def capNextHops (maxPaths : ℕ) : List NextHop → List NextHop → List NextHop
  | [], out => out
  | nh :: rest, out =>
    if !nh.addr.isValid || containsNextHop out nh then capNextHops maxPaths rest out
    else if maxPaths ≤ out.length then out
    else capNextHops maxPaths rest (out ++ [nh])

/-! ## The heap and the tentative states -/

structure HeapItem where
  id : VertexId
  dist : ℕ
  deriving DecidableEq

/-- By distance, networks before routers, then by identifier. -/
def HeapItem.less (a b : HeapItem) : Bool :=
  if a.dist ≠ b.dist then decide (a.dist < b.dist)
  else if a.id.isNetwork ≠ b.id.isNetwork then a.id.isNetwork
  else decide (a.id < b.id)

structure Tent where
  dist : ℕ
  nextHops : List NextHop := []
  settled : Bool := false

/-- What the loop keeps. Source: computeWithNextHop, h and tents. -/
structure State where
  heap : List HeapItem
  tents : SortedMap VertexId Tent

/-! ## The edges of a vertex -/

structure Edge where
  toId : VertexId
  metric : ℕ
  nextHops : List NextHop

def nextHopsForP2P (g : Graph) (cur : Tent) (fromId : VertexId) (root : RouterId) (toId : RouterId)
    (link : RouterLink) (nh : NextHopSource) : List NextHop :=
  if fromId = .router root then (nh.p2pNextHop g toId root link).toList else cur.nextHops

/-- The next hops to a router behind a network of the root: one for each link of the root to the
network at the network's distance.
Source: nextHopsForNetwork, the loop. -/
def transitHops (g : Graph) (dist : ℕ) (network : LinkStateId) (root toId : RouterId)
    (nh : NextHopSource) : List NextHop :=
  (g.links root).foldl (fun hops link =>
    if !link.isTransit || link.linkId ≠ network || link.metric.toNat ≠ dist then hops
    else
      match nh.transitNextHop g toId root link with
      | none => hops
      | some hop => if containsNextHop hops hop then hops else hops ++ [hop]) []

def nextHopsForNetwork (g : Graph) (cur : Tent) (network : LinkStateId) (root toId : RouterId)
    (nh : NextHopSource) : List NextHop :=
  if cur.nextHops.isEmpty then transitHops g cur.dist network root toId nh else cur.nextHops

/-- The edge of one link record, where it passes the two-way check.
Source: transitEdges, the router case. -/
def linkEdge (g : Graph) (r : RouterId) (cur : Tent) (root : RouterId) (nh : NextHopSource)
    (l : RouterLink) : Option Edge :=
  if l.isP2P then
    if twoWayRouterLink g r l.linkId then
      some ⟨.router l.linkId, l.metric.toNat, nextHopsForP2P g cur (.router r) root l.linkId l nh⟩
    else none
  else if l.isTransit then
    if twoWayRouterNetworkLink g r l.linkId then
      some ⟨.network l.linkId, l.metric.toNat, cur.nextHops⟩
    else none
  else none

/-- The edge to one attached router, where it passes the two-way check.
Source: transitEdges, the network case. -/
def attachedEdge (g : Graph) (n : LinkStateId) (cur : Tent) (root : RouterId) (nh : NextHopSource)
    (rid : RouterId) : Option Edge :=
  if twoWayRouterNetworkLink g rid n then
    some ⟨.router rid, 0, nextHopsForNetwork g cur n root rid nh⟩
  else none

def transitEdges (g : Graph) (fromId : VertexId) (cur : Tent) (root : RouterId)
    (nh : NextHopSource) : List Edge :=
  match fromId with
  | .router r => (g.links r).filterMap (linkEdge g r cur root nh)
  | .network n => (g.attached n).filterMap (attachedEdge g n cur root nh)

/-! ## The loop -/

def lsInfinity : ℕ := 0x00ffffff

def clampMetric (base delta : ℕ) : ℕ :=
  let sum := (base + delta) % 2 ^ 64
  if sum < base ∨ lsInfinity ≤ sum then lsInfinity else sum

def relax (cur : Tent) (maxPaths : ℕ) (s : State) (e : Edge) : State :=
  let nd := clampMetric cur.dist e.metric
  if lsInfinity ≤ nd then s
  else
    let hops := capNextHops maxPaths e.nextHops []
    match s.tents.lookup e.toId with
    | none =>
      { heap := Heap.push HeapItem.less s.heap ⟨e.toId, nd⟩
        tents := s.tents.put e.toId { dist := nd, nextHops := hops } }
    | some nt =>
      if nd < nt.dist then
        { heap := Heap.push HeapItem.less s.heap ⟨e.toId, nd⟩
          tents := s.tents.put e.toId { dist := nd, nextHops := hops } }
      else if nd = nt.dist then
        let merged := mergeNextHops nt.nextHops hops maxPaths
        if merged.length ≠ nt.nextHops.length then
          { heap := Heap.push HeapItem.less s.heap ⟨e.toId, nd⟩
            tents := s.tents.put e.toId { nt with nextHops := merged, settled := false } }
        else s
      else s

/-- One turn of the loop with the item it has popped.
Source: computeWithNextHop, the body of the loop. -/
def visit (g : Graph) (root : RouterId) (maxPaths : ℕ) (nh : NextHopSource) (s : State)
    (item : HeapItem) : State :=
  match s.tents.lookup item.id with
  | none => s
  | some cur =>
    if cur.settled then s
    else if cur.dist < item.dist then s
    else
      (transitEdges g item.id cur root nh).foldl (relax cur maxPaths)
        { s with tents := s.tents.put item.id { cur with settled := true } }

/-- The loop, at most `n` turns of it. Source: computeWithNextHop, the loop. -/
def loop (g : Graph) (root : RouterId) (maxPaths : ℕ) (nh : NextHopSource) : ℕ → State → State
  | 0, s => s
  | n + 1, s =>
    match Heap.pop HeapItem.less s.heap with
    | none => s
    | some (item, heap) =>
      loop g root maxPaths nh n (visit g root maxPaths nh { s with heap := heap } item)

/-- How the loop starts. Source: computeWithNextHop, tents and h. -/
def start (root : RouterId) : State where
  heap := [⟨.router root, 0⟩]
  tents := SortedMap.empty.put (.router root) { dist := 0 }

def Graph.vertices (g : Graph) : List VertexId :=
  g.routers.keys.map .router ++ g.networks.keys.map .network

def turns (g : Graph) (maxPaths : ℕ) : ℕ := 1 + g.vertices.length * (lsInfinity * (maxPaths + 1))

/-- Source: DefaultMaxPaths and the first lines of computeWithNextHop. -/
def effectiveMaxPaths (maxPaths : ℤ) : ℕ := if maxPaths ≤ 0 then 8 else maxPaths.toNat

/-- Where the loop ends. Source: computeWithNextHop, tents after the loop. -/
def search (g : Graph) (root : RouterId) (maxPaths : ℕ) (nh : NextHopSource) : State :=
  loop g root maxPaths nh (turns g maxPaths) (start root)

/-! ## The result -/

structure NodeResult where
  id : VertexId
  metric : ℕ
  nextHops : List NextHop
  deriving DecidableEq

structure Result where
  area : AreaId
  root : RouterId
  nodes : SortedMap VertexId NodeResult
  maxPath : ℕ

def computeWithNextHop (g : Graph) (root : RouterId) (maxPaths : ℤ) (nh : NextHopSource) :
    Result where
  area := g.area
  root := root
  maxPath := lsInfinity
  nodes :=
    match g.routers.lookup root with
    | none => .empty
    | some _ =>
      (search g root (effectiveMaxPaths maxPaths) nh).tents.collect fun id t =>
        if t.settled then some ⟨id, t.dist, t.nextHops⟩ else none

def compute (g : Graph) (root : RouterId) (maxPaths : ℤ) : Result :=
  computeWithNextHop g root maxPaths (v4NextHop none)

end Ze.OspfSpf
