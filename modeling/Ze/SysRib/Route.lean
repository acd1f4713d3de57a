import Mathlib.Data.List.Sort
import Ze.Lib.GoMap
import Ze.LocRib.Changes

/-!
# Routes, next-hops and equal-cost groups of the system RIB

The data of `component/sysrib`, the recursive resolution of next-hops (`nhresolver.go`) and the
equal-cost groups (`ecmp.go`).

Default file: `ecmp.go`.
-/

namespace Ze.SysRib

open Ze.Lib (RangeOrder)
open Ze.LocRib (Family NextHop Path)
open Ze.Net (Addr Prefix)

/-! ## Data -/

/-- One protocol's best route for a prefix; the defaults are Go's zero values.
Source: sysrib.go. -/
structure ProtocolRoute where
  protocol : String := ""
  protocolType : String := ""
  nextHop : Addr := .zero
  nextHopInterface : String := ""
  nextHopWeight : UInt8 := 0
  nextHopOnLink : Bool := false
  priority : ℤ := 0
  incomingPriority : ℤ := 0
  rankedByLocRIB : Bool := false
  metric : UInt32 := 0
  labels : List UInt32 := []
  srv6SID : Addr := .zero
  routeType : UInt8 := 0
  backupNextHop : Addr := .zero
  backupLabels : List UInt32 := []
  backupInterface : String := ""
  backupOnLink : Bool := false
  osInstalled : Bool := false
  ecmpNextHops : List NextHop := []
  deriving DecidableEq, Repr

/-- Source: sysrib.go. -/
abbrev PrefixKey := Family × Prefix

/-- Source: events.go. -/
structure ECMPPath where
  nextHop : Addr := .zero
  interface : String := ""
  onLink : Bool := false
  weight : UInt8 := 0
  labels : List UInt32 := []
  deriving DecidableEq, Repr

structure ForwardingPath extends ECMPPath where
  srv6SID : Addr := .zero
  deriving DecidableEq, Repr

/-- What the FIB programs for a prefix. The action, the prefix and the family of a published change
are those of the `Delta` that carries the entry.
Source: events.go BestChangeEntry -/
structure FibEntry where
  nextHop : Addr := .zero
  interface : String := ""
  onLink : Bool := false
  weight : UInt8 := 0
  protocol : String := ""
  labels : List UInt32 := []
  routeType : UInt8 := 0
  metric : UInt32 := 0
  srv6SID : Addr := .zero
  ecmpPaths : List ECMPPath := []
  backup : List ECMPPath := []
  deriving DecidableEq, Repr

/-- Source: sysrib.go. -/
abbrev OutgoingChange := Ze.Lib.Delta PrefixKey FibEntry

/-! ## Recursive resolution -/

abbrev Lpm := Family → Addr → Option Path

structure ResolvedNH where
  directNH : Addr := .zero
  interface : String := ""
  onLink : Bool := false
  metric : UInt32 := 0
  resolved : Bool := false
  deriving DecidableEq, Repr

def maxRecursionDepth : ℕ := 8

def familyForAddr : Addr → Family
  | .v4 _ => ⟨1, 1⟩
  | _ => ⟨2, 1⟩

def familyForPrefix (p : Prefix) : Family := familyForAddr p.addr

def discards (routeType : UInt8) : Bool := routeType == 6 || routeType == 7 || routeType == 8

/-- The loop of `Resolve`, with the lookups left, the metric so far and the current address.
Source: nhresolver.go Resolve -/
def resolveLoop (lpm : Lpm) : ℕ → UInt32 → Addr → ResolvedNH
  | 0, _, _ => {}
  | n + 1, totalMetric, current =>
    match lpm (familyForAddr current) current with
    | none => {}
    | some path =>
      if discards path.routeType then {}
      else
        let totalMetric := totalMetric + path.metric
        if !path.nextHop.isValid then
          { directNH := current, interface := path.interface, metric := totalMetric,
            resolved := true }
        else if path.onLink then
          { directNH := path.nextHop, interface := path.interface, onLink := true,
            metric := totalMetric, resolved := true }
        else if path.nextHop = current then {}
        else resolveLoop lpm n totalMetric path.nextHop

def resolve (lpm : Lpm) (addr : Addr) : ResolvedNH :=
  if !addr.isValid then {} else resolveLoop lpm maxRecursionDepth 0 addr

/-- Source: net/netip Prefix.Contains. -/
def contains (p : Prefix) (a : Addr) : Bool := p.isValid && a.zone.isEmpty && p.covers a

/-- The loop of `chainCovered`, with the lookups left. Source: nhresolver.go chainCovered. -/
def chainLoop (lpm : Lpm) (pfx : Prefix) : ℕ → Addr → Bool
  | 0, _ => false
  | n + 1, current =>
    if contains pfx current then true
    else
      match lpm (familyForAddr current) current with
      | none => false
      | some path =>
        if discards path.routeType || path.onLink || !path.nextHop.isValid ||
            path.nextHop == current then false
        else chainLoop lpm pfx n path.nextHop

def chainCovered (lpm : Lpm) (current : Addr) (pfx : Prefix) : Bool :=
  chainLoop lpm pfx maxRecursionDepth current

/-! ## Forwarding paths -/

def routePath (route : ProtocolRoute) (nextHop : Addr) : ForwardingPath where
  nextHop := nextHop
  interface := route.nextHopInterface
  onLink := route.nextHopOnLink
  weight := route.nextHopWeight
  labels := route.labels
  srv6SID := route.srv6SID

def ecmpWeight (declared : UInt8) : UInt8 := if declared = 0 then 1 else declared

def memberPath (route : ProtocolRoute) (target : NextHop) : ForwardingPath where
  nextHop := target.addr
  interface := target.interface
  onLink := target.onLink
  weight := ecmpWeight target.weight
  labels := route.labels
  srv6SID := route.srv6SID

def namesATarget (addr : Addr) (iface : String) : Bool := addr.isValid || iface != ""

def sameTarget (nh : NextHop) (winner : ProtocolRoute) : Bool :=
  nh.addr == winner.nextHop && nh.interface == winner.nextHopInterface

def ProtocolRoute.target (route : ProtocolRoute) : NextHop where
  addr := route.nextHop
  interface := route.nextHopInterface
  onLink := route.nextHopOnLink
  weight := route.nextHopWeight

/-- The order of group members: next-hop, device, on-link first, weight, labels. -/
def ecmpPathCompare (a b : ECMPPath) : Ordering :=
  (Addr.cmp a.nextHop b.nextHop).then <|
    (compare a.interface b.interface).then <|
      (compare b.onLink a.onLink).then <|
        (compare a.weight b.weight).then (compare a.labels b.labels)

lemma ecmpPathCompare_eq_compareLex : ecmpPathCompare =
    compareLex (fun a b => Addr.cmp a.nextHop b.nextHop)
      (compareLex (compareOn ECMPPath.interface)
        (compareLex (fun a b => compareOn ECMPPath.onLink b a)
          (compareLex (compareOn ECMPPath.weight) (compareOn ECMPPath.labels)))) := rfl

instance : Std.TransCmp ecmpPathCompare := by
  have haddr : Std.TransCmp fun a b : ECMPPath => Addr.cmp a.nextHop b.nextHop :=
    { eq_swap := Std.OrientedCmp.eq_swap
      isLE_trans := Std.TransCmp.isLE_trans }
  rw [ecmpPathCompare_eq_compareLex]
  infer_instance

lemma ecmpPathCompare_eq_iff {a b : ECMPPath} : ecmpPathCompare a b = .eq ↔ a = b := by
  constructor
  · intro h
    rw [ecmpPathCompare_eq_compareLex] at h
    simp only [compareLex_eq_eq] at h
    obtain ⟨haddr, hiface, hlink, hweight, hlabels⟩ := h
    have haddr : a.nextHop = b.nextHop := Addr.cmp_eq_iff.1 haddr
    have hiface : a.interface = b.interface := Std.LawfulEqOrd.eq_of_compare hiface
    have hlink : b.onLink = a.onLink := Std.LawfulEqOrd.eq_of_compare hlink
    have hweight : a.weight = b.weight := Std.LawfulEqOrd.eq_of_compare hweight
    have hlabels : a.labels = b.labels := Std.LawfulEqOrd.eq_of_compare hlabels
    cases a
    cases b
    simp_all
  · rintro rfl
    exact Std.ReflCmp.compare_self

/-- A sort of group members: some arrangement of the list in ascending order. Members that compare
equal and differ in their SID may come in either order.
Source: Go, slices.SortFunc with ecmpPathCompare -/
structure PathSort where
  sort : List ForwardingPath → List ForwardingPath
  perm : ∀ paths, (sort paths).Perm paths
  ascending : ∀ paths, (sort paths).Pairwise fun a b =>
    ecmpPathCompare a.toECMPPath b.toECMPPath ≠ .gt

def PathSort.insertion : PathSort where
  sort := List.insertionSort fun a b => ecmpPathCompare a.toECMPPath b.toECMPPath ≠ .gt
  perm := List.perm_insertionSort _
  ascending := by
    have htotal : Std.Total fun a b : ForwardingPath =>
        ecmpPathCompare a.toECMPPath b.toECMPPath ≠ .gt := by
      refine ⟨fun a b => ?_⟩
      have hswap : ecmpPathCompare b.toECMPPath a.toECMPPath =
          (ecmpPathCompare a.toECMPPath b.toECMPPath).swap := Std.OrientedCmp.eq_swap
      rw [hswap]
      cases ecmpPathCompare a.toECMPPath b.toECMPPath <;> simp
    have htrans : IsTrans ForwardingPath fun a b =>
        ecmpPathCompare a.toECMPPath b.toECMPPath ≠ .gt :=
      ⟨fun _ _ _ => Std.TransCmp.le_trans⟩
    exact List.pairwise_insertionSort _

/-- What a computation reads beside the state: the Loc-RIB if one is wired, and the choices that the
language leaves open.
Source: sysrib.go getNHResolver -/
structure Env where
  lpm : Option Lpm
  range : RangeOrder String
  sort : PathSort

/-- Keeps the first of adjacent members with one gateway and device; `last` is the one kept last.
Source: dedupECMP, the loop -/
def dedupFrom (last : ForwardingPath) : List ForwardingPath → List ForwardingPath
  | [] => []
  | p :: ps =>
    if p.nextHop = last.nextHop ∧ p.interface = last.interface then dedupFrom last ps
    else p :: dedupFrom p ps

def dedupECMP : List ForwardingPath → List ForwardingPath
  | [] => []
  | p :: ps => p :: dedupFrom p ps

/-- Source: events.go. -/
def maxECMPPaths : ℕ := 128

def finishECMP (sort : PathSort) (paths : List ForwardingPath) : List ForwardingPath :=
  (dedupECMP (sort.sort paths)).take (maxECMPPaths - 1)

def ecmpPaths (paths : List ForwardingPath) : List ECMPPath := paths.map (·.toECMPPath)

/-- The targets equal in cost to the winner: routes of other protocols that `permits` accepts, then
the siblings of the winner's own route. A route is told from the winner by its protocol, the key it
is stored under.
Source: ecmpGroup, the two loops -/
def groupMembers (range : RangeOrder String) (permits : String → Bool)
    (protocols : Finmap fun _ : String => ProtocolRoute) (winner : ProtocolRoute) :
    List ForwardingPath :=
  let others := (range.values protocols).filter fun route =>
    route.protocol != winner.protocol && route.priority == winner.priority &&
      route.metric == winner.metric && namesATarget route.nextHop route.nextHopInterface &&
      permits route.protocol
  let siblings := winner.ecmpNextHops.filter fun nh =>
    !sameTarget nh winner && namesATarget nh.addr nh.interface
  others.map (fun route => memberPath route route.target) ++ siblings.map (memberPath winner)

def ecmpGroup (env : Env) (permits : String → Bool)
    (protocols : Finmap fun _ : String => ProtocolRoute) (winner : ProtocolRoute) :
    List ForwardingPath :=
  finishECMP env.sort (groupMembers env.range permits protocols winner)

/-- Source: sysrib.go. -/
def resolveMember (lpm : Lpm) (path : ForwardingPath) : Option ForwardingPath :=
  if !path.nextHop.isValid then if path.interface ≠ "" then some path else none
  else if path.onLink then some path
  else
    let resolved := resolve lpm path.nextHop
    if !resolved.resolved then none
    else some { path with
      nextHop := resolved.directNH
      interface := if path.interface = "" then resolved.interface else path.interface
      onLink := resolved.onLink }

def backupPaths (route : ProtocolRoute) : List ECMPPath :=
  if !route.backupNextHop.isValid then []
  else [⟨route.backupNextHop, route.backupInterface, route.backupOnLink, 1, route.backupLabels⟩]

/-- Two groups differ, in whatever order they are listed. -/
def ecmpChanged (a b : List ECMPPath) : Bool :=
  if a.length ≠ b.length then true
  else
    a.mergeSort (fun x y => ecmpPathCompare x y != .gt) !=
      b.mergeSort fun x y => ecmpPathCompare x y != .gt

/-- The entry that programs a prefix: what the prefix owns from the route that won it, what the path
owns from the next-hop that carries the traffic. Source: fibimport.go. -/
def fibChange (route : ProtocolRoute) (path : ForwardingPath) (group : List ForwardingPath) :
    FibEntry where
  nextHop := path.nextHop
  interface := path.interface
  onLink := path.onLink
  weight := path.weight
  protocol := route.protocol
  labels := path.labels
  routeType := route.routeType
  metric := route.metric
  srv6SID := path.srv6SID
  ecmpPaths := ecmpPaths group
  backup := backupPaths route

end Ze.SysRib
