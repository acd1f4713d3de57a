import Ze.SysRib.State

/-!
# The kernel FIB writer

`fibKernel` of `plugins/fib/kernel/fibkernel.go` with its Linux backend (`backend_linux.go`,
`nexthop_linux.go`): it takes the batches of best changes the system RIB publishes and programs
one kernel route for each prefix. The route table of the OS is a parameter, `RouteTable`.

Reports, log lines and metrics are left out.

Default file: `fibkernel.go`.
-/

namespace Ze.Fib

open Ze.LocRib (Family)
open Ze.Net (Addr Prefix)
open Ze.SysRib (ECMPPath FibEntry RouteAction)

/-! ## Data -/

/-- Source: events.go. -/
structure BestChangeEntry extends FibEntry where
  action : RouteAction
  pfx : Prefix
  tableID : UInt32 := 0
  deriving DecidableEq, Repr

/-- The changes of one family. `ReplayID` is not read by the writer. Source: events.go. -/
structure BestChangeBatch where
  family : Family
  changes : List BestChangeEntry
  deriving DecidableEq, Repr

inductive Verb where
  | skip
  | install
  | replace
  | remove
  deriving DecidableEq, Repr

def verb : RouteAction → Verb
  | .add => .install
  | .update => .replace
  | .withdraw => .remove
  | .del => .remove
  | .unspecified => .skip

/-- Source: richroute.go RichRoute; PathMTU is zero for every best change. -/
structure RichRoute where
  pfx : Prefix
  nextHop : Addr := .zero
  interface : String := ""
  onLink : Bool := false
  weight : UInt8 := 0
  routeType : UInt8 := 0
  metric : UInt32 := 0
  tableID : UInt32 := 0
  labels : List UInt32 := []
  srv6SID : Addr := .zero
  ecmpPaths : List ECMPPath := []
  backup : List ECMPPath := []
  deriving DecidableEq, Repr

def hasRichFields (c : BestChangeEntry) : Bool :=
  c.routeType != 0 || c.metric != 0 || c.tableID != 0 || c.interface != "" || c.onLink ||
    c.weight != 0 || !c.ecmpPaths.isEmpty || !c.labels.isEmpty || c.srv6SID.isValid ||
    !c.backup.isEmpty

def changeToRichRoute (c : BestChangeEntry) : RichRoute where
  pfx := c.pfx
  nextHop := c.nextHop
  interface := c.interface
  onLink := c.onLink
  weight := c.weight
  routeType := c.routeType
  metric := c.metric
  tableID := c.tableID
  labels := c.labels
  srv6SID := c.srv6SID
  ecmpPaths := c.ecmpPaths
  backup := c.backup

inductive Error where
  /-- Source: mpls.go errMPLSEmptyLabelStack -/
  | emptyLabelStack
  /-- Source: mpls.go, "label stack depth exceeds limit" -/
  | stackDepth (depth : ℕ)
  /-- Source: mpls.go, "label exceeds 20-bit maximum" -/
  | labelRange (label : UInt32)
  /-- The route could not be built. -/
  | refused
  /-- Source: unix.EEXIST -/
  | exist
  /-- Source: unix.ESRCH -/
  | noRoute
  deriving DecidableEq, Repr

def maxLabelStack : ℕ := 16

/-- Source: mpls.go. -/
def maxMPLSLabel : UInt32 := 1048575

/-- Source: mpls.go. -/
def validateMPLSLabels (labels : List UInt32) : Except Error Unit :=
  if labels.isEmpty then .error .emptyLabelStack
  else if labels.length > maxLabelStack then .error (.stackDepth labels.length)
  else
    match labels.find? fun l => l > maxMPLSLabel with
    | some l => .error (.labelRange l)
    | none => .ok ()

/-! ## The kernel -/

/-- The protocol number of the writer's routes. Source: rtproto.go FIBKernel. -/
def rtprotZE : ℕ := 250

/-- Source: unix.RT_TABLE_MAIN. -/
def rtTableMain : ℕ := 254

/-- A route of the kernel: its slot, the protocol that owns it, and what was programmed.
Source: netlink.Route -/
structure KernelRoute where
  dst : Prefix
  table : ℕ
  priority : ℕ
  protocol : ℕ
  program : RichRoute
  deriving DecidableEq, Repr

namespace KernelRoute

def sameDst (r c : KernelRoute) : Bool := c.dst == r.dst && c.table == r.table

def sameSlot (r c : KernelRoute) : Bool := r.sameDst c && c.priority == r.priority

end KernelRoute

/-- An IPv4 destination, in 4 bytes or mapped. Source: net IP.To4. -/
def isV4 : Addr → Bool
  | .zero => false
  | .v4 _ => true
  | .v6 bits _ => bits >>> 32 == 0xFFFF#128

/-- The route a request asks for: `ParseCIDR` masks the destination, table zero is the main one, and
an IPv6 route without a metric gets the kernel's default.
Source: nexthop_linux.go buildRichRoute, backend_linux.go buildRoute, replaceOwnedRoute -/
def buildRichRoute (r : RichRoute) : KernelRoute where
  dst := r.pfx.masked
  table := if r.tableID = 0 then rtTableMain else r.tableID.toNat
  priority := if !isV4 r.pfx.masked.addr && r.metric == 0 then 1024 else r.metric.toNat
  protocol := rtprotZE
  program := r

/-- What a call of the writer meets: which routes can be built, and the clock. -/
structure Env where
  takes : RichRoute → Bool
  now : ℕ

/-- What a delete request names; a request without a priority takes any. Source: netlink.Route -/
structure RouteQuery where
  dst : Prefix
  table : ℕ
  protocol : ℕ
  priority : Option ℕ := none

def RouteQuery.names (q : RouteQuery) (c : KernelRoute) : Bool :=
  c.dst == q.dst && c.table == q.table && c.protocol == q.protocol &&
    q.priority.all (· == c.priority)

/-- The route table of the OS, by the calls the backend makes of it.
Source: netlink Handle -/
structure RouteTable (σ : Type) where
  routeList : σ → List KernelRoute
  routeAdd : σ → KernelRoute → Except Error σ
  routeReplace : σ → KernelRoute → Except Error σ
  routeDel : σ → RouteQuery → Except Error σ

/-- What the backend relies on: an add is exclusive and installs the route, a replace puts the route
in the place of one in its slot, whoever owns that, and a delete removes one route that it names.
Source: routeBackend, replaceOwnedRoute, the comments -/
structure RouteTable.Documented {σ : Type} (os : RouteTable σ) : Prop where
  add : ∀ t t' r, os.routeAdd t r = .ok t' →
    (∀ c ∈ os.routeList t, r.sameSlot c = false) ∧ (os.routeList t').Perm (r :: os.routeList t)
  replace : ∀ t t' r, os.routeReplace t r = .ok t' → (∃ c ∈ os.routeList t, r.sameSlot c = true) →
    ∃ c rest, r.sameSlot c = true ∧ (os.routeList t).Perm (c :: rest) ∧
      (os.routeList t').Perm (r :: rest)
  del : ∀ t t' q, os.routeDel t q = .ok t' →
    ∃ c, q.names c = true ∧ (os.routeList t).Perm (c :: os.routeList t')

/-- The backend: its kernel, and whether it implements `richRouteBackend`.
Source: fibkernel.go routeBackend, richroute.go richRouteBackend -/
structure Backend (σ : Type) where
  rich : Bool := true
  routes : σ

section

variable {σ : Type} (os : RouteTable σ)

/-- One turn of the loop that removes what another priority has superseded.
Source: replaceOwnedRoute -/
def removeSuperseded (r : KernelRoute) (t : σ) (c : KernelRoute) : Except Error σ :=
  if c.protocol == rtprotZE && c.priority != r.priority then
    os.routeDel t ⟨c.dst, c.table, c.protocol, some c.priority⟩
  else .ok t

/-- The routes to the destination are listed once, before the write. A delete that fails leaves the
deletes before it done; here, as everywhere, a call that fails keeps the old state. -/
def replaceOwnedRoute (t : σ) (r : KernelRoute) : Except Error σ :=
  let current := (os.routeList t).filter r.sameDst
  if current.any fun c => c.priority == r.priority && c.protocol != rtprotZE then .error .exist
  else
    (if current.any (·.priority == r.priority) then os.routeReplace t r else os.routeAdd t r) >>=
      fun t => current.foldlM (removeSuperseded os r) t

namespace Backend

def addRichRoute (b : Backend σ) (env : Env) (r : RichRoute) : Except Error (Backend σ) :=
  if env.takes r then
    (os.routeAdd b.routes (buildRichRoute r)).map fun routes => { b with routes := routes }
  else .error .refused

def replaceRichRoute (b : Backend σ) (env : Env) (r : RichRoute) : Except Error (Backend σ) :=
  if env.takes r then
    (replaceOwnedRoute os b.routes (buildRichRoute r)).map fun routes => { b with routes := routes }
  else .error .refused

def delRichRoute (b : Backend σ) (pfx : Prefix) (tableID : UInt32) : Except Error (Backend σ) :=
  (os.routeDel b.routes
    ⟨pfx.masked, if tableID = 0 then rtTableMain else tableID.toNat, rtprotZE, none⟩).map
    fun routes => { b with routes := routes }

/-- A prefix and a gateway, nothing else. Source: backend_linux.go. -/
def addRoute (b : Backend σ) (env : Env) (pfx : Prefix) (nextHop : Addr) :
    Except Error (Backend σ) :=
  b.addRichRoute os env { pfx := pfx, nextHop := nextHop }

def replaceRoute (b : Backend σ) (env : Env) (pfx : Prefix) (nextHop : Addr) :
    Except Error (Backend σ) :=
  b.replaceRichRoute os env { pfx := pfx, nextHop := nextHop }

def delRoute (b : Backend σ) (pfx : Prefix) : Except Error (Backend σ) := b.delRichRoute os pfx 0

end Backend

/-! ## The writer -/

/-- Source: fibKernel; mplsSwaps is not touched by best changes. -/
structure FibKernel (σ : Type) where
  installed : Finmap fun _ : Prefix => Addr
  forwarding : Finmap fun _ : Prefix => BestChangeEntry
  retained : Finset Prefix
  mplsInstalled : Finset Prefix
  pending : Finmap fun _ : Prefix => ℕ
  backend : Backend σ
  stopped : Bool

namespace FibKernel

/-- Source: newFIBKernel. -/
def new (backend : Backend σ) : FibKernel σ where
  installed := ∅
  forwarding := ∅
  retained := ∅
  mplsInstalled := ∅
  pending := ∅
  backend := backend
  stopped := false

/-- The writer has a route of its own for the prefix.
Source: addChange, replaceChange, the first test -/
def owns (f : FibKernel σ) (pfx : Prefix) : Bool :=
  (f.installed.lookup pfx).isSome || decide (pfx ∈ f.retained)

/-- Source: addChange, replaceChange, the label test. -/
def checkLabels (c : BestChangeEntry) : Except Error Unit :=
  if c.labels.isEmpty then .ok () else validateMPLSLabels c.labels

/-- Source: addChange after its first test. -/
def addOwn (f : FibKernel σ) (env : Env) (c : BestChangeEntry) : Except Error (Backend σ) := do
  checkLabels c
  if f.backend.rich && hasRichFields c then f.backend.addRichRoute os env (changeToRichRoute c)
  else f.backend.addRoute os env c.pfx c.nextHop

/-- Source: replaceChange after its first test. -/
def replaceOwn (f : FibKernel σ) (env : Env) (c : BestChangeEntry) : Except Error (Backend σ) := do
  checkLabels c
  if f.backend.rich && hasRichFields c then f.backend.replaceRichRoute os env (changeToRichRoute c)
  else f.backend.replaceRoute os env c.pfx c.nextHop

/-- An add of a prefix the writer owns replaces; `replaceChange` does not come back to it. -/
def addChange (f : FibKernel σ) (env : Env) (c : BestChangeEntry) : Except Error (Backend σ) :=
  if f.owns c.pfx then f.replaceOwn os env c else f.addOwn os env c

/-- A replace of a prefix the writer does not own is an exclusive add. -/
def replaceChange (f : FibKernel σ) (env : Env) (c : BestChangeEntry) : Except Error (Backend σ) :=
  if !f.owns c.pfx then f.addOwn os env c else f.replaceOwn os env c

def delChange (f : FibKernel σ) (c : BestChangeEntry) : Except Error (Backend σ) :=
  if f.backend.rich then f.backend.delRichRoute os c.pfx c.tableID else f.backend.delRoute os c.pfx

def maxPendingEntries : ℕ := 10000

/-- Source: trackPendingLocked. -/
def trackPending (f : FibKernel σ) (pfx : Prefix) (now : ℕ) : FibKernel σ :=
  if (f.pending.lookup pfx).isSome then f
  else if f.pending.keys.card ≥ maxPendingEntries then f
  else { f with pending := f.pending.insert pfx now }

/-- The route is in the kernel: what install and replace both record. Source: processEvent -/
def recordProgrammed (f : FibKernel σ) (c : BestChangeEntry) (b : Backend σ) : FibKernel σ :=
  { f with
    backend := b
    installed := f.installed.insert c.pfx c.nextHop
    forwarding := f.forwarding.insert c.pfx c
    retained := f.retained.erase c.pfx
    pending := f.pending.erase c.pfx }

/-- One change of a batch. An install never takes a prefix out of `mplsInstalled`; a replace does.
Source: processEvent, the loop body -/
def processChange (env : Env) (f : FibKernel σ) (c : BestChangeEntry) : FibKernel σ :=
  if !c.pfx.isValid then f
  else
    match verb c.action with
    | .install =>
      match f.addChange os env c with
      | .error _ => f.trackPending c.pfx env.now
      | .ok b =>
        { f.recordProgrammed c b with
          mplsInstalled :=
            if c.labels.isEmpty then f.mplsInstalled else insert c.pfx f.mplsInstalled }
    | .replace =>
      match f.replaceChange os env c with
      | .error _ => f.trackPending c.pfx env.now
      | .ok b =>
        { f.recordProgrammed c b with
          mplsInstalled :=
            if c.labels.isEmpty then f.mplsInstalled.erase c.pfx
            else insert c.pfx f.mplsInstalled }
    | .remove =>
      match f.delChange os c with
      | .error _ => f
      | .ok b =>
        { f with
          backend := b
          installed := f.installed.erase c.pfx
          forwarding := f.forwarding.erase c.pfx
          retained := f.retained.erase c.pfx
          pending := f.pending.erase c.pfx
          mplsInstalled := f.mplsInstalled.erase c.pfx }
    | .skip => f

def processEvent (env : Env) (f : FibKernel σ) (batch : BestChangeBatch) : FibKernel σ :=
  if f.stopped then f else batch.changes.foldl (processChange os env) f

/-- The call the change makes returns no error. Source: processEvent, the three error tests -/
def succeeds (f : FibKernel σ) (env : Env) (c : BestChangeEntry) : Bool :=
  match verb c.action with
  | .install => (f.addChange os env c).isOk
  | .replace => (f.replaceChange os env c).isOk
  | .remove => (f.delChange os c).isOk
  | .skip => true

/-- Every call the changes make returns no error. Source: processEvent -/
def Succeed (env : Env) : FibKernel σ → List BestChangeEntry → Prop
  | _, [] => True
  | f, c :: cs => f.succeeds os env c = true ∧ Succeed env (f.processChange os env c) cs

instance decidableSucceed (env : Env) : (f : FibKernel σ) → (cs : List BestChangeEntry) →
    Decidable (Succeed os env f cs)
  | _, [] => isTrue trivial
  | f, c :: cs =>
    have := decidableSucceed env (f.processChange os env c) cs
    inferInstanceAs (Decidable (_ ∧ _))

end FibKernel

end

end Ze.Fib
