import Ze.LocRib.Path

/-!
# The validation gate of the Adj-RIB-In

`AdjRIBInManager` of `adj_rib_in/rib.go` with its validation gate (`rib_validation.go`) and the
selection query (`rib_eligibility.go`). A received unicast or multicast route waits in `pending` for
the decision that names its UPDATE; an earlier decision is kept in `earlyDecisions`; a route that
waits for too long is installed unvalidated.

A sweep treats every entry on its own, so the order of the map range is left out, with the sequence
numbers of the store. `admitMutation` is not modelled: `terminal` is a field that no step changes.

Default file: `rib_validation.go`.
-/

namespace Ze.AdjRibIn

open Ze.Net
open Ze.LocRib (Family)
open Function (update)

/-! ## Keys, routes and decisions -/

def ipv4Unicast : Family := ⟨1, 1⟩

/-- Source: nlri_hex.go. -/
def isSimplePrefixFamily (fam : Family) : Bool :=
  decide (fam ∈ ([⟨1, 1⟩, ⟨1, 2⟩, ⟨2, 1⟩, ⟨2, 2⟩] : List Family))

def isFlowSpec (fam : Family) : Bool := fam.safi == 133 || fam.safi == 134

/-- Source: compact_key.go compactRouteKey. -/
structure RouteKey where
  fam : Family
  pathID : UInt32
  pfx : Prefix
  nlri : List UInt8
deriving DecidableEq, Repr

/-- A route of a peer. Source: compact_key.go compactPendingKey. -/
structure PendingKey where
  peerAddr : Addr
  route : RouteKey
deriving DecidableEq, Repr

/-- Source: rib.go. -/
structure RawRoute where
  family : Family
  attrHex : String
  nhopHex : String
  nlriHex : String
  pathID : UInt32
  hasPathID : Bool
  validationState : UInt8
  ineligible : Bool
  msgID : ℕ
  sourcePolicyEpoch : ℕ
deriving DecidableEq, Repr

def validationNotValidated : UInt8 := 0

/-- Source: pendingRoute; its key is the key it is stored under. -/
structure PendingRoute where
  route : RawRoute
  receivedAt : ℕ
deriving DecidableEq, Repr

/-- Source: pkg/plugin/rpc/bridge.go ValidationDecision; the route it names is given apart. -/
structure ValidationDecision where
  accept : Bool
  ineligible : Bool
  valState : UInt8
  msgID : ℕ
deriving DecidableEq, Repr

def ValidationDecision.Accepts (d : ValidationDecision) : Prop :=
  d.accept = true ∧ d.ineligible = false

instance (d : ValidationDecision) : Decidable d.Accepts := inferInstanceAs (Decidable (_ ∧ _))

inductive EarlyAction
  | accept
  | reject
  | ineligible
deriving DecidableEq, Repr

structure EarlyDecision where
  action : EarlyAction
  state : UInt8
  msgID : ℕ
  receivedAt : ℕ
deriving DecidableEq, Repr

/-- Source: rib.go AdjRIBInManager, what the gate and the query read. -/
structure Manager where
  ribIn : PendingKey → Option RawRoute
  pending : PendingKey → Option PendingRoute
  earlyDecisions : PendingKey → Option EarlyDecision
  validationEnabled : Bool
  validationTimeout : ℕ
  policyDenied : Addr → Option ℕ
  terminal : Bool

def second : ℕ := 1000000000

def defaultValidationTimeout : ℕ := 30 * second

def earlyDecisionTimeout : ℕ := 60 * second

namespace Manager

/-! ## Decisions -/

def removeInstalled (r : Manager) (key : PendingKey) : Manager :=
  { r with ribIn := update r.ribIn key none }

def promoteToInstalled (r : Manager) (key : PendingKey) (pr : PendingRoute)
    (validationState : UInt8) : Manager :=
  { r with
    ribIn := update r.ribIn key
      (some { pr.route with validationState := validationState }) }

def storeEarlyDecision (r : Manager) (key : PendingKey) (d : ValidationDecision) (now : ℕ) :
    Manager :=
  if (r.earlyDecisions key).any fun old => decide (d.msgID ≠ 0 ∧ d.msgID < old.msgID) then r
  else
    let action := if d.ineligible then .ineligible else if d.accept then .accept else .reject
    { r with
      earlyDecisions := update r.earlyDecisions key
        (some ⟨action, d.valState, d.msgID, now⟩) }

/-- Applies a decision to an installed route; `false` when it has to wait for its route. -/
def applyToInstalled (r : Manager) (key : PendingKey) (d : ValidationDecision) : Manager × Bool :=
  match r.ribIn key with
  | none => (r, false)
  | some route =>
    if d.msgID ≠ 0 ∧ d.msgID ≠ route.msgID then
      if d.msgID < route.msgID then (r, true)
      else
        ({ r with ribIn := update r.ribIn key (some { route with ineligible := true }) }, false)
    else if ¬ d.accept ∧ ¬ d.ineligible then (r.removeInstalled key, true)
    else
      ({ r with
          ribIn := update r.ribIn key
            (some { route with validationState := d.valState, ineligible := d.ineligible }) }, true)

def applyDecision (r : Manager) (key : PendingKey) (d : ValidationDecision) (now : ℕ) :
    Manager × Bool :=
  if ¬ r.validationEnabled ∨ ¬ isSimplePrefixFamily key.route.fam then (r, false)
  else if (r.earlyDecisions key).any fun newer => decide (d.msgID ≠ 0 ∧ d.msgID < newer.msgID) then
    (r, false)
  else match r.pending key with
    | some pr =>
      if d.msgID ≠ 0 ∧ d.msgID ≠ pr.route.msgID then
        if d.msgID < pr.route.msgID then (r, false) else (r.storeEarlyDecision key d now, true)
      else
        let r := { r with pending := update r.pending key none }
        if d.accept ∨ d.ineligible then
          (r.promoteToInstalled key { pr with route := { pr.route with ineligible :=
            d.ineligible } }
            d.valState, false)
        else (r.removeInstalled key, false)
    | none =>
      match r.applyToInstalled key d with
      | (r, true) => (r, false)
      | (r, false) => (r.storeEarlyDecision key d now, true)

/-! ## The sweeps -/

/-- The wait of a pending route. Source: sweepExpiredPending. -/
def timeout (r : Manager) : ℕ :=
  if r.validationTimeout = 0 then defaultValidationTimeout else r.validationTimeout

/-- A sweep installs this pending route: its time is over, and no decision about a later UPDATE
waits for it to go.
Source: sweepExpiredPending, the body of its loop -/
def Expires (r : Manager) (now : ℕ) (key : PendingKey) (pr : PendingRoute) : Prop :=
  r.timeout < now - pr.receivedAt ∧
    ∀ ed ∈ r.earlyDecisions key, ed.msgID ≤ pr.route.msgID

instance (r : Manager) (now : ℕ) (key : PendingKey) (pr : PendingRoute) :
    Decidable (r.Expires now key pr) :=
  inferInstanceAs (Decidable (_ ∧ _))

/-- The pending route that a sweep installs. Source: sweepExpiredPending. -/
def expired (r : Manager) (now : ℕ) (key : PendingKey) : Option PendingRoute :=
  (r.pending key).filter fun pr => decide (r.Expires now key pr)

def sweepExpiredPending (r : Manager) (now : ℕ) : Manager :=
  { r with
    ribIn := fun key => match r.expired now key with
      | some pr => some { pr.route with validationState := validationNotValidated }
      | none => r.ribIn key
    pending := fun key => match r.expired now key with
      | some _ => none
      | none => r.pending key }

/-- A decision about an UPDATE later than the route held for the key.
Source: sweepExpiredEarlyDecisions. -/
def HasPredecessor (r : Manager) (key : PendingKey) (ed : EarlyDecision) : Prop :=
  (∃ pr ∈ r.pending key, pr.route.msgID < ed.msgID) ∨
    ∃ route ∈ r.ribIn key, route.msgID < ed.msgID

instance (r : Manager) (key : PendingKey) (ed : EarlyDecision) :
    Decidable (r.HasPredecessor key ed) :=
  inferInstanceAs (Decidable (_ ∨ _))

def sweepExpiredEarlyDecisions (r : Manager) (now : ℕ) : Manager :=
  { r with earlyDecisions := fun key => (r.earlyDecisions key).filter fun ed =>
      decide (now - ed.receivedAt ≤ earlyDecisionTimeout ∨ r.HasPredecessor key ed) }

/-- One tick of the scanner. Source: runTimeoutScanner. -/
def sweep (r : Manager) (now : ℕ) : Manager :=
  (r.sweepExpiredPending now).sweepExpiredEarlyDecisions now

/-! ## UPDATEs -/

def removePending (r : Manager) (key : PendingKey) : Manager :=
  { r with
    pending := update r.pending key none
    earlyDecisions := update r.earlyDecisions key none }

/-- One withdrawn NLRI. Source: rib.go removeStructuredNLRIs, rib_complex.go
removeComplexNLRIs. -/
def removeNLRI (r : Manager) (key : PendingKey) : Manager :=
  (r.removePending key).removeInstalled key

/-- Applies a buffered decision to a route that arrives; `false` when it has to wait. -/
def applyEarlyDecision (r : Manager) (key : PendingKey) (pr : PendingRoute) : Manager × Bool :=
  let r := { r with pending := update r.pending key none }
  match r.earlyDecisions key with
  | none => (r, false)
  | some ed =>
    let dropped := { r with earlyDecisions := update r.earlyDecisions key none }
    if ed.msgID ≠ 0 ∧ ed.msgID ≠ pr.route.msgID then
      (if ed.msgID < pr.route.msgID then dropped else r, false)
    else match ed.action with
      | .accept => (dropped.promoteToInstalled key pr ed.state, true)
      | .ineligible =>
        (dropped.promoteToInstalled key { pr with route := { pr.route with ineligible := true } }
          ed.state, true)
      | .reject => (dropped.removeInstalled key, true)

/-- One announced NLRI: its path identifier, the prefix or the identity that names the route, and
its bytes. -/
structure NLRI where
  pathID : UInt32
  pfx : Prefix
  identity : List UInt8
  nlriHex : String
deriving DecidableEq, Repr

/-- The NLRI of one family in an UPDATE: the body, or MP_REACH_NLRI. -/
structure Announcement where
  fam : Family
  nhopHex : String
  addPath : Bool
  nlris : List NLRI
deriving DecidableEq, Repr

/-- Source: rib.go routeKeyFromWire, rib_complex.go routeKeyFromNLRI. -/
def NLRI.key (fam : Family) (n : NLRI) : RouteKey := ⟨fam, n.pathID, n.pfx, n.identity⟩

/-- A received UPDATE, its NLRI sections parsed.
Source: rib.go handleReceivedStructured, what it reads of the event -/
structure Update where
  peer : Addr
  msgID : ℕ
  sourcePolicyEpoch : ℕ
  attrHex : String
  withdrawn : List RouteKey
  mpUnreach : List RouteKey
  nlri : Announcement
  mpReach : Announcement
deriving DecidableEq, Repr

/-- The route made of one announced NLRI. Source: rib.go installStructuredNLRIs. -/
def newRoute (u : Update) (a : Announcement) (n : NLRI) : RawRoute where
  family := a.fam
  attrHex := u.attrHex
  nhopHex := a.nhopHex
  nlriHex := n.nlriHex
  pathID := n.pathID
  hasPathID := a.addPath
  validationState := 0
  ineligible := false
  msgID := u.msgID
  sourcePolicyEpoch := u.sourcePolicyEpoch

/-- One announced NLRI. Source: rib.go installStructuredNLRIs, rib_complex.go
installComplexNLRIs, the bodies of their loops. -/
def installNLRI (u : Update) (a : Announcement) (now : ℕ) (r : Manager) (n : NLRI) : Manager :=
  let key : PendingKey := ⟨u.peer, n.key a.fam⟩
  let route := newRoute u a n
  if r.validationEnabled ∧ isSimplePrefixFamily a.fam then
    let pr : PendingRoute := ⟨route, now⟩
    match (r.removeInstalled key).applyEarlyDecision key pr with
    | (r, true) => r
    | (r, false) => { r with pending := update r.pending key (some pr) }
  else { r with ribIn := update r.ribIn key (some route) }

/-- Source: rib.go installStructuredNLRIs, rib_complex.go installComplexNLRIs. -/
def installNLRIs (r : Manager) (u : Update) (a : Announcement) (now : ℕ) : Manager :=
  if u.attrHex = "" ∨ a.nhopHex = "" then r else a.nlris.foldl (installNLRI u a now) r

/-- Withdrawals first, then announcements. Source: rib.go handleReceivedStructured. -/
def handleReceived (r : Manager) (u : Update) (now : ℕ) : Manager :=
  let r := u.withdrawn.foldl (fun r k => r.removeNLRI ⟨u.peer, k⟩) r
  let r := u.mpUnreach.foldl (fun r k => r.removeNLRI ⟨u.peer, k⟩) r
  let r := r.installNLRIs u u.nlri now
  r.installNLRIs u u.mpReach now

/-! ## The query -/

/-- Source: source_policy.go sourcePolicyDeniedLocked. -/
def sourcePolicyDenied (r : Manager) (peer : Addr) (epoch : ℕ) : Bool :=
  (r.policyDenied peer).any fun bound => decide (epoch ≤ bound)

/-- Whether selection may use the route; `msgID` is the UPDATE the caller asks about, 0 for any.
Source: rib_eligibility.go. -/
def routeEligible (r : Manager) (key : PendingKey) (msgID : ℕ) : Bool :=
  if r.terminal then false
  else if isFlowSpec key.route.fam then true
  else if (r.pending key).isSome then false
  else match r.ribIn key with
    | none => false
    | some route =>
      if r.sourcePolicyDenied key.peerAddr route.sourcePolicyEpoch then false
      else if (r.earlyDecisions key).any fun newer => decide (route.msgID < newer.msgID) then false
      else if r.validationEnabled && route.ineligible then false
      else if msgID ≠ 0 then decide (route.msgID = msgID)
      else true

end Manager

end Ze.AdjRibIn
