import Ze.Lib.Run
import Mathlib.Algebra.Order.Ring.Int

/-!
# The Database Description exchange

How an OSPF router describes its database to a neighbor (`neighbor/dd.go`, `lsreq.go`, `nsm.go` and
the exchange part of `table.go`). The databases do not change during an exchange. `processed` is not
in the source: it records the headers met since the exchange began.
-/

namespace Ze.OspfNeighbor

/-! ## Data -/

/-- Source: types: RouterID. -/
structure RouterID where
  a : BitVec 8
  b : BitVec 8
  c : BitVec 8
  d : BitVec 8
  deriving DecidableEq, Repr, Inhabited

/-- Source: types: RouterID, a range over it. -/
def RouterID.octets (r : RouterID) : List (BitVec 8) := [r.a, r.b, r.c, r.d]

/-- Source: types: LSAKey. -/
structure LSAKey where
  type : BitVec 16
  linkStateID : BitVec 32
  advertisingRouter : RouterID
  deriving DecidableEq, Repr, Inhabited

/-- Source: types: LSAHeader. -/
structure LSAHeader where
  age : BitVec 16 := 0#16
  options : BitVec 32 := 0#32
  type : BitVec 16
  linkStateID : BitVec 32
  advertisingRouter : RouterID
  sequence : BitVec 32
  checksum : BitVec 16 := 0#16
  length : BitVec 16 := 20#16
  deriving DecidableEq, Repr, Inhabited

/-- Source: types: LSAHeader.Key. -/
def LSAHeader.key (h : LSAHeader) : LSAKey := ⟨h.type, h.linkStateID, h.advertisingRouter⟩

/-- Source: packet: DDFlagInit, DDFlagMore, DDFlagMaster; no other flag is set or read. -/
structure Flags where
  init : Bool := false
  more : Bool := false
  master : Bool := false
  deriving DecidableEq, Repr, Inhabited

/-- Source: types: DBDesc. -/
structure DBDesc where
  interfaceMTU : BitVec 16
  options : BitVec 32
  flags : Flags
  ddSequence : BitVec 32
  headers : List LSAHeader
  deriving DecidableEq, Repr

/-- Source: neighbor.go. -/
inductive State
  | down
  | attempt
  | init
  | twoWay
  | exStart
  | exchange
  | loading
  | full
  deriving DecidableEq, Repr

/-- The order of the states. Source: neighbor.go the iota of state. -/
def State.rank : State → ℕ
  | .down => 0
  | .attempt => 1
  | .init => 2
  | .twoWay => 3
  | .exStart => 4
  | .exchange => 5
  | .loading => 6
  | .full => 7

/-- Source: neighbor.go. -/
structure Neighbor where
  routerID : RouterID
  state : State := .down
  master : Bool := false
  ddSequence : BitVec 32 := 0#32
  options : BitVec 32 := 0#32
  requestList : List LSAHeader := []
  summaryList : List LSAHeader := []
  summaryIndex : ℕ := 0
  lastDD : Option DBDesc := none
  lastSentDD : Option DBDesc := none
  processed : List LSAHeader := []
  deriving DecidableEq, Repr

/-- An interface; `adjacent` is what `shouldAdj` says of the neighbor. Source: neighbor.go
InterfaceConfig; nsm.go shouldAdj. -/
structure InterfaceConfig where
  routerID : RouterID
  interfaceMTU : BitVec 16 := 0#16
  mtuIgnore : Bool := false
  options : BitVec 32 := 0#32
  adjacent : Bool := true
  deriving DecidableEq, Repr

/-- The database as the exchange sees it: the headers that describe it, and the headers it holds.
The stores hold at most 16384 LSAs each (`lsdb.go`: `MaxLSAsPerArea`), far fewer than there are
sequence numbers. Source: table.go databaseSummaryLocked; lsreq.go lookupLSAHeaderLocked.
-/
structure Lsdb where
  summary : List LSAHeader
  lookup : LSAKey → Option LSAHeader
  length_summary : summary.length < 2 ^ 32

/-- A router at its end of a link. Source: table.go Table. -/
structure Router where
  cfg : InterfaceConfig
  lsdb : Lsdb

/-- Why a packet is dropped or an exchange is started over. Source: dd.go the texts that
handleDBDesc returns. -/
inductive Reason
  | none
  | mtuMismatch
  | adjacencyNotReady
  | duplicateDrop
  | duplicateResend
  | negotiation
  | seqNumberMismatch
  | requestListLimit
  deriving DecidableEq, Repr

/-- What handling a packet gives: the neighbor, the packets sent, and the reason. Source: dd.go
handleDBDesc. -/
structure Handled where
  neighbor : Neighbor
  sent : List DBDesc := []
  reason : Reason := .none

/-! ## Router IDs and sequence numbers -/

/-- Source: nsm.go compareRouterID, the loop. -/
def compareOctets : List (BitVec 8) → List (BitVec 8) → ℤ
  | a :: as, b :: bs => if b < a then 1 else if a < b then -1 else compareOctets as bs
  | _, _ => 0

/-- Source: nsm.go. -/
def compareRouterID (a b : RouterID) : ℤ := compareOctets a.octets b.octets

/-- Source: nsm.go. -/
def initialDDSequence (rid : RouterID) : BitVec 32 :=
  let v := rid.a.setWidth 32 <<< 24 ||| rid.b.setWidth 32 <<< 16 ||| rid.c.setWidth 32 <<< 8 |||
    rid.d.setWidth 32
  if v = 0#32 then 1#32 else v

/-! ## Sending -/

/-- Source: neighbor.go. -/
def ospfPayloadLimit (mtu : BitVec 16) : ℕ :=
  if mtu = 0#16 then 65535
  else if mtu.toNat - 20 < 24 then 24
  else min (mtu.toNat - 20) 65535

/-- Source: dd.go. -/
def maxDDHeaders : ℕ := (65535 - 24 - 8) / 20

/-- Source: dd.go. -/
def ddHeaderCapacity (mtu : BitVec 16) : ℕ :=
  let capacity := (ospfPayloadLimit mtu - 24 - 8) / 20
  if capacity < 1 then 1 else if maxDDHeaders < capacity then maxDDHeaders else capacity

/-- The next headers of the summary, and where it goes on. Source: dd.go
nextSummaryHeadersLocked. -/
def nextSummaryHeaders (n : Neighbor) (flags : Flags) (mtu : BitVec 16) : List LSAHeader × ℕ :=
  if flags.init = true ∨ n.summaryList.length ≤ n.summaryIndex then ([], n.summaryIndex)
  else
    let stop := min (n.summaryIndex + ddHeaderCapacity mtu) n.summaryList.length
    ((n.summaryList.drop n.summaryIndex).take (stop - n.summaryIndex), stop)

/-- A packet is sent and kept; its flags are what the source returns. Source: dd.go
sendDBDescLocked. -/
def sendDBDesc (cfg : InterfaceConfig) (n : Neighbor) (flags : Flags) : Neighbor × DBDesc :=
  let flags := { flags with master := flags.master || n.master }
  let next := nextSummaryHeaders n flags cfg.interfaceMTU
  let flags := { flags with
    more := flags.more || (!flags.init && decide (next.2 < n.summaryList.length)) }
  let dd : DBDesc := ⟨cfg.interfaceMTU, cfg.options, flags, n.ddSequence, next.1⟩
  ({ n with summaryIndex := next.2, lastSentDD := some dd }, dd)

/-- Source: dd.go sendInitialDDLocked, the flags. -/
def initialFlags : Flags := ⟨true, true, true⟩

/-- Source: nsm.go startExchange; table.go startExchangeLocked. -/
def startExchange (r : Router) (n : Neighbor) : Neighbor :=
  { n with
    master := decide (0 < compareRouterID r.cfg.routerID n.routerID)
    ddSequence := initialDDSequence r.cfg.routerID
    requestList := []
    lastDD := none
    lastSentDD := none
    summaryList := r.lsdb.summary
    summaryIndex := 0
    processed := [] }

/-- The exchange starts over. Source: dd.go restartExchangeLocked, sendInitialDDLocked and
setStateLocked(n, stateExStart). -/
def restart (r : Router) (n : Neighbor) (reason : Reason) : Handled :=
  let sent := sendDBDesc r.cfg (startExchange r n) initialFlags
  ⟨{ sent.1 with state := .exStart }, [sent.2], reason⟩

/-! ## Requests -/

/-- Source: types: LSAge.Age. -/
def ageOf (age : BitVec 16) : BitVec 16 := age &&& 0x7fff#16

/-- Source: types: LSAge.IsMaxAge. -/
def isMaxAge (age : BitVec 16) : Bool := ageOf age == 3600#16

/-- Source: lsreq.go. -/
def headerNewer (a b : LSAHeader) : Bool :=
  if a.sequence ≠ b.sequence then decide (b.sequence.toInt < a.sequence.toInt)
  else if a.checksum ≠ b.checksum then decide (b.checksum < a.checksum)
  else if isMaxAge a.age ≠ isMaxAge b.age then isMaxAge a.age
  else decide (ageOf a.age < ageOf b.age) && decide (900#16 < ageOf b.age - ageOf a.age)

/-- An LSA is absent from the database or newer than there. Source: lsreq.go
shouldRequestLocked. -/
def Lsdb.shouldRequest (db : Lsdb) (h : LSAHeader) : Bool :=
  match db.lookup h.key with
  | none => true
  | some local' => headerNewer h local'

/-- Source: lsreq.go. -/
def maxRequestList : ℕ := 16384

/-- A header joins the request list, unless its LSA is there; `none` if there is no room. Source:
lsreq.go. -/
def addRequest (requestList : List LSAHeader) (h : LSAHeader) : Option (List LSAHeader) :=
  if requestList.any (fun existing => existing.key == h.key) then some requestList
  else if maxRequestList ≤ requestList.length then none
  else some (requestList ++ [h])

/-- The headers of a packet, one after another; `false` if the request list has no room.
Source: dd.go the loop over dd.Headers. -/
def processHeaders (db : Lsdb) : List LSAHeader → Neighbor → Bool × Neighbor
  | [], n => (true, n)
  | h :: hs, n =>
    let n := { n with processed := n.processed ++ [h] }
    if db.shouldRequest h then
      match addRequest n.requestList h with
      | none => (false, n)
      | some requestList => processHeaders db hs { n with requestList := requestList }
    else processHeaders db hs n

/-! ## Receiving -/

/-- Source: types: OptionO, Options.Has. -/
def hasO (options : BitVec 32) : Bool := options &&& 0x40#32 != 0#32

/-- Source: types: LSType.IsOpaque. -/
def isOpaque (type : BitVec 16) : Bool := type == 9#16 || type == 10#16 || type == 11#16

/-- What a router describes to a neighbor with these options. Source: dd.go
handleExStartDDLocked, the slices.DeleteFunc. -/
def describable (options : BitVec 32) (summary : List LSAHeader) : List LSAHeader :=
  if hasO options then summary else summary.filter fun h => !isOpaque h.type

/-- A packet in ExStart. Source: dd.go handleExStartDDLocked. -/
def handleExStartDD (r : Router) (n : Neighbor) (dd : DBDesc) : Handled :=
  let localMaster := decide (0 < compareRouterID r.cfg.routerID n.routerID)
  if localMaster ∧ (dd.flags.init ∨ dd.flags.master ∨ dd.ddSequence ≠ n.ddSequence) then
    ⟨n, [], .negotiation⟩
  else if ¬ localMaster ∧
      (¬ (dd.flags.init ∧ dd.flags.more ∧ dd.flags.master) ∨ dd.headers.length ≠ 0 ∨
      dd.ddSequence = 0#32) then
    ⟨n, [], .negotiation⟩
  else
    let n := { n with
      ddSequence := if localMaster then n.ddSequence else dd.ddSequence
      master := localMaster
      options := dd.options
      summaryList := describable dd.options n.summaryList
      lastDD := some dd }
    match processHeaders r.lsdb dd.headers n with
    | (false, n) => restart r n .requestListLimit
    | (true, n) =>
      let n := { n with
        state := .exchange
        ddSequence := if n.master then n.ddSequence + 1 else n.ddSequence }
      let sent := sendDBDesc r.cfg n {}
      ⟨sent.1, [sent.2], .none⟩

/-- The exchange is done. Source: dd.go handleExchangeDDLocked, its end; the Link State
Requests are not part of the exchange. -/
def exchangeDone (n : Neighbor) : Neighbor :=
  { n with state := if n.requestList.length = 0 then .full else .loading }

/-- A packet in Exchange. Source: dd.go handleExchangeDDLocked. -/
def handleExchangeDD (r : Router) (n : Neighbor) (dd : DBDesc) : Handled :=
  if dd.flags.init ∨ dd.options ≠ n.options ∨ dd.flags.master = n.master then
    restart r n .seqNumberMismatch
  else if n.master = true ∧ dd.ddSequence ≠ n.ddSequence then restart r n .seqNumberMismatch
  else if n.master = false ∧ dd.ddSequence ≠ n.ddSequence + 1 then restart r n .seqNumberMismatch
  else
    let n := { n with
      ddSequence := if n.master then n.ddSequence else dd.ddSequence
      lastDD := some dd }
    match processHeaders r.lsdb dd.headers n with
    | (false, n) => restart r n .requestListLimit
    | (true, n) =>
      if n.master then
        if dd.flags.more ∨ n.summaryIndex < n.summaryList.length then
          let sent := sendDBDesc r.cfg { n with ddSequence := n.ddSequence + 1 } {}
          ⟨sent.1, [sent.2], .none⟩
        else ⟨exchangeDone n, [], .none⟩
      else
        let sent := sendDBDesc r.cfg n {}
        if dd.flags.more ∨ sent.2.flags.more then ⟨sent.1, [sent.2], .none⟩
        else ⟨exchangeDone sent.1, [sent.2], .none⟩

/-- A packet of a neighbor that is known, whose MTU is not too large. Source: dd.go
handleDBDesc, behind the check of the MTU; table.go twoWayReceivedLocked. -/
def acceptDBDesc (r : Router) (n : Neighbor) (dd : DBDesc) : Handled :=
  let opened : Handled :=
    if n.state = .init then
      if r.cfg.adjacent then restart r n .none else ⟨{ n with state := .twoWay }, [], .none⟩
    else ⟨n, [], .none⟩
  let n := opened.neighbor
  let handled : Handled :=
    if n.state.rank < State.exStart.rank then ⟨n, [], .adjacencyNotReady⟩
    else if n.lastDD = some dd then
      if n.master then ⟨n, [], .duplicateDrop⟩ else ⟨n, n.lastSentDD.toList, .duplicateResend⟩
    else if n.state = .exStart then handleExStartDD r n dd
    else if State.exchange.rank < n.state.rank then restart r n .seqNumberMismatch
    else handleExchangeDD r n dd
  { handled with sent := opened.sent ++ handled.sent }

/-- Source: dd.go. -/
def handleDBDesc (r : Router) (n : Neighbor) (dd : DBDesc) : Handled :=
  if r.cfg.interfaceMTU ≠ 0#16 ∧ r.cfg.interfaceMTU < dd.interfaceMTU ∧ r.cfg.mtuIgnore = false then
    ⟨n, [], .mtuMismatch⟩
  else acceptDBDesc r n dd

/-- Source: table.go Retransmit; dd.go resendLastDDLocked. -/
def retransmit (n : Neighbor) : List DBDesc :=
  if n.state = .exStart ∨ n.state = .exchange then n.lastSentDD.toList else []

/-! ## Two routers -/

/-- One end: the neighbor that a router sees, and the packets on their way to it. -/
structure Party where
  neighbor : Neighbor
  inbox : List DBDesc := []
  deriving DecidableEq, Repr

structure Net where
  left : Party
  right : Party
  deriving DecidableEq, Repr

/-- Source: none: the link. -/
def Net.swap (net : Net) : Net := ⟨net.right, net.left⟩

/-- What can happen at an end: the next packet is delivered, and maybe delivered again, or the timer
fires. -/
inductive Op
  | deliver (again : Bool)
  | retransmit
  deriving DecidableEq, Repr

def stepLeft (r : Router) (net : Net) : Op → Option Net
  | .deliver again =>
    match net.left.inbox with
    | [] => none
    | dd :: rest =>
      let handled := handleDBDesc r net.left.neighbor dd
      some ⟨⟨handled.neighbor, if again then dd :: rest else rest⟩,
        { net.right with inbox := net.right.inbox ++ handled.sent }⟩
  | .retransmit =>
    some { net with right :=
      { net.right with inbox := net.right.inbox ++ retransmit net.left.neighbor } }

inductive Act
  | left (op : Op)
  | right (op : Op)
  deriving DecidableEq, Repr

def step (l r : Router) (net : Net) : Act → Option Net
  | .left op => stepLeft l net op
  | .right op => (stepLeft r net.swap op).map Net.swap

/-- A neighbor that has just entered ExStart; `options` are those of its Hellos. Source: table.go
twoWayReceivedLocked. -/
def entered (r : Router) (peer : RouterID) (options : BitVec 32) : Handled :=
  restart r { routerID := peer, options := options } .none

/-- Both ends in ExStart, with their first packets on the way. Source: table.go
twoWayReceivedLocked. -/
def initial (l r : Router) (optionsOfRight optionsOfLeft : BitVec 32) : Net :=
  ⟨⟨(entered l r.cfg.routerID optionsOfRight).neighbor,
      (entered r l.cfg.routerID optionsOfLeft).sent⟩,
    ⟨(entered r l.cfg.routerID optionsOfLeft).neighbor,
      (entered l r.cfg.routerID optionsOfRight).sent⟩⟩

end Ze.OspfNeighbor
