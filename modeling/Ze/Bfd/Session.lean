import Ze.Lib.Run

/-!
# BFD sessions

The session machine of `internal/component/bfd/session`: reception and transitions (`fsm.go`), the
timer negotiation, the holds and the echo slow-down (`timers.go`), and the steps that the engine
takes on a session (`engine/echo.go`, `engine/shared_session.go`, `engine/engine.go`).

Intervals are in microseconds, as the protocol has them; instants and waits are in nanoseconds.

Default file: `timers.go`.
-/

namespace Ze.Bfd

/-! ## Data -/

inductive State
  | adminDown
  | down
  | init
  | up
  deriving DecidableEq, Repr

/-- Source: diag.go. -/
inductive Diag
  | none
  | controlDetectExpired
  | echoFailed
  | neighborSignaledDown
  | forwardingPlaneReset
  | pathDown
  | concatPathDown
  | adminDown
  | reverseConcatPathDown
  deriving DecidableEq, Repr

structure Control where
  state : State
  final : Bool
  auth : Bool
  demand : Bool
  detectMult : ℕ
  myDiscriminator : ℕ
  yourDiscriminator : ℕ
  desiredMinTxInterval : ℕ
  requiredMinRxInterval : ℕ
  requiredMinEchoRxInterval : ℕ
  deriving DecidableEq, Repr

/-- What a client asks for; zero leaves the choice to the engine. Source: api: SessionRequest.
-/
structure SessionRequest where
  desiredMinTxInterval : ℕ
  requiredMinRxInterval : ℕ
  detectMult : ℕ
  desiredMinEchoTxInterval : ℕ
  passive : Bool
  deriving DecidableEq, Repr

/-- The deadlines of a session; `none` is the zero time. Source: session.go Machine. -/
structure Schedule where
  lastRxTime : Option ℕ
  nextDetectAt : Option ℕ
  nextTxAt : Option ℕ
  adminDownTxEnd : Option ℕ
  lastTxAt : Option ℕ
  txWait : ℕ
  txInterval : ℕ
  nextEchoAt : Option ℕ
  lastEchoAt : Option ℕ
  deriving DecidableEq, Repr

/-- Source: session.go Vars and Machine. -/
structure Machine where
  passive : Bool
  sessionState : State
  remoteSessionState : State
  localDiscr : ℕ
  remoteDiscr : ℕ
  localDiag : Diag
  desiredMinTxInterval : ℕ
  requiredMinRxInterval : ℕ
  remoteMinRxInterval : ℕ
  remoteDesiredMinTx : ℕ
  configuredDesiredMinTxInterval : ℕ
  configuredRequiredMinRxInterval : ℕ
  remoteDemandMode : Bool
  detectMult : ℕ
  remoteDetectMult : ℕ
  authType : ℕ
  desiredMinEchoTxInterval : ℕ
  requiredMinEchoRxInterval : ℕ
  remoteMinEchoRxInterval : ℕ
  pollOutstanding : Bool
  pollSettling : Bool
  txDesiredHeld : Bool
  txDesiredHeldUs : ℕ
  rxRequiredHeld : Bool
  rxRequiredHeldUs : ℕ
  timersPending : Bool
  echoSlowdownApplied : Bool
  schedule : Schedule
  deriving DecidableEq, Repr

/-- Source: session.go. -/
def slowStartIntervalUs : ℕ := 1000000

/-- Source: session.go. -/
def defaultDetectMult : ℕ := 3

def echoSlowdownIntervalUs : ℕ := 1000000

/-- Source: fsm.go. -/
def adminDownTransmitDetectionTimes : ℕ := 3

def microsecond : ℕ := 1000

/-- An interval that a client asks for, or the slow-start one. Source: session.go
RequestTimers. -/
def requestInterval (us : ℕ) : ℕ := if us = 0 then slowStartIntervalUs else us

/-- The multiplier that a client asks for, or the default. Source: session.go RequestTimers. -/
def requestDetectMult (mult : ℕ) : ℕ := if mult = 0 then defaultDetectMult else mult

namespace Machine

variable (m : Machine)

/-! ## Intervals -/

/-- The `bfd.DesiredMinTxInterval` in force. -/
def desiredMinTxInForceUs : ℕ :=
  if m.txDesiredHeld then m.txDesiredHeldUs else m.desiredMinTxInterval

/-- The `bfd.RequiredMinRxInterval` in force. -/
def requiredMinRxInForceUs : ℕ :=
  if m.rxRequiredHeld then m.rxRequiredHeldUs else m.requiredMinRxInterval

/-- The interval between transmitted packets, from the local interval in force and the peer's.
Source: TransmitInterval. -/
def transmitIntervalOf (inForce remote : ℕ) : ℕ :=
  (if max inForce remote = 0 then slowStartIntervalUs else max inForce remote) * microsecond

def transmitInterval : ℕ := transmitIntervalOf m.desiredMinTxInForceUs m.remoteMinRxInterval

/-- The detection time, from the local interval in force, the peer's and the multiplier.
Source: DetectionInterval. -/
def detectionIntervalOf (inForce remote mult : ℕ) : ℕ :=
  mult * (if max inForce remote = 0 then slowStartIntervalUs else max inForce remote) * microsecond

/-- The multiplier of the detection time. Source: DetectionInterval. -/
def detectionMult : ℕ := if m.remoteDetectMult = 0 then m.detectMult else m.remoteDetectMult

def detectionInterval : ℕ :=
  detectionIntervalOf m.requiredMinRxInForceUs m.remoteDesiredMinTx m.detectionMult

def pollSequenceIdle : Bool := !m.pollOutstanding && !m.pollSettling

def transmitPermitted : Bool := !m.passive || m.remoteDiscr != 0

def echoEnabled : Bool := m.desiredMinEchoTxInterval != 0 && m.remoteMinEchoRxInterval != 0

def echoInterval : ℕ :=
  if m.echoEnabled then max m.desiredMinEchoTxInterval m.remoteMinEchoRxInterval * microsecond
  else 0

/-! ## Deadlines -/

/-- The deadlines once the transmit interval has changed. Source: rescheduleTxLocked. -/
def rescheduledTx : Schedule :=
  let s := m.schedule
  if m.transmitInterval = s.txInterval then s
  else
    match s.nextTxAt, s.lastTxAt with
    | some nextTxAt, some lastTxAt =>
      if nextTxAt < lastTxAt + s.txWait then s
      else
        let wait := (s.txWait / microsecond) * (m.transmitInterval / microsecond) /
          (s.txInterval / microsecond) * microsecond
        { s with
          txWait := wait, txInterval := m.transmitInterval, nextTxAt := some (lastTxAt + wait) }
    | _, _ => s

/-- Source: rescheduleTxLocked. -/
def rescheduleTx : Machine := { m with schedule := m.rescheduledTx }

/-- The deadlines once the echo interval has changed. Source: rescheduleEchoLocked. -/
def rescheduledEcho : Schedule :=
  match m.schedule.nextEchoAt, m.schedule.lastEchoAt with
  | some _, some lastEchoAt =>
    { m.schedule with
      nextEchoAt := if m.echoInterval = 0 then none else some (lastEchoAt + m.echoInterval) }
  | _, _ => m.schedule

/-- Source: rescheduleEchoLocked. -/
def rescheduleEcho : Machine := { m with schedule := m.rescheduledEcho }

/-- Source: timers.go armDetectionLocked; fsm.go lastRxTime. -/
def armDetection (now : ℕ) : Machine :=
  { m with schedule := { m.schedule with
      lastRxTime := some now, nextDetectAt := some (now + m.detectionInterval) } }

/-- A packet was sent, after a wait cut short by jitter. -/
def advanceTxWithJitter (now reduction : ℕ) : Machine :=
  let wait := m.transmitInterval - if m.transmitInterval ≤ reduction then 0 else reduction
  { m with schedule := { m.schedule with
      lastTxAt := some now, txInterval := m.transmitInterval, txWait := wait,
      nextTxAt := some (now + wait) } }

def advanceEcho (now : ℕ) : Machine :=
  { m with schedule :=
      if m.echoInterval = 0 then { m.schedule with nextEchoAt := none }
      else { m.schedule with lastEchoAt := some now, nextEchoAt := some (now + m.echoInterval) } }

def primeEcho (now : ℕ) : Machine :=
  { m with schedule := { m.schedule with
      nextEchoAt := if m.echoEnabled then m.schedule.nextEchoAt.or (some now) else none } }

/-- The next transmission after a change of role. Source: session.go Reconfigure; timers.go
ApplyRole. -/
def permitTx (now : ℕ) : Machine :=
  { m with schedule := { m.schedule with
      nextTxAt := if m.transmitPermitted then m.schedule.nextTxAt.or (some now) else none } }

/-! ## Holds and Polls -/

/-- Source: holdDesiredMinTxLocked. -/
def holdDesiredMinTx (raisedUs : ℕ) : Machine :=
  if m.sessionState ≠ .up ∨ raisedUs ≤ m.desiredMinTxInterval ∨ m.txDesiredHeld = true then m
  else { m with txDesiredHeld := true, txDesiredHeldUs := m.desiredMinTxInterval }

/-- Source: holdRequiredMinRxLocked. -/
def holdRequiredMinRx (reducedUs : ℕ) : Machine :=
  if m.sessionState ≠ .up ∨ m.requiredMinRxInterval ≤ reducedUs ∨ m.rxRequiredHeld = true then m
  else { m with rxRequiredHeld := true, rxRequiredHeldUs := m.requiredMinRxInterval }

/-- The two intervals take new values, and a Poll Sequence carries them. Source: fsm.go
onStateChange, the branch into Up; timers.go applyPendingTimersLocked. -/
def changeIntervals (desiredMinTxUs requiredMinRxUs : ℕ) : Machine :=
  { (m.holdDesiredMinTx desiredMinTxUs).holdRequiredMinRx requiredMinRxUs with
    desiredMinTxInterval := desiredMinTxUs
    requiredMinRxInterval := requiredMinRxUs
    pollOutstanding := true }

/-- Source: releaseDesiredMinTxLocked. -/
def releaseDesiredMinTx : Machine :=
  if m.txDesiredHeld then { m with txDesiredHeld := false }.rescheduleTx else m

/-- A timer change that waited is made, once no Poll is in flight.
Source: applyPendingTimersLocked. -/
def applyPendingTimers : Machine :=
  if m.timersPending = false then m
  else if m.pollSequenceIdle = false then m
  else
    let floor := if m.echoSlowdownApplied then echoSlowdownIntervalUs else 0
    let desiredMinTxUs := max floor m.configuredDesiredMinTxInterval
    let requiredMinRxUs := max floor m.configuredRequiredMinRxInterval
    let m := { m with timersPending := false }
    if desiredMinTxUs = m.desiredMinTxInterval ∧ requiredMinRxUs = m.requiredMinRxInterval then m
    else (m.changeIntervals desiredMinTxUs requiredMinRxUs).rescheduleTx

/-! ## Changes of state -/

/-- The timers on the way into Up. Source: fsm.go onStateChange, the first branch. -/
def enterUp : Machine :=
  if m.desiredMinTxInterval ≠ m.configuredDesiredMinTxInterval ∨
      m.requiredMinRxInterval ≠ m.configuredRequiredMinRxInterval then
    m.changeIntervals m.configuredDesiredMinTxInterval m.configuredRequiredMinRxInterval
  else m

/-- The timers in a state other than Up, and the Poll that a raised interval owes. Source: fsm.go
onStateChange, from desiredTxRaised on. -/
def leaveUp (prev : State) : Machine :=
  let raised := decide (m.desiredMinTxInterval ≠ slowStartIntervalUs)
  let reset := decide (m.sessionState = .down ∧ prev ≠ .down)
  { m with
    txDesiredHeld := false
    rxRequiredHeld := false
    timersPending := false
    desiredMinTxInterval := slowStartIntervalUs
    echoSlowdownApplied := false
    pollOutstanding := if raised then true else if reset then false else m.pollOutstanding
    pollSettling := if reset then false else m.pollSettling
    remoteDiscr :=
      if reset ∧ (m.localDiag = .controlDetectExpired ∨ m.localDiag = .echoFailed) then 0
      else m.remoteDiscr }

/-- Source: fsm.go. -/
def onStateChange (prev : State) (now : ℕ) : Machine :=
  let m := if m.sessionState = .up then m.enterUp else m.leaveUp prev
  { m with schedule := { m.schedule with
      nextTxAt := if m.transmitPermitted then some now else none } }

/-- The session moves to a state, for a reason. Source: fsm.go the writes of SessionState and
LocalDiag before onStateChange. -/
def moveTo (state : State) (diag : Diag) (now : ℕ) : Machine :=
  { m with sessionState := state, localDiag := diag }.onStateChange m.sessionState now

/-! ## Reception -/

/-- The fields that every accepted packet writes. Source: fsm.go Receive, the field updates. -/
def learn (c : Control) : Machine :=
  let learned := { m with
    remoteDiscr := c.myDiscriminator
    remoteSessionState := c.state
    remoteDemandMode := c.demand
    remoteMinRxInterval := c.requiredMinRxInterval
    remoteDesiredMinTx := c.desiredMinTxInterval
    remoteDetectMult := c.detectMult
    remoteMinEchoRxInterval := c.requiredMinEchoRxInterval }.rescheduleTx
  if c.requiredMinEchoRxInterval ≠ m.remoteMinEchoRxInterval then learned.rescheduleEcho
  else learned

/-- The Final bit of a packet: it ends the Poll in flight, or its absence ends the wait after one.
Source: fsm.go Receive. -/
def takeFinal (final : Bool) : Machine :=
  if m.pollOutstanding && final then
    { { m with pollOutstanding := false, pollSettling := true }.releaseDesiredMinTx with
      rxRequiredHeld := false }
  else if !final then { m with pollSettling := false }
  else m

/-- The transitions of the reception table, with the diagnostics they write; `none` is no
transition. Source: fsm.go Receive and applyTransitionLocked. -/
def transition (localState recvState : State) : Option (State × Diag) :=
  match localState, recvState with
  | .down, .down => some (.init, .none)
  | .down, .init => some (.up, .none)
  | .init, .init => some (.up, .none)
  | .init, .up => some (.up, .none)
  | .init, .adminDown => some (.down, .neighborSignaledDown)
  | .up, .down => some (.down, .neighborSignaledDown)
  | .up, .adminDown => some (.down, .neighborSignaledDown)
  | _, _ => none

/-- Why a packet is discarded. Source: fsm.go ErrYourDiscriminatorReset, ErrAuthMismatch. -/
inductive ReceiveError
  | yourDiscriminatorReset
  | authMismatch
  deriving DecidableEq, Repr

/-- The session after a packet was accepted, up to the transition: what it learned, the Final bit, a
timer change that waited, and the detection deadline. Source: fsm.go Receive. -/
def accept (c : Control) (now : ℕ) : Machine :=
  let taken := (m.learn c).takeFinal c.final
  let applied := if taken.sessionState = .up then taken.applyPendingTimers else taken
  applied.armDetection now

/-- Source: fsm.go. -/
def receive (c : Control) (now : ℕ) : Except ReceiveError Machine :=
  if c.yourDiscriminator = 0 ∧ c.state ≠ .down ∧ c.state ≠ .adminDown then
    .error .yourDiscriminatorReset
  else if c.auth ≠ decide (m.authType ≠ 0) then .error .authMismatch
  else
    match transition m.sessionState c.state with
    | some (state, diag) => .ok ((m.accept c now).moveTo state diag now)
    | none => .ok (m.accept c now)

/-! ## Configuration -/

def applyTimers (req : SessionRequest) : Machine :=
  let m := { m with
    configuredDesiredMinTxInterval := requestInterval req.desiredMinTxInterval
    configuredRequiredMinRxInterval := requestInterval req.requiredMinRxInterval
    detectMult := requestDetectMult req.detectMult }
  if m.sessionState = .up then { m with timersPending := true }.applyPendingTimers
  else { m with
    requiredMinRxInterval := m.configuredRequiredMinRxInterval
    pollOutstanding :=
      decide (m.configuredRequiredMinRxInterval ≠ m.requiredMinRxInterval) || m.pollOutstanding }

def applyRole (passive : Bool) (now : ℕ) : Machine := { m with passive := passive }.permitTx now

def applyEcho (us : ℕ) : Machine :=
  let m := { m with desiredMinEchoTxInterval := us, requiredMinEchoRxInterval := us }
  if m.echoEnabled then m.rescheduleEcho
  else { m with schedule := { m.schedule with nextEchoAt := none } }

/-- Source: session.go. -/
def applyRequest (req : SessionRequest) : Machine :=
  { m with
    passive := req.passive
    configuredDesiredMinTxInterval := requestInterval req.desiredMinTxInterval
    configuredRequiredMinRxInterval := requestInterval req.requiredMinRxInterval
    detectMult := requestDetectMult req.detectMult
    requiredMinEchoRxInterval := req.desiredMinEchoTxInterval
    desiredMinEchoTxInterval := req.desiredMinEchoTxInterval }

/-- A new request for a session that is not Up; on an Up one the source stops with a panic. Source:
session.go. -/
def reconfigure (req : SessionRequest) (now : ℕ) : Option Machine :=
  if m.sessionState = .up then none
  else
    let applied := m.applyRequest req
    some ({ applied with
      requiredMinRxInterval := applied.configuredRequiredMinRxInterval
      pollOutstanding :=
        decide (applied.configuredRequiredMinRxInterval ≠ m.requiredMinRxInterval) ||
          m.pollOutstanding }.permitTx now)

/-- A session as it is created. Source: session.go Init. -/
def initial (req : SessionRequest) (localDiscr authType now : ℕ) : Machine where
  passive := req.passive
  sessionState := .down
  remoteSessionState := .down
  localDiscr := localDiscr
  remoteDiscr := 0
  localDiag := .none
  desiredMinTxInterval := slowStartIntervalUs
  requiredMinRxInterval := requestInterval req.requiredMinRxInterval
  remoteMinRxInterval := 1
  remoteDesiredMinTx := 0
  configuredDesiredMinTxInterval := requestInterval req.desiredMinTxInterval
  configuredRequiredMinRxInterval := requestInterval req.requiredMinRxInterval
  remoteDemandMode := false
  detectMult := requestDetectMult req.detectMult
  remoteDetectMult := 0
  authType := authType
  desiredMinEchoTxInterval := req.desiredMinEchoTxInterval
  requiredMinEchoRxInterval := req.desiredMinEchoTxInterval
  remoteMinEchoRxInterval := 0
  pollOutstanding := false
  pollSettling := false
  txDesiredHeld := false
  txDesiredHeldUs := 0
  rxRequiredHeld := false
  rxRequiredHeldUs := 0
  timersPending := false
  echoSlowdownApplied := false
  schedule := ⟨none, none, if req.passive then none else some now, none, none, 0, 0, none, none⟩

/-! ## Echo -/

def applyEchoSlowdown : Machine :=
  if m.echoSlowdownApplied || !m.pollSequenceIdle then m
  else
    let slowedUs := max echoSlowdownIntervalUs m.configuredDesiredMinTxInterval
    { ({ m with echoSlowdownApplied := true }).holdDesiredMinTx slowedUs with
      desiredMinTxInterval := slowedUs
      requiredMinRxInterval := max echoSlowdownIntervalUs m.configuredRequiredMinRxInterval
      pollOutstanding := true }

/-- Source: revertEchoSlowdownLocked. -/
def revertEchoSlowdown : Machine :=
  if m.echoSlowdownApplied = false then m
  else if m.sessionState = .up ∧ m.pollSequenceIdle = false then m
  else
    let reverted := { ({ m with
        echoSlowdownApplied := false
        desiredMinTxInterval := m.configuredDesiredMinTxInterval }).holdRequiredMinRx
          m.configuredRequiredMinRxInterval with
      requiredMinRxInterval := m.configuredRequiredMinRxInterval }.rescheduleTx
    if m.sessionState = .up then { reverted with pollOutstanding := true } else reverted

/-- Source: ClearEchoSchedule; the ring of outstanding echoes is left out. -/
def clearEchoSchedule : Machine :=
  { m with schedule := { m.schedule with
      nextEchoAt := none, lastEchoAt := none } }.revertEchoSlowdown

def echoFail (now : ℕ) : Machine :=
  if m.sessionState = .init ∨ m.sessionState = .up then
    { m with schedule := { m.schedule with nextEchoAt := none } }.moveTo .down .echoFailed now
  else m

/-- One tick of the echo scheduler on a session; `expired` is what the ring of outstanding echoes
says. Source: echo.go echoTickLocked. -/
def echoTick (expired : Bool) (now : ℕ) : Machine :=
  if m.sessionState ≠ .up ∨ m.echoEnabled = false then m.clearEchoSchedule
  else if expired then m.echoFail now
  else
    let primed := m.applyEchoSlowdown.primeEcho now
    match primed.schedule.nextEchoAt with
    | none => primed
    | some deadline => if now < deadline then primed else primed.advanceEcho now

/-! ## Detection and administration -/

def checkDetection (now : ℕ) : Machine :=
  match m.schedule.nextDetectAt with
  | none => m
  | some deadline =>
    if now < deadline then m
    else if m.sessionState = .init ∨ m.sessionState = .up then
      { m with schedule := { m.schedule with nextDetectAt := none } }.moveTo .down
        .controlDetectExpired now
    else
      { m with
        remoteDiscr := 0
        schedule := { m.schedule with
          nextDetectAt := none
          nextTxAt := if m.passive then none else m.schedule.nextTxAt } }

/-- Source: fsm.go. -/
def adminDown (diag : Diag) (now : ℕ) : Machine :=
  if m.sessionState = .adminDown then m
  else
    let moved := m.moveTo .adminDown diag now
    let detect := max moved.detectionInterval (moved.detectMult * moved.transmitInterval)
    { moved with schedule := { moved.schedule with
        adminDownTxEnd := some (now + adminDownTransmitDetectionTimes * detect) } }

/-- Source: fsm.go. -/
def adminEnable (now : ℕ) : Machine :=
  if m.sessionState = .adminDown then m.moveTo .down .none now else m

/-- Source: fsm.go. -/
def defectDown (now : ℕ) : Machine :=
  if m.sessionState = .init ∨ m.sessionState = .up then m.moveTo .down .none now else m

end Machine

/-! ## Steps -/

/-- What happens to a session. Source: the calls of internal/component/bfd/engine on a Machine.
-/
inductive Op
  | receive (c : Control) (now : ℕ)
  | applyTimers (req : SessionRequest)
  | applyRole (passive : Bool) (now : ℕ)
  | applyEcho (us : ℕ)
  | setAuth (authType : ℕ)
  | revive (req : SessionRequest) (now : ℕ)
  | echoTick (expired : Bool) (now : ℕ)
  | checkDetection (now : ℕ)
  | adminDown (diag : Diag) (now : ℕ)
  | adminEnable (now : ℕ)
  | defectDown (now : ℕ)
  | advanceTx (now reduction : ℕ)

/-- One step of a session; `none` is the panic of `Reconfigure`. A discarded packet leaves the
session as it is, and a released session is enabled before it takes its new request. Source:
internal/component/bfd/engine. -/
def step (m : Machine) : Op → Option Machine
  | .receive c now =>
    match m.receive c now with
    | .ok m' => some m'
    | .error _ => some m
  | .applyTimers req => some (m.applyTimers req)
  | .applyRole passive now => some (m.applyRole passive now)
  | .applyEcho us => some (m.applyEcho us)
  | .setAuth authType => some { m with authType := authType }
  | .revive req now => (m.adminEnable now).reconfigure req now
  | .echoTick expired now => some (m.echoTick expired now)
  | .checkDetection now => some (m.checkDetection now)
  | .adminDown diag now => some (m.adminDown diag now)
  | .adminEnable now => some (m.adminEnable now)
  | .defectDown now => some (m.defectDown now)
  | .advanceTx now reduction => some (m.advanceTxWithJitter now reduction)

end Ze.Bfd
