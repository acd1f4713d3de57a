import Mathlib.Data.Int.Notation
import Ze.Net.Addr

/-!
# The VRRP state machine

`Instance` is one virtual router of one router: its configuration, its state, the advertisement
interval it has learned, the generations of its three timers and what `show vrrp` reports.
`Instance.handle` is the whole transition table: it takes one event and gives the next instance and
the ordered actions the engine has to carry out.

Default file: `fsm.go`.
-/

namespace Ze.Vrrp

open Ze.Net

/-! ## Configuration, events and actions -/

/-- Source: vrrp/fsm/fsm.go. -/
inductive State where
  | init
  | backup
  | master
  deriving DecidableEq, Repr

/-- Source: vrrp/fsm/events.go. -/
structure Config where
  /-- 2 or 3. -/
  version : BitVec 8
  isOwner : Bool
  priority : BitVec 8
  preempt : Bool
  preemptDelayMs : ℤ
  advertIntervalMs : ℤ
  /-- The address the advertisements leave from; zero when none is known. -/
  localPrimaryIP : Addr
  vips : List Addr
  acceptMode : Bool
  deriving DecidableEq, Repr

/-- Source: events.go. -/
structure AdvertReceived where
  priority : BitVec 8
  srcIP : Addr
  intervalMs : ℤ
  vipCount : ℤ
  deriving DecidableEq, Repr

/-- Source: events.go. -/
inductive Event where
  | startup (config : Config)
  | shutdown
  | advertReceived (advert : AdvertReceived)
  | masterDownExpired (gen : BitVec 64)
  | advertTimerExpired (gen : BitVec 64)
  | preemptDelayExpired (gen : BitVec 64)
  | configUpdated (config : Config)
  | sourceAddressChanged (address : Addr)

/-- Source: vrrp/fsm/actions.go Reason constants. -/
inductive Reason where
  | startupOwner
  | startup
  | masterDownExpired
  | preemptDelayExpired
  | shutdown
  | higherPriority
  | tieBreakLost
  deriving DecidableEq, Repr

/-- Source: actions.go. -/
inductive Action where
  | sendAdvert (priority : BitVec 8) (advertIntervalMs : ℤ)
  | sendAdvertZeroPriority
  | installVIPs (vips : List Addr)
  | removeVIPs (vips : List Addr)
  | announceFailover
  | startMasterDownTimer (duration : ℤ) (gen : BitVec 64)
  | startAdvertTimer (interval : ℤ) (gen : BitVec 64)
  | startPreemptDelayTimer (duration : ℤ) (gen : BitVec 64)
  | stopPreemptDelayTimer
  | stopTimers
  | emitStateChange (before after : State) (reason : Reason)
  deriving DecidableEq, Repr

/-! ## Timer arithmetic -/

def millisecond : ℤ := 1000000

def skewTime (version priority : BitVec 8) (activeAdverIntervalMs : ℤ) : ℤ :=
  let numerator : ℤ := 256 - priority.toNat
  if version = 2#8 then (numerator * (1000 * millisecond)).tdiv 256
  else (numerator * activeAdverIntervalMs * millisecond).tdiv 256

/-- Source: timers.go. -/
def masterDownInterval (version priority : BitVec 8) (activeAdverIntervalMs : ℤ) : ℤ :=
  3 * activeAdverIntervalMs * millisecond + skewTime version priority activeAdverIntervalMs

/-! ## The instance -/

structure Instance where
  cfg : Config
  state : State
  activeAdverIntervalMs : ℤ
  masterHeardSinceBackup : Bool
  genSeq : BitVec 64
  mdArmedGen : BitVec 64
  advArmedGen : BitVec 64
  pdArmedGen : BitVec 64
  since : ℕ
  lastAdvertSrc : Addr
  lastAdvertAt : ℕ
  deriving DecidableEq, Repr

namespace Instance

def isOwner (i : Instance) : Bool :=
  i.cfg.isOwner || i.cfg.priority == 255#8

def setState (i : Instance) (now : ℕ) (s : State) : Instance :=
  { i with state := s, since := now }

def recordAdvert (i : Instance) (now : ℕ) (e : AdvertReceived) : Instance :=
  { i with lastAdvertSrc := e.srcIP, lastAdvertAt := now }

/-- Whether the sender's primary address is greater than the local one. A router that knows no
address of its own yields. -/
def senderWinsTieBreak (i : Instance) (src : Addr) : Bool :=
  if !i.cfg.localPrimaryIP.isValid then true
  else src.unmap.cmp i.cfg.localPrimaryIP.unmap == .gt

def adoptInterval (i : Instance) (ms : ℤ) : Instance :=
  if i.cfg.version = 3#8 then { i with activeAdverIntervalMs := ms } else i

def advInterval (i : Instance) : ℤ :=
  i.cfg.advertIntervalMs * millisecond

def masterDown (i : Instance) : ℤ :=
  masterDownInterval i.cfg.version i.cfg.priority i.activeAdverIntervalMs

def skew (i : Instance) : ℤ :=
  skewTime i.cfg.version i.cfg.priority i.activeAdverIntervalMs

/-- Whether an expiry is the one the role waits for. Source: matches. -/
def matches_ (armedGen eventGen : BitVec 64) : Bool :=
  armedGen != 0#64 && eventGen == armedGen

def armMasterDown (i : Instance) (d : ℤ) (out : List Action) : Instance × List Action :=
  let g := i.genSeq + 1#64
  ({ i with genSeq := g, mdArmedGen := g }, out ++ [.startMasterDownTimer d g])

def armAdvert (i : Instance) (out : List Action) : Instance × List Action :=
  let g := i.genSeq + 1#64
  ({ i with genSeq := g, advArmedGen := g }, out ++ [.startAdvertTimer i.advInterval g])

def armPreemptDelay (i : Instance) (out : List Action) : Instance × List Action :=
  let g := i.genSeq + 1#64
  ({ i with genSeq := g, pdArmedGen := g },
    out ++ [.startPreemptDelayTimer (i.cfg.preemptDelayMs * millisecond) g])

def stopDelayIfArmed (i : Instance) (out : List Action) : Instance × List Action :=
  if i.pdArmedGen = 0#64 then (i, out)
  else ({ i with pdArmedGen := 0#64 }, out ++ [.stopPreemptDelayTimer])

def stopAllTimers (i : Instance) : Instance :=
  { i with mdArmedGen := 0#64, advArmedGen := 0#64, pdArmedGen := 0#64 }

/-! ## Initialize -/

def enterMasterFromInitialize (i : Instance) (now : ℕ) : Instance × List Action :=
  let i' := { i with activeAdverIntervalMs := i.cfg.advertIntervalMs }.setState now .master
  let i' := { i' with mdArmedGen := 0#64, pdArmedGen := 0#64 }
  let (i', out) := i'.armAdvert
    [.sendAdvert i'.cfg.priority i'.cfg.advertIntervalMs, .installVIPs i'.cfg.vips,
      .announceFailover]
  (i', out ++ [.emitStateChange i.state .master .startupOwner])

def enterBackupFromInitialize (i : Instance) (now : ℕ) : Instance × List Action :=
  let i' := { i with
    activeAdverIntervalMs := i.cfg.advertIntervalMs
    masterHeardSinceBackup := false }.setState now .backup
  let i' := { i' with advArmedGen := 0#64, pdArmedGen := 0#64 }
  let (i', out) := i'.armMasterDown i'.masterDown []
  (i', out ++ [.emitStateChange i.state .backup .startup])

def handleInitialize (i : Instance) (now : ℕ) : Event → Instance × List Action
  | .startup config =>
    let i := { i with cfg := config }
    -- Priority 0 is only ever on the wire: stay down.
    if i.cfg.priority = 0#8 then (i, [])
    else if i.isOwner then i.enterMasterFromInitialize now
    else i.enterBackupFromInitialize now
  | .configUpdated config => ({ i with cfg := config }, [])
  | _ => (i, [])

/-! ## Backup -/

def promoteToMaster (i : Instance) (now : ℕ) (reason : Reason) : Instance × List Action :=
  let i' := { i with activeAdverIntervalMs := i.cfg.advertIntervalMs }.setState now .master
  let i' := { i' with mdArmedGen := 0#64, pdArmedGen := 0#64 }
  let (i', out) := i'.armAdvert
    [.sendAdvert i'.cfg.priority i'.cfg.advertIntervalMs, .installVIPs i'.cfg.vips,
      .announceFailover]
  (i', out ++ [.emitStateChange i.state .master reason])

def backupAdvert (i : Instance) (now : ℕ) (e : AdvertReceived) : Instance × List Action :=
  let i := i.recordAdvert now e
  if e.priority = 0#8 then
    -- The master is leaving: only the skew is waited for.
    let (i, out) := i.stopDelayIfArmed []
    i.armMasterDown i.skew out
  else if !i.cfg.preempt || i.cfg.priority ≤ e.priority then
    let (i, out) := i.stopDelayIfArmed []
    let i := { i.adoptInterval e.intervalMs with masterHeardSinceBackup := true }
    i.armMasterDown i.masterDown out
  else if i.cfg.preemptDelayMs = 0 then (i, [])
  else
    -- The delay is armed once; while it holds, the lower master is followed.
    let (i, out) := if i.pdArmedGen = 0#64 then i.armPreemptDelay [] else (i, [])
    let i := { i.adoptInterval e.intervalMs with masterHeardSinceBackup := true }
    i.armMasterDown i.masterDown out

def backupConfigUpdated (i : Instance) (config : Config) : Instance × List Action :=
  let i := { i with cfg := config }
  let i := if !i.masterHeardSinceBackup then
    { i with activeAdverIntervalMs := i.cfg.advertIntervalMs } else i
  let (i, out) := i.stopDelayIfArmed []
  i.armMasterDown i.masterDown out

def handleBackup (i : Instance) (now : ℕ) : Event → Instance × List Action
  | .shutdown =>
    (i.stopAllTimers.setState now .init, [.stopTimers, .emitStateChange i.state .init .shutdown])
  | .masterDownExpired gen =>
    if matches_ i.mdArmedGen gen then i.promoteToMaster now .masterDownExpired else (i, [])
  | .preemptDelayExpired gen =>
    if matches_ i.pdArmedGen gen then i.promoteToMaster now .preemptDelayExpired else (i, [])
  | .advertReceived e => i.backupAdvert now e
  | .configUpdated config => i.backupConfigUpdated config
  | _ => (i, [])

/-! ## Master -/

def demoteToBackup (i : Instance) (now : ℕ) (e : AdvertReceived) (reason : Reason) :
    Instance × List Action :=
  let i' := { i.stopAllTimers.adoptInterval e.intervalMs with
    masterHeardSinceBackup := true }.setState now .backup
  let (i', out) := i'.armMasterDown i'.masterDown [.stopTimers, .removeVIPs i'.cfg.vips]
  (i', out ++ [.emitStateChange i.state .backup reason])

/-- An advertisement heard in Master: a higher priority, or an equal one from a greater address,
wins. -/
def masterAdvert (i : Instance) (now : ℕ) (e : AdvertReceived) : Instance × List Action :=
  let i := i.recordAdvert now e
  if e.priority = 0#8 then
    i.armAdvert [.sendAdvert i.cfg.priority i.cfg.advertIntervalMs]
  else if i.cfg.priority < e.priority ∨
      (e.priority = i.cfg.priority ∧ i.senderWinsTieBreak e.srcIP) then
    i.demoteToBackup now e (if e.priority = i.cfg.priority then .tieBreakLost else .higherPriority)
  else if i.cfg.version = 3#8 then
    -- Version 3 answers a losing advertisement at once; the advert timer keeps running.
    (i, [.sendAdvert i.cfg.priority i.cfg.advertIntervalMs])
  else (i, [])

def masterConfigUpdated (i : Instance) (config : Config) : Instance × List Action :=
  let i' := { i with cfg := config, activeAdverIntervalMs := config.advertIntervalMs }
  let (i', out) := i'.armAdvert [.sendAdvert i'.cfg.priority i'.cfg.advertIntervalMs]
  if i.cfg.vips ≠ i'.cfg.vips then
    (i', out ++ [.installVIPs i'.cfg.vips, .announceFailover])
  else if i.cfg.acceptMode ≠ i'.cfg.acceptMode then (i', out ++ [.installVIPs i'.cfg.vips])
  else (i', out)

def handleMaster (i : Instance) (now : ℕ) : Event → Instance × List Action
  | .shutdown =>
    (i.stopAllTimers.setState now .init,
      [.stopTimers, .sendAdvertZeroPriority, .removeVIPs i.cfg.vips,
        .emitStateChange i.state .init .shutdown])
  | .advertTimerExpired gen =>
    if matches_ i.advArmedGen gen then
      i.armAdvert [.sendAdvert i.cfg.priority i.cfg.advertIntervalMs]
    else (i, [])
  | .advertReceived e => i.masterAdvert now e
  | .configUpdated config => i.masterConfigUpdated config
  | _ => (i, [])

/-- One event against the current state. The source address is recorded in every state and never
acts. -/
def handle (i : Instance) (now : ℕ) (ev : Event) : Instance × List Action :=
  match ev with
  | .sourceAddressChanged address =>
    ({ i with cfg := { i.cfg with localPrimaryIP := address } }, [])
  | ev =>
    match i.state with
    | .init => i.handleInitialize now ev
    | .backup => i.handleBackup now ev
    | .master => i.handleMaster now ev

end Instance

def new (now : ℕ) (config : Config) : Instance where
  cfg := config
  state := .init
  activeAdverIntervalMs := 0
  masterHeardSinceBackup := false
  genSeq := 0#64
  mdArmedGen := 0#64
  advArmedGen := 0#64
  pdArmedGen := 0#64
  since := now
  lastAdvertSrc := .zero
  lastAdvertAt := 0

end Ze.Vrrp
