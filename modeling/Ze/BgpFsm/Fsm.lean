import Mathlib.Data.List.Basic

/-!
# The finite state machine of a BGP session

`Fsm` is the state of one session and `Fsm.dispatch` what an event makes of it: one handler for each
of the six states, and the shared handler of the DelayOpen timer. A handler is modelled by its
`Outcome`: the other fields, the state it changes to, and whether `Event` returns `ErrFSMError`.
-/

namespace Ze.BgpFsm

/-- Source: bgp/fsm/state.go. -/
inductive State where
  | idle
  | active
  | connect
  | openSent
  | openConfirm
  | established
  deriving DecidableEq, Repr

/-- Source: state.go. -/
inductive Event where
  | manualStart
  | manualStop
  | connectRetryTimerExpires
  | holdTimerExpires
  | keepaliveTimerExpires
  | tcpConnectionConfirmed
  | tcpConnectionFails
  | bgpOpen
  | bgpHeaderErr
  | bgpOpenMsgErr
  | notifMsgVerErr
  | notifMsg
  | keepaliveMsg
  | updateMsg
  | updateMsgErr
  | automaticStart
  | automaticStartWithDampPeerOscillations
  | automaticStop
  | openCollisionDump
  | delayOpenTimerExpires
  | bgpOpenWithDelayOpenTimer
  | bfdAdminDown
  | bfdDown
  | bfdUp
  | bfdDisabled
  | bfdHoldTimerExpires
  | bfdStrictConfigChanged
  | other (n : Int)
  deriving DecidableEq, Repr

/-- Source: state.go. -/
inductive BfdSubState where
  | none
  | openSentBfdUpPending
  | openSentConfirmedBfdUpPending
  | connectDelayOpenBfdUpPending
  | activeDelayOpenBfdUpPending
  deriving DecidableEq, Repr

/-- Source: bgp/fsm/timer.go. -/
structure Timers where
  delayOpenTime : ℕ
  delayOpenRunning : Bool
  retired : Bool
  deriving DecidableEq, Repr

/-- Source: bgp/fsm/connect_retry_counter.go. -/
abbrev ConnectRetryCounter := BitVec 32

/-- The machine; `timers` and `crc` are `none` for the source's nil. Source: bgp/fsm/fsm.go. -/
structure Fsm where
  state : State
  passive : Bool
  timers : Option Timers
  crc : Option ConnectRetryCounter
  enteredEstablished : Bool
  event : Event
  bfdSub : BfdSubState
  bfdStrict : Bool
  deriving DecidableEq, Repr

/-- Source: fsm.go. -/
def Fsm.new : Fsm where
  state := .idle
  passive := false
  timers := none
  crc := none
  enteredEstablished := false
  event := .manualStart
  bfdSub := .none
  bfdStrict := false

/-! ## Timers and the counter -/

namespace Timers

/-- Source: bgp/fsm/timer_delay_open.go. -/
def stopDelayOpenTimer (t : Timers) : Timers := { t with delayOpenRunning := false }

/-- Source: timer_delay_open.go. -/
def startDelayOpenTimer (t : Timers) : Timers × Bool :=
  if t.delayOpenTime = 0 then (t, false)
  else if t.retired then (t.stopDelayOpenTimer, true)
  else ({ t with delayOpenRunning := true }, true)

end Timers

namespace Fsm

/-- Source: timer_delay_open.go IsDelayOpenTimerRunning, with no timers. -/
def delayOpenRunning (f : Fsm) : Bool := f.timers.any Timers.delayOpenRunning

/-- Source: timer_delay_open.go. -/
def stopDelayOpenTimer (f : Fsm) : Fsm :=
  { f with timers := f.timers.map Timers.stopDelayOpenTimer }

/-- Source: connect_retry_counter.go. -/
def increment (f : Fsm) : Fsm :=
  { f with crc := f.crc.map fun n => if n = BitVec.allOnes 32 then n else n + 1#32 }

/-- Source: connect_retry_counter.go. -/
def reset (f : Fsm) : Fsm := { f with crc := f.crc.map fun _ => 0#32 }

end Fsm

/-! ## The handlers -/

/-- What a handler comes to. Source: fsm.go Event. -/
structure Outcome where
  fsm : Fsm
  /-- The argument of `change`, if the handler calls it. -/
  target : Option State
  /-- `ErrFSMError` is returned. -/
  err : Bool

namespace Fsm

/-- No change. Source: fsm.go. -/
def stay (f : Fsm) : Outcome := ⟨f, none, false⟩

/-- Source: fsm.go f.change(to). -/
def goes (f : Fsm) (target : State) : Outcome := ⟨f, some target, false⟩

/-- The error arm of a handler. Source: fsm.go. -/
def fails (f : Fsm) : Outcome := ⟨f.increment, some .idle, true⟩

variable (f : Fsm)

/-- Source: fsm.go. -/
def handleIdle : Event → Outcome
  | .manualStart | .automaticStart => f.reset.goes (if f.passive then .active else .connect)
  | .automaticStartWithDampPeerOscillations => f.goes (if f.passive then .active else .connect)
  | _ => f.stay

/-- The arms that Connect and Active share while the DelayOpen timer runs; `none` leaves the event
to the state's own handler. Source: bgp/fsm/delay_open.go. -/
def handleDelayOpen (event : Event) : Option Outcome :=
  match f.timers with
  | none => none
  | some timers =>
    match event with
    | .tcpConnectionConfirmed =>
      let (timers, enabled) := timers.startDelayOpenTimer
      if enabled then some { f with timers := some timers }.stay else none
    | .delayOpenTimerExpires =>
      if timers.delayOpenRunning then some (f.stopDelayOpenTimer.goes .openSent) else none
    | .bgpOpenWithDelayOpenTimer =>
      if timers.delayOpenRunning then some (f.stopDelayOpenTimer.goes .openConfirm) else none
    | .notifMsgVerErr => if timers.delayOpenRunning then some (f.goes .idle) else none
    | _ => none

/-- Source: fsm.go. -/
def handleConnect (event : Event) : Outcome :=
  match f.handleDelayOpen event with
  | some outcome => outcome
  | none =>
    match event with
    | .manualStart | .automaticStart | .automaticStartWithDampPeerOscillations => f.stay
    | .automaticStop | .openCollisionDump => f.increment.goes .idle
    | .manualStop => f.reset.goes .idle
    | .connectRetryTimerExpires => f.stopDelayOpenTimer.stay
    | .tcpConnectionConfirmed => f.goes .openSent
    | .tcpConnectionFails =>
      if f.delayOpenRunning then f.stopDelayOpenTimer.goes .active else f.goes .idle
    | .bfdAdminDown | .bfdDisabled | .bfdUp =>
      if f.bfdSub = .connectDelayOpenBfdUpPending then f.goes .openConfirm else f.stay
    | .bfdDown => f.stay
    | .bfdHoldTimerExpires => f.increment.goes .idle
    | .bfdStrictConfigChanged => f.reset.goes .idle
    | .bgpHeaderErr | .bgpOpenMsgErr | .notifMsgVerErr | .notifMsg => f.increment.goes .idle
    | _ => f.fails

/-- Source: fsm.go. -/
def handleActive (event : Event) : Outcome :=
  match f.handleDelayOpen event with
  | some outcome => outcome
  | none =>
    match event with
    | .manualStart | .automaticStart | .automaticStartWithDampPeerOscillations => f.stay
    | .automaticStop | .openCollisionDump => f.increment.goes .idle
    | .manualStop => f.reset.goes .idle
    | .tcpConnectionConfirmed => f.goes .openSent
    | .tcpConnectionFails => f.increment.goes .idle
    | .connectRetryTimerExpires => if !f.passive then f.goes .connect else f.stay
    | .bgpHeaderErr | .bgpOpenMsgErr | .notifMsgVerErr | .notifMsg => f.increment.goes .idle
    | .bfdAdminDown | .bfdDisabled | .bfdUp =>
      if f.bfdSub = .activeDelayOpenBfdUpPending then f.goes .openConfirm else f.stay
    | .bfdDown => f.stay
    | .bfdHoldTimerExpires => f.increment.goes .idle
    | .bfdStrictConfigChanged => f.reset.goes .idle
    | _ => f.fails

/-- Source: fsm.go. -/
def handleOpenSent : Event → Outcome
  | .manualStop => f.reset.goes .idle
  | .automaticStop | .openCollisionDump => f.increment.goes .idle
  | .bgpOpen => if f.bfdSub ≠ .none then f.fails else f.goes .openConfirm
  | .keepaliveMsg =>
    if !f.bfdStrict ∨ f.bfdSub = .none then f.fails
    else { f with bfdSub := .openSentConfirmedBfdUpPending }.stay
  | .bfdAdminDown | .bfdDisabled | .bfdUp =>
    if f.bfdSub = .none then f.stay
    else if f.bfdSub = .openSentBfdUpPending then f.goes .openConfirm
    else f.goes .established
  | .bfdDown => if !f.bfdStrict then f.stay else f.reset.goes .idle
  | .bfdHoldTimerExpires => f.increment.goes .idle
  | .bfdStrictConfigChanged => f.reset.goes .idle
  | .holdTimerExpires => f.increment.goes .idle
  | .bgpHeaderErr | .bgpOpenMsgErr => f.increment.goes .idle
  | .notifMsgVerErr => f.goes .idle
  | .tcpConnectionFails => f.goes .active
  | .manualStart | .automaticStart | .automaticStartWithDampPeerOscillations => f.stay
  | _ => f.fails

/-- Source: fsm.go. -/
def handleOpenConfirm : Event → Outcome
  | .manualStop => f.reset.goes .idle
  | .automaticStop | .openCollisionDump => f.increment.goes .idle
  | .keepaliveMsg => f.goes .established
  | .holdTimerExpires => f.increment.goes .idle
  | .notifMsg => f.increment.goes .idle
  | .notifMsgVerErr => f.goes .idle
  | .bgpHeaderErr | .bgpOpenMsgErr => f.increment.goes .idle
  | .tcpConnectionFails => f.increment.goes .idle
  | .keepaliveTimerExpires => f.stay
  | .bfdAdminDown | .bfdDisabled | .bfdUp => f.stay
  | .bfdDown => if !f.bfdStrict then f.stay else f.reset.goes .idle
  | .bfdStrictConfigChanged => f.reset.goes .idle
  | .bfdHoldTimerExpires => f.stay
  | .manualStart | .automaticStart | .automaticStartWithDampPeerOscillations => f.stay
  | _ => f.fails

/-- Source: fsm.go. -/
def handleEstablished : Event → Outcome
  | .manualStop => f.reset.goes .idle
  | .automaticStop | .openCollisionDump => f.increment.goes .idle
  | .keepaliveMsg => f.stay
  | .keepaliveTimerExpires => f.stay
  | .updateMsg => f.stay
  | .holdTimerExpires => f.increment.goes .idle
  | .notifMsg | .notifMsgVerErr => f.increment.goes .idle
  | .updateMsgErr => f.increment.goes .idle
  | .bgpHeaderErr => f.increment.goes .idle
  | .tcpConnectionFails => f.increment.goes .idle
  | .bfdAdminDown | .bfdDisabled | .bfdUp => f.stay
  | .bfdDown => f.increment.goes .idle
  | .bfdStrictConfigChanged | .bfdHoldTimerExpires => f.stay
  | .manualStart | .automaticStart | .automaticStartWithDampPeerOscillations => f.stay
  | _ => f.fails

/-- The handler of the state the machine is in. Source: fsm.go Event. -/
def dispatch (event : Event) : Outcome :=
  let f := { f with event := event }
  match f.state with
  | .idle => f.handleIdle event
  | .connect => f.handleConnect event
  | .active => f.handleActive event
  | .openSent => f.handleOpenSent event
  | .openConfirm => f.handleOpenConfirm event
  | .established => f.handleEstablished event

/-- The fields after a change of the state. Source: fsm.go change. -/
def moved (target : State) : Fsm :=
  let f' := { f with
    state := target
    bfdSub := if f.state ≠ target then .none else f.bfdSub
    enteredEstablished := f.enteredEstablished || (f.state ≠ target && target = .established) }
  if target = .idle then f'.stopDelayOpenTimer else f'

/-- Source: fsm.go. -/
def enterBfdUpPending : Fsm :=
  if f.state ≠ .openSent then f else { f with bfdSub := .openSentBfdUpPending }

/-- Source: delay_open.go. -/
def enterDelayOpenBfdUpPending : Fsm :=
  if (f.state ≠ .connect ∧ f.state ≠ .active) ∨ !f.bfdStrict ∨ f.bfdSub ≠ .none ∨
    !f.delayOpenRunning then f
  else { f.stopDelayOpenTimer with
    event := .bgpOpenWithDelayOpenTimer
    bfdSub := if f.state = .active then .activeDelayOpenBfdUpPending
      else .connectDelayOpenBfdUpPending }

end Fsm

/-! ## The handlers leave the state to `change` -/

section

variable {f : Fsm} {event : Event}

lemma state_handleDelayOpen {outcome : Outcome} (h : f.handleDelayOpen event = some outcome) :
    outcome.fsm.state = f.state := by
  unfold Fsm.handleDelayOpen at h
  split at h
  · cases h
  · split at h
    · simp only at h
      split_ifs at h
      cases h
      rfl
    · split_ifs at h
      cases h
      rfl
    · split_ifs at h
      cases h
      rfl
    · split_ifs at h
      cases h
      rfl
    · cases h

lemma state_ofDelayOpen {own : Outcome} (hown : own.fsm.state = f.state) :
    (match f.handleDelayOpen event with
      | some outcome => outcome
      | none => own).fsm.state = f.state := by
  split
  · rename_i h
    exact state_handleDelayOpen h
  · exact hown

lemma state_handleIdle (f : Fsm) (event : Event) : (f.handleIdle event).fsm.state = f.state := by
  unfold Fsm.handleIdle
  split <;> rfl

lemma state_handleConnect (f : Fsm) (event : Event) :
    (f.handleConnect event).fsm.state = f.state := by
  apply state_ofDelayOpen
  split <;> first | rfl | (split_ifs <;> rfl)

lemma state_handleActive (f : Fsm) (event : Event) :
    (f.handleActive event).fsm.state = f.state := by
  apply state_ofDelayOpen
  split <;> first | rfl | (split_ifs <;> rfl)

lemma state_handleOpenSent (f : Fsm) (event : Event) :
    (f.handleOpenSent event).fsm.state = f.state := by
  unfold Fsm.handleOpenSent
  split <;> first | rfl | (split_ifs <;> rfl)

lemma state_handleOpenConfirm (f : Fsm) (event : Event) :
    (f.handleOpenConfirm event).fsm.state = f.state := by
  unfold Fsm.handleOpenConfirm
  split <;> first | rfl | (split_ifs <;> rfl)

lemma state_handleEstablished (f : Fsm) (event : Event) :
    (f.handleEstablished event).fsm.state = f.state := by
  unfold Fsm.handleEstablished
  split <;> rfl

lemma state_dispatch (f : Fsm) (event : Event) : (f.dispatch event).fsm.state = f.state := by
  unfold Fsm.dispatch
  simp only
  split
  · exact state_handleIdle _ event
  · exact state_handleConnect _ event
  · exact state_handleActive _ event
  · exact state_handleOpenSent _ event
  · exact state_handleOpenConfirm _ event
  · exact state_handleEstablished _ event

end

lemma Fsm.state_moved (f : Fsm) (target : State) : (f.moved target).state = target := by
  unfold Fsm.moved
  simp only
  split_ifs <;> rfl

end Ze.BgpFsm
