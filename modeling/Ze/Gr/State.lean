import Mathlib.Data.List.Basic

/-!
# The graceful-restart state manager

`grStateManager` of `internal/component/bgp/plugins/gr/gr_state.go`. Every method holds the lock and
touches the entry of one peer, so the manager is a function from addresses to cells: the peer's
state if it has one, the timers that were armed for it, and the completions of session-down that
still have to run. Instants are natural numbers and the zero time is `none`; two counters of
re-establishments are history and read by nothing.
-/

namespace Ze.Gr

open Function (update)

variable {F : Type}

/-! ## Capabilities -/

/-- The families of a graceful-restart capability with their F bits, and its restart time.
Source: grPeerCap, grCapFamily -/
structure GrCap (F : Type) where
  restartTime : ℕ
  families : List (F × Bool)

/-- One family of a long-lived capability. Source: gr_llgr.go llgrCapFamily. -/
structure LlgrFamily (F : Type) where
  family : F
  forwardState : Bool
  llst : ℕ

/-- A long-lived graceful-restart capability. Source: gr_llgr.go llgrPeerCap. -/
structure LlgrCap (F : Type) where
  families : List (LlgrFamily F)

/-! ## The state of one peer -/

/-- The restart state of a peer. Source: grPeerState. -/
structure PeerState (F : Type) where
  cycle : ℕ
  stale : List F
  restartTimer : Option ℕ := none
  restartDeadline : Option ℕ := none
  inLLGR : Bool := false
  llgr : List (F × ℕ) := []
  llgrCap : Option (LlgrCap F) := none
  born : ℕ

/-- A timer whose callback has not run: of the restart period, or of one family's long-lived period.
Source: the arguments of time.AfterFunc. -/
structure Timer (F : Type) where
  owner : ℕ
  family : Option F
  started : Bool := false
  stopped : Bool := false
  armedAt : ℕ

/-- A call to the plugin around the manager.
Source: onTimerExpired, onLLGREnter, onLLGRFamilyExpired, onLLGREntryDone, onLLGRComplete.
-/
inductive Action (F : Type)
  | timerExpired
  | llgrEnter (fam : F) (llst : ℕ)
  | llgrFamilyExpired (fam : F)
  | llgrEntryDone (fams : List F)
  | llgrComplete
  deriving DecidableEq

/-- Where a completion is: before the immediate families, before the restart timer, or before the
expiry that it does itself.
Source: the closure of onSessionDownDeferred. -/
inductive Stage
  | enter
  | start
  | expire
  deriving DecidableEq

/-- A completion that has not finished. Source: the closure of onSessionDownDeferred. -/
structure Completion (F : Type) where
  cycle : ℕ
  immediate : List F
  downAt : ℕ
  stage : Stage := .enter

/-- Everything of one peer. Source: grStateManager, one entry of peers; the runtime's timers. -/
structure Cell (F : Type) where
  state : Option (PeerState F) := none
  timers : ℕ → Option (Timer F) := fun _ => none
  nextTimer : ℕ := 0
  nextCycle : ℕ := 0
  pending : List (Completion F) := []
  completed : List ℕ := []
  actions : List (Action F) := []
  reestablished : ℕ := 0

namespace Cell

/-! ## Timers -/

/-- Source: Go, time.AfterFunc. -/
def afterFunc (c : Cell F) (owner : ℕ) (family : Option F) : Cell F :=
  { c with
    timers := update c.timers c.nextTimer
      (some { owner, family, armedAt := c.reestablished })
    nextTimer := c.nextTimer + 1 }

/-- Source: Go, Timer.Stop. -/
def stop (c : Cell F) (id : ℕ) : Cell F :=
  { c with
    timers := update c.timers id
      ((c.timers id).bind fun t => if t.started then some { t with stopped := true } else none) }

/-- Stop the restart timer. Source: state.restartTimer.Stop(). -/
def stopRestart (c : Cell F) (s : PeerState F) : Cell F :=
  match s.restartTimer with
  | none => c
  | some id => c.stop id

def stopLLSTTimersLocked (c : Cell F) (s : PeerState F) : Cell F :=
  s.llgr.foldl (fun c x => c.stop x.2) c

def clearPeerLocked (c : Cell F) : Cell F :=
  match c.state with
  | none => c
  | some s => { (c.stopRestart s).stopLLSTTimersLocked s with state := none }

/-! ## The long-lived period -/

variable [DecidableEq F]

/-- The long-lived stale time of a family; a later entry of the capability with a nonzero time
overrides an earlier one. -/
def llstByFamily (cap : Option (LlgrCap F)) (fam : F) : Option ℕ :=
  let families := (cap.map (·.families)).getD []
  (families.reverse.find? fun f => decide (f.family = fam) && decide (0 < f.llst)).map (·.llst)

/-- What the loop over the families builds: the armed timers, the families that are purged, and
those that enter.
Source: enterLLGRLocked. -/
structure Entering (F : Type) where
  cell : Cell F
  llgr : List (F × ℕ)
  purged : List F := []
  entries : List (F × ℕ) := []

/-- One family: it has a timer already, or gets one for what is left of its time, or is purged.
Source: enterLLGRLocked, the loop -/
def enterOne (s : PeerState F) (deadline now : ℕ) (x : Entering F) (fam : F) : Entering F :=
  if fam ∉ s.stale then x
  else if (x.llgr.lookup fam).isSome then x
  else
    match llstByFamily s.llgrCap fam with
    | none => { x with purged := x.purged ++ [fam] }
    | some llst =>
      if deadline + llst ≤ now then { x with purged := x.purged ++ [fam] }
      else
        { cell := x.cell.afterFunc s.cycle (some fam)
          llgr := x.llgr ++ [(fam, x.cell.nextTimer)]
          purged := x.purged
          entries := x.entries ++ [(fam, llst)] }

/-- Source: enterLLGRLocked, and fire for the calls it collects. -/
def enterLLGRLocked (c : Cell F) (s : PeerState F) (families : List F) (deadline now : ℕ) :
    Cell F × PeerState F :=
  let x := families.foldl (enterOne s deadline now) { cell := c, llgr := s.llgr }
  let s' := { s with
    llgr := x.llgr
    stale := s.stale.filter (· ∉ x.purged)
    inLLGR := !x.llgr.isEmpty }
  let done := s'.stale.isEmpty
  let actions := x.entries.map (fun e => Action.llgrEnter e.1 e.2) ++
    x.purged.map Action.llgrFamilyExpired ++ (if done then [Action.llgrComplete] else []) ++
    (if x.entries.isEmpty then [] else [Action.llgrEntryDone (x.entries.map (·.1))])
  ({ x.cell with
      state := if done then none else some s'
      actions := x.cell.actions ++ actions }, s')

def handleTimerExpired (c : Cell F) (owner now : ℕ) : Cell F :=
  match c.state with
  | none => c
  | some s =>
    if s.cycle ≠ owner then c
    else
      match s.restartDeadline with
      | none => c
      | some deadline =>
        if (s.llgrCap.map (·.families)).getD [] ≠ [] then
          let out := c.enterLLGRLocked s s.stale deadline now
          { out.1 with
            state := out.1.state.map fun s =>
              { s with restartDeadline := none, restartTimer := none } }
        else
          let c := c.clearPeerLocked
          { c with actions := c.actions ++ [.timerExpired] }

def handleLLSTExpired (c : Cell F) (fam : F) (owner : ℕ) : Cell F :=
  match c.state with
  | none => c
  | some s =>
    if s.cycle ≠ owner then c
    else
      let stale := s.stale.filter (· ≠ fam)
      let llgr := s.llgr.filter (·.1 ≠ fam)
      { c with
        state := if stale.isEmpty then none
          else some { s with stale, llgr, inLLGR := !llgr.isEmpty }
        actions := c.actions ++ [.llgrFamilyExpired fam] ++
          if stale.isEmpty then [.llgrComplete] else [] }

/-! ## Events -/

/-- The families that become stale, and those of them that enter the long-lived period at once.
Source: onSessionDownDeferred, staleFamilies and immediate -/
def staleFamilies (cap : GrCap F) (llgrCap : Option (LlgrCap F)) : List F × List F :=
  ((llgrCap.map (·.families)).getD []).foldl
    (fun x f => if f.family ∈ x.1 ∨ f.llst = 0 then x
      else (x.1 ++ [f.family], x.2 ++ [f.family]))
    ((cap.families.map (·.1)).dedup, [])

def onSessionDownDeferred (c : Cell F) (cap : Option (GrCap F)) (llgrCap : Option (LlgrCap F))
    (wasNotification : Bool) (now : ℕ) : Cell F :=
  let c := c.clearPeerLocked
  match cap with
  | none => c
  | some cap =>
    if wasNotification then c
    else
      let fams := staleFamilies cap llgrCap
      if fams.1.isEmpty then c
      else
        { c with
          state := some
            { cycle := c.nextCycle
              stale := fams.1
              llgrCap
              restartDeadline := if cap.families.isEmpty then none else some (now + cap.restartTime)
              born := c.reestablished }
          nextCycle := c.nextCycle + 1
          pending := c.pending ++
            [{ cycle := c.nextCycle, immediate := fams.2, downAt := now }] }

def finish (c : Cell F) (d : Completion F) : Cell F :=
  { c with
    pending := c.pending.filter (·.cycle ≠ d.cycle)
    completed := d.cycle :: c.completed }

def goOn (c : Cell F) (d : Completion F) (stage : Stage) : Cell F :=
  { c with pending := c.pending.map fun x => if x.cycle = d.cycle then { x with stage } else x }

/-- One locked section of a completion.
Source: the closure of onSessionDownDeferred, startRestartTimer. -/
def complete (c : Cell F) (d : Completion F) (now : ℕ) : Cell F :=
  match d.stage with
  | .enter =>
    if d.immediate.isEmpty then c.goOn d .start
    else
      match c.state with
      | none => c.finish d
      | some s =>
        if s.cycle ≠ d.cycle then c.finish d
        else (c.enterLLGRLocked s d.immediate d.downAt now).1.goOn d .start
  | .start =>
    match c.state with
    | none => c.finish d
    | some s =>
      if s.cycle ≠ d.cycle then c.finish d
      else
        match s.restartDeadline with
        | none => c.finish d
        | some deadline =>
          if now < deadline then
            { (c.afterFunc s.cycle none).finish d with
              state := some { s with restartTimer := some c.nextTimer } }
          else c.goOn d .expire
  | .expire => (c.handleTimerExpired d.cycle now).finish d

/-- The completion is about to read the families of a capability that is nil: the session came back
without one before the completion ran.
Source: enterLLGRLocked, state.llgrCap.Families. -/
def readsNilCap (c : Cell F) (d : Completion F) : Bool :=
  decide (d.stage = .enter) && !d.immediate.isEmpty &&
    c.state.any fun s => decide (s.cycle = d.cycle) && s.llgrCap.isNone

def reconnectKeepsFamily (newCap : GrCap F) (newLLGRCap : Option (LlgrCap F))
    (llgr : List (F × ℕ)) (fam : F) : Bool :=
  let grForwarding := newCap.families.any fun f => decide (f.1 = fam) && f.2
  let llgrForwarding := ((newLLGRCap.map (·.families)).getD []).any fun f =>
    decide (f.family = fam) && f.forwardState
  grForwarding && (!(llgr.lookup fam).isSome || llgrForwarding)

/-- What the new session leaves of a state: the families that survive its capabilities, without any
timer.
Source: onSessionReestablished. -/
def reconnected (s : PeerState F) (newCap : Option (GrCap F)) (newLLGRCap : Option (LlgrCap F)) :
    Option (PeerState F) :=
  match newCap with
  | none => none
  | some newCap =>
    let stale := s.stale.filter (reconnectKeepsFamily newCap newLLGRCap s.llgr)
    if stale.isEmpty then none
    else some { s with
      stale
      restartTimer := none
      restartDeadline := none
      inLLGR := false
      llgr := []
      llgrCap := newLLGRCap }

/-- The session is up again: every timer is stopped, and the families that do not survive are
purged. -/
def onSessionReestablished (c : Cell F) (newCap : Option (GrCap F))
    (newLLGRCap : Option (LlgrCap F)) : Cell F :=
  match c.state with
  | none => { c with reestablished := c.reestablished + 1 }
  | some s =>
    { (c.stopRestart s).stopLLSTTimersLocked s with
      reestablished := c.reestablished + 1
      state := reconnected s newCap newLLGRCap }

/-- The long-lived timer of a family is stopped and leaves the list. Source: onEORReceived. -/
def stopFamily (c : Cell F) (s : PeerState F) (fam : F) : Cell F × List (F × ℕ) :=
  if s.inLLGR then
    match s.llgr.lookup fam with
    | some id => (c.stop id, s.llgr.filter (·.1 ≠ fam))
    | none => (c, s.llgr)
  else (c, s.llgr)

def onEORReceived (c : Cell F) (fam : F) : Cell F :=
  match c.state with
  | none => c
  | some s =>
    if fam ∉ s.stale then c
    else
      let out := c.stopFamily s fam
      let s' := { s with stale := s.stale.filter (· ≠ fam), llgr := out.2 }
      if s'.stale.isEmpty then
        { (out.1.stopRestart s').stopLLSTTimersLocked s' with state := none }
      else { out.1 with state := some s' }

/-- What can happen to one peer. `fire` is a timer whose time has come and whose callback has
started, `run` is its callback once it holds the lock.
Source: the methods of grStateManager and the closures of its timers -/
inductive Op (F : Type)
  | down (cap : Option (GrCap F)) (llgrCap : Option (LlgrCap F)) (wasNotification : Bool) (now : ℕ)
  | complete (cycle : ℕ) (now : ℕ)
  | reestablished (newCap : Option (GrCap F)) (newLLGRCap : Option (LlgrCap F))
  | eor (fam : F)
  | remove
  | fire (id : ℕ)
  | run (id : ℕ) (now : ℕ)

/-- The body of a timer's callback. Source: the closures given to time.AfterFunc. -/
def callback (c : Cell F) (t : Timer F) (now : ℕ) : Cell F :=
  match t.family with
  | none => c.handleTimerExpired t.owner now
  | some fam => c.handleLLSTExpired fam t.owner

/-- One step. Source: the methods of grStateManager. -/
def step (c : Cell F) : Op F → Option (Cell F)
  | .down cap llgrCap wasNotification now =>
    some (c.onSessionDownDeferred cap llgrCap wasNotification now)
  | .complete cycle now =>
    match c.pending.find? (·.cycle = cycle) with
    | none => none
    | some d => if c.readsNilCap d then none else some (c.complete d now)
  | .reestablished newCap newLLGRCap => some (c.onSessionReestablished newCap newLLGRCap)
  | .eor fam => some (c.onEORReceived fam)
  | .remove => some c.clearPeerLocked
  | .fire id =>
    match c.timers id with
    | none => none
    | some t =>
      if t.started then none
      else some { c with timers := update c.timers id (some { t with started := true }) }
  | .run id now =>
    match c.timers id with
    | none => none
    | some t =>
      if t.started then
        some ({ c with timers := update c.timers id none }.callback t now)
      else none

end Cell

/-! ## The manager -/

/-- The cells of all peers. Source: grStateManager. -/
abbrev Manager (A F : Type) := A → Cell F

/-- One step of the manager: at one peer. Source: the argument peerAddr of every method. -/
def Manager.step {A : Type} [DecidableEq A] [DecidableEq F] (m : Manager A F)
    (op : A × Cell.Op F) : Option (Manager A F) :=
  ((m op.1).step op.2).map (update m op.1)

end Ze.Gr
