import Ze.L2tp.Wire
import Mathlib.Data.Int.Notation

/-!
# The reliable delivery engine of an L2TP control connection

The engine of `internal/component/l2tp/reliable.go` with its sequence comparison
(`reliable_seq.go`), congestion window (`reliable_window.go`) and reorder queue
(`reliable_reorder.go`). Sequence numbers are 16-bit words; instants and durations are natural
numbers, and the zero time of the source is `none`.

Default file: `reliable.go`.
-/

namespace Ze.L2tp

/-! ## Sequence numbers -/

/-- `a` comes before `b` in the 16-bit sequence space. Source: reliable_seq.go. -/
def seqBefore (a b : UInt16) : Bool :=
  let diff := b - a
  diff > 0 && diff ≤ 32767

def recvWindowMax : UInt16 := 32768

/-! ## The window -/

structure Window where
  cwnd : UInt16
  ssthresh : UInt16
  counter : UInt16
  peerRWS : UInt16

def clampPeerRWS (peerRWS : UInt16) : UInt16 :=
  if peerRWS = 0 then 1
  else if peerRWS > recvWindowMax then recvWindowMax
  else peerRWS

def newWindow (peerRWS : UInt16) : Window where
  cwnd := 1
  ssthresh := clampPeerRWS peerRWS
  counter := 0
  peerRWS := clampPeerRWS peerRWS

namespace Window

/-- Slow start, then congestion avoidance, never beyond the peer's window.
Source: reliable_window.go. -/
def onAck (w : Window) : Window :=
  let w :=
    if w.cwnd < w.ssthresh then { w with cwnd := w.cwnd + 1 }
    else if w.counter + 1 ≥ w.cwnd then { w with cwnd := w.cwnd + 1, counter := 0 }
    else { w with counter := w.counter + 1 }
  if w.cwnd > w.peerRWS then { w with cwnd := w.peerRWS } else w

def onRetransmit (w : Window) : Window :=
  { w with ssthresh := max (w.cwnd / 2) 1, cwnd := 1, counter := 0 }

def updatePeerRWS (w : Window) (peerRWS : UInt16) : Window :=
  let peerRWS := clampPeerRWS peerRWS
  let w := { w with peerRWS }
  if w.cwnd > peerRWS then { w with cwnd := peerRWS } else w

def available (w : Window) (outstanding : UInt16) : UInt16 :=
  let limit := min w.cwnd w.peerRWS
  if outstanding ≥ limit then 0 else limit - outstanding

end Window

/-! ## The reorder queue -/

structure ReorderEntry where
  ns : UInt16
  sessionID : UInt16
  payload : List UInt8

/-- Messages that arrived early, by their `Ns`. Source: reliable_reorder.go. -/
structure ReorderQueue where
  capacity : UInt16
  entries : UInt16 → Option ReorderEntry

namespace ReorderQueue

/-- Buffer a message; refused when it is in order, beyond the window or there already.
Source: reliable_reorder.go. -/
def store (q : ReorderQueue) (ns sessionID nextRecvSeq : UInt16) (payload : List UInt8) :
    Option ReorderQueue :=
  let offset := ns - nextRecvSeq
  if offset = 0 ∨ offset ≥ q.capacity then none
  else if (q.entries ns).isSome then none
  else some { q with entries := Function.update q.entries ns (some { ns, sessionID, payload }) }

/-- The loop of `popInOrder`. An entry that is returned is deleted, so the loop ends after as many
turns as there are numbers. Source: reliable_reorder.go popInOrder. -/
def popLoop : ℕ → (UInt16 → Option ReorderEntry) → UInt16 →
    List ReorderEntry × (UInt16 → Option ReorderEntry)
  | 0, entries, _ => ([], entries)
  | turns + 1, entries, ns =>
    match entries ns with
    | none => ([], entries)
    | some entry =>
      let rest := popLoop turns (Function.update entries ns none) (ns + 1)
      (entry :: rest.1, rest.2)

def popInOrder (q : ReorderQueue) (nextRecvSeq : UInt16) : List ReorderEntry × ReorderQueue :=
  let out := popLoop 65536 q.entries nextRecvSeq
  (out.1, { q with entries := out.2 })

end ReorderQueue

/-! ## The engine -/

structure ReliableConfig where
  peerTunnelID : UInt16 := 0
  rTimeout : ℕ := 0
  rTimeoutCap : ℕ := 0
  maxRetransmit : ℤ := 0
  recvWindow : UInt16 := 0
  initialPeerRWS : UInt16 := 0

structure RtmsEntry where
  ns : UInt16
  bytes : List UInt8

/-- The state of one control connection; a message that waits for the window is kept as the caller
gave it.
Source: ReliableEngine, pendingSend. -/
structure Engine where
  cfg : ReliableConfig
  nextSendSeq : UInt16 := 0
  nextRecvSeq : UInt16 := 0
  peerNr : UInt16 := 0
  sendQueue : List Message := []
  rtmsQueue : List RtmsEntry := []
  reorder : ReorderQueue
  win : Window
  rtimeout : ℕ
  attempts : ℕ := 0
  deadline : Option ℕ := none
  needsZLB : Bool := false
  closedAt : Option ℕ := none

structure RecvEntry where
  ns : UInt16
  sessionID : UInt16
  messageType : UInt16 := 0
  payload : List UInt8
  messageTypeMandatory : Bool := false
  malformed : Bool := false

inductive Classification
  | delivered
  | duplicate
  | reorderQueued
  | discarded
  | zlb
  | dataMessage
  deriving DecidableEq

structure ReceiveResult where
  cls : Classification
  delivered : List RecvEntry := []
  newSends : List (List UInt8) := []
  acked : ℕ := 0

structure TickResult where
  retransmits : List (List UInt8) := []
  teardownRequired : Bool := false

/-- Why a message is not taken.
Source: ErrEngineClosed, ErrBodyEmpty, ErrBodyTooLarge, ErrSendQueueFull. -/
inductive EnqueueError
  | engineClosed
  | bodyEmpty
  | bodyTooLarge
  | sendQueueFull
  deriving DecidableEq

def maxSendQueueDepth : ℕ := 256

/-- The defaults for the fields that are zero, and the cap on our own window; durations in
milliseconds.
Source: NewReliableEngine. -/
def ReliableConfig.withDefaults (cfg : ReliableConfig) : ReliableConfig where
  peerTunnelID := cfg.peerTunnelID
  rTimeout := if cfg.rTimeout = 0 then 1000 else cfg.rTimeout
  rTimeoutCap := if cfg.rTimeoutCap = 0 then 16000 else cfg.rTimeoutCap
  maxRetransmit := if cfg.maxRetransmit = 0 then 5 else cfg.maxRetransmit
  recvWindow :=
    let recvWindow := if cfg.recvWindow = 0 then 16 else cfg.recvWindow
    if recvWindow > recvWindowMax then recvWindowMax else recvWindow
  initialPeerRWS := if cfg.initialPeerRWS = 0 then 4 else cfg.initialPeerRWS

def newReliableEngine (cfg : ReliableConfig) : Engine where
  cfg := cfg.withDefaults
  reorder := { capacity := cfg.withDefaults.recvWindow, entries := fun _ => none }
  win := newWindow cfg.withDefaults.initialPeerRWS
  rtimeout := cfg.withDefaults.rTimeout

/-- A received message with the type its first AVP names; a body that does not open with a
well-formed Message Type AVP is malformed. -/
def makeRecvEntry (ns sessionID : UInt16) (payload : List UInt8) : RecvEntry :=
  let malformed : RecvEntry := { ns, sessionID, payload, malformed := true }
  match nextAVP payload with
  | none => malformed
  | some avp =>
    if avp.vendorID ≠ 0 ∨ avp.attrType ≠ avpMessageType then malformed
    else if avp.hidden then malformed
    else if avp.value.length ≠ 2 then malformed
    else
      { ns, sessionID, payload
        messageType := getUint16 avp.value 0
        messageTypeMandatory := avp.mandatory }

namespace Engine

/-- Whether another message may be in flight. Source: e.win.available(outstanding) == 0. -/
def blocked (e : Engine) : Bool :=
  e.win.available (UInt16.ofNat e.rtmsQueue.length) = 0

def send (e : Engine) (m : Message) (now : ℕ) : Engine × List UInt8 :=
  let bytes := frame e.cfg.peerTunnelID m e.nextSendSeq e.nextRecvSeq
  ({ e with
      rtmsQueue := e.rtmsQueue ++ [{ ns := e.nextSendSeq, bytes }]
      nextSendSeq := e.nextSendSeq + 1
      needsZLB := false
      deadline := if e.deadline.isNone then some (now + e.rtimeout) else e.deadline
      attempts := if e.deadline.isNone then 0 else e.attempts }, bytes)

/-- Ask for a message to be sent: at once when the window allows it, else from the send queue. -/
def enqueue (e : Engine) (m : Message) (now : ℕ) (priority : Bool) :
    Except EnqueueError (Engine × Option (List UInt8)) :=
  if e.closedAt.isSome then .error .engineClosed
  else if m.body.length < avpHeaderLen + 2 then .error .bodyEmpty
  else if m.body.length + controlHeaderLen > 0x03FF then .error .bodyTooLarge
  else if e.blocked then
    if !priority && e.sendQueue.length ≥ maxSendQueueDepth then .error .sendQueueFull
    else if priority then .ok ({ e with sendQueue := m :: e.sendQueue }, none)
    else .ok ({ e with sendQueue := e.sendQueue ++ [m] }, none)
  else
    let sent := e.send m now
    .ok (sent.1, some sent.2)

/-- The loop of `drainSendQueue` on the messages that still wait. Source: drainSendQueue -/
def drainLoop (now : ℕ) : List Message → Engine → Engine × List (List UInt8)
  | [], e => ({ e with sendQueue := [] }, [])
  | head :: rest, e =>
    if e.blocked then ({ e with sendQueue := head :: rest }, [])
    else
      let sent := e.send head now
      let out := drainLoop now rest sent.1
      (out.1, sent.2 :: out.2)

def drainSendQueue (e : Engine) (now : ℕ) : Engine × List (List UInt8) :=
  drainLoop now e.sendQueue e

/-- The loop of `processNr`: what is in flight before `nr` is taken off, one growth of the window
for each.
Source: processNr. -/
def clearLoop (nr : UInt16) : List RtmsEntry → Window → List RtmsEntry × Window × ℕ
  | [], w => ([], w, 0)
  | head :: rest, w =>
    if seqBefore head.ns nr then
      let out := clearLoop nr rest w.onAck
      (out.1, out.2.1, out.2.2 + 1)
    else (head :: rest, w, 0)

/-- Take an acknowledgement: everything before `nr` is off the retransmission queue. -/
def processNr (e : Engine) (nr : UInt16) : Engine × ℕ :=
  if !seqBefore e.peerNr nr then (e, 0)
  else
    let out := clearLoop nr e.rtmsQueue e.win
    ({ e with peerNr := nr, rtmsQueue := out.1, win := out.2.1 }, out.2.2)

/-- The acknowledgement part of a receive: the queue is cleared, and if that freed something the
timer is reset and the send queue drained.
Source: OnReceive, down to newSends. -/
def takeNr (e : Engine) (nr : UInt16) (now : ℕ) : Engine × List (List UInt8) × ℕ :=
  let acked := e.processNr nr
  if acked.2 > 0 then
    let e := acked.1
    let timer := if e.rtmsQueue.isEmpty then none else some (now + e.cfg.rTimeout)
    let out := drainSendQueue
      { e with deadline := timer, attempts := 0, rtimeout := e.cfg.rTimeout } now
    (out.1, out.2, acked.2)
  else (acked.1, [], acked.2)

/-- The delivery part of a receive: sort a message by its `Ns`.
Source: OnReceive, from hdr.Ns == e.nextRecvSeq on -/
def takeNs (e : Engine) (ns sessionID : UInt16) (payload : List UInt8) :
    Engine × Classification × List RecvEntry :=
  if ns = e.nextRecvSeq then
    let next := e.nextRecvSeq + 1
    let popped := e.reorder.popInOrder next
    ({ e with
        nextRecvSeq := next + UInt16.ofNat popped.1.length
        reorder := popped.2
        needsZLB := true }, .delivered, makeRecvEntry ns sessionID payload ::
        popped.1.map fun r => makeRecvEntry r.ns r.sessionID r.payload)
  else if seqBefore ns e.nextRecvSeq then ({ e with needsZLB := true }, .duplicate, [])
  else
    match e.reorder.store ns sessionID e.nextRecvSeq payload with
    | some reorder => ({ e with reorder }, .reorderQueued, [])
    | none => (e, .discarded, [])

def onReceive (e : Engine) (hdr : MessageHeader) (payload : List UInt8) (now : ℕ) :
    Engine × ReceiveResult :=
  if !hdr.isControl then (e, { cls := .dataMessage })
  else
    let ack := e.takeNr hdr.nr now
    if payload.isEmpty then (ack.1, { cls := .zlb, newSends := ack.2.1, acked := ack.2.2 })
    else
      let out := ack.1.takeNs hdr.ns hdr.sessionID payload
      (out.1, { cls := out.2.1, delivered := out.2.2, newSends := ack.2.1, acked := ack.2.2 })

def updatePeerRWS (e : Engine) (size : UInt16) (now : ℕ) : Engine × List (List UInt8) :=
  drainSendQueue { e with win := e.win.updatePeerRWS size } now

/-- The timer: everything in flight is sent again, with the `Nr` of now. -/
def tick (e : Engine) (now : ℕ) : Engine × TickResult :=
  if e.deadline.all (now < ·) || e.rtmsQueue.isEmpty then (e, {})
  else if ((e.attempts + 1 : ℕ) : ℤ) > e.cfg.maxRetransmit then
    ({ e with attempts := e.attempts + 1 }, { teardownRequired := true })
  else
    let rtmsQueue := e.rtmsQueue.map fun q => { q with bytes := putUint16 q.bytes 10 e.nextRecvSeq }
    let rtimeout := min (e.rtimeout * 2) e.cfg.rTimeoutCap
    ({ e with
        attempts := e.attempts + 1
        rtmsQueue
        win := e.win.onRetransmit
        rtimeout
        deadline := some (now + rtimeout) }, { retransmits := rtmsQueue.map (·.bytes) })

/-- An acknowledgement without a body; it takes no number. -/
def buildZLB (e : Engine) : Engine × List UInt8 :=
  ({ e with needsZLB := false },
    frame e.cfg.peerTunnelID { sessionID := 0, body := [] } e.nextSendSeq e.nextRecvSeq)

def close (e : Engine) (now : ℕ) : Engine :=
  if e.closedAt.isSome then e else { e with closedAt := some now }

def setPeerTunnelID (e : Engine) (peerTID : UInt16) : Engine :=
  { e with cfg := { e.cfg with peerTunnelID := peerTID } }

end Engine

end Ze.L2tp
