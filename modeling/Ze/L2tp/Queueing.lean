import Ze.L2tp.Outstanding

/-!
# The window, the queues and the timer

What an engine keeps under every call of its owner and every message of the network, with
acknowledgements of messages that were never sent.

Default file: `reliable.go`.
-/

namespace Ze.L2tp

open Ze.Lib List
open UInt16 (le_iff_toNat_le ofNat toNat)

/-! ## The window -/

/-- The congestion window is between 1 and the peer's window, which is a legal one. Source:
reliable_window.go window. -/
structure Window.Legal (w : Window) : Prop where
  low : 1 ≤ w.cwnd.toNat
  high : w.cwnd.toNat ≤ w.peerRWS.toNat
  legal : w.peerRWS.toNat ≤ 32768

lemma one_le_clampPeerRWS (size : UInt16) : 1 ≤ (clampPeerRWS size).toNat := by
  unfold clampPeerRWS
  split_ifs with h₀
  · decide
  · decide
  · have hne : size.toNat ≠ 0 := fun h => h₀ (UInt16.toNat_inj.1 h)
    omega

lemma legal_newWindow (size : UInt16) : (newWindow size).Legal :=
  ⟨le_rfl, one_le_clampPeerRWS size, clampPeerRWS_le size⟩

namespace Window.Legal

variable {w : Window}

lemma cut (hlow : 1 ≤ w.cwnd.toNat) (hrws : 1 ≤ w.peerRWS.toNat)
    (hlegal : w.peerRWS.toNat ≤ 32768) :
    (if w.cwnd > w.peerRWS then { w with cwnd := w.peerRWS } else w).Legal := by
  split_ifs with hover
  · exact ⟨hrws, le_rfl, hlegal⟩
  · rw [gt_iff_lt, UInt16.lt_iff_toNat_lt] at hover
    exact ⟨hlow, Nat.le_of_not_lt hover, hlegal⟩

lemma onAck (h : w.Legal) : w.onAck.Legal := by
  obtain ⟨hlow, hhigh, hlegal⟩ := h
  have hgrown : 1 ≤ (w.cwnd + 1).toNat := by
    rw [UInt16.toNat_add]
    have hone : (1 : UInt16).toNat = 1 := rfl
    omega
  unfold Window.onAck
  refine cut ?_ ?_ ?_
  · split_ifs
    · exact hgrown
    · exact hgrown
    · exact hlow
  · split_ifs <;> exact hlow.trans hhigh
  · split_ifs <;> exact hlegal

lemma onRetransmit (h : w.Legal) : w.onRetransmit.Legal :=
  ⟨le_rfl, h.low.trans h.high, h.legal⟩

lemma updatePeerRWS (h : w.Legal) (size : UInt16) : (w.updatePeerRWS size).Legal :=
  cut (w := { w with peerRWS := clampPeerRWS size }) h.low (one_le_clampPeerRWS size)
    (clampPeerRWS_le size)

lemma min_eq (h : w.Legal) : min w.cwnd w.peerRWS = w.cwnd :=
  if_pos (le_iff_toNat_le.2 h.high)

end Window.Legal

/-! ## The engine between its calls -/

namespace Engine

/-- The window is legal, what is in flight fits a 16-bit count and has a deadline.
Source: ReliableEngine. -/
structure Paced (e : Engine) : Prop where
  win : e.win.Legal
  bounded : e.rtmsQueue.length ≤ 32768
  armed : e.rtmsQueue ≠ [] → e.deadline ≠ none

/-- As many messages are in flight as the window allows. Source: reliable_window.go available.
-/
def Full (e : Engine) : Prop :=
  e.win.cwnd.toNat ≤ e.rtmsQueue.length

variable {e : Engine}

lemma Paced.blocked_iff (h : e.Paced) : e.blocked ↔ e.Full := by
  have hnat : (ofNat e.rtmsQueue.length).toNat = e.rtmsQueue.length := by
    rw [UInt16.toNat_ofNat']
    have := h.bounded
    omega
  unfold blocked Window.available Full
  rw [h.win.min_eq, decide_eq_true_eq]
  dsimp only
  by_cases hge : ofNat e.rtmsQueue.length ≥ e.win.cwnd
  · rw [if_pos hge]
    rw [ge_iff_le, le_iff_toNat_le, hnat] at hge
    exact iff_of_true rfl hge
  · rw [if_neg hge]
    rw [ge_iff_le, le_iff_toNat_le, hnat] at hge
    refine iff_of_false (fun hzero => hge ?_) hge
    have hzero' := congrArg toNat hzero
    rw [UInt16.toNat_sub, hnat] at hzero'
    have hlt := e.win.cwnd.toNat_lt
    have hz : (0 : UInt16).toNat = 0 := rfl
    omega

lemma Paced.send (h : e.Paced) (hopen : ¬ e.Full) (m : Message) (now : ℕ) :
    (e.send m now).1.Paced := by
  have hlt : e.rtmsQueue.length < e.win.cwnd.toNat := Nat.lt_of_not_le hopen
  have hhigh := h.win.high
  have hlegal := h.win.legal
  refine ⟨h.win, ?_, fun _ => ?_⟩
  · show (e.rtmsQueue ++ [_]).length ≤ 32768
    rw [length_append, length_singleton]
    omega
  · show (if e.deadline.isNone then some (now + e.rtimeout) else e.deadline) ≠ none
    rcases hd : e.deadline with _ | deadline
    · exact Option.some_ne_none _
    · exact Option.some_ne_none _

/-- A drain sends the first messages that wait, numbered on from the next number, and stops only at
a full window. -/
lemma drainLoop_spec (now : ℕ) :
    (waiting : List Message) → ∀ (e : Engine) (base : ℕ), e.Paced → e.nextSendSeq = serial base →
      ∃ k ≤ waiting.length,
        (drainLoop now waiting e).1.Paced ∧
        (drainLoop now waiting e).1.sendQueue = waiting.drop k ∧
        (waiting.drop k ≠ [] → (drainLoop now waiting e).1.Full) ∧
        (drainLoop now waiting e).1.nextSendSeq = serial (base + k) ∧
        (drainLoop now waiting e).2 =
          frames e.cfg.peerTunnelID (waiting.take k) base e.nextRecvSeq
  | [], e, base, h, hnext =>
    ⟨0, le_rfl, ⟨h.win, h.bounded, h.armed⟩, rfl, fun hne => absurd rfl hne, hnext, rfl⟩
  | head :: rest, e, base, h, hnext => by
    by_cases hfull : e.Full
    · have hblocked := h.blocked_iff.2 hfull
      rw [drainLoop, if_pos hblocked]
      exact ⟨0, Nat.zero_le _, ⟨h.win, h.bounded, h.armed⟩, rfl, fun _ => hfull, hnext, rfl⟩
    · have hopen : ¬ e.blocked := fun hblocked => hfull (h.blocked_iff.1 hblocked)
      have hnext' : (e.send head now).1.nextSendSeq = serial (base + 1) := by
        rw [serial_succ, ← hnext]
        rfl
      obtain ⟨k, hk, hpaced, hqueue, hstop, hseq, hwires⟩ :=
        drainLoop_spec now rest (e.send head now).1 (base + 1) (h.send hfull head now) hnext'
      rw [drainLoop, if_neg hopen]
      refine ⟨k + 1, Nat.succ_le_succ hk, hpaced, hqueue, hstop, ?_, ?_⟩
      · rw [← Nat.add_assoc, Nat.add_right_comm]
        exact hseq
      · dsimp only
        rw [hwires, take_succ_cons, frames, frames, zipIdx_cons, map_cons, Engine.send, hnext]

/-- Two engines agree on what the window, the queues and the timer are. Source: ReliableEngine. -/
structure SendsAlike (e e' : Engine) : Prop where
  win : e'.win = e.win
  rtmsQueue : e'.rtmsQueue = e.rtmsQueue
  deadline : e'.deadline = e.deadline
  sendQueue : e'.sendQueue = e.sendQueue
  nextSendSeq : e'.nextSendSeq = e.nextSendSeq

variable {e' : Engine}

lemma SendsAlike.refl : SendsAlike e e := ⟨rfl, rfl, rfl, rfl, rfl⟩

lemma SendsAlike.paced (h : SendsAlike e e') (he : e.Paced) : e'.Paced := by
  obtain ⟨hwin, hrtms, hdeadline, -, -⟩ := h
  refine ⟨hwin ▸ he.win, hrtms ▸ he.bounded, ?_⟩
  rw [hrtms, hdeadline]
  exact he.armed

lemma SendsAlike.full (h : SendsAlike e e') (he : e.Full) : e'.Full := by
  unfold Full
  rw [h.win, h.rtmsQueue]
  exact he

lemma sendsAlike_takeNs (ns sessionID : UInt16) (payload : List UInt8) :
    SendsAlike e (e.takeNs ns sessionID payload).1 := by
  unfold takeNs
  split_ifs
  · exact ⟨rfl, rfl, rfl, rfl, rfl⟩
  · exact ⟨rfl, rfl, rfl, rfl, rfl⟩
  · split
    · exact ⟨rfl, rfl, rfl, rfl, rfl⟩
    · exact SendsAlike.refl

lemma clearLoop_spec (nr : UInt16) :
    (q : List RtmsEntry) → ∀ w : Window, w.Legal →
      (clearLoop nr q w).2.1.Legal ∧ (clearLoop nr q w).1.length ≤ q.length ∧
        ((clearLoop nr q w).2.2 = 0 → (clearLoop nr q w).1 = q ∧ (clearLoop nr q w).2.1 = w)
  | [], w, h => ⟨h, le_rfl, fun _ => ⟨rfl, rfl⟩⟩
  | head :: rest, w, h => by
    rw [clearLoop]
    split_ifs
    · obtain ⟨hlegal, hlen, -⟩ := clearLoop_spec nr rest w.onAck h.onAck
      exact ⟨hlegal, hlen.trans (Nat.le_succ _), fun hzero => (by simp at hzero)⟩
    · exact ⟨h, le_rfl, fun _ => ⟨rfl, rfl⟩⟩

lemma Paced.takeNr (h : e.Paced) (nr : UInt16) (now : ℕ) :
    (SendsAlike e (e.takeNr nr now).1 ∧ (e.takeNr nr now).2.1 = []) ∨
      ∃ e₁ : Engine, e₁.Paced ∧ e₁.sendQueue = e.sendQueue ∧ e₁.nextSendSeq = e.nextSendSeq ∧
        (e.takeNr nr now).1 = (e₁.drainSendQueue now).1 ∧
        (e.takeNr nr now).2.1 = (e₁.drainSendQueue now).2 := by
  unfold Engine.takeNr processNr
  dsimp only
  by_cases hnew : (!seqBefore e.peerNr nr)
  · rw [if_pos hnew]
    exact .inl ⟨SendsAlike.refl, rfl⟩
  rw [if_neg hnew]
  obtain ⟨hlegal, hlen, hnone⟩ := clearLoop_spec nr e.rtmsQueue e.win h.win
  by_cases hacked : (clearLoop nr e.rtmsQueue e.win).2.2 > 0
  · rw [if_pos hacked]
    refine .inr ⟨{ e with
      peerNr := nr
      rtmsQueue := (clearLoop nr e.rtmsQueue e.win).1
      win := (clearLoop nr e.rtmsQueue e.win).2.1
      deadline := if (clearLoop nr e.rtmsQueue e.win).1.isEmpty then none
        else some (now + e.cfg.rTimeout)
      attempts := 0
      rtimeout := e.cfg.rTimeout }, ⟨hlegal, hlen.trans h.bounded, fun hne => ?_⟩, rfl, rfl, rfl,
      rfl⟩
    have hnotEmpty : ¬ (clearLoop nr e.rtmsQueue e.win).1.isEmpty :=
      fun hempty => hne (isEmpty_iff.1 hempty)
    show (if (clearLoop nr e.rtmsQueue e.win).1.isEmpty then none
      else some (now + e.cfg.rTimeout)) ≠ none
    rw [if_neg hnotEmpty]
    exact Option.some_ne_none _
  · rw [if_neg hacked]
    obtain ⟨hrtms, hwin⟩ := hnone (Nat.eq_zero_of_not_pos hacked)
    exact .inl ⟨⟨hwin, hrtms, rfl, rfl, rfl⟩, rfl⟩

lemma Paced.tick (h : e.Paced) (hfull : e.sendQueue ≠ [] → e.Full) (now : ℕ) :
    (e.tick now).1.Paced ∧ ((e.tick now).1.sendQueue ≠ [] → (e.tick now).1.Full) ∧
      (e.tick now).1.sendQueue = e.sendQueue ∧ (e.tick now).1.nextSendSeq = e.nextSendSeq := by
  unfold Engine.tick
  split_ifs with hidle hgive
  · exact ⟨h, hfull, rfl, rfl⟩
  · exact ⟨⟨h.win, h.bounded, h.armed⟩, hfull, rfl, rfl⟩
  · have hne : e.rtmsQueue ≠ [] := by
      intro hnil
      rw [hnil] at hidle
      simp at hidle
    refine ⟨⟨h.win.onRetransmit, ?_, fun _ => Option.some_ne_none _⟩, fun _ => ?_, rfl, rfl⟩
    · dsimp only
      rw [length_map]
      exact h.bounded
    · show 1 ≤ (e.rtmsQueue.map _).length
      rw [length_map]
      exact length_pos_of_ne_nil hne

end Engine

/-! ## The order of the numbers -/

/-- A request that was accepted: its message, its priority and its place among the accepted ones.
Source: Enqueue. -/
structure Request where
  message : Message
  priority : Bool
  place : ℕ

/-- An engine with its history: the requests it accepted in the order of the calls, those that wait
in the order of the send queue, those that have a number in the order of the numbers, and the
datagrams they were sent in. -/
structure Ordered where
  eng : Engine
  accepted : List Request
  waiting : List Request
  numbered : List Request
  wires : List (List UInt8)

namespace Ordered

/-- A new engine. Source: NewReliableEngine. -/
def start (cfg : ReliableConfig) : Ordered where
  eng := newReliableEngine cfg
  accepted := []
  waiting := []
  numbered := []
  wires := []

/-- The engine has sent datagrams for the first requests that waited. Source: NewSends. -/
def released (t : Ordered) (e : Engine) (sends : List (List UInt8)) : Ordered where
  eng := e
  accepted := t.accepted
  waiting := t.waiting.drop sends.length
  numbered := t.numbered ++ t.waiting.take sends.length
  wires := t.wires ++ sends

/-- A request was accepted: it has its number at once when a datagram came back, else it waits, with
priority in front and without at the end.
Source: Enqueue. -/
def requested (t : Ordered) (e : Engine) (r : Request) : Option (List UInt8) → Ordered
  | some wire =>
    { eng := e, accepted := t.accepted ++ [r], waiting := t.waiting
      numbered := t.numbered ++ [r], wires := t.wires ++ [wire] }
  | none =>
    { t with
      eng := e, accepted := t.accepted ++ [r]
      waiting := if r.priority then r :: t.waiting else t.waiting ++ [r] }

/-- One call. Source: the methods of ReliableEngine. -/
def step (t : Ordered) : Op → Option Ordered
  | .enqueue m now priority =>
    match t.eng.enqueue m now priority with
    | .error _ => some t
    | .ok out => some (t.requested out.1 ⟨m, priority, t.accepted.length⟩ out.2)
  | .receive hdr payload now =>
    let out := t.eng.onReceive hdr payload now
    some (t.released out.1 out.2.newSends)
  | .tick now => some { t with eng := (t.eng.tick now).1 }
  | .updatePeerRWS size now =>
    let out := t.eng.updatePeerRWS size now
    some (t.released out.1 out.2)
  | .buildZLB => some { t with eng := t.eng.buildZLB.1 }
  | .close now => some { t with eng := t.eng.close now }
  | .setPeerTunnelID peerTID => some { t with eng := t.eng.setPeerTunnelID peerTID }

/-- A datagram carries a request under a number. Source: send. -/
def Stamped (wire : List UInt8) (p : Request × ℕ) : Prop :=
  ∃ tunnelID nr, wire = frame tunnelID p.1.message (serial p.2) nr

/-- The invariant: the engine is in order, its send queue is the requests that wait, its next number
is the count of those that have one, each of those is on the wire under its number, and the requests
without priority have their numbers, and wait, in the order in which they were accepted.
Source: ReliableEngine -/
structure Inv (t : Ordered) : Prop where
  paced : t.eng.Paced
  full : t.eng.sendQueue ≠ [] → t.eng.Full
  queue : t.waiting.map (·.message) = t.eng.sendQueue
  next : t.eng.nextSendSeq = serial t.numbered.length
  wires : List.Forall₂ Stamped t.wires t.numbered.zipIdx
  order : t.accepted.filter (!·.priority) = (t.numbered ++ t.waiting).filter (!·.priority)

variable {t : Ordered}

lemma stamped_frames (tunnelID nr : UInt16) :
    (rs : List Request) → ∀ base : ℕ,
      List.Forall₂ Stamped (frames tunnelID (rs.map (·.message)) base nr) (rs.zipIdx base)
  | [], _ => List.Forall₂.nil
  | r :: rs, base => by
    rw [map_cons, frames, zipIdx_cons, zipIdx_cons, map_cons]
    exact List.Forall₂.cons ⟨tunnelID, nr, rfl⟩ (stamped_frames tunnelID nr rs (base + 1))

lemma Inv.alike (h : t.Inv) {e : Engine} (he : Engine.SendsAlike t.eng e) :
    { t with eng := e }.Inv where
  paced := he.paced h.paced
  full := by
    intro hne
    exact he.full (h.full (he.sendQueue ▸ hne))
  queue := h.queue.trans he.sendQueue.symm
  next := he.nextSendSeq.trans h.next
  wires := h.wires
  order := h.order

lemma Inv.drained (h : t.Inv) {e : Engine} (he : e.Paced) (hqueue : e.sendQueue = t.eng.sendQueue)
    (hnext : e.nextSendSeq = t.eng.nextSendSeq) (now : ℕ) :
    (t.released (e.drainSendQueue now).1 (e.drainSendQueue now).2).Inv := by
  have hwaiting : e.sendQueue = t.waiting.map (·.message) := hqueue.trans h.queue.symm
  obtain ⟨k, hk, hpaced, hrest, hstop, hseq, hwires⟩ :=
    Engine.drainLoop_spec now e.sendQueue e t.numbered.length he (hnext.trans h.next)
  have hk' : k ≤ t.waiting.length := by
    rw [hwaiting, length_map] at hk
    exact hk
  have hlen : (e.drainSendQueue now).2.length = k := by
    rw [Engine.drainSendQueue, hwires, frames, length_map, length_zipIdx, length_take]
    omega
  have htaken : (t.waiting.take k).length = k := by
    rw [length_take]
    omega
  unfold released
  rw [hlen]
  constructor
  · exact hpaced
  · intro hne
    exact hstop (hrest ▸ hne)
  · dsimp only
    rw [map_drop, ← hwaiting]
    exact hrest.symm
  · dsimp only
    rw [length_append, htaken]
    exact hseq
  · dsimp only
    rw [zipIdx_append]
    apply rel_append h.wires
    rw [Engine.drainSendQueue, hwires, hwaiting, ← map_take, Nat.zero_add]
    exact stamped_frames _ _ _ _
  · dsimp only
    rw [h.order, append_assoc, take_append_drop]

lemma Inv.enqueue (h : t.Inv) {m : Message} {now : ℕ} {priority : Bool}
    {out : Engine × Option (List UInt8)} (hout : t.eng.enqueue m now priority = .ok out) :
    (t.requested out.1 ⟨m, priority, t.accepted.length⟩ out.2).Inv := by
  unfold Engine.enqueue at hout
  split_ifs at hout with _ _ _ hblocked _ hpriority
  · -- a request with priority waits in front of all others
    cases hout
    subst hpriority
    refine ⟨⟨h.paced.win, h.paced.bounded, h.paced.armed⟩, fun _ => h.paced.blocked_iff.1 hblocked,
      ?_, h.next, h.wires, ?_⟩
    · show (_ :: t.waiting).map _ = m :: t.eng.sendQueue
      rw [map_cons, h.queue]
    · show (t.accepted ++ [_]).filter _ = (t.numbered ++ _ :: t.waiting).filter _
      rw [filter_append, filter_append, h.order, filter_append]
      simp
  · cases hout
    have hpriority' : priority = false := by simpa using hpriority
    subst hpriority'
    refine ⟨⟨h.paced.win, h.paced.bounded, h.paced.armed⟩, fun _ => h.paced.blocked_iff.1 hblocked,
      ?_, h.next, h.wires, ?_⟩
    · show (t.waiting ++ [_]).map _ = t.eng.sendQueue ++ [m]
      rw [map_append, h.queue]
      rfl
    · show (t.accepted ++ [_]).filter _ = (t.numbered ++ (t.waiting ++ [_])).filter _
      rw [filter_append, h.order, ← append_assoc, filter_append (t.numbered ++ _)]
  · cases hout
    have hopen : ¬ t.eng.Full := fun hfull => hblocked (h.paced.blocked_iff.2 hfull)
    have hidle : t.eng.sendQueue = [] := by
      by_contra hne
      exact hopen (h.full hne)
    have hnone : t.waiting = [] := by
      have hqueue := h.queue
      rw [hidle] at hqueue
      exact map_eq_nil_iff.1 hqueue
    refine ⟨h.paced.send hopen m now, fun hne => absurd hidle hne, h.queue, ?_, ?_, ?_⟩
    · show t.eng.nextSendSeq + 1 = serial (t.numbered ++ [_]).length
      rw [length_append, length_singleton, serial_succ, h.next]
    · show List.Forall₂ Stamped (t.wires ++ [_]) (t.numbered ++ [_]).zipIdx
      rw [zipIdx_append, Nat.zero_add]
      apply rel_append h.wires
      refine List.Forall₂.cons ⟨t.eng.cfg.peerTunnelID, t.eng.nextRecvSeq, ?_⟩ List.Forall₂.nil
      rw [← h.next]
      rfl
    · show (t.accepted ++ [_]).filter _ = (t.numbered ++ [_] ++ t.waiting).filter _
      rw [hnone, append_nil, filter_append, filter_append, h.order, hnone, append_nil]

lemma Inv.receive (h : t.Inv) (hdr : MessageHeader) (payload : List UInt8) (now : ℕ) :
    (t.released (t.eng.onReceive hdr payload now).1
      (t.eng.onReceive hdr payload now).2.newSends).Inv := by
  have hquiet : ∀ {e : Engine}, Engine.SendsAlike t.eng e → (t.released e []).Inv := by
    intro e he
    have hsame : t.released e [] = { t with eng := e } := by
      unfold released
      rw [length_nil, take_zero, append_nil, append_nil, drop_zero]
    rw [hsame]
    exact h.alike he
  by_cases hctl : hdr.isControl
  · obtain ⟨hsends, -, hrest⟩ := onReceive_control t.eng hctl payload now
    have hack : (t.released (t.eng.takeNr hdr.nr now).1 (t.eng.takeNr hdr.nr now).2.1).Inv := by
      rcases h.paced.takeNr hdr.nr now with ⟨halike, hnone⟩ | ⟨e, he, hqueue, hnext, heng, hnew⟩
      · rw [hnone]
        exact hquiet halike
      · rw [heng, hnew]
        exact h.drained he hqueue hnext now
    rw [hsends]
    rcases hrest with ⟨-, heq, -⟩ | ⟨-, heq, -⟩
    · rw [heq]
      exact hack
    · rw [heq]
      exact hack.alike (Engine.sendsAlike_takeNs hdr.ns hdr.sessionID payload)
  · unfold Engine.onReceive
    rw [if_pos (by simpa using hctl)]
    exact hquiet Engine.SendsAlike.refl

lemma Inv.step (h : t.Inv) (op : Op) : ∃ t', t.step op = some t' ∧ t'.Inv := by
  rcases op with ⟨m, now, priority⟩ | ⟨hdr, payload, now⟩ | now | ⟨size, now⟩ | _ | now | peerTID
  · simp only [Ordered.step]
    rcases hout : t.eng.enqueue m now priority with err | out
    · exact ⟨t, rfl, h⟩
    · exact ⟨_, rfl, h.enqueue hout⟩
  · exact ⟨_, rfl, h.receive hdr payload now⟩
  · obtain ⟨hpaced, hfull, hqueue, hnext⟩ := h.paced.tick h.full now
    exact ⟨_, rfl, hpaced, hfull, h.queue.trans hqueue.symm, hnext.trans h.next, h.wires, h.order⟩
  · refine ⟨_, rfl, ?_⟩
    exact h.drained (e := { t.eng with win := t.eng.win.updatePeerRWS size })
      ⟨h.paced.win.updatePeerRWS size, h.paced.bounded, h.paced.armed⟩ rfl rfl now
  · exact ⟨_, rfl, h.alike ⟨rfl, rfl, rfl, rfl, rfl⟩⟩
  · refine ⟨_, rfl, h.alike ?_⟩
    unfold Engine.close
    split_ifs
    · exact Engine.SendsAlike.refl
    · exact ⟨rfl, rfl, rfl, rfl, rfl⟩
  · exact ⟨_, rfl, h.alike ⟨rfl, rfl, rfl, rfl, rfl⟩⟩

lemma inv_start (cfg : ReliableConfig) : (start cfg).Inv where
  paced := ⟨legal_newWindow _, Nat.zero_le _, fun hne => absurd rfl hne⟩
  full := fun hne => absurd rfl hne
  queue := rfl
  next := rfl
  wires := List.Forall₂.nil
  order := rfl

/-- **The queues of an engine under every sequence of calls.** The congestion window is between 1
and the peer's window; a message waits only while at least as many are unacknowledged as the smaller
window allows; whatever is unacknowledged has a deadline; and the accepted requests without priority
are, in the order of the calls, those that have a number, in the order of the numbers, and then
those that wait. -/
theorem ordered_of_run (cfg : ReliableConfig) (ops : List Op) :
    ∃ t, run step (start cfg) ops = some t ∧
      (1 ≤ t.eng.win.cwnd ∧ t.eng.win.cwnd ≤ t.eng.win.peerRWS) ∧
      (t.eng.sendQueue ≠ [] →
        (min t.eng.win.cwnd t.eng.win.peerRWS).toNat ≤ t.eng.rtmsQueue.length) ∧
      (t.eng.rtmsQueue ≠ [] → t.eng.deadline ≠ none) ∧
      t.accepted.filter (!·.priority) = (t.numbered ++ t.waiting).filter (!·.priority) ∧
      t.waiting.map (·.message) = t.eng.sendQueue ∧
      t.eng.nextSendSeq = serial t.numbered.length ∧
      List.Forall₂ Stamped t.wires t.numbered.zipIdx := by
  obtain ⟨t, hrun, h⟩ := run_total (I := Inv) (fun t op ht _ => ht.step op) ops (start cfg)
    (inv_start cfg) (meets_of_forall (fun _ _ => trivial) ops _ : Meets step (fun _ _ => True) _ _)
  have hwin := h.paced.win
  refine ⟨t, hrun, ⟨le_iff_toNat_le.2 hwin.low, le_iff_toNat_le.2 hwin.high⟩, ?_,
    h.paced.armed, h.order, h.queue, h.next, h.wires⟩
  intro hne
  rw [hwin.min_eq]
  exact h.full hne

end Ordered

end Ze.L2tp
