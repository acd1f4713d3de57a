import Ze.Lib.Run
import Ze.Lib.Serial
import Ze.L2tp.Reliable
import Mathlib.Data.List.Forall2

/-!
# What is on the retransmission queue

The engine numbers its messages with 16-bit words, the remainders of counters that never wrap.
`Sends` relates an engine to the log of the messages it has numbered and to the number `a` of those
that are acknowledged: the retransmission queue carries the log from `a` on, in order, and is never
longer than the window allows.

Default file: `reliable.go`.
-/

namespace Ze.L2tp

open Ze.Lib List
open UInt16 (lt_iff_toNat_lt ofNat sub_self toNat_ofNat')

/-! ## Counters and words -/

def serial (n : ℕ) : UInt16 :=
  ofNat n

lemma serial_add (n k : ℕ) : serial (n + k) = serial n + ofNat k :=
  UInt16.ofNat_add n k

lemma serial_succ (n : ℕ) : serial (n + 1) = serial n + 1 :=
  serial_add n 1

lemma toNat_serial_sub (a b : ℕ) : (serial b - serial a).toNat = Serial.dist 65536 a b := by
  rw [UInt16.toNat_sub, serial, serial, toNat_ofNat', toNat_ofNat']
  unfold Serial.dist
  omega

lemma seqBefore_serial (a b : ℕ) : seqBefore (serial a) (serial b) ↔ Serial.Before 65536 a b := by
  unfold seqBefore Serial.Before
  rw [← toNat_serial_sub]
  simp only [Bool.and_eq_true, decide_eq_true_eq, GT.gt, lt_iff_toNat_lt,
    UInt16.le_iff_toNat_le, UInt16.toNat_ofNat]
  constructor
  · rintro ⟨h₁, h₂⟩
    refine ⟨h₁, ?_⟩
    omega
  · rintro ⟨h₁, h₂⟩
    refine ⟨h₁, ?_⟩
    omega

lemma eq_of_serial_eq {a b : ℕ} (h : serial a = serial b) (hab : a - b < 65536)
    (hba : b - a < 65536) : a = b := by
  have hdist : Serial.dist 65536 a b = 0 := by
    rw [← toNat_serial_sub, h, sub_self]
    rfl
  have hdist' : Serial.dist 65536 b a = 0 := by
    rw [← toNat_serial_sub, h, sub_self]
    rfl
  rcases Nat.le_total a b with hle | hle
  · exact Serial.eq_of_dist_eq_zero hle hba hdist
  · exact (Serial.eq_of_dist_eq_zero hle hab hdist').symm

/-! ## The log and the queue -/

/-- A message has an AVP in it and fits the ten-bit length field.
Source: Enqueue, the two checks on len(body). -/
def Message.Fits (m : Message) : Prop :=
  avpHeaderLen + 2 ≤ m.body.length ∧ controlHeaderLen + m.body.length ≤ 1023

/-- An entry of the retransmission queue is message `p.1`, number `p.2`. -/
def Carries (q : RtmsEntry) (p : Message × ℕ) : Prop :=
  q.ns = serial p.2 ∧ ∃ tunnelID nr, q.bytes = frame tunnelID p.1 (serial p.2) nr

/-- The engine has numbered the messages of `log`, the first `a` of them are acknowledged, and at
most `bound` are in flight.
Source: the fields nextSendSeq, peerNr, sendQueue, rtmsQueue. -/
structure Sends (bound : ℕ) (e : Engine) (log : List Message) (a : ℕ) : Prop where
  next : e.nextSendSeq = serial log.length
  acked : e.peerNr = serial a
  acked_le : a ≤ log.length
  queue : List.Forall₂ Carries e.rtmsQueue (log.zipIdx.drop a)
  inFlight : log.length - a ≤ bound
  window : e.win.peerRWS.toNat ≤ bound
  waiting : ∀ m ∈ e.sendQueue, m.Fits
  sent : ∀ m ∈ log, m.Fits

/-- The octets of new messages: numbered on from `base`, with one `Nr`. -/
def frames (tunnelID : UInt16) (ms : List Message) (base : ℕ) (nr : UInt16) : List (List UInt8) :=
  (ms.zipIdx base).map fun p => frame tunnelID p.1 (serial p.2) nr

/-- The engine's half that receives: what `nextRecvSeq` and the reorder queue are. -/
def Engine.inbox (e : Engine) : UInt16 × ReorderQueue :=
  (e.nextRecvSeq, e.reorder)

section

variable {bound : ℕ} {e : Engine} {log : List Message} {a : ℕ}

lemma Sends.length_queue (h : Sends bound e log a) : e.rtmsQueue.length = log.length - a := by
  rw [h.queue.length_eq, length_drop, length_zipIdx]

lemma Sends.congr {e' : Engine} (h : Sends bound e log a) (hnext : e'.nextSendSeq = e.nextSendSeq)
    (hpeer : e'.peerNr = e.peerNr) (hrtms : e'.rtmsQueue = e.rtmsQueue)
    (hrws : e'.win.peerRWS = e.win.peerRWS) (hsend : e'.sendQueue = e.sendQueue) :
    Sends bound e' log a where
  next := hnext ▸ h.next
  acked := hpeer ▸ h.acked
  acked_le := h.acked_le
  queue := hrtms ▸ h.queue
  inFlight := h.inFlight
  window := hrws ▸ h.window
  waiting := hsend ▸ h.waiting
  sent := h.sent

lemma Sends.lt_bound (h : Sends bound e log a) (hb : bound ≤ 32768)
    (hopen : e.blocked = false) : log.length - a < bound := by
  have hlen := h.length_queue
  have hfl := h.inFlight
  have hnat : (ofNat e.rtmsQueue.length).toNat = log.length - a := by
    rw [toNat_ofNat', hlen]
    omega
  have hlimit : ofNat e.rtmsQueue.length < min e.win.cwnd e.win.peerRWS := by
    by_contra hge
    have hzero : e.blocked := by
      unfold Engine.blocked Window.available
      simp only [decide_eq_true_eq]
      rw [if_pos (by simpa using hge)]
    rw [hopen] at hzero
    cases hzero
  have hmin : (min e.win.cwnd e.win.peerRWS).toNat ≤ e.win.peerRWS.toNat := by
    change (if e.win.cwnd ≤ e.win.peerRWS then e.win.cwnd else e.win.peerRWS).toNat ≤ _
    split_ifs with hc
    · exact UInt16.le_iff_toNat_le.1 hc
    · exact le_rfl
  rw [lt_iff_toNat_lt, hnat] at hlimit
  exact lt_of_lt_of_le hlimit (hmin.trans h.window)

lemma Sends.send (h : Sends bound e log a) (hb : bound ≤ 32768) (hopen : e.blocked = false)
    {m : Message} (hm : m.Fits) (now : ℕ) :
    Sends bound (e.send m now).1 (log ++ [m]) a ∧
      (e.send m now).2 = frame e.cfg.peerTunnelID m (serial log.length) e.nextRecvSeq := by
  have hlt := h.lt_bound hb hopen
  have hle := h.acked_le
  refine ⟨⟨?_, h.acked, ?_, ?_, ?_, h.window, h.waiting, ?_⟩, ?_⟩
  · rw [length_append, length_singleton, serial_succ, ← h.next]
    rfl
  · rw [length_append]
    omega
  · have hdrop : ((log ++ [m]).zipIdx).drop a = log.zipIdx.drop a ++ [(m, log.length)] := by
      rw [zipIdx_append, drop_append_of_le_length (by simpa using hle)]
      simp
    have hnew : Carries ⟨e.nextSendSeq, frame e.cfg.peerTunnelID m e.nextSendSeq e.nextRecvSeq⟩
        (m, log.length) := ⟨h.next, _, _, by rw [h.next]⟩
    rw [hdrop]
    exact rel_append h.queue (List.Forall₂.cons hnew List.Forall₂.nil)
  · rw [length_append, length_singleton]
    omega
  · intro x hx
    rcases mem_append.1 hx with hx | hx
    · exact h.sent x hx
    · rw [mem_singleton] at hx
      exact hx ▸ hm
  · rw [Engine.send, h.next]

lemma Sends.drainLoop (hb : bound ≤ 32768) (now : ℕ) :
    (pending : List Message) → ∀ (e : Engine) (log : List Message), Sends bound e log a →
      (∀ m ∈ pending, m.Fits) →
      ∃ ms, Sends bound (Engine.drainLoop now pending e).1 (log ++ ms) a ∧
        (Engine.drainLoop now pending e).2 =
          frames e.cfg.peerTunnelID ms log.length e.nextRecvSeq ∧
        (Engine.drainLoop now pending e).1.inbox = e.inbox
  | [], e, log, h, _ => by
    refine ⟨[], ?_, rfl, rfl⟩
    rw [append_nil]
    exact { h with waiting := fun m hm => by cases hm }
  | head :: rest, e, log, h, hfits => by
    by_cases hbl : e.blocked
    · refine ⟨[], ?_, ?_, ?_⟩
      · rw [append_nil, Engine.drainLoop, if_pos hbl]
        exact { h with waiting := hfits }
      · rw [Engine.drainLoop, if_pos hbl]
        rfl
      · rw [Engine.drainLoop, if_pos hbl]
        rfl
    · have hopen : e.blocked = false := by simpa using hbl
      obtain ⟨hsent, hwire⟩ := h.send hb hopen (hfits head mem_cons_self) now
      obtain ⟨ms, hms, hwires, hinbox⟩ := Sends.drainLoop hb now rest (e.send head now).1
        (log ++ [head]) hsent fun m hm => hfits m (mem_cons_of_mem _ hm)
      refine ⟨head :: ms, ?_, ?_, ?_⟩
      · rw [Engine.drainLoop, if_neg hbl]
        rwa [append_assoc] at hms
      · rw [Engine.drainLoop, if_neg hbl]
        simp only
        rw [hwire, hwires]
        simp only [frames, zipIdx_cons, map_cons, length_append, length_singleton]
        rfl
      · rw [Engine.drainLoop, if_neg hbl]
        exact hinbox

lemma Sends.drainSendQueue (h : Sends bound e log a) (hb : bound ≤ 32768) (now : ℕ) :
    ∃ ms, Sends bound (e.drainSendQueue now).1 (log ++ ms) a ∧
      (e.drainSendQueue now).2 = frames e.cfg.peerTunnelID ms log.length e.nextRecvSeq ∧
      (e.drainSendQueue now).1.inbox = e.inbox :=
  Sends.drainLoop hb now e.sendQueue e log h h.waiting

end
/-! ### Acknowledgements -/

lemma Window.onAck_peerRWS (w : Window) : w.onAck.peerRWS = w.peerRWS := by
  unfold Window.onAck
  simp only
  split_ifs <;> rfl

/-- The loop takes off the first `k` entries when they and no next one come before `nr`. -/
lemma clearLoop_eq (nr : UInt16) :
    (q : List RtmsEntry) → ∀ (w : Window) (k : ℕ), k ≤ q.length →
      (∀ (i : ℕ) x, i < k → q[i]? = some x → seqBefore x.ns nr) →
      (∀ x, q[k]? = some x → seqBefore x.ns nr = false) →
      (Engine.clearLoop nr q w).1 = q.drop k ∧ (Engine.clearLoop nr q w).2.2 = k ∧
        (Engine.clearLoop nr q w).2.1.peerRWS = w.peerRWS
  | [], w, k, hk, _, _ => by
    have hk0 : k = 0 := by simpa using hk
    subst hk0
    exact ⟨rfl, rfl, rfl⟩
  | head :: rest, w, 0, _, _, hstop => by
    have hhead : ¬ seqBefore head.ns nr := by
      rw [hstop head rfl]
      exact Bool.false_ne_true
    rw [Engine.clearLoop, if_neg hhead]
    exact ⟨rfl, rfl, rfl⟩
  | head :: rest, w, k + 1, hk, hgo, hstop => by
    have hhead := hgo 0 head (Nat.succ_pos k) rfl
    obtain ⟨h₁, h₂, h₃⟩ := clearLoop_eq nr rest w.onAck k (Nat.le_of_succ_le_succ hk)
      (fun i x hi hx => hgo (i + 1) x (Nat.succ_lt_succ hi) (by simpa using hx))
      (fun x hx => hstop x (by simpa using hx))
    rw [Engine.clearLoop, if_pos hhead]
    refine ⟨?_, ?_, ?_⟩
    · rw [drop_succ_cons, ← h₁]
    · simp only [h₂]
    · simp only [h₃, Window.onAck_peerRWS]

lemma processNr_frame (e : Engine) (nr : UInt16) :
    (e.processNr nr).1.inbox = e.inbox ∧ (e.processNr nr).1.cfg = e.cfg := by
  unfold Engine.processNr
  split_ifs
  · exact ⟨rfl, rfl⟩
  · exact ⟨rfl, rfl⟩

section

variable {bound : ℕ} {e : Engine} {log : List Message} {a r : ℕ}

lemma Sends.ns_eq (h : Sends bound e log a) {i : ℕ} {x : RtmsEntry}
    (hx : e.rtmsQueue[i]? = some x) : x.ns = serial (a + i) := by
  obtain ⟨hi, hget⟩ := List.getElem?_eq_some_iff.mp hx
  have hi' : i < (log.zipIdx.drop a).length := h.queue.length_eq ▸ hi
  have hcar := h.queue.get hi hi'
  rw [get_eq_getElem, get_eq_getElem, hget] at hcar
  rw [hcar.1]
  simp

lemma Sends.processNr_heard (h : Sends bound e log a) (hb : bound ≤ 32768) (har : a < r)
    (hr : r ≤ log.length) (hnear : r - a ≤ 32767) :
    Sends bound (e.processNr (serial r)).1 log r ∧ (e.processNr (serial r)).2 = r - a ∧
      (e.processNr (serial r)).1.rtmsQueue = e.rtmsQueue.drop (r - a) := by
  have hfl := h.inFlight
  have hlen := h.length_queue
  have hbefore : seqBefore e.peerNr (serial r) := by
    rw [h.acked, seqBefore_serial]
    exact Serial.before_of_lt har (by omega)
  obtain ⟨hq, hcount, hrws⟩ := clearLoop_eq (serial r) e.rtmsQueue e.win (r - a) (by omega)
    (fun i x hi hx => by
      rw [h.ns_eq hx, seqBefore_serial]
      exact Serial.before_of_lt (by omega) (by omega))
    (fun x hx => by
      have hlt : r - a < e.rtmsQueue.length := (List.getElem?_eq_some_iff.mp hx).1
      rw [h.ns_eq hx, ← Bool.not_eq_true, seqBefore_serial]
      exact Serial.not_before_of_le (by omega) (by omega))
  have heq : e.processNr (serial r) = ({ e with
          peerNr := serial r
          rtmsQueue := (Engine.clearLoop (serial r) e.rtmsQueue e.win).1
          win := (Engine.clearLoop (serial r) e.rtmsQueue e.win).2.1 },
        (Engine.clearLoop (serial r) e.rtmsQueue e.win).2.2) := by
    rw [Engine.processNr, if_neg (by simp [hbefore])]
  rw [heq]
  refine ⟨⟨h.next, rfl, hr, ?_, ?_, ?_, h.waiting, h.sent⟩, hcount, hq⟩
  · have hdrop : log.zipIdx.drop r = (log.zipIdx.drop a).drop (r - a) := by
      rw [drop_drop]
      congr 1
      omega
    rw [hq, hdrop]
    exact forall₂_drop (r - a) h.queue
  · omega
  · rw [hrws]
    exact h.window

/-- An acknowledgement of messages that were sent, however old, moves the acknowledged number to it
or not at all. -/
lemma Sends.processNr (h : Sends bound e log a) (hb : bound ≤ 32768) (hr : r ≤ log.length)
    (hold : log.length - r ≤ 32768) :
    ∃ a', (a' = a ∨ a' = r) ∧ Sends bound (e.processNr (serial r)).1 log a' := by
  by_cases hbefore : seqBefore e.peerNr (serial r)
  · have hser := hbefore
    have hfl := h.inFlight
    have hle := h.acked_le
    rw [h.acked, seqBefore_serial] at hser
    have har : a < r := by
      by_contra hge
      exact Serial.not_before_of_le (by omega) (by omega) hser
    have hnear : r - a ≤ 32767 := by
      have hhalf := hser.2
      rw [Serial.dist_of_le (by omega) har.le (by omega)] at hhalf
      omega
    exact ⟨r, .inr rfl, (h.processNr_heard hb har hr hnear).1⟩
  · refine ⟨a, .inl rfl, ?_⟩
    rw [Engine.processNr, if_pos (by simpa using hbefore)]
    exact h

lemma Sends.takeNr_of_processNr {nr : UInt16} (h : Sends bound (e.processNr nr).1 log a)
    (hb : bound ≤ 32768) (now : ℕ) :
    ∃ ms, Sends bound (e.takeNr nr now).1 (log ++ ms) a ∧
      (e.takeNr nr now).2.1 = frames e.cfg.peerTunnelID ms log.length e.nextRecvSeq ∧
      (e.takeNr nr now).1.inbox = e.inbox := by
  obtain ⟨hin, hcfg⟩ := processNr_frame e nr
  have hrecv : (e.processNr nr).1.nextRecvSeq = e.nextRecvSeq := congrArg Prod.fst hin
  unfold Engine.takeNr
  simp only
  by_cases hacked : (e.processNr nr).2 > 0
  · rw [if_pos hacked]
    let e₁ : Engine :=
      { (e.processNr nr).1 with
        deadline := if (e.processNr nr).1.rtmsQueue.isEmpty then none
          else some (now + (e.processNr nr).1.cfg.rTimeout)
        attempts := 0
        rtimeout := (e.processNr nr).1.cfg.rTimeout }
    have h₁ : Sends bound e₁ log a := h.congr rfl rfl rfl rfl rfl
    obtain ⟨ms, hms, hwires, hinbox⟩ := h₁.drainSendQueue hb now
    refine ⟨ms, hms, ?_, hinbox.trans hin⟩
    rw [← hcfg, ← hrecv]
    exact hwires
  · rw [if_neg hacked]
    refine ⟨[], ?_, rfl, hin⟩
    rw [append_nil]
    exact h

lemma Sends.tick (h : Sends bound e log a) (now : ℕ) :
    Sends bound (e.tick now).1 log a ∧ (e.tick now).1.inbox = e.inbox := by
  unfold Engine.tick
  split_ifs
  · exact ⟨h, rfl⟩
  · exact ⟨h.congr rfl rfl rfl rfl rfl, rfl⟩
  · refine ⟨{ h with queue := ?_ }, rfl⟩
    rw [forall₂_map_left_iff]
    refine h.queue.imp ?_
    rintro q p ⟨hns, tunnelID, nr, hbytes⟩
    refine ⟨hns, tunnelID, e.nextRecvSeq, ?_⟩
    rw [hbytes, frame_rewrite]

/-- What a retransmission sends: the messages in flight, with the `Nr` of now. -/
lemma Sends.tick_retransmits (h : Sends bound e log a) (now : ℕ) :
    (e.tick now).2.retransmits = [] ∨
      List.Forall₂ (fun w p => ∃ tunnelID, w = frame tunnelID p.1 (serial p.2) e.nextRecvSeq)
        (e.tick now).2.retransmits (log.zipIdx.drop a) := by
  unfold Engine.tick
  split_ifs
  · exact .inl rfl
  · exact .inl rfl
  · refine .inr ?_
    simp only
    rw [map_map, forall₂_map_left_iff]
    refine h.queue.imp ?_
    rintro q p ⟨hns, tunnelID, nr, hbytes⟩
    refine ⟨tunnelID, ?_⟩
    simp only [Function.comp_apply]
    rw [hbytes, frame_rewrite]

lemma Sends.enqueue (h : Sends bound e log a) (hb : bound ≤ 32768) {m : Message} {now : ℕ}
    {priority : Bool} {out : Engine × Option (List UInt8)}
    (hout : e.enqueue m now priority = .ok out) :
    out.1.inbox = e.inbox ∧
      ((out.2 = none ∧ Sends bound out.1 log a) ∨
        (out.2 = some (frame e.cfg.peerTunnelID m (serial log.length) e.nextRecvSeq) ∧
          Sends bound out.1 (log ++ [m]) a)) := by
  unfold Engine.enqueue at hout
  split_ifs at hout with h₁ h₂ h₃ h₄ h₅ h₆
  · cases hout
    refine ⟨rfl, .inl ⟨rfl, { h with waiting := ?_ }⟩⟩
    intro x hx
    rcases mem_cons.1 hx with rfl | hx
    · exact ⟨by omega, by omega⟩
    · exact h.waiting x hx
  · cases hout
    refine ⟨rfl, .inl ⟨rfl, { h with waiting := ?_ }⟩⟩
    intro x hx
    rcases mem_append.1 hx with hx | hx
    · exact h.waiting x hx
    · rw [mem_singleton] at hx
      subst hx
      exact ⟨by omega, by omega⟩
  · have hfits : m.Fits := ⟨by omega, by omega⟩
    obtain ⟨hsent, hwire⟩ := h.send hb (by simpa using h₄) hfits now
    cases hout
    refine ⟨rfl, .inr ⟨?_, hsent⟩⟩
    exact congrArg some hwire

end
/-! ### The rest of the engine -/

lemma clampPeerRWS_le (size : UInt16) : (clampPeerRWS size).toNat ≤ 32768 := by
  unfold clampPeerRWS
  split_ifs with h₀ h₁
  · decide
  · exact le_rfl
  · rw [gt_iff_lt, lt_iff_toNat_lt] at h₁
    exact Nat.le_of_not_lt h₁

lemma clampPeerRWS_lt {size : UInt16} (h : size < 32768) : (clampPeerRWS size).toNat ≤ 32767 := by
  rw [lt_iff_toNat_lt] at h
  have h' : size.toNat < 32768 := h
  unfold clampPeerRWS
  split_ifs with h₀ h₁
  · decide
  · rw [gt_iff_lt, lt_iff_toNat_lt] at h₁
    exact absurd (lt_trans h h₁) (lt_irrefl _)
  · omega

lemma Window.updatePeerRWS_peerRWS (w : Window) (size : UInt16) :
    (w.updatePeerRWS size).peerRWS = clampPeerRWS size := by
  unfold Window.updatePeerRWS
  simp only
  split_ifs <;> rfl

section

variable {bound : ℕ} {e : Engine} {log : List Message} {a : ℕ}

lemma Sends.start {cfg : ReliableConfig}
    (h : (clampPeerRWS cfg.withDefaults.initialPeerRWS).toNat ≤ bound) :
    Sends bound (newReliableEngine cfg) [] 0 where
  next := rfl
  acked := rfl
  acked_le := le_rfl
  queue := List.Forall₂.nil
  inFlight := Nat.zero_le _
  window := h
  waiting := fun m hm => by cases hm
  sent := fun m hm => by cases hm

lemma Sends.updatePeerRWS (h : Sends bound e log a) (hb : bound ≤ 32768) {size : UInt16}
    (hsize : (clampPeerRWS size).toNat ≤ bound) (now : ℕ) :
    ∃ ms, Sends bound (e.updatePeerRWS size now).1 (log ++ ms) a ∧
      (e.updatePeerRWS size now).2 = frames e.cfg.peerTunnelID ms log.length e.nextRecvSeq ∧
      (e.updatePeerRWS size now).1.inbox = e.inbox := by
  have h₁ : Sends bound { e with win := e.win.updatePeerRWS size } log a :=
    { h with
      window := by
        rw [Window.updatePeerRWS_peerRWS]
        exact hsize }
  exact h₁.drainSendQueue hb now

lemma Sends.takeNs (h : Sends bound e log a) (ns sessionID : UInt16) (payload : List UInt8) :
    Sends bound (e.takeNs ns sessionID payload).1 log a := by
  unfold Engine.takeNs
  split_ifs
  · exact h.congr rfl rfl rfl rfl rfl
  · exact h.congr rfl rfl rfl rfl rfl
  · split
    · exact h.congr rfl rfl rfl rfl rfl
    · exact h

lemma onReceive_control (e : Engine) {hdr : MessageHeader} (hctl : hdr.isControl)
    (payload : List UInt8) (now : ℕ) :
    (e.onReceive hdr payload now).2.newSends = (e.takeNr hdr.nr now).2.1 ∧
      (e.onReceive hdr payload now).2.acked = (e.takeNr hdr.nr now).2.2 ∧
      ((payload = [] ∧ (e.onReceive hdr payload now).1 = (e.takeNr hdr.nr now).1 ∧
          (e.onReceive hdr payload now).2.delivered = []) ∨
        (payload ≠ [] ∧
          (e.onReceive hdr payload now).1 =
            ((e.takeNr hdr.nr now).1.takeNs hdr.ns hdr.sessionID payload).1 ∧
          (e.onReceive hdr payload now).2.delivered =
            ((e.takeNr hdr.nr now).1.takeNs hdr.ns hdr.sessionID payload).2.2)) := by
  unfold Engine.onReceive
  rw [if_neg (by simp [hctl])]
  simp only
  split_ifs with hzlb
  · exact ⟨rfl, rfl, .inl ⟨isEmpty_iff.1 hzlb, rfl, rfl⟩⟩
  · exact ⟨rfl, rfl, .inr ⟨fun hnil => hzlb (isEmpty_iff.2 hnil), rfl, rfl⟩⟩

lemma Sends.onReceive {hdr : MessageHeader} {now : ℕ} (hctl : hdr.isControl)
    (h : Sends bound (e.takeNr hdr.nr now).1 log a) (payload : List UInt8) :
    Sends bound (e.onReceive hdr payload now).1 log a := by
  obtain ⟨-, -, ⟨-, heq, -⟩ | ⟨-, heq, -⟩⟩ := onReceive_control e hctl payload now
  · rw [heq]
    exact h
  · rw [heq]
    exact h.takeNs hdr.ns hdr.sessionID payload

lemma Sends.close (h : Sends bound e log a) (now : ℕ) : Sends bound (e.close now) log a := by
  unfold Engine.close
  split_ifs
  · exact h
  · exact h.congr rfl rfl rfl rfl rfl

end

/-! ## One connection against any network -/

def messageOf (wire : List UInt8) : Message where
  sessionID := getUint16 wire 6
  body := wire.drop controlHeaderLen

@[simp] lemma messageOf_frame (tunnelID : UInt16) (m : Message) (ns nr : UInt16) :
    messageOf (frame tunnelID m ns nr) = m := by
  have hsid : getUint16 (frame tunnelID m ns nr) 6 = m.sessionID := by
    rw [frame_eq]
    iterate 3 rw [getUint16_cons_cons]
    rw [getUint16_octets]
  rw [messageOf, hsid, frame_eq]
  rfl

lemma Sends.queue_eq {bound : ℕ} {e : Engine} {log : List Message} {a : ℕ}
    (h : Sends bound e log a) :
    e.rtmsQueue.map (fun q => (q.ns, messageOf q.bytes)) =
      (log.drop a).mapIdx fun i m => (serial (a + i), m) := by
  have hqueue : e.rtmsQueue.map (fun q => (q.ns, messageOf q.bytes)) =
      (log.zipIdx.drop a).map fun p => (serial p.2, p.1) := by
    rw [← forall₂_eq_eq_eq, forall₂_map_left_iff, forall₂_map_right_iff]
    refine h.queue.imp ?_
    rintro q p ⟨hns, tunnelID, nr, hbytes⟩
    rw [hns, hbytes, messageOf_frame]
  rw [hqueue]
  apply ext_getElem?
  intro i
  rw [getElem?_map, getElem?_mapIdx, getElem?_drop, getElem?_drop, getElem?_zipIdx, Option.map_map]
  simp only [Function.comp_def, Nat.zero_add]

lemma map_messageOf_frames (tunnelID : UInt16) (ms : List Message) (base : ℕ) (nr : UInt16) :
    (frames tunnelID ms base nr).map messageOf = ms := by
  rw [frames, map_map]
  have hfst : (messageOf ∘ fun p : Message × ℕ => frame tunnelID p.1 (serial p.2) nr) =
      Prod.fst := funext fun p => messageOf_frame tunnelID p.1 (serial p.2) nr
  rw [hfst, zipIdx_map_fst]

/-- An engine and every message it has given a number to, in that order. -/
structure Conn where
  eng : Engine
  sent : List Message

/-- What the owner of an engine can call. Source: the methods of ReliableEngine. -/
inductive Op
  | enqueue (m : Message) (now : ℕ) (priority : Bool)
  | receive (hdr : MessageHeader) (payload : List UInt8) (now : ℕ)
  | tick (now : ℕ)
  | updatePeerRWS (size : UInt16) (now : ℕ)
  | buildZLB
  | close (now : ℕ)
  | setPeerTunnelID (peerTID : UInt16)

namespace Conn

/-- A new connection. Source: NewReliableEngine. -/
def start (cfg : ReliableConfig) : Conn where
  eng := newReliableEngine cfg
  sent := []

/-- One call; the messages in the datagrams it newly returns go to the history.
Source: the methods of ReliableEngine -/
def step (c : Conn) : Op → Option Conn
  | .enqueue m now priority =>
    match c.eng.enqueue m now priority with
    | .error _ => some c
    | .ok out => some { eng := out.1, sent := c.sent ++ out.2.toList.map messageOf }
  | .receive hdr payload now =>
    let out := c.eng.onReceive hdr payload now
    some { eng := out.1, sent := c.sent ++ out.2.newSends.map messageOf }
  | .tick now => some { c with eng := (c.eng.tick now).1 }
  | .updatePeerRWS size now =>
    let out := c.eng.updatePeerRWS size now
    some { eng := out.1, sent := c.sent ++ out.2.map messageOf }
  | .buildZLB => some { c with eng := c.eng.buildZLB.1 }
  | .close now => some { c with eng := c.eng.close now }
  | .setPeerTunnelID peerTID => some { c with eng := c.eng.setPeerTunnelID peerTID }

/-- How many numbers lie from `peerNr` up to `nextSendSeq`.
Source: the fields nextSendSeq and peerNr. -/
def unacked (c : Conn) : ℕ :=
  (c.eng.nextSendSeq - c.eng.peerNr).toNat

/-- The retransmission queue is the messages numbered from `peerNr` up to `nextSendSeq`, the last
ones that were sent, in order.
Source: the field rtmsQueue. -/
def Exact (c : Conn) : Prop :=
  c.unacked ≤ c.sent.length ∧
    c.eng.rtmsQueue.map (fun q => (q.ns, messageOf q.bytes)) =
      (c.sent.drop (c.sent.length - c.unacked)).mapIdx
        fun i m => (c.eng.peerNr + ofNat i, m)

/-- Every control message with an `Nr` past `peerNr` and at most `nextSendSeq` is heard: it moves
`peerNr` to its `Nr` and takes off as many messages as it acknowledges.
Source: OnReceive, processNr -/
def Heard (c : Conn) : Prop :=
  ∀ hdr payload now, hdr.isControl = true → 0 < (hdr.nr - c.eng.peerNr).toNat →
    (hdr.nr - c.eng.peerNr).toNat ≤ c.unacked →
    (c.eng.onReceive hdr payload now).1.peerNr = hdr.nr ∧
      (c.eng.onReceive hdr payload now).2.acked = (hdr.nr - c.eng.peerNr).toNat ∧
      (c.eng.processNr hdr.nr).1.rtmsQueue =
        c.eng.rtmsQueue.drop (hdr.nr - c.eng.peerNr).toNat

/-- No acknowledgement is ahead of what was sent, and the peer's window is below half of the
sequence space.
Source: processNr, UpdatePeerRWS. -/
def Genuine (c : Conn) : Op → Prop
  | .receive hdr _ _ => hdr.isControl = true → seqBefore c.eng.peerNr hdr.nr = true →
      (hdr.nr - c.eng.peerNr).toNat ≤ c.unacked
  | .updatePeerRWS size _ => size < 32768
  | _ => True

instance (c : Conn) : (op : Op) → Decidable (c.Genuine op)
  | .receive hdr _ _ => inferInstanceAs (Decidable (hdr.isControl = true →
      seqBefore c.eng.peerNr hdr.nr = true → (hdr.nr - c.eng.peerNr).toNat ≤ c.unacked))
  | .updatePeerRWS size _ => inferInstanceAs (Decidable (size < 32768))
  | .enqueue _ _ _ | .tick _ | .buildZLB | .close _ | .setPeerTunnelID _ =>
    inferInstanceAs (Decidable True)

section

variable {c : Conn} {a : ℕ}

section

variable (h : Sends 32767 c.eng c.sent a)
include h

lemma unacked_eq : c.unacked = c.sent.length - a := by
  have hfl := h.inFlight
  rw [unacked, h.next, h.acked, toNat_serial_sub,
    Serial.dist_of_le (by omega) h.acked_le (by omega)]

lemma nr_eq (nr : UInt16) : nr = serial (a + (nr - c.eng.peerNr).toNat) := by
  rw [serial_add, ← h.acked, UInt16.ofNat_toNat]
  rw [UInt16.add_comm, UInt16.sub_add_cancel]

lemma exact_of_sends : c.Exact := by
  have hle := h.acked_le
  have hun := unacked_eq h
  refine ⟨by omega, ?_⟩
  have hdrop : c.sent.length - c.unacked = a := by omega
  rw [h.queue_eq, hdrop, h.acked]
  simp only [serial_add]

lemma heard_of_sends : c.Heard := by
  intro hdr payload now hctl hpos hle
  have hun := unacked_eq h
  have hfl := h.inFlight
  set d := (hdr.nr - c.eng.peerNr).toNat with hd
  have hnr : hdr.nr = serial (a + d) := nr_eq h hdr.nr
  obtain ⟨hs, hcount, hq⟩ := h.processNr_heard (r := a + d) (by omega) (by omega) (by omega)
    (by omega)
  rw [← hnr] at hs hcount hq
  obtain ⟨ms, hms, -, -⟩ := hs.takeNr_of_processNr (by omega) now
  have hcnt : (c.eng.takeNr hdr.nr now).2.2 = (c.eng.processNr hdr.nr).2 := by
    unfold Engine.takeNr
    by_cases hfreed : (c.eng.processNr hdr.nr).2 > 0
    · simp only [if_pos hfreed]
    · simp only [if_neg hfreed]
  have hsub : a + d - a = d := by omega
  rw [hsub] at hcount hq
  refine ⟨?_, ?_, hq⟩
  · rw [(hms.onReceive hctl payload).acked, hnr]
  · rw [(onReceive_control c.eng hctl payload now).2.1, hcnt, hcount]

lemma sends_step {c' : Conn} {op : Op} (hop : c.Genuine op) (hstep : c.step op = some c') :
    ∃ a', Sends 32767 c'.eng c'.sent a' := by
  have hun := unacked_eq h
  cases op with
  | enqueue m now priority =>
    simp only [step] at hstep
    split at hstep
    · cases hstep
      exact ⟨a, h⟩
    · rename_i out hout
      cases hstep
      obtain ⟨-, ⟨hnone, hs⟩ | ⟨hsome, hs⟩⟩ := h.enqueue (by omega) hout
      · refine ⟨a, ?_⟩
        simp only [hnone, Option.toList_none, map_nil, append_nil]
        exact hs
      · refine ⟨a, ?_⟩
        simp only [hsome, Option.toList_some, map_cons, map_nil, messageOf_frame]
        exact hs
  | receive hdr payload now =>
    simp only [step] at hstep
    cases hstep
    by_cases hctl : hdr.isControl
    · have hack : ∃ a', Sends 32767 (c.eng.processNr hdr.nr).1 c.sent a' := by
        by_cases hbefore : seqBefore c.eng.peerNr hdr.nr
        · have hle := hop hctl hbefore
          have hnr := nr_eq h hdr.nr
          have hfl := h.inFlight
          obtain ⟨a', -, hs⟩ := h.processNr (r := a + (hdr.nr - c.eng.peerNr).toNat) (by omega)
            (by have := h.acked_le; omega) (by omega)
          exact ⟨a', hnr ▸ hs⟩
        · refine ⟨a, ?_⟩
          rw [Engine.processNr, if_pos (by simpa using hbefore)]
          exact h
      obtain ⟨a', hs⟩ := hack
      obtain ⟨ms, hms, hwires, -⟩ := hs.takeNr_of_processNr (by omega) now
      refine ⟨a', ?_⟩
      rw [(onReceive_control c.eng hctl payload now).1, hwires, map_messageOf_frames]
      exact hms.onReceive hctl payload
    · refine ⟨a, ?_⟩
      have hdata : c.eng.onReceive hdr payload now = (c.eng, { cls := .dataMessage }) := by
        rw [Engine.onReceive, if_pos (by simpa using hctl)]
      rw [hdata]
      simp only [map_nil, append_nil]
      exact h
  | tick now =>
    cases hstep
    exact ⟨a, (h.tick now).1⟩
  | updatePeerRWS size now =>
    simp only [step] at hstep
    cases hstep
    obtain ⟨ms, hms, hwires, -⟩ := h.updatePeerRWS (by omega) (clampPeerRWS_lt hop) now
    refine ⟨a, ?_⟩
    rw [hwires, map_messageOf_frames]
    exact hms
  | buildZLB =>
    cases hstep
    exact ⟨a, h.congr rfl rfl rfl rfl rfl⟩
  | close now =>
    cases hstep
    exact ⟨a, h.close now⟩
  | setPeerTunnelID peerTID =>
    cases hstep
    exact ⟨a, h.congr rfl rfl rfl rfl rfl⟩

end

lemma step_isSome (c : Conn) (op : Op) : ∃ c', c.step op = some c' := by
  cases op with
  | enqueue m now priority =>
    simp only [step]
    split
    · exact ⟨_, rfl⟩
    · exact ⟨_, rfl⟩
  | receive hdr payload now => exact ⟨_, rfl⟩
  | tick now => exact ⟨_, rfl⟩
  | updatePeerRWS size now => exact ⟨_, rfl⟩
  | buildZLB => exact ⟨_, rfl⟩
  | close now => exact ⟨_, rfl⟩
  | setPeerTunnelID peerTID => exact ⟨_, rfl⟩

end

/-- **The retransmission queue is what the numbers say.** In every run of calls in which no
acknowledgement is ahead of what was sent and the peer's window is below 32768, the retransmission
queue is the messages from `peerNr` up to `nextSendSeq`, in order, and every acknowledgement of them
is heard. -/
theorem outstanding_exact (cfg : ReliableConfig) (hcfg : cfg.initialPeerRWS < 32768)
    (ops : List Op) (hops : Meets step Genuine (start cfg) ops) :
    ∃ c, run step (start cfg) ops = some c ∧ c.Exact ∧ c.Heard := by
  have hstart : ∃ a, Sends 32767 (start cfg).eng (start cfg).sent a := by
    refine ⟨0, Sends.start (clampPeerRWS_lt ?_)⟩
    unfold ReliableConfig.withDefaults
    simp only
    split_ifs
    · decide
    · exact hcfg
  have hkeep : ∀ c op, (∃ a, Sends 32767 c.eng c.sent a) → Genuine c op →
      ∃ c', step c op = some c' ∧ ∃ a, Sends 32767 c'.eng c'.sent a := by
    rintro c op ⟨a, h⟩ hop
    obtain ⟨c', hc'⟩ := step_isSome c op
    exact ⟨c', hc', sends_step h hop hc'⟩
  obtain ⟨c, hc, a, h⟩ := run_total hkeep ops (start cfg) hstart hops
  exact ⟨c, hc, exact_of_sends h, heard_of_sends h⟩

/-- A body that holds one Message Type AVP, a HELLO. Source: reliable_test.go. -/
def hello : Message where
  sessionID := 0
  body := [0x80, 0x08, 0, 0, 0, 0, 0, 6]

/-- Three messages, of which the window lets one out and holds two back, a retransmission, and an
acknowledgement that lets the others out. -/
theorem outstanding_exact_hellos :
    ∃ c, run step (start {}) [.enqueue hello 0 false, .enqueue hello 0 false,
        .enqueue hello 1 true, .tick 2000, .receive { isControl := true, nr := 1 } [] 2500]
          = some c ∧ c.Exact ∧ c.Heard :=
  outstanding_exact {} (by decide) _ (by decide +kernel)

/-- **An acknowledgement of messages that were never sent is taken.** A new engine receives `Nr` 100
and moves `peerNr` there. The message it sends next has number 0, and its acknowledgement, `Nr` 1,
is ignored. -/
theorem acknowledgement_ahead :
    ∃ c, run step (start {}) [.receive { isControl := true, nr := 100 } [] 0,
        .enqueue hello 1 false] = some c ∧ ¬ c.Exact ∧
      c.eng.peerNr = 100 ∧ c.eng.nextSendSeq = 1 ∧ c.sent = [hello] ∧
      (c.eng.onReceive { isControl := true, nr := 1 } [] 2).2.acked = 0 ∧
      (c.eng.onReceive { isControl := true, nr := 1 } [] 2).1.rtmsQueue.length = 1 := by
  have hrun : (run step (start {}) [.receive { isControl := true, nr := 100 } [] 0,
      .enqueue hello 1 false]).any (fun c => c.unacked == 65437 && c.eng.peerNr == 100 &&
        c.eng.nextSendSeq == 1 && c.sent == [hello] &&
        (c.eng.onReceive { isControl := true, nr := 1 } [] 2).2.acked == 0 &&
        (c.eng.onReceive { isControl := true, nr := 1 } [] 2).1.rtmsQueue.length == 1) := by
    decide +kernel
  obtain ⟨c, hc, hall⟩ := (Option.any_eq_true _ _).1 hrun
  simp only [Bool.and_eq_true, beq_iff_eq] at hall
  obtain ⟨⟨⟨⟨⟨hun, hpeer⟩, hnext⟩, hsent⟩, hacked⟩, hlen⟩ := hall
  refine ⟨c, hc, ?_, hpeer, hnext, hsent, hacked, hlen⟩
  rintro ⟨hle, -⟩
  rw [hun, hsent] at hle
  exact absurd hle (by decide)

end Conn

end Ze.L2tp
