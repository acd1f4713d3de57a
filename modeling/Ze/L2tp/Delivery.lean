import Ze.L2tp.Outstanding

/-!
# Two engines and a channel

Two engines talk over a channel that keeps every datagram ever handed to it and may deliver any of
them at any time and any number of times. The one thing the channel owes is `Fresh`: no datagram is
delivered after 2^15 numbers newer than one that it carries have been used, in the sequence space of
that number.
-/

namespace Ze.L2tp

open Ze.Lib List
open ReorderQueue (popLoop)

/-! ## The receiving half -/

/-- The message in a delivered entry. Source: reliable.go RecvEntry. -/
def RecvEntry.message (d : RecvEntry) : Message where
  sessionID := d.sessionID
  body := d.payload

/-- The message in a buffered entry. Source: reliable_reorder.go reorderEntry. -/
def ReorderEntry.message (x : ReorderEntry) : Message where
  sessionID := x.sessionID
  body := x.payload

/-- The buffered messages are messages of the peer, with numbers from `lo` up to `hi`.
Source: reliable_reorder.go reorderQueue -/
def Buffered (lo hi : ℕ) (entries : UInt16 → Option ReorderEntry) (peer : List Message) : Prop :=
  ∀ k x, entries k = some x →
    ∃ t, lo ≤ t ∧ t < hi ∧ k = serial t ∧ peer[t]? = some x.message

/-- The engine has delivered `got`, the beginning of what the peer has numbered, and buffers what is
further on within its window. Source: reliable.go the fields nextRecvSeq and reorder. -/
structure Receives (e : Engine) (got : List RecvEntry) (peer : List Message) : Prop where
  next : e.nextRecvSeq = serial got.length
  got_peer : got.map RecvEntry.message <+: peer
  capacity : e.reorder.capacity.toNat ≤ 32768
  buffered : Buffered (got.length + 1) (got.length + e.reorder.capacity.toNat) e.reorder.entries
    peer

@[simp] lemma makeRecvEntry_message (ns sessionID : UInt16) (payload : List UInt8) :
    (makeRecvEntry ns sessionID payload).message = ⟨sessionID, payload⟩ := by
  unfold makeRecvEntry
  simp only
  split
  · rfl
  · split_ifs <;> rfl

lemma isPrefix_concat {α : Type} {l peer : List α} {m : α} (h : l <+: peer)
    (hm : peer[l.length]? = some m) : l ++ [m] <+: peer := by
  obtain ⟨t, rfl⟩ := h
  rw [getElem?_append_right le_rfl, Nat.sub_self] at hm
  obtain ⟨t', rfl⟩ : ∃ t', t = m :: t' := by
    rcases t with _ | ⟨x, t'⟩
    · cases hm
    · rw [getElem?_cons_zero, Option.some.injEq] at hm
      exact ⟨t', by rw [hm]⟩
  refine ⟨t', ?_⟩
  rw [append_assoc, singleton_append]

lemma getElem?_of_isPrefix {α : Type} {l l' : List α} (h : l <+: l') {i : ℕ} {m : α}
    (hm : l[i]? = some m) : l'[i]? = some m := by
  obtain ⟨t, rfl⟩ := h
  rw [getElem?_append_left (List.getElem?_eq_some_iff.mp hm).1]
  exact hm

lemma Buffered.mono {lo hi : ℕ} {entries : UInt16 → Option ReorderEntry}
    {peer peer' : List Message} (h : Buffered lo hi entries peer) (hp : peer <+: peer') :
    Buffered lo hi entries peer' := by
  intro k x hx
  obtain ⟨t, hlo, hhi, hk, hget⟩ := h k x hx
  exact ⟨t, hlo, hhi, hk, getElem?_of_isPrefix hp hget⟩

lemma Receives.mono {e : Engine} {got : List RecvEntry} {peer peer' : List Message}
    (h : Receives e got peer) (hp : peer <+: peer') : Receives e got peer' :=
  { h with
    got_peer := h.got_peer.trans hp
    buffered := h.buffered.mono hp }

lemma Receives.congr {e e' : Engine} {got : List RecvEntry} {peer : List Message}
    (h : Receives e got peer) (hin : e'.inbox = e.inbox) : Receives e' got peer := by
  have hnext : e'.nextRecvSeq = e.nextRecvSeq := congrArg Prod.fst hin
  have hre : e'.reorder = e.reorder := congrArg Prod.snd hin
  exact ⟨hnext ▸ h.next, h.got_peer, hre ▸ h.capacity, hre ▸ h.buffered⟩

/-- The buffered messages that are popped continue the peer's log, and what stays is further on than
the gap that stopped the loop. -/
lemma popLoop_spec {peer : List Message} {hi : ℕ} :
    (turns : ℕ) → ∀ (entries : UInt16 → Option ReorderEntry) (l : List Message), l <+: peer →
      Buffered l.length hi entries peer → hi ≤ l.length + turns → hi ≤ l.length + 65536 →
      l ++ (popLoop turns entries (serial l.length)).1.map ReorderEntry.message <+:
          peer ∧
        Buffered (l.length + (popLoop turns entries (serial l.length)).1.length + 1) hi
          (popLoop turns entries (serial l.length)).2 peer
  | 0, entries, l, hl, hbuf, hturns, _ => by
    simp only [popLoop, map_nil, append_nil]
    refine ⟨hl, fun k x hx => ?_⟩
    obtain ⟨t, hlo, hhi, -, -⟩ := hbuf k x hx
    omega
  | turns + 1, entries, l, hl, hbuf, hturns, hrange => by
    rcases hx : entries (serial l.length) with _ | x
    · simp only [popLoop, hx, map_nil, append_nil, length_nil, Nat.add_zero]
      refine ⟨hl, fun k y hy => ?_⟩
      obtain ⟨t, hlo, hhi, hk, hget⟩ := hbuf k y hy
      refine ⟨t, ?_, hhi, hk, hget⟩
      -- the loop stopped at `l.length`, so nothing with that number is buffered
      rcases hlo.eq_or_lt with heq | hlt
      · rw [hk, ← heq, hx] at hy
        cases hy
      · exact hlt
    · have hmsg : peer[l.length]? = some x.message := by
        obtain ⟨t, hlo, hhi, hk, hget⟩ := hbuf _ x hx
        have ht : l.length = t := eq_of_serial_eq hk (by omega) (by omega)
        rw [ht]
        exact hget
      have hbuf' : Buffered (l ++ [x.message]).length hi
          (Function.update entries (serial l.length) none) peer := by
        intro k y hy
        have hne : k ≠ serial l.length := by
          rintro rfl
          rw [Function.update_self] at hy
          cases hy
        rw [Function.update_of_ne hne] at hy
        obtain ⟨t, hlo, hhi, hk, hget⟩ := hbuf k y hy
        refine ⟨t, ?_, hhi, hk, hget⟩
        have htne : t ≠ l.length := by
          rintro rfl
          exact hne hk
        rw [length_append, length_singleton]
        omega
      have hlen : (l ++ [x.message]).length = l.length + 1 := by
        rw [length_append, length_singleton]
      obtain ⟨hpre, hrest⟩ := popLoop_spec turns _ _ (isPrefix_concat hl hmsg) hbuf' (by omega)
        (by omega)
      rw [hlen, serial_succ] at hpre hrest
      simp only [popLoop, hx, map_cons, length_cons]
      rw [append_assoc, singleton_append] at hpre
      refine ⟨hpre, ?_⟩
      have hsum : ∀ n : ℕ, l.length + (n + 1) + 1 = l.length + 1 + n + 1 := by
        intro n
        omega
      rw [hsum]
      exact hrest

section

variable {e : Engine} {got : List RecvEntry} {peer : List Message}

variable {m : Message}

lemma Receives.takeNs_inOrder (h : Receives e got peer) (hm : peer[got.length]? = some m) :
    Receives (e.takeNs e.nextRecvSeq m.sessionID m.body).1
      (got ++ (e.takeNs e.nextRecvSeq m.sessionID m.body).2.2) peer := by
  have hcap := h.capacity
  let l := got.map RecvEntry.message ++ [m]
  have hlen : l.length = got.length + 1 := by
    rw [length_append, length_map, length_singleton]
  have hl : l <+: peer := isPrefix_concat h.got_peer (by rw [length_map]; exact hm)
  have hnext : serial l.length = e.nextRecvSeq + 1 := by
    rw [hlen, serial_succ, h.next]
  obtain ⟨hpre, hrest⟩ := popLoop_spec 65536 e.reorder.entries l hl (hlen ▸ h.buffered) (by omega)
    (by omega)
  rw [hnext] at hpre hrest
  unfold Engine.takeNs
  rw [if_pos rfl]
  simp only [ReorderQueue.popInOrder]
  set out := popLoop 65536 e.reorder.entries (e.nextRecvSeq + 1) with hout
  have hglen : (got ++ makeRecvEntry e.nextRecvSeq m.sessionID m.body ::
      out.1.map fun r => makeRecvEntry r.ns r.sessionID r.payload).length =
        got.length + 1 + out.1.length := by
    rw [length_append, length_cons, length_map]
    omega
  refine ⟨?_, ?_, hcap, ?_⟩
  · rw [hglen, serial_add, serial_succ, h.next]
  · have hmap : (got ++ makeRecvEntry e.nextRecvSeq m.sessionID m.body ::
        out.1.map fun r => makeRecvEntry r.ns r.sessionID r.payload).map RecvEntry.message =
          l ++ out.1.map ReorderEntry.message := by
      rw [map_append, map_cons, map_map, makeRecvEntry_message, append_assoc, singleton_append]
      congr 2
      exact map_congr_left fun r _ => makeRecvEntry_message r.ns r.sessionID r.payload
    rw [hmap]
    exact hpre
  · rw [hglen]
    intro k x hx
    obtain ⟨t, hlo, hhi, hk, hget⟩ := hrest k x hx
    rw [hlen] at hlo
    refine ⟨t, hlo, ?_, hk, hget⟩
    simp only
    omega

lemma Receives.store (h : Receives e got peer) {s : ℕ}
    (hm : peer[s]? = some m) (hback : got.length - s ≤ 32768) (hahead : s - got.length ≤ 32768)
    {q : ReorderQueue} (hq : e.reorder.store (serial s) m.sessionID e.nextRecvSeq m.body = some q) :
    Receives { e with reorder := q } got peer := by
  have hcap := h.capacity
  unfold ReorderQueue.store at hq
  simp only at hq
  split_ifs at hq with hoff hdup
  cases hq
  rw [not_or, h.next] at hoff
  obtain ⟨hne, hlt⟩ := hoff
  rw [ge_iff_le, UInt16.le_iff_toNat_le, toNat_serial_sub, not_le] at hlt
  have hpos : Serial.dist 65536 got.length s ≠ 0 := by
    rw [← toNat_serial_sub]
    exact fun hz => hne (UInt16.toNat_inj.mp hz)
  have hgt : got.length < s := by
    by_contra hle
    rcases (Nat.le_of_not_lt hle).eq_or_lt with heq | hback'
    · rw [heq, Serial.dist_of_le (by omega) le_rfl (by omega)] at hpos
      omega
    · rw [Serial.dist_of_lt hback' (by omega)] at hlt
      omega
  rw [Serial.dist_of_le (by omega) hgt.le (by omega)] at hlt
  refine ⟨h.next, h.got_peer, hcap, ?_⟩
  intro k x hx
  by_cases hk : k = serial s
  · rw [hk] at hx
    simp only [Function.update_self, Option.some.injEq] at hx
    refine ⟨s, by omega, ?_, hk, ?_⟩
    · simp only
      omega
    · rw [← hx]
      exact hm
  · simp only [Function.update_of_ne hk] at hx
    exact h.buffered k x hx

/-- A message of the peer that is less than half the numbers away is delivered in its turn,
buffered, or dropped. -/
lemma Receives.takeNs (h : Receives e got peer) {s : ℕ}
    (hm : peer[s]? = some m) (hback : got.length - s ≤ 32768) (hahead : s - got.length ≤ 32768) :
    Receives (e.takeNs (serial s) m.sessionID m.body).1
      (got ++ (e.takeNs (serial s) m.sessionID m.body).2.2) peer := by
  by_cases heq : serial s = e.nextRecvSeq
  · have hs : s = got.length :=
      eq_of_serial_eq (heq.trans h.next) (by omega) (by omega)
    rw [heq]
    exact h.takeNs_inOrder (hs ▸ hm)
  · unfold Engine.takeNs
    rw [if_neg heq]
    split_ifs
    · rw [append_nil]
      exact h.congr rfl
    · rcases hq : e.reorder.store (serial s) m.sessionID e.nextRecvSeq m.body with _ | q
      · simp only [append_nil]
        exact h
      · simp only [append_nil]
        exact h.store hm hback hahead hq

end

/-! ## The two sides and the channel -/

/-- The side that opened the tunnel and the side that answered. Source: tunnel_initiator.go,
tunnel_fsm.go. -/
inductive Side
  | initiator
  | responder
  deriving DecidableEq

def Side.other : Side → Side
  | .initiator => .responder
  | .responder => .initiator

/-- One side: its engine, the messages it has given a number to, and the ones it has delivered. -/
structure Party where
  eng : Engine
  sent : List Message := []
  got : List RecvEntry := []

/-- A datagram with the counters that its `Ns` and `Nr` are the words of. -/
structure Packet where
  src : Side
  wire : List UInt8
  ns : ℕ
  nr : ℕ

/-- Both sides, and every datagram that was ever handed to the channel. -/
structure World where
  party : Side → Party
  channel : List Packet := []

/-- What can happen: a call on one side's engine, or the arrival of a datagram.
Source: reliable.go the methods of ReliableEngine -/
inductive NetOp
  | enqueue (p : Side) (m : Message) (now : ℕ) (priority : Bool)
  | receive (i : ℕ) (now : ℕ)
  | tick (p : Side) (now : ℕ)
  | updatePeerRWS (p : Side) (size : UInt16) (now : ℕ)
  | buildZLB (p : Side)
  | close (p : Side) (now : ℕ)
  | setPeerTunnelID (p : Side) (peerTID : UInt16)

/-- The datagrams of one call: numbered on from `base`, with one `Nr`. -/
def packets (p : Side) (wires : List (List UInt8)) (base nr : ℕ) : List Packet :=
  (wires.zipIdx base).map fun x => { src := p, wire := x.1, ns := x.2, nr }

namespace World

/-- Two new engines and an empty channel. Source: reliable.go NewReliableEngine. -/
def start (cfg : Side → ReliableConfig) : World where
  party p := { eng := newReliableEngine (cfg p) }

/-- One side after a call, and the datagrams the call returned. -/
def put (w : World) (p : Side) (q : Party) (pkts : List Packet) : World where
  party := Function.update w.party p q
  channel := w.channel ++ pkts

/-- Fewer than 2^15 numbers newer than one of the datagram's own have been used: of its sender's
numbers for `Ns`, of its receiver's for `Nr`. -/
def Fresh (w : World) (pkt : Packet) : Prop :=
  (w.party pkt.src).sent.length - pkt.ns ≤ 2 ^ 15 ∧
    (w.party pkt.src.other).sent.length - pkt.nr ≤ 2 ^ 15

instance (w : World) (pkt : Packet) : Decidable (w.Fresh pkt) :=
  inferInstanceAs (Decidable (_ ∧ _))

/-- One step. A datagram arrives at the side it was not sent from, is parsed as the reactor does and
handed to the engine; it stays in the channel. Source: reliable.go the methods of
ReliableEngine; reactor.go handle. -/
def step (w : World) : NetOp → Option World
  | .enqueue p m now priority =>
    let P := w.party p
    match P.eng.enqueue m now priority with
    | .error _ => some w
    | .ok out =>
      some (w.put p { P with eng := out.1, sent := P.sent ++ out.2.toList.map messageOf }
        (packets p out.2.toList P.sent.length P.got.length))
  | .receive i now =>
    match w.channel[i]? with
    | none => none
    | some pkt =>
      if w.Fresh pkt then
        let p := pkt.src.other
        let P := w.party p
        match parseMessageHeader pkt.wire with
        | .error _ => some w
        | .ok hdr =>
          let out := P.eng.onReceive hdr (payloadOf pkt.wire hdr) now
          some (w.put p
            { eng := out.1
              sent := P.sent ++ out.2.newSends.map messageOf
              got := P.got ++ out.2.delivered }
            (packets p out.2.newSends P.sent.length P.got.length))
      else none
  | .tick p now =>
    let P := w.party p
    let out := P.eng.tick now
    some (w.put p { P with eng := out.1 }
      (packets p out.2.retransmits (P.sent.length - P.eng.rtmsQueue.length) P.got.length))
  | .updatePeerRWS p size now =>
    let P := w.party p
    let out := P.eng.updatePeerRWS size now
    some (w.put p { P with eng := out.1, sent := P.sent ++ out.2.map messageOf }
      (packets p out.2 P.sent.length P.got.length))
  | .buildZLB p =>
    let P := w.party p
    some (w.put p { P with eng := P.eng.buildZLB.1 }
      (packets p [P.eng.buildZLB.2] P.sent.length P.got.length))
  | .close p now => some (w.put p { w.party p with eng := (w.party p).eng.close now } [])
  | .setPeerTunnelID p peerTID =>
    some (w.put p { w.party p with eng := (w.party p).eng.setPeerTunnelID peerTID } [])

end World
/-! ## The invariant -/

/-- A datagram of party `P`: a message stamped with its number, or an acknowledgement without a
body, and an `Nr` that was the next expected number. -/
def Packet.From (P : Party) (pkt : Packet) : Prop :=
  ∃ tunnelID m, pkt.wire = frame tunnelID m (serial pkt.ns) (serial pkt.nr) ∧
    controlHeaderLen + m.body.length ≤ 1023 ∧ (m.body = [] ∨ P.sent[pkt.ns]? = some m) ∧
    pkt.nr ≤ P.got.length

/-- Party `P` keeps its book, against the other party `Q`: what it acknowledges of its own log is
delivered by `Q`, and what it delivers is the beginning of the log of `Q`. -/
structure Party.Inv (P Q : Party) : Prop where
  sends : ∃ a, Sends 32768 P.eng P.sent a ∧ a ≤ Q.got.length
  receives : Receives P.eng P.got Q.sent

/-- Both parties keep their books, and every datagram is one of its sender's. -/
structure World.Inv (w : World) : Prop where
  party : ∀ p, (w.party p).Inv (w.party p.other)
  channel : ∀ pkt ∈ w.channel, pkt.From (w.party pkt.src)

section

variable {w : World} {p : Side} {P Q P' : Party}

lemma Side.other_ne (p : Side) : p.other ≠ p := by
  cases p <;> decide

@[simp] lemma Side.other_other (p : Side) : p.other.other = p := by
  cases p <;> rfl

lemma Side.eq_or_eq_other (p q : Side) : q = p ∨ q = p.other := by
  cases p <;> cases q <;> simp [Side.other]

def Party.Grows (P P' : Party) : Prop :=
  P.sent <+: P'.sent ∧ P.got <+: P'.got

lemma Party.grows_eng (P : Party) (e : Engine) : P.Grows { P with eng := e } :=
  ⟨prefix_rfl, prefix_rfl⟩

lemma Packet.From.grow {pkt : Packet} (h : pkt.From P) (hg : P.Grows P') : pkt.From P' := by
  obtain ⟨tunnelID, m, hwire, hfits, hm, hnr⟩ := h
  refine ⟨tunnelID, m, hwire, hfits, ?_, hnr.trans hg.2.length_le⟩
  rcases hm with hm | hm
  · exact .inl hm
  · exact .inr (getElem?_of_isPrefix hg.1 hm)

lemma Party.Inv.grow (h : P.Inv Q) {Q' : Party} (hg : Q.Grows Q') : P.Inv Q' := by
  obtain ⟨a, hs, ha⟩ := h.sends
  exact ⟨⟨a, hs, ha.trans hg.2.length_le⟩, h.receives.mono hg.1⟩

lemma World.Inv.put (h : w.Inv) (hg : (w.party p).Grows P') (hP : P'.Inv (w.party p.other))
    {pkts : List Packet} (hpkts : ∀ pkt ∈ pkts, pkt.src = p ∧ pkt.From P') :
    (w.put p P' pkts).Inv := by
  have hself : (w.put p P' pkts).party p = P' := Function.update_self ..
  have hother : (w.put p P' pkts).party p.other = w.party p.other :=
    Function.update_of_ne p.other_ne ..
  refine ⟨fun q => ?_, fun pkt hpkt => ?_⟩
  · rcases p.eq_or_eq_other q with rfl | rfl
    · rw [hself, hother]
      exact hP
    · rw [Side.other_other, hself, hother]
      have hq := h.party p.other
      rw [Side.other_other] at hq
      exact hq.grow hg
  · rcases mem_append.1 hpkt with hold | hnew
    · have hpkt := h.channel pkt hold
      rcases p.eq_or_eq_other pkt.src with hsrc | hsrc
      · rw [hsrc] at hpkt ⊢
        rw [hself]
        exact hpkt.grow hg
      · rw [hsrc] at hpkt ⊢
        rw [hother]
        exact hpkt
    · obtain ⟨hsrc, hfrom⟩ := hpkts pkt hnew
      rw [hsrc, hself]
      exact hfrom

lemma packets_frames {tunnelID : UInt16} {ms : List Message} {base nr : ℕ}
    (hsent : P'.sent.drop base = ms) (hfits : ∀ m ∈ ms, m.Fits) (hnr : nr ≤ P'.got.length) :
    ∀ pkt ∈ packets p (frames tunnelID ms base (serial nr)) base nr,
      pkt.src = p ∧ pkt.From P' := by
  intro pkt hpkt
  obtain ⟨⟨wire, t⟩, hmem, rfl⟩ := mem_map.1 hpkt
  refine ⟨rfl, ?_⟩
  rw [mk_mem_zipIdx_iff_le_and_getElem?_sub] at hmem
  obtain ⟨hle, hget⟩ := hmem
  rw [frames, getElem?_map, getElem?_zipIdx, Option.map_map] at hget
  obtain ⟨m, hm, rfl⟩ := Option.map_eq_some_iff.1 hget
  have hmem : m ∈ ms := mem_of_getElem? hm
  refine ⟨tunnelID, m, ?_, (hfits m hmem).2, .inr ?_, hnr⟩
  · simp only [Function.comp_apply]
    congr 2
    omega
  · rw [← hsent, getElem?_drop] at hm
    have ht : base + (t - base) = t := by omega
    rw [ht] at hm
    exact hm

end
/-! ## Every step keeps it -/

namespace World

section

variable {w : World} {p : Side}

lemma inv_start (cfg : Side → ReliableConfig) : (start cfg).Inv := by
  refine ⟨fun p => ⟨⟨0, Sends.start (clampPeerRWS_le _), Nat.zero_le _⟩, ⟨rfl, ?_, ?_, ?_⟩⟩, ?_⟩
  · exact nil_prefix
  · change (cfg p).withDefaults.recvWindow.toNat ≤ 32768
    unfold ReliableConfig.withDefaults
    simp only
    split_ifs with h₀ h₁ h₁
    · decide
    · decide
    · decide
    · rw [gt_iff_lt, UInt16.lt_iff_toNat_lt] at h₁
      exact Nat.le_of_not_lt h₁
  · intro k x hx
    cases hx
  · intro pkt hpkt
    cases hpkt

lemma Inv.emit (h : w.Inv) {e : Engine} {ms : List Message} {ds : List RecvEntry} {a : ℕ}
    (tunnelID : UInt16) (hs : Sends 32768 e ((w.party p).sent ++ ms) a)
    (ha : a ≤ (w.party p.other).got.length)
    (hr : Receives e ((w.party p).got ++ ds) (w.party p.other).sent) :
    (w.put p { eng := e, sent := (w.party p).sent ++ ms, got := (w.party p).got ++ ds }
      (packets p (frames tunnelID ms (w.party p).sent.length (w.party p).eng.nextRecvSeq)
        (w.party p).sent.length (w.party p).got.length)).Inv := by
  refine h.put ⟨prefix_append _ _, prefix_append _ _⟩ ⟨⟨a, hs, ha⟩, hr⟩ ?_
  rw [(h.party p).receives.next]
  apply packets_frames
  · exact drop_left
  · intro m hm
    exact hs.sent m (mem_append_right _ hm)
  · rw [length_append]
    exact Nat.le_add_right _ _

lemma Inv.emit_sends (h : w.Inv) {e : Engine} {ms : List Message} {a : ℕ} (tunnelID : UInt16)
    (hs : Sends 32768 e ((w.party p).sent ++ ms) a) (ha : a ≤ (w.party p.other).got.length)
    (hin : e.inbox = (w.party p).eng.inbox) :
    (w.put p { w.party p with eng := e, sent := (w.party p).sent ++ ms }
      (packets p (frames tunnelID ms (w.party p).sent.length (w.party p).eng.nextRecvSeq)
        (w.party p).sent.length (w.party p).got.length)).Inv := by
  have hr : Receives e ((w.party p).got ++ []) (w.party p.other).sent := by
    rw [append_nil]
    exact (h.party p).receives.congr hin
  have hemit := h.emit tunnelID hs ha hr
  rw [append_nil] at hemit
  exact hemit

variable {w' : World} {now : ℕ}

lemma Inv.enqueue (h : w.Inv) {m : Message} {priority : Bool}
    (hstep : w.step (.enqueue p m now priority) = some w') : w'.Inv := by
  obtain ⟨a, hs, ha⟩ := (h.party p).sends
  simp only [step] at hstep
  split at hstep
  · cases hstep
    exact h
  · rename_i out hout
    cases hstep
    obtain ⟨hin, ⟨hnone, hs'⟩ | ⟨hsome, hs'⟩⟩ := hs.enqueue le_rfl hout
    · rw [← append_nil (w.party p).sent] at hs'
      have hemit := h.emit_sends 0 hs' ha hin
      simp only [hnone, Option.toList_none, map_nil]
      exact hemit
    · have hemit := h.emit_sends (w.party p).eng.cfg.peerTunnelID hs' ha hin
      simp only [hsome, Option.toList_some, map_cons, map_nil, messageOf_frame]
      exact hemit

/-- A datagram that arrives. Its acknowledgement is of messages that its sender has delivered, and
its number is within reach of the one expected, so both are read as they were meant. -/
lemma Inv.receive (h : w.Inv) {i : ℕ} (hstep : w.step (.receive i now) = some w') : w'.Inv := by
  simp only [step] at hstep
  split at hstep
  · cases hstep
  · rename_i pkt hpkt
    split_ifs at hstep with hfresh
    obtain ⟨tunnelID, m, hwire, hfits, hm, hnr⟩ := h.channel pkt (mem_of_getElem? hpkt)
    rw [hwire, parse_frame _ _ _ _ hfits] at hstep
    simp only [payloadOf_frame _ _ _ _ hfits, Option.some.injEq] at hstep
    obtain ⟨hfresh₁, hfresh₂⟩ := hfresh
    -- the receiver of the datagram, and its sender
    obtain ⟨⟨a, hs, ha⟩, hr⟩ := h.party pkt.src.other
    obtain ⟨⟨b, hsb, hb⟩, hrb⟩ := h.party pkt.src
    rw [Side.other_other] at ha hr
    have hlen := hr.got_peer.length_le
    have hlenb := hrb.got_peer.length_le
    have hflb := hsb.inFlight
    rw [length_map] at hlen hlenb
    obtain ⟨a', ha', hs'⟩ := hs.processNr (r := pkt.nr) le_rfl (hnr.trans hlenb) hfresh₂
    have hle : a' ≤ (w.party pkt.src).got.length := by
      rcases ha' with rfl | rfl
      · exact ha
      · exact hnr
    obtain ⟨ms, hms, hwires, hin⟩ := hs'.takeNr_of_processNr le_rfl now
    have hr' := hr.congr hin
    have hctl : (frameHeader tunnelID m (serial pkt.ns) (serial pkt.nr)).isControl := rfl
    obtain ⟨hnew, -, hcase⟩ :=
      onReceive_control (w.party pkt.src.other).eng hctl m.body now
    have hsends := hms.onReceive hctl m.body
    have hrecv : Receives ((w.party pkt.src.other).eng.onReceive
        (frameHeader tunnelID m (serial pkt.ns) (serial pkt.nr)) m.body now).1
        ((w.party pkt.src.other).got ++ ((w.party pkt.src.other).eng.onReceive
          (frameHeader tunnelID m (serial pkt.ns) (serial pkt.nr)) m.body now).2.delivered)
        (w.party pkt.src).sent := by
      obtain ⟨-, heng, hdel⟩ | ⟨hbody, heng, hdel⟩ := hcase
      · rw [heng, hdel, append_nil]
        exact hr'
      · have hget : (w.party pkt.src).sent[pkt.ns]? = some m := hm.resolve_left hbody
        have hns := (List.getElem?_eq_some_iff.mp hget).1
        rw [heng, hdel]
        exact hr'.takeNs hget (by omega) (by omega)
    have hnewSends : ((w.party pkt.src.other).eng.onReceive
        (frameHeader tunnelID m (serial pkt.ns) (serial pkt.nr)) m.body now).2.newSends =
          frames (w.party pkt.src.other).eng.cfg.peerTunnelID ms
            (w.party pkt.src.other).sent.length (w.party pkt.src.other).eng.nextRecvSeq :=
      hnew.trans hwires
    rw [hnewSends, map_messageOf_frames] at hstep
    rw [← hstep]
    apply h.emit _ hsends
    · rw [Side.other_other]
      exact hle
    · rw [Side.other_other]
      exact hrecv

lemma Inv.tick (h : w.Inv) (hstep : w.step (.tick p now) = some w') : w'.Inv := by
  obtain ⟨a, hs, ha⟩ := (h.party p).sends
  have hr := (h.party p).receives
  obtain ⟨hs', hin⟩ := hs.tick now
  have hbase : (w.party p).sent.length - (w.party p).eng.rtmsQueue.length = a := by
    have hle := hs.acked_le
    rw [hs.length_queue]
    omega
  simp only [step, Option.some.injEq] at hstep
  rw [← hstep]
  refine h.put (Party.grows_eng _ _) ⟨⟨a, hs', ha⟩, hr.congr hin⟩ ?_
  intro pkt hpkt
  obtain ⟨⟨wire, t⟩, hmem, rfl⟩ := mem_map.mp hpkt
  refine ⟨rfl, ?_⟩
  rw [mk_mem_zipIdx_iff_le_and_getElem?_sub, hbase] at hmem
  obtain ⟨hle, hget⟩ := hmem
  rcases hs.tick_retransmits now with hnone | hall
  · rw [hnone] at hget
    cases hget
  · obtain ⟨hi, hwire⟩ := List.getElem?_eq_some_iff.mp hget
    have hi' : t - a < ((w.party p).sent.zipIdx.drop a).length := hall.length_eq ▸ hi
    obtain ⟨tunnelID, hframe⟩ := hall.get hi hi'
    have ht : a + (t - a) = t := by omega
    rw [get_eq_getElem, get_eq_getElem, hwire] at hframe
    simp only [getElem_drop, getElem_zipIdx, Nat.zero_add, ht] at hframe
    have hlt : t < (w.party p).sent.length := by
      rw [List.length_drop, length_zipIdx] at hi'
      omega
    refine ⟨tunnelID, (w.party p).sent[t], ?_, ?_, .inr ?_, le_rfl⟩
    · rw [← hr.next]
      exact hframe
    · exact (hs.sent _ (getElem_mem hlt)).2
    · exact getElem?_eq_getElem hlt

lemma Inv.updatePeerRWS (h : w.Inv) {size : UInt16}
    (hstep : w.step (.updatePeerRWS p size now) = some w') : w'.Inv := by
  obtain ⟨a, hs, ha⟩ := (h.party p).sends
  obtain ⟨ms, hms, hwires, hin⟩ := hs.updatePeerRWS le_rfl (clampPeerRWS_le size) now
  simp only [step, Option.some.injEq] at hstep
  rw [← hstep, hwires, map_messageOf_frames]
  exact h.emit_sends _ hms ha hin

lemma Inv.buildZLB (h : w.Inv) (hstep : w.step (.buildZLB p) = some w') : w'.Inv := by
  obtain ⟨a, hs, ha⟩ := (h.party p).sends
  have hr := (h.party p).receives
  simp only [step, Option.some.injEq] at hstep
  rw [← hstep]
  refine h.put (Party.grows_eng _ (w.party p).eng.buildZLB.1)
    ⟨⟨a, hs.congr rfl rfl rfl rfl rfl, ha⟩, hr.congr rfl⟩ ?_
  intro pkt hpkt
  have hpkt' : pkt = ⟨p, (w.party p).eng.buildZLB.2, (w.party p).sent.length,
      (w.party p).got.length⟩ := by
    simpa [packets] using hpkt
  rw [hpkt']
  refine ⟨rfl, (w.party p).eng.cfg.peerTunnelID, ⟨0, []⟩, ?_, by decide, .inl rfl, le_rfl⟩
  rw [Engine.buildZLB, hs.next, hr.next]

lemma Inv.quiet (h : w.Inv) {e : Engine} (hs : ∀ a, Sends 32768 (w.party p).eng (w.party p).sent a →
      Sends 32768 e (w.party p).sent a)
    (hin : e.inbox = (w.party p).eng.inbox) : (w.put p { w.party p with eng := e } []).Inv := by
  obtain ⟨a, hsends, ha⟩ := (h.party p).sends
  refine h.put (Party.grows_eng _ _) ⟨⟨a, hs a hsends, ha⟩, (h.party p).receives.congr hin⟩ ?_
  intro pkt hpkt
  cases hpkt

lemma Inv.step (h : w.Inv) {op : NetOp} (hstep : w.step op = some w') : w'.Inv := by
  cases op with
  | enqueue p m now priority => exact h.enqueue hstep
  | receive i now => exact h.receive hstep
  | tick p now => exact h.tick hstep
  | updatePeerRWS p size now => exact h.updatePeerRWS hstep
  | buildZLB p => exact h.buildZLB hstep
  | close p now =>
    cases hstep
    apply h.quiet
    · exact fun a hs => hs.close now
    · unfold Engine.close
      split_ifs <;> rfl
  | setPeerTunnelID p peerTID =>
    cases hstep
    apply h.quiet
    · exact fun a hs => hs.congr rfl rfl rfl rfl rfl
    · rfl

end

/-- **What is delivered is the beginning of what was sent.** In every run of the two engines over
the channel, the messages a side has delivered are the first ones that the other side numbered, in
order and each once, with their bodies and sessions; and the other side's retransmission queue is
the rest of its messages from some number on that is at most the number of those delivered, so no
message leaves it before it is delivered. -/
theorem delivered_in_order (cfg : Side → ReliableConfig) (ops : List NetOp) (w : World)
    (hw : run step (start cfg) ops = some w) (p : Side) :
    (w.party p).got.map RecvEntry.message <+: (w.party p.other).sent ∧
      ∃ a ≤ (w.party p).got.length,
        (w.party p.other).eng.rtmsQueue.map (fun q => (q.ns, messageOf q.bytes)) =
          ((w.party p.other).sent.drop a).mapIdx fun i m => (serial (a + i), m) := by
  have h : w.Inv := run_inv (fun s o s' hs hstep => Inv.step hs hstep) ops (start cfg) w
    (inv_start cfg) hw
  obtain ⟨a, hs, ha⟩ := (h.party p.other).sends
  rw [Side.other_other] at ha
  exact ⟨(h.party p).receives.got_peer, a, ha, hs.queue_eq⟩

/-- Two messages of session 7 that can be told apart. -/
def setup (n : UInt8) : Message where
  sessionID := 7
  body := [0x80, 0x08, 0, 0, 0, 0, 0, n]

/-- Four messages of the initiator. The first is delivered and acknowledged, which opens the window
for two more; those arrive in the wrong order and one of them twice, both are sent again, and an old
acknowledgement comes late. -/
def crossing : List NetOp :=
  [.enqueue .initiator (setup 10) 0 false, .enqueue .initiator (setup 11) 0 false,
    .enqueue .initiator (setup 12) 0 false, .enqueue .initiator (setup 13) 0 false,
    .receive 0 1, .buildZLB .responder, .receive 1 2, .receive 3 3, .receive 2 4, .receive 3 5,
    .receive 0 6, .tick .initiator 3000, .receive 4 3001, .buildZLB .responder, .receive 6 3002,
    .receive 1 3003]

/-- The three messages that arrived are delivered once and in order; they have left the queue, and
the fourth is on it. -/
theorem delivered_in_order_crossing :
    ∃ w, run step (start fun _ => {}) crossing = some w ∧
      (w.party .responder).got.map RecvEntry.message = [setup 10, setup 11, setup 12] ∧
      (w.party .initiator).sent = [setup 10, setup 11, setup 12, setup 13] ∧
      (w.party .initiator).eng.rtmsQueue.length = 1 ∧
      (w.party .responder).got.map RecvEntry.message <+: (w.party .initiator).sent := by
  have hrun : (run step (start fun _ => {}) crossing).any (fun w =>
      (w.party .responder).got.map RecvEntry.message == [setup 10, setup 11, setup 12] &&
      (w.party .initiator).sent == [setup 10, setup 11, setup 12, setup 13] &&
      (w.party .initiator).eng.rtmsQueue.length == 1) := by
    decide +kernel
  obtain ⟨w, hw, hall⟩ := (Option.any_eq_true _ _).1 hrun
  simp only [Bool.and_eq_true, beq_iff_eq] at hall
  exact ⟨w, hw, hall.1.1, hall.1.2, hall.2,
    (delivered_in_order (fun _ => {}) crossing w hw .responder).1⟩

end World

end Ze.L2tp
