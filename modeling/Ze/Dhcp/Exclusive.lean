import Ze.Dhcp.Pool
import Ze.Lib.Run

/-!
# Who holds an address

Packets come in, time passes, and the timer of a lease fires some time after the lease has expired.
An acknowledgement should give no client an address that another holds, and the two maps of the
lease table should stay inverse. Where `Tables` holds, a step is proper exactly when it is entitled
(`proper_iff`), and then `Tables` holds after it: `proper_iff_entitled`.
-/

namespace Ze.Dhcp

open Ze.Lib
open Option (some.inj)
open Function (update_apply update_self)

/-! ## The running server -/

/-- The tables and the clock. Source: dhcpserver/handler.go dhcpHandler; dhcpserver/lease.go. -/
structure World where
  leases : LeaseTable
  now : ℕ

/-- What can happen to the server. Source: dhcpserver/register.go, lease.go. -/
inductive Op where
  /-- A packet is handled. -/
  | packet (pkt : List Octet) (pick : ℕ)
  /-- The timer of the client's lease fires. -/
  | expire (mac : Mac) (pick : ℕ)
  | wait (d : ℕ)

namespace World

variable (h : Subnet)

/-- An empty server. Source: handler.go newDHCPHandler. -/
def new : World where
  leases := .new (.new h.ranges h.staticMappings)
  now := 0

/-- One step. A timer fires only for a lease whose time has come.
Source: handler.go handle; lease.go expire. -/
def step (w : World) : Op → Option World
  | .packet pkt pick => some { w with leases := (h.handle w.leases w.now pkt pick).1 }
  | .expire mac pick =>
    match w.leases.byMAC mac with
    | none => none
    | some l =>
      if l.expiry ≤ w.now then some { w with leases := w.leases.release mac pick } else none
  | .wait d => some { w with now := w.now + d }

/-- The reply a step sends. Source: handler.go handle. -/
def reply (w : World) : Op → Option Reply
  | .packet pkt pick => (h.handle w.leases w.now pkt pick).2
  | _ => none

/-- The client holds an unexpired lease on the address. Source: lease.go lease. -/
def Leased (w : World) (mac : Mac) (addr : IPv4) : Prop :=
  ∃ l, w.leases.byMAC mac = some l ∧ l.addr = addr ∧ w.now < l.expiry

end World

/-- `byMAC` and `byAddr` are inverse to each other: a client has a lease on an address in the one if
and only if it has in the other. Source: lease.go leaseTable. -/
def LeaseTable.Inverse (lt : LeaseTable) : Prop :=
  ∀ mac addr, (∃ l, lt.byMAC mac = some l ∧ l.addr = addr) ↔
    ∃ l, lt.byAddr addr = some l ∧ l.mac = mac

/-- One step does right: an address it acknowledges to a client is under no unexpired lease of
another client and is the static mapping of no other client, and the maps of the lease table are
inverse to each other after it. -/
def Proper (h : Subnet) (w : World) (op : Op) : Prop :=
  (∀ mac addr, w.reply h op = some (.ack mac addr) →
    ∀ other, other ≠ mac → ¬ w.Leased other addr ∧ h.staticByMAC other ≠ some addr) ∧
  ∀ w', w.step h op = some w' → w'.leases.Inverse

/-- The binding a packet asks for, when the handler will commit it.
Source: handler.go handle, handleRequest. -/
def Subnet.binding (h : Subnet) (pkt : List Octet) : Option (Mac × IPv4) :=
  if h.accepts pkt ∧ parseMsgType pkt = 3#8 then
    match h.request pkt with
    | .commit addr => some (extractMAC pkt, addr)
    | _ => none
  else none

/-- A DHCPREQUEST that will be committed asks for an address that `byAddr` holds for no other client
and that is no other client's static mapping. -/
def Entitled (h : Subnet) (w : World) : Op → Prop
  | .packet pkt _ => ∀ mac addr, h.binding pkt = some (mac, addr) →
      (∀ l, w.leases.byAddr addr = some l → l.mac = mac) ∧
        ∀ other, other ≠ mac → h.staticByMAC other ≠ some addr
  | _ => True

/-! ## The tables -/

/-- `byAddr` holds, under their addresses, leases of `byMAC` whose addresses are taken in the pool,
and all of those that are alive. -/
structure LeaseTable.Tables (ranges : List (IPv4 × IPv4)) (alive : Lease → Prop) (lt : LeaseTable) :
    Prop where
  shaped : lt.pool.Shaped ranges
  ofAddr : ∀ a l, lt.byAddr a = some l → l.addr = a ∧ lt.byMAC l.mac = some l ∧ lt.pool.Taken a
  ofMAC : ∀ m l, lt.byMAC m = some l → l.mac = m ∧ (alive l → lt.byAddr l.addr = some l)

namespace LeaseTable

variable {ranges : List (IPv4 × IPv4)} {alive : Lease → Prop} {lt : LeaseTable} {now : ℕ}
  {mac : Mac}
  {addr : IPv4} {pick : ℕ}

lemma Tables.new (h : Subnet) (alive : Lease → Prop) :
    (LeaseTable.new (.new h.ranges h.staticMappings)).Tables h.ranges alive :=
  ⟨Pool.shaped_new _ _, fun _ _ hl => (by cases hl), fun _ _ hl => (by cases hl)⟩

lemma Tables.inverse (ht : lt.Tables ranges fun _ => True) : lt.Inverse := by
  intro mac addr
  constructor
  · rintro ⟨l, hl, rfl⟩
    exact ⟨l, (ht.ofMAC mac l hl).2 trivial, (ht.ofMAC mac l hl).1⟩
  · rintro ⟨l, hl, rfl⟩
    exact ⟨l, (ht.ofAddr addr l hl).2.1, (ht.ofAddr addr l hl).1⟩

lemma Tables.mono (ht : lt.Tables ranges alive) {alive' : Lease → Prop}
    (h : ∀ l, alive' l → alive l) : lt.Tables ranges alive' :=
  { ht with ofMAC := fun m l hl => ⟨(ht.ofMAC m l hl).1, fun hl' => (ht.ofMAC m l hl).2 (h l hl')⟩ }

lemma Tables.withPool (ht : lt.Tables ranges alive) {pool : Pool} (hk : ∀ a, lt.pool.Keeps a pool) :
    ({ lt with pool := pool } : LeaseTable).Tables ranges alive where
  shaped := ht.shaped.keeps (hk 0#32)
  ofAddr a l hl := (ht.ofAddr a l hl).imp_right fun h => ⟨h.1, h.2.keeps (hk a)⟩
  ofMAC := ht.ofMAC

lemma Tables.release (ht : lt.Tables ranges alive) (hclear : ∀ e, lt.byMAC mac = some e → ∀ l,
    lt.byAddr e.addr = some l → l.mac = mac ∨ ¬ alive l) :
    (lt.release mac pick).Tables ranges alive := by
  have hshaped := (poolInvariant_shaped ranges).of_release ht.shaped mac pick
  unfold LeaseTable.release at hshaped ⊢
  cases he : lt.byMAC mac with
  | none => exact ht
  | some e =>
    rw [he] at hshaped
    refine ⟨hshaped, fun a l hl => ?_, fun m l hl => ?_⟩
    · simp only [update_apply] at hl ⊢
      split_ifs at hl with ha
      obtain ⟨hla, hlm, htaken⟩ := ht.ofAddr a l hl
      refine ⟨hla, ?_, htaken.keeps (Pool.keeps_release (Ne.symm ha) pick)⟩
      rw [if_neg, hlm]
      intro hm
      rw [hm, he] at hlm
      exact ha (by rw [← hla, some.inj hlm])
    · simp only [update_apply] at hl ⊢
      split_ifs at hl with hm
      obtain ⟨hlm, hla⟩ := ht.ofMAC m l hl
      refine ⟨hlm, fun halive => ?_⟩
      rw [if_neg, hla halive]
      intro heq
      rcases hclear e he l (heq ▸ hla halive) with hmac | hdead
      · exact hm (hlm.symm.trans hmac)
      · exact hdead halive

lemma maps_add (lt : LeaseTable) (now : ℕ) (mac : Mac) (addr : IPv4) (sec : BitVec 32) (pick : ℕ) :
    (lt.add now mac addr sec pick).byMAC mac = some ⟨mac, addr, now + sec.toNat * 1000000000⟩ ∧
      (lt.add now mac addr sec pick).byAddr addr
        = some ⟨mac, addr, now + sec.toNat * 1000000000⟩ := by
  unfold LeaseTable.add
  exact ⟨update_self .., update_self ..⟩

lemma Tables.add (ht : lt.Tables ranges alive) (hfree : ∀ l, lt.byAddr addr = some l →
      l.mac = mac ∨ ¬ alive l)
    (hclear : ∀ e, lt.byMAC mac = some e → e.addr ≠ addr → ∀ l,
      lt.byAddr e.addr = some l → l.mac = mac ∨ ¬ alive l) (htaken : lt.pool.Taken addr)
    (sec : BitVec 32) : (lt.add now mac addr sec pick).Tables ranges alive := by
  have hshaped := (poolInvariant_shaped ranges).of_add ht.shaped now mac addr sec pick
  -- an unexpired lease of another client is on another address, and not on the one that goes
  have hother : ∀ m l, lt.byMAC m = some l → m ≠ mac → alive l → l.addr ≠ addr ∧
      ∀ e, lt.byMAC mac = some e → l.addr ≠ e.addr := by
    intro m l hl hm halive
    obtain ⟨hlm, hla⟩ := ht.ofMAC m l hl
    have hfree' : l.addr ≠ addr := by
      intro heq
      rcases hfree l (heq ▸ hla halive) with hmac | hdead
      · exact hm (hlm.symm.trans hmac)
      · exact hdead halive
    refine ⟨hfree', fun e he heq => ?_⟩
    rcases hclear e he (heq ▸ hfree') l (heq ▸ hla halive) with hmac | hdead
    · exact hm (hlm.symm.trans hmac)
    · exact hdead halive
  refine ⟨hshaped, fun a l hl => ?_, fun m l hl => ?_⟩
  · by_cases ha : a = addr
    · subst ha
      rw [(maps_add lt now mac a sec pick).2] at hl
      cases hl
      refine ⟨rfl, (maps_add lt now mac a sec pick).1, ?_⟩
      unfold LeaseTable.add
      cases lt.byMAC mac with
      | none => exact htaken
      | some e =>
        simp only
        split_ifs with he
        · exact htaken.keeps (Pool.keeps_release he pick)
        · exact htaken
    · unfold LeaseTable.add at hl ⊢
      cases he : lt.byMAC mac with
      | none =>
        simp only [he, update_apply, if_neg ha] at hl ⊢
        obtain ⟨hla, hlm, hla'⟩ := ht.ofAddr a l hl
        refine ⟨hla, ?_, hla'⟩
        rw [if_neg, hlm]
        rintro hm
        rw [hm, he] at hlm
        cases hlm
      | some e =>
        simp only [he, update_apply, if_neg ha] at hl ⊢
        split_ifs at hl with hea
        obtain ⟨hla, hlm, hla'⟩ := ht.ofAddr a l hl
        refine ⟨hla, ?_, ?_⟩
        · rw [if_neg, hlm]
          intro hm
          rw [hm, he] at hlm
          exact hea (by rw [← hla, some.inj hlm])
        · split_ifs
          · exact hla'.keeps (Pool.keeps_release (Ne.symm hea) pick)
          · exact hla'
  · by_cases hm : m = mac
    · subst hm
      rw [(maps_add lt now m addr sec pick).1] at hl
      cases hl
      exact ⟨rfl, fun _ => (maps_add lt now m addr sec pick).2⟩
    · have hl' : lt.byMAC m = some l := by
        unfold LeaseTable.add at hl
        cases he : lt.byMAC mac <;> simpa only [he, update_apply, if_neg hm] using hl
      obtain ⟨hlm, hla⟩ := ht.ofMAC m l hl'
      refine ⟨hlm, fun halive => ?_⟩
      obtain ⟨hne, hne'⟩ := hother m l hl' hm halive
      unfold LeaseTable.add
      cases he : lt.byMAC mac with
      | none => simpa only [update_apply, if_neg hne] using hla halive
      | some e => simpa only [update_apply, if_neg hne, if_neg (hne' e he)] using hla halive

end LeaseTable

/-! ## One step -/

section

variable {h : Subnet} {w w' : World} {op : Op}

/-- What a packet does to the tables: it binds its sender to an address, changes nothing in the
maps, or drops the lease of its sender, who releases or declines. -/
lemma handle_cases (h : Subnet) (lt : LeaseTable) (now : ℕ) (pkt : List Octet) (pick : ℕ) :
    (∃ addr, h.binding pkt = some (extractMAC pkt, addr) ∧
      h.handle lt now pkt pick =
        ({ lt with pool := lt.pool.reserve addr (extractMAC pkt) }.add now (extractMAC pkt) addr
          h.leaseTimeSec pick, some (.ack (extractMAC pkt) addr))) ∨
    (h.binding pkt = none ∧ (∀ mac addr, (h.handle lt now pkt pick).2 ≠ some (.ack mac addr)) ∧
      ∃ pool, (∀ a, lt.pool.Keeps a pool) ∧
        ((h.accepts pkt → ¬ (parseMsgType pkt = 7#8 ∨ parseMsgType pkt = 4#8)) ∧
            (h.handle lt now pkt pick).1 = { lt with pool := pool } ∨
          h.accepts pkt ∧ (parseMsgType pkt = 7#8 ∨ parseMsgType pkt = 4#8) ∧
            (h.handle lt now pkt pick).1 =
              LeaseTable.release { lt with pool := pool } (extractMAC pkt) pick)) := by
  have hsame : ∀ a, lt.pool.Keeps a lt.pool := fun a => .refl a lt.pool
  unfold Subnet.binding Subnet.handle
  cases hacc : h.accepts pkt with
  | false =>
    refine .inr ⟨rfl, ?_, lt.pool, hsame, .inl ⟨fun hc => (by cases hc), rfl⟩⟩
    intro mac addr hc
    cases hc
  | true =>
    simp only [Bool.not_true, Bool.false_eq_true, if_false, true_and]
    by_cases h1 : parseMsgType pkt = 1#8
    · refine .inr ⟨by rw [if_neg (by rw [h1]; decide)], ?_⟩
      have hstays : True → ¬ (parseMsgType pkt = 7#8 ∨ parseMsgType pkt = 4#8) := by
        rw [h1]
        decide
      rw [if_pos h1]
      unfold Subnet.handleDiscover
      split
      · exact ⟨fun mac addr hc => (by cases hc), lt.pool, hsame, .inl ⟨hstays, rfl⟩⟩
      · split
        · exact ⟨fun mac addr hc => (by cases hc), lt.pool, hsame, .inl ⟨hstays, rfl⟩⟩
        · rename_i halloc
          exact ⟨fun mac addr hc => (by cases hc), _, fun a => Pool.keeps_allocate a halloc,
            .inl ⟨hstays, rfl⟩⟩
    rw [if_neg h1]
    by_cases h3 : parseMsgType pkt = 3#8
    · have hstays : True → ¬ (parseMsgType pkt = 7#8 ∨ parseMsgType pkt = 4#8) := by
        rw [h3]
        decide
      rw [if_pos h3, if_pos h3]
      unfold Subnet.handleRequest
      cases hreq : h.request pkt with
      | silent | refuse =>
        exact .inr ⟨rfl, fun mac addr hc => (by cases hc), lt.pool, hsame, .inl ⟨hstays, rfl⟩⟩
      | commit addr => exact .inl ⟨addr, rfl, rfl⟩
    rw [if_neg h3, if_neg h3]
    refine .inr ⟨rfl, ?_⟩
    split_ifs with h7 h4
    · exact ⟨fun mac addr hc => (by cases hc), lt.pool, hsame, .inr ⟨.inl h7, rfl⟩⟩
    · refine ⟨fun mac addr hc => (by cases hc), ?_⟩
      unfold Subnet.handleDecline
      split
      · exact ⟨lt.pool, hsame, .inr ⟨.inr h4, rfl⟩⟩
      · exact ⟨_, Pool.keeps_markUnavailable, .inr ⟨.inr h4, rfl⟩⟩
    · refine ⟨fun mac addr hc => (by cases hc), lt.pool, hsame, .inl ⟨fun _ => ?_, rfl⟩⟩
      exact not_or.2 ⟨h7, h4⟩

/-- The condition under which a packet keeps the tables: no lease that is alive stands in `byAddr`
under an address that the packet binds its sender to, or under that of the lease that the sender has
and loses. -/
lemma LeaseTable.Tables.handle {alive : Lease → Prop} {lt : LeaseTable} {now : ℕ} {pkt : List Octet}
    {pick : ℕ} (ht : lt.Tables h.ranges alive)
    (hfree : ∀ addr, h.binding pkt = some (extractMAC pkt, addr) → ∀ l, lt.byAddr addr = some l →
      l.mac = extractMAC pkt ∨ ¬ alive l)
    (hclear : ∀ e, lt.byMAC (extractMAC pkt) = some e →
      (h.accepts pkt ∧ (parseMsgType pkt = 7#8 ∨ parseMsgType pkt = 4#8) ∨
        ∃ other, other ≠ e.addr ∧ h.binding pkt = some (extractMAC pkt, other)) →
      ∀ l, lt.byAddr e.addr = some l → l.mac = extractMAC pkt ∨ ¬ alive l) :
    (h.handle lt now pkt pick).1.Tables h.ranges alive := by
  rcases handle_cases h lt now pkt pick with
    ⟨addr, hbind, heq⟩ | ⟨-, -, pool, hk, ⟨-, heq⟩ | ⟨hacc, htype, heq⟩⟩
  · rw [heq]
    refine (ht.withPool Pool.keeps_reserve).add (hfree addr hbind) (fun e he hne => ?_)
      (Pool.taken_reserve ht.shaped addr _) _
    exact hclear e he (.inr ⟨addr, Ne.symm hne, hbind⟩)
  · rw [heq]
    exact ht.withPool hk
  · rw [heq]
    exact (ht.withPool hk).release fun e he => hclear e he (.inl ⟨hacc, htype⟩)

lemma tables_step (ht : w.leases.Tables h.ranges fun _ => True) (hent : Entitled h w op)
    (hs : w.step h op = some w') : w'.leases.Tables h.ranges fun _ => True := by
  have hown : ∀ mac e, w.leases.byMAC mac = some e → ∀ l, w.leases.byAddr e.addr = some l →
      l.mac = mac ∨ ¬ True := by
    intro mac e he l hl
    obtain ⟨hmac, haddr⟩ := ht.ofMAC mac e he
    rw [haddr trivial] at hl
    exact .inl (some.inj hl ▸ hmac)
  cases op with
  | packet pkt pick =>
    cases hs
    exact ht.handle (fun addr hbind l hl => .inl ((hent _ addr hbind).1 l hl))
      fun e he _ => hown _ e he
  | expire mac pick =>
    simp only [World.step] at hs
    split at hs
    · cases hs
    · split_ifs at hs
      cases hs
      exact ht.release (hown mac)
  | wait d =>
    cases hs
    exact ht

lemma not_inverse_add {lt : LeaseTable} {pool : Pool} {now : ℕ} {mac : Mac} {addr : IPv4}
    {sec : BitVec 32} {pick : ℕ} {l : Lease} (hla : l.addr = addr) (hlm : lt.byMAC l.mac = some l)
    (hne : l.mac ≠ mac) :
    ¬ (({ lt with pool := pool } : LeaseTable).add now mac addr sec pick).Inverse := by
  intro hinv
  have hmac : (({ lt with pool := pool } : LeaseTable).add now mac addr sec pick).byMAC l.mac =
      some l := by
    unfold LeaseTable.add
    cases lt.byMAC mac <;> simp only [Function.update_of_ne hne, hlm]
  obtain ⟨k, hk, hkm⟩ := (hinv l.mac addr).mp ⟨l, hmac, hla⟩
  rw [(LeaseTable.maps_add _ now mac addr sec pick).2] at hk
  cases hk
  exact hne hkm.symm

/-- With the tables in order, a step is proper exactly when it is entitled. -/
lemma proper_iff (ht : w.leases.Tables h.ranges fun _ => True) :
    Proper h w op ↔ Entitled h w op := by
  constructor
  · rintro ⟨hack, hinv⟩
    cases op with
    | packet pkt pick =>
      intro mac addr hbind
      rcases handle_cases h w.leases w.now pkt pick with
        ⟨addr', hbind', heq⟩ | ⟨hnone, -⟩
      · obtain ⟨rfl, rfl⟩ := Prod.mk.inj (some.inj (hbind.symm.trans hbind'))
        have hreply : w.reply h (.packet pkt pick) = some (.ack (extractMAC pkt) addr) :=
          congrArg Prod.snd heq
        refine ⟨fun l hl => ?_, fun other hne => (hack _ addr hreply other hne).2⟩
        by_contra hne
        have hinv' := hinv _ rfl
        simp only [heq] at hinv'
        obtain ⟨hla, hlm, -⟩ := ht.ofAddr addr l hl
        exact not_inverse_add hla hlm hne hinv'
      · rw [hnone] at hbind
        cases hbind
    | expire mac pick | wait d => trivial
  · intro hent
    refine ⟨fun mac addr hreply other hne => ?_, fun w' hs => (tables_step ht hent hs).inverse⟩
    cases op with
    | packet pkt pick =>
      rcases handle_cases h w.leases w.now pkt pick with
        ⟨addr', hbind, heq⟩ | ⟨-, hno, -⟩
      · have hack : some (Reply.ack (extractMAC pkt) addr') = some (Reply.ack mac addr) :=
          (congrArg Prod.snd heq).symm.trans hreply
        obtain ⟨rfl, rfl⟩ := Reply.ack.inj (some.inj hack)
        obtain ⟨hfree, hstatic⟩ := hent _ addr' hbind
        refine ⟨?_, hstatic other hne⟩
        rintro ⟨l, hl, rfl, -⟩
        obtain ⟨hlm, hla⟩ := ht.ofMAC other l hl
        exact hne (hlm.symm.trans (hfree l (hla trivial)))
      · exact absurd hreply (hno mac addr)
    | expire mac pick | wait d => cases hreply

end

/-! ## Runs -/

/-- **An address goes to one client exactly when no client asks for another's.** For every subnet
and every sequence of packets, expiries and waits: every step of the run is proper (no address is
acknowledged to a client while another holds an unexpired lease on it or has it as its static
mapping, and `byMAC` and `byAddr` are inverse afterwards) if and only if every DHCPREQUEST that the
handler commits asks for an address that `byAddr` holds for no other client and that is no other
client's static mapping. -/
theorem proper_iff_entitled (h : Subnet) (ops : List Op) :
    Meets (World.step h) (Proper h) (World.new h) ops ↔
      Meets (World.step h) (Entitled h) (World.new h) ops := by
  refine Meets.iff_of_inv (I := fun w => w.leases.Tables h.ranges fun _ => True)
    (fun w op ht => proper_iff ht) (fun w op w' ht hent hs => tables_step ht hent hs) ops _ ?_
  exact .new h _

/-! ### Two clients and one address -/

/-- 192.0.2.0/24 with the addresses .10 to .20, leased for an hour. -/
def exampleSubnet : Subnet where
  net := ⟨.v4 0xc0000200#32, 24⟩
  ranges := [(0xc000020a#32, 0xc0000214#32)]
  leaseTimeSec := 3600#32
  staticMappings := []
  serverIP := 0xc0000201#32

/-- A DHCPREQUEST after a reboot: option 50 with 192.0.2.10, no server identifier. The client's
hardware address ends in `id`. -/
def rebootRequest (id : Octet) : List Octet :=
  [1#8, 1#8, 6#8] ++ List.replicate 25 0#8 ++ [2#8, 0#8, 0#8, 0#8, 0#8, id] ++
    List.replicate 202 0#8 ++ [0x63#8, 0x82#8, 0x53#8, 0x63#8] ++
    [53#8, 1#8, 3#8, 50#8, 4#8, 0xc0#8, 0#8, 2#8, 10#8, 255#8]

/-- A second client asks for the address of the first and gets it. -/
theorem second_client_acknowledged :
    ¬ Meets (World.step exampleSubnet) (Proper exampleSubnet) (World.new exampleSubnet)
      [.packet (rebootRequest 1#8) 0, .packet (rebootRequest 2#8) 0] := by
  rintro ⟨-, hrest⟩
  have hrun : ((World.new exampleSubnet).step exampleSubnet (.packet (rebootRequest 1#8) 0)).any
      (fun w => decide (w.reply exampleSubnet (.packet (rebootRequest 2#8) 0) =
          some (.ack [2#8, 0#8, 0#8, 0#8, 0#8, 2#8] 0xc000020a#32)) &&
        (w.leases.byMAC [2#8, 0#8, 0#8, 0#8, 0#8, 1#8]).any fun l =>
          decide (l.addr = 0xc000020a#32 ∧ w.now < l.expiry)) = true := by
    decide +kernel
  obtain ⟨w, hw, hfound⟩ := (Option.any_eq_true _ _).mp hrun
  rw [Bool.and_eq_true, decide_eq_true_eq] at hfound
  -- the first client's lease is in `byMAC` while the second is acknowledged
  obtain ⟨l, hl, hheld⟩ := (Option.any_eq_true _ _).1 hfound.2
  exact ((hrest w hw).1.1 _ _ hfound.1 _ (by decide)).1 ⟨l, hl, of_decide_eq_true hheld⟩

end Ze.Dhcp
