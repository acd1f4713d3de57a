import Ze.Dhcp.Callbacks

/-!
# Addresses that were declined

A client that finds its address in use declines it, and the server should not hand it out again. The
pool marks it unavailable; but a DHCPDISCOVER is answered out of the static mappings and out of the
record of what each client had last, and a DHCPREQUEST is committed whatever it asks for.
-/

namespace Ze.Dhcp

open Ze.Lib List

/-! ## What a client is sent -/

/-- The reply of a step. Source: dhcpserver/handler.go handle. -/
def Clocked.reply (h : Subnet) (c : Clocked) : TimerOp → Option Reply
  | .packet pkt pick => (h.handle c.leases c.now pkt pick).2
  | _ => none

/-- A step sends no offer and no acknowledgement of the address. -/
def Spares (h : Subnet) (addr : IPv4) (c : Clocked) (op : TimerOp) : Prop :=
  ∀ mac, c.reply h op ≠ some (.offer mac addr) ∧ c.reply h op ≠ some (.ack mac addr)

/-- A DHCPREQUEST that is committed asks for another address, and a DHCPDISCOVER comes from a client
whose static mapping, or else whose record in the pool, is not the address. -/
def Avoids (h : Subnet) (addr : IPv4) (c : Clocked) : TimerOp → Prop
  | .packet pkt _ =>
    (∀ mac, h.binding pkt ≠ some (mac, addr)) ∧
      (h.accepts pkt = true → parseMsgType pkt = 1#8 →
        h.staticByMAC (extractMAC pkt) ≠ some addr ∧
          (h.staticByMAC (extractMAC pkt) = none →
            c.leases.pool.macToAddr.lookup (extractMAC pkt) ≠ some addr))
  | _ => True

/-- A packet by which a client declines an address of the ranges that is not its static mapping.
Source: handler.go handleDecline. -/
def Subnet.Declines (h : Subnet) (pkt : List Octet) (addr : IPv4) : Prop :=
  h.accepts pkt = true ∧ parseMsgType pkt = 4#8 ∧ parseOptionAddr pkt 50#8 = some addr ∧
    (∃ r ∈ h.ranges, r.1 ≤ addr ∧ addr ≤ r.2) ∧ h.staticByMAC (extractMAC pkt) ≠ some addr

/-- The ranges of a configuration: each begins before it stops, and they are in order and do not
overlap.
Source: dhcpserver/config.go parseRanges, parseSingleRange. -/
structure Subnet.Configured (h : Subnet) : Prop where
  proper : ∀ r ∈ h.ranges, r.1 ≤ r.2
  apart : h.ranges.Pairwise fun r r' => r.2 < r'.1

/-! ## Segments -/

namespace PoolSegment

variable {seg seg' : PoolSegment} {a b : IPv4}

/-- The address is not free in the segment, and its bit will not be cleared.
Source: dhcpserver/pool.go allocate, release. -/
def Closed (a : IPv4) (seg : PoolSegment) : Prop :=
  (seg.has a = true → a ∈ seg.staticSet) ∧
    ∀ i, seg.bitmap[i]? = some false → seg.start + BitVec.ofNat 32 i ≠ a

lemma Closed.mono (hc : seg.Closed a) (hb : seg'.bounds = seg.bounds)
    (hstatic : ∀ x ∈ seg.staticSet, x ∈ seg'.staticSet)
    (hfree : ∀ i, seg'.bitmap[i]? = some false → seg.start + BitVec.ofNat 32 i = a →
      seg.bitmap[i]? = some false) : seg'.Closed a := by
  refine ⟨fun hhas => hstatic a (hc.1 ?_), fun i hi heq => ?_⟩
  · rwa [has_eq_of_bounds hb] at hhas
  · have hstart : seg'.start = seg.start := congrArg Prod.fst hb
    rw [hstart] at heq
    exact hc.2 i (hfree i hi heq) heq

lemma bitmap_of_set {i : ℕ} (h : (seg.set b).bitmap[i]? = some false) :
    seg.bitmap[i]? = some false := by
  rw [set] at h
  split_ifs at h
  · exact h
  · simp only [getElem?_set] at h
    split_ifs at h
    · cases h
    · exact h

lemma staticSet_set : (seg.set b).staticSet = seg.staticSet := by
  rw [set]
  split_ifs <;> rfl

lemma Closed.set (hc : seg.Closed a) : (seg.set b).Closed a :=
  hc.mono bounds_set (fun x hx => by rwa [staticSet_set]) fun _ hi _ => bitmap_of_set hi

lemma Closed.clear (hc : seg.Closed a) (hne : b ≠ a) : (seg.clear b).Closed a := by
  refine hc.mono bounds_clear (fun x hx => hx) fun i hi heq => ?_
  simp only [PoolSegment.clear, getElem?_set] at hi
  split_ifs at hi with hidx hlen
  · exfalso
    apply hne
    rw [← heq, ← hidx, BitVec.ofNat_toNat, BitVec.setWidth_eq]
    bv_omega
  · exact hi

end PoolSegment

/-! ## Pools -/

namespace Pool

variable {p p' : Pool} {a b : IPv4} {mac : Mac}

/-- The address is closed in every segment. Source: pool.go. -/
def Closed (a : IPv4) (p : Pool) : Prop := ∀ seg ∈ p.segments, seg.Closed a

variable {α : Type*} {f : PoolSegment → PoolSegment} {segs' : List PoolSegment}

section

variable (hc : p.Closed a)
include hc

lemma Closed.onSegment (hf : ∀ seg, seg.Closed a → (f seg).Closed a) :
    (p.onSegment b f).Closed a := by
  unfold Pool.onSegment
  split
  · exact hc
  · intro seg hseg
    obtain ⟨x, hx, rfl | rfl⟩ := mem_modify hseg
    · exact hc _ hx
    · exact hf x (hc x hx)

lemma Closed.of_segments (h : p'.segments = p.segments) : p'.Closed a := by
  rw [Closed, h]
  exact hc

lemma Closed.reserve : (p.reserve b mac).Closed a := by
  have hset : (p.onSegment b fun seg => seg.set b).Closed a := hc.onSegment fun seg hseg => hseg.set
  exact hset.of_segments rfl

lemma Closed.markUnavailable : (p.markUnavailable b).Closed a := by
  apply hc.onSegment
  intro seg hseg
  refine hseg.mono PoolSegment.bounds_set (fun x hx => mem_cons_of_mem _ hx) ?_
  exact fun i hi _ => PoolSegment.bitmap_of_set hi

lemma Closed.release {pick : ℕ} : (p.release b pick).Closed a := by
  unfold Pool.release
  rcases hfind : p.findSegment b with _ | seg
  · exact hc
  · simp only
    split_ifs with hstatic hset
    · exact hc
    · have hne : b ≠ a := by
        rintro rfl
        have hhas : seg.has b := by
          rw [findSegment] at hfind
          simpa only using find?_some hfind
        exact hstatic ((hc seg (mem_of_find?_eq_some hfind)).1 hhas)
      have hclear : (p.onSegment b fun seg => seg.clear b).Closed a :=
        hc.onSegment fun seg hseg => hseg.clear hne
      exact hclear.of_segments (segments_forget _ _ _)
    · exact hc

lemma Closed.ne_of_allocateIn (h : allocateIn p.segments = some (b, segs')) : b ≠ a := by
  obtain ⟨before, seg, after, idx, hsegs, -, hfree, rfl⟩ := exists_of_allocateIn h
  apply (hc seg ?_).2 idx hfree
  rw [hsegs]
  exact mem_append_right _ mem_cons_self

lemma Closed.allocate (h : p.allocate mac = some (b, p')) : p'.Closed a := by
  unfold Pool.allocate at h
  split at h
  · obtain ⟨-, rfl⟩ := Prod.mk.inj (Option.some.inj h)
    exact hc
  · obtain ⟨⟨b', segs'⟩, hin, heq⟩ := Option.map_eq_some_iff.1 h
    cases heq
    obtain ⟨before, seg, after, idx, hsegs, rfl, -⟩ := exists_of_allocateIn hin
    rw [Closed, hsegs, forall_mem_append, forall_mem_cons] at hc
    exact forall_mem_append.2 ⟨hc.1, forall_mem_cons.2 ⟨hc.2.1.set, hc.2.2⟩⟩

end

end Pool

/-! ## Declining -/

namespace PoolSegment

variable {seg : PoolSegment} {a : IPv4} {r : IPv4 × IPv4}

/-- Where the segment of a range is. Source: pool.go newPool. -/
def Spans (seg : PoolSegment) (r : IPv4 × IPv4) : Prop :=
  seg.bounds = (r.1, r.2 - r.1 + 1#32, (r.2 - r.1 + 1#32).toNat)

lemma Spans.outside (hs : seg.Spans r) (hr : r.1 ≤ r.2) (ha : ¬ (r.1 ≤ a ∧ a ≤ r.2)) :
    seg.has a = false ∧ seg.Closed a := by
  simp only [Spans, bounds, Prod.mk.injEq] at hs
  obtain ⟨hstart, hsize, hlen⟩ := hs
  have hhas : seg.has a = false := by
    rw [has, hstart, hsize]
    by_contra hin
    rw [Bool.not_eq_false, Bool.and_eq_true, decide_eq_true_eq, decide_eq_true_eq] at hin
    bv_omega
  refine ⟨hhas, fun hin => ?_, fun i hi heq => ?_⟩
  · rw [hhas] at hin
    cases hin
  · have hlt : i < seg.bitmap.length := (List.getElem?_eq_some_iff.mp hi).1
    rw [hlen] at hlt
    rw [hstart] at heq
    bv_omega

lemma Spans.has_inside (hs : seg.Spans r) (ha : r.1 ≤ a) (ha' : a ≤ r.2)
    (hlast : r.2 ≠ 0xffffffff#32) :
    seg.has a := by
  simp only [Spans, bounds, Prod.mk.injEq] at hs
  rw [has, hs.1, hs.2.1, Bool.and_eq_true, decide_eq_true_eq, decide_eq_true_eq]
  bv_omega

lemma closed_unavailable (hs : seg.Spans r) :
    ({ seg.set a with staticSet := a :: seg.staticSet } : PoolSegment).Closed a := by
  simp only [Spans, bounds, Prod.mk.injEq] at hs
  obtain ⟨hstart, hsize, hlen⟩ := hs
  refine ⟨fun _ => mem_cons_self, fun i hi heq => ?_⟩
  have hi' : seg.bitmap[i]? = some false := bitmap_of_set hi
  have hlt : i < seg.bitmap.length := (List.getElem?_eq_some_iff.mp hi').1
  have hidx : (a - seg.start).toNat = i := by
    have hsame : (seg.set a).start = seg.start := congrArg Prod.fst bounds_set
    simp only [hsame] at heq
    rw [hlen] at hlt
    bv_omega
  rw [PoolSegment.set] at hi
  split_ifs at hi with hset
  · rw [isSet, hidx, hi'] at hset
    cases hset
  · simp only [hidx, getElem?_set_self hlt] at hi
    cases hi

end PoolSegment

/-- A declined address is closed, wherever its range does not end at the last address. -/
lemma closed_markUnavailable {h : Subnet} {p : Pool} {a : IPv4} (hconf : h.Configured)
    (hs : p.Shaped h.ranges) (hin : ∃ r ∈ h.ranges, r.1 ≤ a ∧ a ≤ r.2)
    (hlast : ∀ r ∈ h.ranges, r.1 ≤ a → a ≤ r.2 → r.2 ≠ 0xffffffff#32) :
    (p.markUnavailable a).Closed a := by
  have hspans : ∀ (i : ℕ) (seg : PoolSegment), p.segments[i]? = some seg →
      ∃ r, h.ranges[i]? = some r ∧ seg.Spans r := by
    intro i seg hseg
    have hmap := congrArg (fun l => l[i]?) hs
    simp only [getElem?_map, hseg, Option.map_some] at hmap
    obtain ⟨r, hr, heq⟩ := Option.map_eq_some_iff.1 hmap.symm
    exact ⟨r, hr, heq.symm⟩
  have hone : ∀ (i j : ℕ) (r r' : IPv4 × IPv4), h.ranges[i]? = some r → h.ranges[j]? = some r' →
      r.1 ≤ a ∧ a ≤ r.2 → r'.1 ≤ a ∧ a ≤ r'.2 → i = j := by
    intro i j r r' hi hj hr hr'
    obtain ⟨hilt, rfl⟩ := List.getElem?_eq_some_iff.mp hi
    obtain ⟨hjlt, rfl⟩ := List.getElem?_eq_some_iff.1 hj
    rcases Nat.lt_trichotomy i j with hlt | heq | hgt
    · have := pairwise_iff_getElem.1 hconf.apart i j hilt hjlt hlt
      bv_omega
    · exact heq
    · have := pairwise_iff_getElem.1 hconf.apart j i hjlt hilt hgt
      bv_omega
  -- A segment that has the address is that of a range with the address.
  have hinside : ∀ (i : ℕ) (seg : PoolSegment) (r : IPv4 × IPv4), p.segments[i]? = some seg →
      h.ranges[i]? = some r → seg.Spans r → seg.has a → r.1 ≤ a ∧ a ≤ r.2 := by
    intro i seg r _ hr hsp hhas
    by_contra hout
    rw [(hsp.outside (hconf.proper r (mem_of_getElem? hr)) hout).1] at hhas
    cases hhas
  rcases hfind : p.segments.findIdx? (fun seg => seg.has a) with _ | i
  · exfalso
    obtain ⟨r, hr, ha, ha'⟩ := hin
    obtain ⟨i, hi⟩ := mem_iff_getElem?.1 hr
    have hmap := congrArg (fun l => l[i]?) hs
    simp only [getElem?_map, hi, Option.map_some] at hmap
    obtain ⟨seg, hseg, heq⟩ := Option.map_eq_some_iff.1 hmap
    have hhas := PoolSegment.Spans.has_inside (r := r) heq ha ha' (hlast r hr ha ha')
    rw [findIdx?_eq_none_iff.1 hfind seg (mem_of_getElem? hseg)] at hhas
    cases hhas
  · obtain ⟨hilt, hhas, -⟩ := findIdx?_eq_some_iff_getElem.1 hfind
    obtain ⟨r, hr, hsp⟩ := hspans i _ (getElem?_eq_getElem hilt)
    have hri := hinside i _ r (getElem?_eq_getElem hilt) hr hsp hhas
    intro seg hseg
    simp only [Pool.markUnavailable, Pool.onSegment, hfind] at hseg
    obtain ⟨j, hj⟩ := mem_iff_getElem?.1 hseg
    rw [getElem?_modify] at hj
    obtain ⟨x, hx, heq⟩ := Option.map_eq_some_iff.1 hj
    obtain ⟨r', hr', hsp'⟩ := hspans j x hx
    by_cases hij : i = j
    · subst hij
      rw [if_pos rfl] at heq
      subst heq
      obtain rfl := Option.some.inj (hr.symm.trans hr')
      exact PoolSegment.closed_unavailable hsp'
    · rw [if_neg hij] at heq
      subst heq
      refine (hsp'.outside (hconf.proper r' (mem_of_getElem? hr')) fun hr'a => hij ?_).2
      exact hone i j r r' hr hr' hri hr'a

/-! ## Steps -/

section

variable {h : Subnet} {a : IPv4} {c c' : Clocked}

lemma poolInvariant_closed (a : IPv4) : PoolInvariant (Pool.Closed a) where
  allocate _ _ _ _ hc halloc := hc.allocate halloc
  reserve _ _ _ hc := hc.reserve
  release _ _ _ hc := hc.release
  markUnavailable _ _ hc := hc.markUnavailable

lemma closed_of_declines {pkt : List Octet} {pick : ℕ} (hconf : h.Configured)
    (hs : c.leases.pool.Shaped h.ranges) (hdecl : h.Declines pkt a)
    (hlast : ∀ r ∈ h.ranges, r.1 ≤ a → a ≤ r.2 → r.2 ≠ 0xffffffff#32)
    (hstep : c.step h (.packet pkt pick) = some c') : c'.leases.pool.Closed a := by
  obtain ⟨hacc, htype, hopt, hin, -⟩ := hdecl
  cases hstep
  simp only [Subnet.handle, hacc, htype, Bool.not_true, Bool.false_eq_true, if_false]
  rw [if_neg (by decide), if_neg (by decide), if_neg (by decide), if_pos trivial]
  simp only [Subnet.handleDecline, hopt]
  exact (poolInvariant_closed a).of_release (closed_markUnavailable hconf hs hin hlast) _ _

/-- While the address is closed, a step spares it exactly when it avoids it. -/
lemma spares_iff (hc : c.leases.pool.Closed a) (op : TimerOp) :
    Spares h a c op ↔ Avoids h a c op := by
  rcases op with ⟨pkt, pick⟩ | mac | ⟨i, pick⟩ | d
  · simp only [Spares, Clocked.reply, Avoids, Subnet.binding, Subnet.handle]
    by_cases hacc : h.accepts pkt
    · simp only [hacc, Bool.not_true, Bool.false_eq_true, if_false, true_and, true_implies]
      by_cases h1 : parseMsgType pkt = 1#8
      · rw [if_pos h1, if_neg (by rw [h1]; decide)]
        unfold Subnet.handleDiscover Pool.allocate
        rcases hstat : h.staticByMAC (extractMAC pkt) with _ | ip
        · rcases hrec : c.leases.pool.macToAddr.lookup (extractMAC pkt) with _ | b
          · simp only
            rcases halloc : Pool.allocateIn c.leases.pool.segments with _ | ⟨b, segs⟩
            · simp
            · have hne := hc.ne_of_allocateIn halloc
              simp [hne]
          · simp only
            constructor
            · intro hs
              refine ⟨by simp, fun _ => ⟨by simp, fun _ heq => ?_⟩⟩
              exact (hs (extractMAC pkt)).1 (by rw [Option.some.inj heq])
            · rintro ⟨-, hav⟩ mac
              refine ⟨fun heq => ?_, by simp⟩
              obtain ⟨-, rfl⟩ := Reply.offer.inj (Option.some.inj heq)
              exact (hav h1).2 trivial rfl
        · simp only
          constructor
          · intro hs
            refine ⟨by simp, fun _ => ⟨fun heq => ?_, by simp⟩⟩
            exact (hs (extractMAC pkt)).1 (by rw [Option.some.inj heq])
          · rintro ⟨-, hav⟩ mac
            refine ⟨fun heq => ?_, by simp⟩
            obtain ⟨-, rfl⟩ := Reply.offer.inj (Option.some.inj heq)
            exact (hav h1).1 rfl
      · rw [if_neg h1]
        by_cases h3 : parseMsgType pkt = 3#8
        · rw [if_pos h3, if_pos h3]
          unfold Subnet.handleRequest
          rcases hreq : h.request pkt with _ | _ | b
          · simp [h1]
          · simp [h1]
          · simp only [Subnet.commitBinding]
            constructor
            · intro hs
              refine ⟨fun mac heq => ?_, fun hd => absurd hd h1⟩
              cases heq
              exact (hs (extractMAC pkt)).2 rfl
            · rintro ⟨hav, -⟩ mac
              refine ⟨by simp, fun heq => ?_⟩
              obtain ⟨-, rfl⟩ := Reply.ack.inj (Option.some.inj heq)
              exact hav (extractMAC pkt) rfl
        · rw [if_neg h3, if_neg h3]
          split_ifs <;> simp [h1]
    · rw [Bool.not_eq_true] at hacc
      simp [hacc]
  · simp [Spares, Clocked.reply, Avoids]
  · simp [Spares, Clocked.reply, Avoids]
  · simp [Spares, Clocked.reply, Avoids]

end

/-! ## Runs -/

/-- **A declined address.** After any run of a configured subnet in which a client then declines an
address of the ranges that is not its static mapping: no later offer or acknowledgement carries the
address if and only if every later DHCPREQUEST that is committed asks for another address, and every
later DHCPDISCOVER comes from a client whose static mapping, or else whose record in the pool, is
not the address. This is so where the range of the address does not end at 255.255.255.255, past
which the end of a segment wraps. -/
theorem spares_iff_avoids {h : Subnet} {addr : IPv4} {ops : List TimerOp} {c c₁ : Clocked}
    {pkt : List Octet} {pick : ℕ} (hconf : h.Configured)
    (hrun : run (Clocked.step h) (Clocked.new h) ops = some c) (hdecl : h.Declines pkt addr)
    (hlast : ∀ r ∈ h.ranges, r.1 ≤ addr → addr ≤ r.2 → r.2 ≠ 0xffffffff#32)
    (hstep : c.step h (.packet pkt pick) = some c₁) (later : List TimerOp) :
    Meets (Clocked.step h) (Spares h addr) c₁ later ↔
      Meets (Clocked.step h) (Avoids h addr) c₁ later := by
  have hshaped : c.leases.pool.Shaped h.ranges := by
    refine run_inv (I := fun c => c.leases.pool.Shaped h.ranges) ?_ ops _ _
      (Pool.shaped_new _ _) hrun
    exact fun c op c' hs hst => pool_of_step (poolInvariant_shaped _) hs hst
  have hclosed := closed_of_declines hconf hshaped hdecl hlast hstep
  refine Meets.iff_of_inv (I := fun c => c.leases.pool.Closed addr)
    (fun c op hc => spares_iff hc op) ?_ later c₁ hclosed
  exact fun c op c' hc _ hst => pool_of_step (poolInvariant_closed _) hc hst

/-- A message of the client whose hardware address ends in `id`, with 192.0.2.10 in option 50. -/
def message (msgType id : Octet) : List Octet :=
  [1#8, 1#8, 6#8] ++ replicate 25 0#8 ++ [2#8, 0#8, 0#8, 0#8, 0#8, id] ++
    replicate 202 0#8 ++ [0x63#8, 0x82#8, 0x53#8, 0x63#8] ++
    [53#8, 1#8, msgType, 50#8, 4#8, 0xc0#8, 0#8, 2#8, 10#8, 255#8]

lemma declines_message : exampleSubnet.Declines (message 4#8 1#8) 0xc000020a#32 := by
  unfold Subnet.Declines
  decide +kernel

/-- The first client declines an address of the subnet, and the second is offered another. -/
theorem declined_spared : ∃ c₁,
    (Clocked.new exampleSubnet).step exampleSubnet (.packet (message 4#8 1#8) 0) = some c₁ ∧
      Meets (Clocked.step exampleSubnet) (Spares exampleSubnet 0xc000020a#32) c₁
        [.packet (message 1#8 2#8) 0] := by
  have hrun : run (Clocked.step exampleSubnet) (Clocked.new exampleSubnet) [] =
      some (Clocked.new exampleSubnet) := rfl
  have heval : ((Clocked.new exampleSubnet).step exampleSubnet (.packet (message 4#8 1#8) 0)).any
      (fun c => decide (c.leases.pool.macToAddr.lookup (extractMAC (message 1#8 2#8)) ≠
        some 0xc000020a#32)) = true := by
    decide +kernel
  obtain ⟨c₁, hstep, hother⟩ := (Option.any_eq_true _ _).1 heval
  refine ⟨c₁, hstep, (spares_iff_avoids ?_ hrun declines_message ?_ hstep _).2
    ⟨⟨?_, ?_⟩, fun _ _ => trivial⟩⟩
  · refine ⟨?_, by simp [exampleSubnet]⟩
    intro r hr
    obtain rfl := mem_singleton.1 hr
    decide
  · intro r hr _ _
    obtain rfl := mem_singleton.1 hr
    decide
  · have hbind : exampleSubnet.binding (message 1#8 2#8) = none := by decide +kernel
    rw [hbind]
    exact fun mac heq => by cases heq
  · intro _ _
    exact ⟨by decide +kernel, fun _ => of_decide_eq_true hother⟩

/-- A client is given an address, declines it, looks for another and is offered the same. -/
theorem declined_offered_again : ∃ c c₁,
    run (Clocked.step exampleSubnet) (Clocked.new exampleSubnet)
        [.packet (message 3#8 1#8) 0] = some c ∧
      exampleSubnet.Declines (message 4#8 1#8) 0xc000020a#32 ∧
      c.step exampleSubnet (.packet (message 4#8 1#8) 0) = some c₁ ∧
      ¬ Meets (Clocked.step exampleSubnet) (Spares exampleSubnet 0xc000020a#32) c₁
        [.packet (message 1#8 1#8) 0] := by
  refine ⟨_, _, rfl, declines_message, rfl, ?_⟩
  rintro ⟨hspares, -⟩
  apply (hspares [2#8, 0#8, 0#8, 0#8, 0#8, 1#8]).1
  decide +kernel

end Ze.Dhcp
