import Ze.OspfSpf.Distances

/-!
# The next hops

What RFC 2328 Section 16.1.1 makes the first hop of a path, and what the search makes of it for
OSPFv2. That the search finds nothing else is the invariant `Sound` of its states; that it finds
every first hop is shown by induction along a shortest path (`key_mem_of_shortest`).
-/

namespace Ze.OspfSpf

open Ze.Lib Ze.Net List
open Option (map_eq_some_iff ne_none_iff_exists' some.inj)

/-! ## The first hop of a path -/

/-- A first hop: the vertex is attached, or an address and an interface. Source: RFC 2328 Section
16.1.1, as spf.go quotes it. -/
inductive Hop
  | direct
  | via (key : Addr × String)

/-- The `i`-th vertex of a path, which is listed from its end back to the root. -/
def leg (l : List VertexId) (i : ℕ) : Option VertexId := l.reverse[i]?

/-- `h` is a first hop of the path: the address of a neighbor on the point-to-point link, an address
of a router on the network that joins it to the root, or the attachment of a network of the root.
Source: RFC 2328 Section 16.1.1. -/
def RfcHop (g : Graph) (root : RouterId) (l : List VertexId) (h : Hop) : Prop :=
  match leg l 1, leg l 2 with
  | some (.router v), _ =>
    ∃ back ∈ g.links v, back.isP2P = true ∧ back.linkId = root ∧ h = .via (.v4 back.linkData, "")
  | some (.network _), none => h = .direct
  | some (.network n), some (.router v) =>
    ∃ back ∈ g.links v, back.isTransit = true ∧ back.linkId = n ∧ h = .via (.v4 back.linkData, "")
  | _, _ => False

/-- The first hops of the shortest paths to a vertex. Source: RFC 2328 Section 16.1.1. -/
def RfcHops (g : Graph) (root : RouterId) (v : VertexId) : Set Hop :=
  {h | ∃ us c, IsShortest (Linked g) (.router root) v us c ∧ c < lsInfinity ∧
    RfcHop g root (v :: us) h}

/-- What a list of next hops stands for: the empty one, for any vertex but the root, for its
attachment.
Source: spf.go nextHopsForNetwork. -/
def Represented (root : RouterId) (n : NodeResult) (h : Hop) : Prop :=
  (h = .direct ∧ n.nextHops = [] ∧ n.id ≠ .router root) ∨ ∃ x ∈ n.nextHops, h = .via x.key

/-- The first hop of a path as the search resolves it: the first link that points back is taken.
Source: spf.go p2pNeighborAddress, transitRouterAddress. -/
def codeHop (g : Graph) (root : RouterId) (l : List VertexId) : Option Hop :=
  match leg l 1, leg l 2 with
  | some (.router v), _ => (p2pNeighborAddress g v root).map fun a => .via (a, "")
  | some (.network _), none => some .direct
  | some (.network n), some (.router v) =>
    (transitRouterAddress g v n).map fun a => .via (a, "")
  | _, _ => none

/-! ## Legs -/

section

variable {g : Graph} {root : RouterId}

variable {l : List VertexId} {i : ℕ}

variable {l' : List VertexId}

lemma leg_of_suffix (h : l' <:+ l) (hi : i < l'.length) : leg l i = leg l' i := by
  obtain ⟨pre, rfl⟩ := h
  unfold leg
  rw [reverse_append, getElem?_append_left (by simpa using hi)]

lemma leg_cons {v : VertexId} (hi : i < l.length) :
    leg (v :: l) i = leg l i := leg_of_suffix (suffix_cons v l) hi

lemma leg_of_length_le (h : l.length ≤ i) : leg l i = none := by
  unfold leg
  exact getElem?_eq_none (by simpa using h)

lemma codeHop_of_suffix (h : l' <:+ l) (hlen : 3 ≤ l'.length) :
    codeHop g root l = codeHop g root l' := by
  unfold codeHop
  rw [leg_of_suffix h (by omega), leg_of_suffix h (by omega)]

lemma codeHop_of_router {v : RouterId} (h : leg l 1 = some (.router v)) :
    codeHop g root l = (p2pNeighborAddress g v root).map fun a => .via (a, "") := by
  unfold codeHop
  rw [h]

lemma codeHop_cons {v : VertexId} {k : Addr × String}
    (h : codeHop g root l = some (.via k)) : codeHop g root (v :: l) = some (.via k) := by
  have h1 : ∃ x, leg l 1 = some x := by
    rcases hl : leg l 1 with _ | x
    · rw [codeHop, hl] at h
      cases h
    · exact ⟨x, rfl⟩
  obtain ⟨x, h1⟩ := h1
  have hlen : 1 < l.length := by
    by_contra hle
    rw [leg_of_length_le (by omega)] at h1
    cases h1
  cases x with
  | router r =>
    rw [codeHop_of_router (v := r) (by rw [leg_cons hlen, h1])]
    rw [codeHop_of_router h1] at h
    exact h
  | network n =>
    have hlen' : 2 < l.length := by
      by_contra hle
      rw [codeHop, h1, leg_of_length_le (by omega)] at h
      cases h
    rw [codeHop_of_suffix (suffix_cons v l) hlen']
    exact h

lemma codeHop_of_cons {v : VertexId} {k : Addr × String}
    (h : codeHop g root (v :: l) = some (.via k)) :
    codeHop g root l = some (.via k) ∨ l.length ≤ 1 ∨
      ∃ n, l.length = 2 ∧ leg l 1 = some (.network n) := by
  by_cases h3 : 3 ≤ l.length
  · left
    rw [← codeHop_of_suffix (suffix_cons v l) h3]
    exact h
  by_cases h1 : l.length ≤ 1
  · exact .inr (.inl h1)
  have hlen : l.length = 2 := by omega
  have hx : ∃ x, leg l 1 = some x := by
    unfold leg
    rw [getElem?_eq_getElem (by simp; omega)]
    exact ⟨_, rfl⟩
  obtain ⟨x, hx⟩ := hx
  cases x with
  | router r =>
    left
    rw [codeHop_of_router (v := r) (by rw [leg_cons (by omega), hx])] at h
    rw [codeHop_of_router hx]
    exact h
  | network n => exact .inr (.inr ⟨n, hlen, hx⟩)

end

/-! ## Addresses -/

section

variable {g : Graph} {root : RouterId}

lemma transitHops_step (dist : ℕ) (n : LinkStateId) (r : RouterId) (nh : NextHopSource)
    (links : List RouterLink) (init : List NextHop) :
    let out := links.foldl (fun hops link =>
      if !link.isTransit || link.linkId ≠ n || link.metric.toNat ≠ dist then hops
      else
        match nh.transitNextHop g r root link with
        | none => hops
        | some hop => if containsNextHop hops hop then hops else hops ++ [hop]) init
    (∀ x ∈ out, x ∈ init ∨ ∃ link ∈ links, link.isTransit ∧ link.linkId = n ∧
        nh.transitNextHop g r root link = some x) ∧
      (∀ x, containsNextHop init x → containsNextHop out x) ∧
      ∀ link ∈ links, link.isTransit → link.linkId = n → link.metric.toNat = dist →
        ∀ x, nh.transitNextHop g r root link = some x → containsNextHop out x := by
  induction links generalizing init with
  | nil => exact ⟨fun x hx => .inl hx, fun _ h => h, by simp⟩
  | cons link links ih =>
    simp only [foldl_cons]
    by_cases hskip : (!link.isTransit || link.linkId ≠ n || link.metric.toNat ≠ dist)
    · rw [if_pos hskip]
      obtain ⟨h1, h2, h3⟩ := ih init
      refine ⟨fun x hx => ?_, h2, fun link' hl' ht hid hm => ?_⟩
      · rcases h1 x hx with h | ⟨link', hl', h⟩
        · exact .inl h
        · exact .inr ⟨link', mem_cons_of_mem _ hl', h⟩
      · rcases mem_cons.1 hl' with rfl | hl'
        · simp [ht, hid, hm] at hskip
        · exact h3 link' hl' ht hid hm
    rw [if_neg hskip]
    simp only [Bool.or_eq_true, Bool.not_eq_true', decide_eq_true_eq, not_or, Bool.not_eq_false,
      ne_eq, Decidable.not_not] at hskip
    obtain ⟨⟨htr, hid⟩, -⟩ := hskip
    rcases hn : nh.transitNextHop g r root link with _ | hop
    · simp only
      obtain ⟨h1, h2, h3⟩ := ih init
      refine ⟨fun x hx => ?_, h2, fun link' hl' ht hid hm x hx => ?_⟩
      · rcases h1 x hx with h | ⟨link', hl', h⟩
        · exact .inl h
        · exact .inr ⟨link', mem_cons_of_mem _ hl', h⟩
      · rcases mem_cons.1 hl' with rfl | hl'
        · rw [hn] at hx
          cases hx
        · exact h3 link' hl' ht hid hm x hx
    · simp only
      obtain ⟨h1, h2, h3⟩ := ih (if containsNextHop init hop then init else init ++ [hop])
      have hin : containsNextHop (if containsNextHop init hop then init else init ++ [hop]) hop
          := by
        by_cases hc : containsNextHop init hop
        · rw [if_pos hc, hc]
        · rw [if_neg hc]
          simp [containsNextHop]
      refine ⟨fun x hx => ?_, fun x hx => h2 x ?_, fun link' hl' ht hid hm x hx => ?_⟩
      · rcases h1 x hx with h | ⟨link', hl', h⟩
        · by_cases hc : containsNextHop init hop
          · rw [if_pos hc] at h
            exact .inl h
          · rw [if_neg hc] at h
            rcases mem_append.1 h with h | h
            · exact .inl h
            · rw [mem_singleton.1 h]
              exact .inr ⟨link, mem_cons_self, htr, hid, hn⟩
        · exact .inr ⟨link', mem_cons_of_mem _ hl', h⟩
      · by_cases hc : containsNextHop init hop
        · rw [if_pos hc]
          exact hx
        · rw [if_neg hc, containsNextHop_append, hx]
          rfl
      · rcases mem_cons.1 hl' with rfl | hl'
        · rw [hn] at hx
          cases hx
          exact h2 _ hin
        · exact h3 link' hl' ht hid hm x hx

variable {n : LinkStateId} {r : RouterId}

variable {x : NextHop} {link : RouterLink} {a : Addr}

lemma mem_transitHops {dist : ℕ} (hx : x ∈ transitHops g dist n root r (v4NextHop none)) :
    ∃ a, transitRouterAddress g r n = some a ∧ x.key = (a, "") := by
  rcases (transitHops_step dist n r (v4NextHop none) (g.links root) []).1 x hx with
    h | ⟨link, -, -, rfl, h⟩
  · cases h
  · obtain ⟨a, ha, rfl⟩ := map_eq_some_iff.1 h
    exact ⟨a, ha, rfl⟩

lemma exists_mem_transitHops
    (hl : link ∈ g.links root) (ht : link.isTransit) (hid : link.linkId = n)
    (ha : transitRouterAddress g r n = some a) :
    ∃ x ∈ transitHops g link.metric.toNat n root r (v4NextHop none), x.key = (a, "") := by
  have hnh : (v4NextHop none).transitNextHop g r root link = some ⟨a, "", r, false⟩ := by
    simp only [v4NextHop, hid, ha, Option.map_some]
  have := (transitHops_step link.metric.toNat n r (v4NextHop none) (g.links root)
    []).2.2 link hl ht hid rfl _ hnh
  rw [containsNextHop_iff] at this
  obtain ⟨x, hx, hkey⟩ := mem_map.mp this
  exact ⟨x, hx, hkey⟩

lemma transitRouterAddress_of_twoWay
    (h : twoWayRouterNetworkLink g r n) :
    ∃ back ∈ g.links r, back.isTransit ∧ back.linkId = n ∧
      transitRouterAddress g r n = some (.v4 back.linkData) := by
  unfold twoWayRouterNetworkLink at h
  rw [Bool.and_eq_true] at h
  obtain ⟨l, hl, hcond⟩ := any_eq_true.1 h.2
  rcases hf : (g.links r).find? fun l => l.isTransit && l.linkId = n with _ | back
  · have := find?_eq_none.1 hf l hl
    exact absurd hcond this
  · have hp := find?_some hf
    simp only [Bool.and_eq_true, decide_eq_true_eq] at hp
    exact ⟨back, mem_of_find?_eq_some hf, hp.1, hp.2, by unfold transitRouterAddress; rw [hf]; rfl⟩

lemma p2pNeighborAddress_some {v : RouterId} (h : p2pNeighborAddress g v root = some a) :
    ∃ back ∈ g.links v, back.isP2P ∧ back.linkId = root ∧ a = .v4 back.linkData := by
  unfold p2pNeighborAddress at h
  rcases hf : (g.links v).find? fun l => l.isP2P && l.linkId = root with _ | back
  · rw [hf] at h
    cases h
  · rw [hf] at h
    simp only at h
    have hp := find?_some hf
    simp only [Bool.and_eq_true, decide_eq_true_eq] at hp
    split_ifs at h
    exact ⟨back, mem_of_find?_eq_some hf, hp.1, hp.2, (some.inj h).symm⟩

lemma p2pNextHop_some {v : RouterId} (h : (v4NextHop none).p2pNextHop g v root link = some x) :
    ∃ a, p2pNeighborAddress g v root = some a ∧ x.key = (a, "") := by
  simp only [v4NextHop, unnumberedNextHop] at h
  split_ifs at h
  obtain ⟨a, ha, rfl⟩ := map_eq_some_iff.1 h
  exact ⟨a, ha, rfl⟩

lemma rfcHop_of_codeHop {l : List VertexId} {h : Hop} (hc : codeHop g root l = some h) :
    RfcHop g root l h := by
  unfold codeHop at hc
  unfold RfcHop
  split at hc
  · obtain ⟨a, ha, rfl⟩ := map_eq_some_iff.1 hc
    obtain ⟨back, hb, hp, hid, rfl⟩ := p2pNeighborAddress_some ha
    exact ⟨back, hb, hp, hid, rfl⟩
  · exact (some.inj hc).symm
  · rename_i n v
    obtain ⟨a, ha, rfl⟩ := map_eq_some_iff.1 hc
    obtain ⟨back, hf, rfl⟩ := map_eq_some_iff.1 ha
    have hp := find?_some hf
    simp only [Bool.and_eq_true, decide_eq_true_eq] at hp
    exact ⟨back, mem_of_find?_eq_some hf, hp.1, hp.2, rfl⟩
  · cases hc

end

/-! ## The premises and the three conditions -/

/-- At most one point-to-point link between any two routers. -/
def SingleP2P (g : Graph) : Prop :=
  ∀ r r', ((g.links r).filter fun l => l.isP2P && l.linkId = r').length ≤ 1

/-- Every point-to-point link of the root that passes the two-way check has a next hop. Source:
spf.go P2PNextHop. -/
def Resolvable (g : Graph) (root : RouterId) : Prop :=
  ∀ l ∈ g.links root, l.isP2P = true → twoWayRouterLink g root l.linkId = true →
    (v4NextHop none).p2pNextHop g l.linkId root l ≠ none

def WithinLimit (g : Graph) (root : RouterId) (k : ℕ) : Prop :=
  ∀ v (hops : List Hop), hops.Nodup → (∀ h ∈ hops, h ∈ RfcHops g root v) → hops.length ≤ k

/-- No vertex at distance zero has a link back to the root that costs nothing. -/
def NoReturn (g : Graph) (root : RouterId) : Prop :=
  ∀ u us, IsShortest (Linked g) (.router root) u us 0 → ¬ Linked g u (.router root) 0

/-- No network that the root's own link reaches at its shortest distance is at that distance over a
link of another router. -/
def NoMixed (g : Graph) (root : RouterId) : Prop :=
  ∀ n c r us c' m, IsShortest (Linked g) (.router root) (.network n) [.router root] c →
    c < lsInfinity → r ≠ root → IsShortest (Linked g) (.router root) (.router r) us c' →
    Linked g (.router r) (.network n) m → c' + m ≠ c

/-- Every address that a router has on a network of the root, where the network is on a shortest
path to it, is the one that the search takes on some shortest path to it. -/
def FirstAddresses (g : Graph) (root : RouterId) : Prop :=
  ∀ r n c back, IsShortest (Linked g) (.router root) (.router r) [.network n, .router root] c →
    c < lsInfinity → back ∈ g.links r → back.isTransit = true → back.linkId = n →
    ∃ us c', IsShortest (Linked g) (.router root) (.router r) us c' ∧ c' < lsInfinity ∧
      codeHop g root (.router r :: us) = some (.via (.v4 back.linkData, ""))

/-! ## What an edge hands on -/

section

variable {g : Graph} {root r : RouterId} {u v : VertexId} {m : ℕ} {tu : Tent} {x : NextHop}
  {l : RouterLink} {a : Addr}

/-- Some edge of the search along the link from `u` to `v` carries the next hop. -/
def HandsOn (g : Graph) (root : RouterId) (u v : VertexId) (m : ℕ) (tu : Tent) (x : NextHop) :
    Prop :=
  x.addr.isValid ∧ ∃ e ∈ transitEdges g u tu root (v4NextHop none),
    e.toId = v ∧ e.metric = m ∧ x ∈ e.nextHops

/-- Except from the root to a router, a link hands on the next hops of the vertex. -/
lemma handsOn_inherit (he : Linked g u v m) (hu : ∀ r, v = .router r → u ≠ .router root)
    (hx : x ∈ tu.nextHops)
    (hval : x.addr.isValid) : HandsOn g root u v m tu x := by
  refine ⟨hval, ?_⟩
  cases he with
  | p2p hl hp2p hback =>
    refine ⟨_, p2p_mem_transitEdges tu root _ hl hp2p hback, rfl, rfl, ?_⟩
    unfold nextHopsForP2P
    rwa [if_neg (hu _ rfl)]
  | transit hl htr hback =>
    exact ⟨_, transit_mem_transitEdges tu root _ hl htr hback, rfl, rfl, hx⟩
  | attached hr hback =>
    refine ⟨_, attached_mem_transitEdges tu root _ hr hback, rfl, rfl, ?_⟩
    unfold nextHopsForNetwork
    rwa [if_neg (by simpa using ne_nil_of_mem hx)]

/-- The root hands its point-to-point neighbour that router's own address. -/
lemma exists_handsOn_p2p (hres : Resolvable g root) (hl : l ∈ g.links root) (hp2p : l.isP2P)
    (hback : twoWayRouterLink g root l.linkId) :
    ∃ a x, p2pNeighborAddress g l.linkId root = some a ∧ x.key = (a, "") ∧
      HandsOn g root (.router root) (.router l.linkId) l.metric.toNat tu x := by
  obtain ⟨x, hx⟩ := ne_none_iff_exists'.1 (hres l hl hp2p hback)
  obtain ⟨a, ha, hkey⟩ := p2pNextHop_some hx
  obtain ⟨back, -, -, -, rfl⟩ := p2pNeighborAddress_some ha
  refine ⟨_, x, ha, hkey, ?_, _, p2p_mem_transitEdges tu root _ hl hp2p hback, rfl, rfl, ?_⟩
  · rw [show x.addr = .v4 back.linkData from congrArg Prod.fst hkey]
    rfl
  · unfold nextHopsForP2P
    rw [if_pos rfl, hx]
    exact mem_singleton_self x

/-- A network of the root's own hands a router on it that router's own address. -/
lemma exists_handsOn_member (hl : l ∈ g.links root) (htr : l.isTransit)
    (hr : r ∈ g.attached l.linkId) (hback : twoWayRouterNetworkLink g r l.linkId)
    (hnil : tu.nextHops = []) (hd : l.metric.toNat = tu.dist) :
    ∃ a x, transitRouterAddress g r l.linkId = some a ∧ x.key = (a, "") ∧
      HandsOn g root (.network l.linkId) (.router r) 0 tu x := by
  obtain ⟨back, -, -, -, ha⟩ := transitRouterAddress_of_twoWay hback
  obtain ⟨x, hx, hkey⟩ := exists_mem_transitHops hl htr rfl ha
  refine ⟨_, x, ha, hkey, ?_, _, attached_mem_transitEdges tu root _ hr hback, rfl, rfl, ?_⟩
  · rw [show x.addr = .v4 back.linkData from congrArg Prod.fst hkey]
    rfl
  · unfold nextHopsForNetwork
    rwa [if_pos (by rw [hnil]; rfl), ← hd]

end

/-! ## What the end of the search gives -/

section

variable {g : Graph} {root : RouterId} {k : ℕ}

variable {u v : VertexId}

lemma Linked.router_of_network {n : LinkStateId} {m : ℕ} (h : Linked g u (.network n) m) :
    ∃ r l, u = .router r ∧ l ∈ g.links r ∧ l.isTransit ∧ l.linkId = n ∧
      l.metric.toNat = m ∧ twoWayRouterNetworkLink g r n := by
  cases h with
  | transit hl ht hback => exact ⟨_, _, rfl, hl, ht, rfl, rfl, hback⟩

variable {nh : NextHopSource} {tu tv : Tent}

variable (hroot : g.routers.lookup root ≠ none)
include hroot

/-- Along a tight link everything that the edge carries has been taken over. -/
lemma search_closed (htu : (search g root k (v4NextHop none)).tents.lookup u = some tu)
    (htv : (search g root k (v4NextHop none)).tents.lookup v = some tv) {m : ℕ} {x : NextHop}
    (hon : HandsOn g root u v m tu x) (hd : tv.dist = tu.dist + m) :
    containsNextHop tv.nextHops x ∨ k ≤ tv.nextHops.length := by
  obtain ⟨hval, e, he, rfl, rfl, hx⟩ := hon
  obtain ⟨I, -, hall⟩ := search_inv hroot k (v4NextHop none)
  rcases I.closed u tu htu (hall u tu htu) e he with hw | hr
  · cases hw
  · have hlt := (I.real _ tv htv).1
    obtain ⟨t, ht, hcase⟩ := hr (by omega)
    rw [htv] at ht
    cases ht
    rcases hcase with h | ⟨-, h⟩
    · omega
    · exact h x hx hval

lemma search_dist (nh : NextHopSource) {us : List VertexId} {c : ℕ}
    (hs : IsShortest (Linked g) (.router root) v us c) (hc : c < lsInfinity) :
    ∃ t, (search g root k nh).tents.lookup v = some t ∧ t.dist = c :=
  label_eq_some.1 ((labels_search hroot k nh).of_shortest hs hc)

lemma cheapest_dist (nh : NextHopSource) {us : List VertexId} {c : ℕ}
    (h : IsCheapest (Linked g) (.router root) v us c) (hc : c < lsInfinity) :
    ∃ t, (search g root k nh).tents.lookup v = some t ∧ t.dist = c := by
  obtain ⟨us', hs⟩ := h.exists_shortest
  exact search_dist hroot nh hs hc

lemma dist_of_cheapest {us : List VertexId} {c : ℕ}
    (h : IsCheapest (Linked g) (.router root) v us c) (hc : c < lsInfinity)
    (htv : (search g root k nh).tents.lookup v = some tv) : tv.dist = c := by
  obtain ⟨t, ht, hd⟩ := cheapest_dist hroot (k := k) nh h hc
  rw [htv] at ht
  cases ht
  exact hd

lemma nextHops_ne_nil (hk : 0 < k) (hres : Resolvable g root) {us : List VertexId} {c : ℕ}
    {t : Tent} (hs : IsCheapest (Linked g) (.router root) v us c) (hc : c < lsInfinity)
    (ht : (search g root k (v4NextHop none)).tents.lookup v = some t)
    (hrouter : ∃ r, VertexId.router r ∈ (v :: us).dropLast) : t.nextHops ≠ [] := by
  induction us generalizing v c t with
  | nil =>
    obtain ⟨r, hr⟩ := hrouter
    cases hr
  | cons u us ih =>
    obtain ⟨I, -, -⟩ := search_inv hroot k (v4NextHop none)
    have hd := dist_of_cheapest hroot hs hc ht
    obtain ⟨c', m, he, rfl, hsu⟩ := hs.tail
    obtain ⟨tu, htu, rfl⟩ := cheapest_dist hroot (k := k) (v4NextHop none) hsu (by omega)
    -- it is enough that some edge along the link carries a next hop
    have harrive : ∀ {x}, HandsOn g root u v m tu x → t.nextHops ≠ [] := by
      rintro x hon hnil
      rcases search_closed hroot htu ht hon hd with h | h
      · rw [hnil] at h
        cases h
      · rw [hnil, length_nil] at h
        omega
    have hinherit : (∀ r, v = .router r → u ≠ .router root) → tu.nextHops ≠ [] →
        t.nextHops ≠ [] := by
      intro hu hne
      obtain ⟨x, hx⟩ := exists_mem_of_ne_nil _ hne
      exact harrive (handsOn_inherit he hu hx ((I.distinct _ tu htu).2 x hx))
    -- a router that is not the start of the trail has next hops to hand on
    have hmid : ∀ r, u = .router r → us ≠ [] → tu.nextHops ≠ [] := by
      rintro r rfl hus
      refine ih hsu (by omega) htu ⟨r, ?_⟩
      rw [dropLast_cons_of_ne_nil hus]
      exact mem_cons_self
    have hlink := he
    cases hlink with
    | @p2p r l hl hp2p hback =>
      by_cases hr : r = root
      · subst hr
        obtain ⟨_, x, -, -, hon⟩ := exists_handsOn_p2p hres hl hp2p hback
        exact harrive hon
      · refine hinherit (fun _ _ h => hr (VertexId.router.inj h)) (hmid r rfl ?_)
        rintro rfl
        exact hr (VertexId.router.inj hsu.trail.of_singleton.1)
    | @transit r l hl htr hback =>
      refine hinherit (fun _ h => by cases h) (hmid r rfl ?_)
      rintro rfl
      obtain ⟨r', hr'⟩ := hrouter
      simp at hr'
    | @attached n r hr hback =>
      by_cases hnil : tu.nextHops = []
      · -- the network is the root's own: the router is on it
        obtain ⟨link, hl, htr, rfl, hm⟩ : ∃ link ∈ g.links root, link.isTransit ∧
            link.linkId = n ∧ link.metric.toNat = tu.dist := by
          rcases us with _ | ⟨w, ws⟩
          · exact absurd hsu.trail.of_singleton.1 (by simp)
          obtain ⟨c'', m', he', hcd, hsw⟩ := hsu.tail
          obtain ⟨r', l', rfl, hl', htr', hid', hm', -⟩ := he'.router_of_network
          rcases ws with _ | ⟨w', ws⟩
          · obtain ⟨hw, hc0⟩ := hsw.trail.of_singleton
            rw [VertexId.router.inj hw] at hl'
            exact ⟨l', hl', htr', hid', by omega⟩
          · exact absurd hnil (ih hsu (by omega) htu ⟨r', by simp⟩)
        obtain ⟨_, x, -, -, hon⟩ := exists_handsOn_member hl htr hr hback hnil hm
        exact harrive hon
      · exact hinherit (fun _ _ h => by cases h) hnil

end

/-! ## What the lists hold on the way -/

/-- What is true of a tentative state: the root has no next hop; every next hop is the first hop of
a trail of the state's distance; and where there is none the vertex is a network of the root.
Source: spf.go relax. -/
structure Sound (g : Graph) (root : RouterId) (v : VertexId) (t : Tent) : Prop where
  atRoot : v = .router root → t.nextHops = []
  via : ∀ h ∈ t.nextHops, h.addr.isValid = true ∧
    ∃ us, Trail (Linked g) (.router root) (v :: us) t.dist ∧
      codeHop g root (v :: us) = some (.via h.key)
  direct : v ≠ .router root → t.nextHops = [] →
    ∃ n, v = .network n ∧ Linked g (.router root) v t.dist

section

variable {g : Graph} {root : RouterId} {k : ℕ}

lemma codeHop_pair (v : RouterId) (root' : VertexId) :
    codeHop g root [.router v, root'] = (p2pNeighborAddress g v root).map fun a => .via (a, "") :=
  rfl

lemma codeHop_member (v : RouterId) (n : LinkStateId) (root' : VertexId) :
    codeHop g root [.router v, .network n, root'] =
      (transitRouterAddress g v n).map fun a => .via (a, "") := rfl

variable {cur : Tent} {s : State}

variable {e : Edge} {todo : VertexId → List Edge}

lemma Sound.edge (hres : Resolvable g root) {c : VertexId} (hs : Sound g root c cur)
    (hzero : c = .router root → cur.dist = 0)
    (he : e ∈ transitEdges g c cur root (v4NextHop none)) :
    (∀ h ∈ e.nextHops, h.addr.isValid ∧
      ∃ us, Trail (Linked g) (.router root) (e.toId :: us) (cur.dist + e.metric) ∧
        codeHop g root (e.toId :: us) = some (.via h.key)) ∧
      (e.nextHops = [] → ∃ n, e.toId = .network n ∧
        Linked g (.router root) e.toId (cur.dist + e.metric)) := by
  have hlinked : Linked g c e.toId e.metric :=
    (linked_iff cur root (v4NextHop none)).2 ⟨e, he, rfl, rfl⟩
  -- next hops that are handed on keep their trail, one link longer
  have hinherit : ∀ h ∈ cur.nextHops, h.addr.isValid ∧
      ∃ us, Trail (Linked g) (.router root) (e.toId :: us) (cur.dist + e.metric) ∧
        codeHop g root (e.toId :: us) = some (.via h.key) := by
    intro h hh
    obtain ⟨hval, us, htr, hcode⟩ := hs.via h hh
    exact ⟨hval, c :: us, .step htr hlinked, codeHop_cons hcode⟩
  have hfromRoot : c = .router root →
      Trail (Linked g) (.router root) [e.toId, .router root] (cur.dist + e.metric) := by
    intro hc
    rw [hzero hc]
    rw [hc] at hlinked
    exact .step .start hlinked
  rcases transitEdges_cases he with
    ⟨r, l, rfl, hl, hp2p, hback, rfl⟩ | ⟨r, l, rfl, hl, htr, hback, rfl⟩ | ⟨n, r, rfl, hr, hback,
      rfl⟩
  · by_cases hroot : r = root
    · subst hroot
      obtain ⟨x, hx⟩ := ne_none_iff_exists'.1 (hres l hl hp2p hback)
      have hhops : nextHopsForP2P g cur (.router r) r l.linkId l (v4NextHop none) = [x] := by
        unfold nextHopsForP2P
        rw [if_pos rfl, hx]
        rfl
      simp only [hhops]
      refine ⟨fun h hh => ?_, fun h => by cases h⟩
      rw [mem_singleton.1 hh]
      obtain ⟨a, ha, hkey⟩ := p2pNextHop_some hx
      obtain ⟨back, -, -, -, rfl⟩ := p2pNeighborAddress_some ha
      refine ⟨?_, [.router r], hfromRoot rfl, ?_⟩
      · rw [show x.addr = .v4 back.linkData from congrArg Prod.fst hkey]
        rfl
      · rw [codeHop_pair, ha, hkey]
        rfl
    · have hne : VertexId.router r ≠ .router root := fun h => hroot (VertexId.router.inj h)
      have hhops : nextHopsForP2P g cur (.router r) root l.linkId l (v4NextHop none)
          = cur.nextHops := by
        unfold nextHopsForP2P
        rw [if_neg hne]
      simp only [hhops]
      refine ⟨hinherit, fun hnil => ?_⟩
      obtain ⟨n, hn, -⟩ := hs.direct hne hnil
      cases hn
  · refine ⟨hinherit, fun hnil => ⟨l.linkId, rfl, ?_⟩⟩
    by_cases hroot : r = root
    · subst hroot
      rw [hzero rfl, Nat.zero_add]
      exact hlinked
    · obtain ⟨n, hn, -⟩ := hs.direct (fun h => hroot (VertexId.router.inj h)) hnil
      cases hn
  · by_cases hnil : cur.nextHops = []
    · obtain ⟨n', -, hdirect⟩ := hs.direct (by simp) hnil
      obtain ⟨back, -, -, -, hba⟩ := transitRouterAddress_of_twoWay hback
      have hhops : nextHopsForNetwork g cur n root r (v4NextHop none)
          = transitHops g cur.dist n root r (v4NextHop none) := by
        unfold nextHopsForNetwork
        rw [if_pos (by rw [hnil]; rfl)]
      simp only [hhops]
      constructor
      · intro h hh
        obtain ⟨a, ha, hkey⟩ := mem_transitHops hh
        rw [hba] at ha
        cases ha
        refine ⟨?_, [.network n, .router root], ?_, ?_⟩
        · rw [show h.addr = .v4 back.linkData from congrArg Prod.fst hkey]
          rfl
        · have htrail : Trail (Linked g) (.router root) [.network n, .router root] (0 + cur.dist) :=
            .step .start hdirect
          rw [Nat.zero_add] at htrail
          exact .step htrail hlinked
        · rw [codeHop_member, hba, hkey]
          rfl
      · intro hempty
        obtain ⟨rr, l, hrr, hl, htr, hid, hm, -⟩ := hdirect.router_of_network
        rw [← VertexId.router.inj hrr] at hl
        obtain ⟨x, hx, -⟩ := exists_mem_transitHops hl htr hid hba
        rw [hm, hempty] at hx
        cases hx
    · have hhops : nextHopsForNetwork g cur n root r (v4NextHop none) = cur.nextHops := by
        unfold nextHopsForNetwork
        rw [if_neg (by simpa using hnil)]
      simp only [hhops]
      exact ⟨hinherit, fun h => absurd h hnil⟩

def AllSound (g : Graph) (root : RouterId) (s : State) : Prop :=
  ∀ v t, s.tents.lookup v = some t → Sound g root v t

lemma exists_shortest_zero {v : VertexId} {us : List VertexId}
    (h : Trail (Linked g) (.router root) (v :: us) 0) :
    ∃ us', IsShortest (Linked g) (.router root) v us' 0 :=
  IsCheapest.exists_shortest ⟨h, fun _ _ _ => Nat.zero_le _⟩

section

variable (hk : 0 < k) (hres : Resolvable g root) (hret : NoReturn g root)
include hk hres hret

lemma AllSound.relax (I : Inv g root k (v4NextHop none) todo s) (h : AllSound g root s)
    {c : VertexId} (hcur : Sound g root c cur) (hzero : c = .router root → cur.dist = 0)
    (hd : cur.dist < lsInfinity) (htr : ∃ us, Trail (Linked g) (.router root) (c :: us) cur.dist)
    (he : e ∈ transitEdges g c cur root (v4NextHop none)) : AllSound g root (relax cur k s e) := by
  obtain ⟨hvia, hdirect⟩ := hcur.edge hres hzero he
  have hlinked : Linked g c e.toId e.metric :=
    (linked_iff cur root (v4NextHop none)).2 ⟨e, he, rfl, rfl⟩
  have hcap : ∀ x ∈ capNextHops k e.nextHops [], x ∈ e.nextHops := by
    intro x hx
    obtain ⟨ext, hext, hin⟩ := mergeNextHops_append [] e.nextHops k
    rw [capNextHops_eq, hext] at hx
    exact (hin x hx).1
  rcases relax_cases cur k s e hd (metric_lt he) with
    ⟨heq, -⟩ | ⟨-, t', hdt, -, heq, hcase⟩
  · rw [heq]
    exact h
  rw [heq]
  intro v t ht
  rw [SortedMap.lookup_put] at ht
  by_cases hv : v = e.toId
  swap
  · rw [if_neg hv] at ht
    exact h v t ht
  rw [if_pos hv] at ht
  cases ht
  subst hv
  refine ⟨fun hroot => ?_, fun x hx => ?_, fun _ hnil => ?_⟩
  · -- the root is written only over a way back that costs nothing
    exfalso
    obtain ⟨t₀, ht₀, hd₀⟩ := I.atRoot
    rw [← hroot] at ht₀
    rcases hcase with ⟨-, hlt⟩ | ⟨nt, hnt, hdn, -, -⟩
    · have := hlt t₀ ht₀
      omega
    · rw [ht₀] at hnt
      cases hnt
      obtain ⟨us, htr⟩ := htr
      have hc0 : cur.dist = 0 := by omega
      have hm0 : e.metric = 0 := by omega
      rw [hc0] at htr
      rw [hroot, hm0] at hlinked
      obtain ⟨us', hs'⟩ := exists_shortest_zero htr
      exact hret c us' hs' hlinked
  · rw [hdt]
    rcases hcase with ⟨hnew, -⟩ | ⟨nt, hnt, hdn, hmerge, -⟩
    · rw [hnew] at hx
      exact hvia x (hcap x hx)
    · obtain ⟨ext, hext, hin⟩ := mergeNextHops_append nt.nextHops (capNextHops k e.nextHops []) k
      rw [hmerge, hext] at hx
      rcases mem_append.1 hx with hx | hx
      · rw [← hdn]
        exact (h _ nt hnt).via x hx
      · exact hvia x (hcap x (hin x hx).1)
  · rw [hdt]
    apply hdirect
    rcases hcase with ⟨hnew, -⟩ | ⟨nt, -, -, hmerge, hlen⟩
    · apply eq_nil_iff_forall_not_mem.2
      intro x hx
      rw [hnew, capNextHops_eq] at hnil
      rcases contains_mergeNextHops [] e.nextHops k hx (hvia x hx).1 with hc | hc
      · rw [hnil] at hc
        cases hc
      · rw [hnil, length_nil] at hc
        omega
    · obtain ⟨ext, hext, -⟩ := mergeNextHops_append nt.nextHops (capNextHops k e.nextHops []) k
      rw [hnil, hext] at hmerge
      have := append_eq_nil_iff.1 hmerge.symm
      rw [hnil, this.1] at hlen
      exact absurd rfl hlen

lemma AllSound.relaxAll {c : VertexId} (hcur : Sound g root c cur)
    (hzero : c = .router root → cur.dist = 0) (hd : cur.dist < lsInfinity)
    (htr : ∃ us, Trail (Linked g) (.router root) (c :: us) cur.dist) {es : List Edge}
    (I : Inv g root k (v4NextHop none) todo s) (htodo : todo c = es)
    (hc : ∀ t, s.tents.lookup c = some t → t.settled → t.dist = cur.dist)
    (hes : ∀ e ∈ es, e ∈ transitEdges g c cur root (v4NextHop none)) (h : AllSound g root s) :
    AllSound g root (es.foldl (OspfSpf.relax cur k) s) := by
  induction es generalizing todo s with
  | nil => exact h
  | cons e es ih =>
    have he := hes e mem_cons_self
    obtain ⟨I', hc'⟩ := I.relax htodo he hd htr hc
    exact ih I' (Function.update_self _ _ _) hc' (fun e' he' => hes e' (mem_cons_of_mem _ he'))
      (h.relax hk hres hret I hcur hzero hd htr he)

lemma AllSound.visit {item : HeapItem} {heap : List HeapItem}
    (I : Inv g root k (v4NextHop none) (fun _ => []) s)
    (hpop : Heap.pop HeapItem.less s.heap = some (item, heap)) (h : AllSound g root s) :
    AllSound g root (visit g root k (v4NextHop none) { s with heap := heap } item) := by
  obtain ⟨cur, hcl, -⟩ := I.items item ((Heap.mem_pop hpop).2 (.inl rfl))
  unfold OspfSpf.visit
  simp only [hcl]
  by_cases hset : cur.settled
  · rw [if_pos hset]
    exact h
  rw [if_neg hset]
  by_cases hlt : cur.dist < item.dist
  · rw [if_pos hlt]
    exact h
  rw [if_neg hlt]
  have hzero : item.id = .router root → cur.dist = 0 := by
    intro hid
    obtain ⟨t₀, ht₀, hd₀⟩ := I.atRoot
    rw [← hid, hcl] at ht₀
    cases ht₀
    exact hd₀
  refine AllSound.relaxAll hk hres hret (h _ cur hcl) hzero (I.real _ cur hcl).1
    (I.real _ cur hcl).2 (I.settle hpop hcl) (Function.update_self _ _ _) ?_ (fun _ he => he) ?_
  · intro t ht _
    rw [SortedMap.lookup_put, if_pos rfl] at ht
    cases ht
    rfl
  · intro v t ht
    rcases SortedMap.lookup_put_some ht with ⟨hv, rfl⟩ | ⟨hv, ht⟩
    · have hs := h _ cur hcl
      rw [← hv] at hs
      exact ⟨hs.atRoot, hs.via, hs.direct⟩
    · exact h v t ht

end

lemma allSound_search (hroot : g.routers.lookup root ≠ none) (hk : 0 < k)
    (hres : Resolvable g root) (hret : NoReturn g root) :
    AllSound g root (search g root k (v4NextHop none)) := by
  have hloop : ∀ n s, Inv g root k (v4NextHop none) (fun _ => []) s → AllSound g root s →
      AllSound g root (loop g root k (v4NextHop none) n s) := by
    intro n
    induction n with
    | zero => exact fun s _ h => h
    | succ n ih =>
      intro s I h
      unfold loop
      rcases hpop : Heap.pop HeapItem.less s.heap with _ | ⟨item, heap⟩
      · exact h
      · exact ih _ (I.visit hpop) (h.visit hk hres hret I hpop)
  apply hloop _ _ (inv_start hroot)
  intro v t ht
  unfold start at ht
  rw [SortedMap.lookup_put, SortedMap.lookup_empty] at ht
  by_cases hv : v = .router root
  · rw [if_pos hv] at ht
    cases ht
    exact ⟨fun _ => rfl, by simp, fun h => absurd hv h⟩
  · rw [if_neg hv] at ht
    cases ht

end

/-! ## From trails to paths -/

section

variable {g : Graph} {root : RouterId} {k : ℕ}

variable {us : List VertexId} {c : ℕ}

lemma shortest_root
    (h : IsShortest (Linked g) (.router root) (.router root) us c) : us = [] := by
  obtain ⟨ht, hn⟩ := h.path
  cases ht with
  | start => rfl
  | step ht _ => exact absurd ht.mem_start (nodup_cons.1 hn).1

lemma NoReturn.ne_root (hret : NoReturn g root) {u v : VertexId}
    (h : IsCheapest (Linked g) (.router root) v (u :: us) c) : v ≠ .router root := by
  rintro rfl
  obtain ⟨c', m, he, rfl, hu⟩ := h.tail
  have hle := h.least [] 0 .start
  obtain rfl : c' = 0 := by omega
  obtain rfl : m = 0 := by omega
  obtain ⟨us', hs'⟩ := hu.exists_shortest
  exact hret u us' hs' he

/-- The first hop of a cheapest trail is the first hop of a shortest path: a circle that costs
nothing can be left out, since it passes neither the root nor a network of the root. -/
lemma exists_shortest_of_trail (hret : NoReturn g root) (hmix : NoMixed g root) {v : VertexId}
    {key : Addr × String} (h : IsCheapest (Linked g) (.router root) v us c) (hc : c < lsInfinity)
    (hcode : codeHop g root (v :: us) = some (.via key)) :
    ∃ us', IsShortest (Linked g) (.router root) v us' c ∧
      codeHop g root (v :: us') = some (.via key) := by
  induction us generalizing v c with
  | nil =>
    rw [codeHop, leg_of_length_le (by simp)] at hcode
    cases hcode
  | cons u us ih =>
    have hvr := hret.ne_root h
    obtain ⟨c', m, he, rfl, hu⟩ := h.tail
    rcases codeHop_of_cons hcode with hcu | hshort | ⟨n, hlen, hleg⟩
    · obtain ⟨us₂, hs₂, hc₂⟩ := ih hu (by omega) hcu
      by_cases hv : v ∈ u :: us₂
      swap
      · refine ⟨u :: us₂, h.shortest_of_path ?_ le_rfl, codeHop_cons hc₂⟩
        exact ⟨.step hs₂.path.trail he, nodup_cons.2 ⟨hv, hs₂.path.nodup⟩⟩
      -- the trail comes back to `v`: what lies between is left out
      obtain ⟨us₃, c₃, hle, ht₃, hsuf⟩ := hs₂.path.trail.cut hv
      have hs₃ : IsShortest (Linked g) (.router root) v us₃ (c' + m) :=
        h.shortest_of_path ⟨ht₃, hs₂.path.nodup.sublist hsuf.sublist⟩ (by omega)
      refine ⟨us₃, hs₃, ?_⟩
      rcases us₃ with _ | ⟨w, ws⟩
      · exact absurd hs₃.path.trail.of_singleton.1 hvr
      rcases ws with _ | ⟨w', ws⟩
      swap
      · rw [← codeHop_of_suffix hsuf (by simp)]
        exact hc₂
      have hleg : leg (u :: us₂) 1 = some v := leg_of_suffix hsuf (by simp)
      cases v with
      | router rv =>
        rw [codeHop_of_router (v := rv) rfl, ← codeHop_of_router hleg]
        exact hc₂
      | network n =>
        exfalso
        obtain ⟨_, _, -, -, hsw⟩ := hs₃.tail
        obtain ⟨rfl, -⟩ := hsw.path.trail.of_singleton
        obtain ⟨r, -, rfl, -⟩ := he.router_of_network
        have hr : r ≠ root := by
          rintro rfl
          rw [shortest_root hs₂, codeHop, leg_of_length_le (by simp)] at hc₂
          cases hc₂
        exact hmix n _ r us₂ c' m hs₃ hc hr hs₂ he rfl
    · rcases us with _ | ⟨w, ws⟩
      swap
      · simp at hshort
      obtain ⟨rfl, rfl⟩ := hu.trail.of_singleton
      refine ⟨[.router root], h.shortest_of_path ⟨h.trail, ?_⟩ le_rfl, hcode⟩
      simp [hvr]
    · rcases us with _ | ⟨w, ws⟩
      · simp at hlen
      rcases ws with _ | ⟨w', ws⟩
      swap
      · simp at hlen
      obtain ⟨_, _, -, -, hw⟩ := hu.tail
      obtain ⟨rfl, -⟩ := hw.trail.of_singleton
      have hun : u = .network n := some.inj hleg
      subst hun
      refine ⟨_, h.shortest_of_path ⟨h.trail, ?_⟩ le_rfl, hcode⟩
      have hvn : v ≠ .network n := by
        rintro rfl
        cases he
      simp [hvr, hvn]

/-- The first hops of the shortest paths as the search resolves them. -/
def CodeHops (g : Graph) (root : RouterId) (v : VertexId) : Set Hop :=
  {h | ∃ us c, IsShortest (Linked g) (.router root) v us c ∧ c < lsInfinity ∧
    codeHop g root (v :: us) = some h}

lemma codeHops_subset (v : VertexId) : CodeHops g root v ⊆ RfcHops g root v := by
  rintro h ⟨us, c, hs, hc, hcode⟩
  exact ⟨us, c, hs, hc, rfcHop_of_codeHop hcode⟩

variable {t : Tent}

variable (hroot : g.routers.lookup root ≠ none) (hk : 0 < k) (hres : Resolvable g root)
  (hret : NoReturn g root) (hmix : NoMixed g root)
include hroot hk hres hret hmix

/-- Where the search ends, every next hop is the first hop of a shortest path. -/
lemma via_mem_codeHops {v : VertexId}
    (ht : (search g root k (v4NextHop none)).tents.lookup v = some t) {x : NextHop}
    (hx : x ∈ t.nextHops) : .via x.key ∈ CodeHops g root v := by
  have L := labels_search hroot k (v4NextHop none)
  obtain ⟨-, us, htr, hcode⟩ := (allSound_search hroot hk hres hret v t ht).via x hx
  have hlabel := label_eq_some.2 ⟨t, ht, rfl⟩
  have hlt := (L.real v t.dist hlabel).1
  have hcheap : IsCheapest (Linked g) (.router root) v us t.dist := by
    refine ⟨htr, fun us' c' ht' => ?_⟩
    obtain ⟨us'', hs⟩ := L.exists_shortest hlabel
    exact hs.le_trail ht'
  obtain ⟨us', hs', hc'⟩ := exists_shortest_of_trail hret hmix hcheap hlt hcode
  exact ⟨us', t.dist, hs', hlt, hc'⟩

lemma nextHops_direct {n : LinkStateId}
    (hs : IsShortest (Linked g) (.router root) (.network n) [.router root] c) (hc : c < lsInfinity)
    (ht : (search g root k (v4NextHop none)).tents.lookup (.network n) = some t) :
    t.nextHops = [] := by
  apply eq_nil_iff_forall_not_mem.2
  intro x hx
  obtain ⟨us, c', hs', hc', hcode⟩ := via_mem_codeHops hroot hk hres hret hmix ht hx
  rcases us with _ | ⟨u, us⟩
  · rw [codeHop, leg_of_length_le (by simp)] at hcode
    cases hcode
  obtain ⟨c₀, m, he, rfl, hsu⟩ := hs'.tail
  obtain ⟨r, -, rfl, -⟩ := he.router_of_network
  have hr : r ≠ root := by
    rintro rfl
    rw [shortest_root hsu] at hcode
    cases hcode
  have hcc : c₀ + m = c := le_antisymm (hs'.least _ _ hs.path) (hs.least _ _ hs'.path)
  exact hmix n c r us c₀ m hs hc hr hsu he hcc

end

/-! ## Everything arrives -/

section

variable {g : Graph} {root : RouterId} {k : ℕ}

variable (hroot : g.routers.lookup root ≠ none) (hk : 0 < k) (hres : Resolvable g root)
  (hret : NoReturn g root) (hmix : NoMixed g root) (hlim : WithinLimit g root k)
include hroot hk hres hret hmix hlim

lemma key_mem_of_handsOn {u v : VertexId} {tu tv : Tent} {m : ℕ} {x : NextHop}
    (htu : (search g root k (v4NextHop none)).tents.lookup u = some tu)
    (htv : (search g root k (v4NextHop none)).tents.lookup v = some tv)
    (hon : HandsOn g root u v m tu x) (hd : tv.dist = tu.dist + m)
    (hrfc : .via x.key ∈ RfcHops g root v) : x.key ∈ tv.nextHops.map NextHop.key := by
  obtain ⟨I, -, -⟩ := search_inv hroot k (v4NextHop none)
  rcases search_closed hroot htu htv hon hd with h | hfull
  · exact containsNextHop_iff.1 h
  by_contra hnot
  -- the list is full and holds first hops only: with this one there would be too many
  have hnodup : ((x.key :: tv.nextHops.map NextHop.key).map Hop.via).Nodup := by
    apply List.Nodup.map
    · intro a b hab
      exact Hop.via.inj hab
    · exact nodup_cons.2 ⟨hnot, (I.distinct v tv htv).1⟩
  have hle := hlim v _ hnodup (by
    intro h hh
    rw [map_cons, mem_cons] at hh
    rcases hh with rfl | hh
    · exact hrfc
    · rw [map_map] at hh
      obtain ⟨y, hy, rfl⟩ := mem_map.1 hh
      exact codeHops_subset v (via_mem_codeHops hroot hk hres hret hmix htv hy))
  rw [length_map, length_cons, length_map] at hle
  omega

lemma key_mem_of_shortest {v : VertexId} {us : List VertexId} {c : ℕ} {t : Tent}
    {key : Addr × String} (hs : IsShortest (Linked g) (.router root) v us c) (hc : c < lsInfinity)
    (ht : (search g root k (v4NextHop none)).tents.lookup v = some t)
    (hcode : codeHop g root (v :: us) = some (.via key)) : key ∈ t.nextHops.map NextHop.key := by
  induction us generalizing v c t with
  | nil =>
    rw [codeHop, leg_of_length_le (by simp)] at hcode
    cases hcode
  | cons u us ih =>
    obtain ⟨I, -, -⟩ := search_inv hroot k (v4NextHop none)
    have hrfc : Hop.via key ∈ RfcHops g root v := ⟨u :: us, c, hs, hc, rfcHop_of_codeHop hcode⟩
    have hd := dist_of_cheapest hroot hs.cheapest hc ht
    obtain ⟨c', m, he, rfl, hsu⟩ := hs.tail
    obtain ⟨tu, htu, rfl⟩ := search_dist hroot (k := k) (v4NextHop none) hsu (by omega)
    have harrive : ∀ {x}, HandsOn g root u v m tu x → x.key = key →
        key ∈ t.nextHops.map NextHop.key := by
      rintro x hon rfl
      exact key_mem_of_handsOn hroot hk hres hret hmix hlim htu ht hon hd hrfc
    have hinherit : (∀ r, v = .router r → u ≠ .router root) →
        codeHop g root (u :: us) = some (.via key) → key ∈ t.nextHops.map NextHop.key := by
      intro hu hcu
      obtain ⟨x, hx, hkey⟩ := mem_map.1 (ih hsu (by omega) htu hcu)
      exact harrive (handsOn_inherit he hu hx ((I.distinct u tu htu).2 x hx)) hkey
    have hrest : ∀ r, u = .router r → r ≠ root → codeHop g root (u :: us) = some (.via key) := by
      rintro r rfl hr
      rcases codeHop_of_cons hcode with h | hshort | ⟨n, hlen, hleg⟩
      · exact h
      · rcases us with _ | ⟨w, ws⟩
        · exact absurd (VertexId.router.inj hsu.path.trail.of_singleton.1) hr
        · simp at hshort
      · rcases us with _ | ⟨w, _ | ⟨w', ws⟩⟩
        · simp at hlen
        · exact absurd (some.inj hleg) (by simp)
        · simp at hlen
    have hlink := he
    cases hlink with
    | @p2p r l hl hp2p hback =>
      by_cases hr : r = root
      · subst hr
        obtain ⟨a, x, ha, hkey, hon⟩ := exists_handsOn_p2p hres hl hp2p hback
        rw [shortest_root hsu, codeHop_pair, ha] at hcode
        exact harrive hon (hkey.trans (Hop.via.inj (some.inj hcode)))
      · exact hinherit (fun _ _ h => hr (VertexId.router.inj h)) (hrest r rfl hr)
    | @transit r l hl htr hback =>
      refine hinherit (fun _ h => by cases h) (hrest r rfl ?_)
      rintro rfl
      rw [shortest_root hsu] at hcode
      cases hcode
    | @attached n r hr hback =>
      rcases codeHop_of_cons hcode with hcu | hshort | ⟨n', hlen, hleg⟩
      · exact hinherit (fun _ _ h => by cases h) hcu
      · rcases us with _ | ⟨w, ws⟩
        · exact absurd hsu.path.trail.of_singleton.1 (by simp)
        · simp at hshort
      · -- the network is the root's own
        rcases us with _ | ⟨w, _ | ⟨w', ws⟩⟩
        · simp at hlen
        swap
        · simp at hlen
        obtain ⟨c₀, m', he', hcd, hsw⟩ := hsu.tail
        obtain ⟨rfl, rfl⟩ := hsw.path.trail.of_singleton
        obtain ⟨r', l', hr', hl', htr', rfl, hm', -⟩ := he'.router_of_network
        rw [← VertexId.router.inj hr'] at hl'
        have hnil := nextHops_direct hroot hk hres hret hmix hsu (by omega) htu
        obtain ⟨a, x, ha, hkey, hon⟩ :=
          exists_handsOn_member hl' htr' hr hback hnil (by omega)
        rw [codeHop_member, ha] at hcode
        exact harrive hon (hkey.trans (Hop.via.inj (some.inj hcode)))

end

/-! ## All the addresses of the RFC -/

section

variable {g : Graph} {root : RouterId}

lemma leg_zero {l : List VertexId} {c : ℕ} (h : Trail (Linked g) (.router root) l c) :
    leg l 0 = some (.router root) := by
  induction h with
  | start => rfl
  | step _ _ ih => rw [leg_cons (by simp), ih]

variable {b : VertexId}

lemma suffix_of_legs {l : List VertexId} {a : VertexId} (h0 : leg l 0 = some a)
    (h1 : leg l 1 = some b) : [b, a] <:+ l := by
  unfold leg at h0 h1
  rw [← reverse_prefix]
  rcases hl : l.reverse with _ | ⟨x, _ | ⟨y, ys⟩⟩ <;> rw [hl] at h0 h1
  · cases h0
  · cases h1
  · obtain rfl := some.inj h0
    obtain rfl := some.inj h1
    exact prefix_append [x, y] ys

lemma suffix_of_three_legs {l : List VertexId} {a c : VertexId} (h0 : leg l 0 = some a)
    (h1 : leg l 1 = some b) (h2 : leg l 2 = some c) : [c, b, a] <:+ l := by
  unfold leg at h0 h1 h2
  rw [← reverse_prefix]
  rcases hl : l.reverse with _ | ⟨x, _ | ⟨y, _ | ⟨z, zs⟩⟩⟩ <;> rw [hl] at h0 h1 h2
  · cases h0
  · cases h1
  · cases h2
  · obtain rfl := some.inj h0
    obtain rfl := some.inj h1
    obtain rfl := some.inj h2
    exact prefix_append [x, y, z] zs

lemma p2pNeighborAddress_unique (hone : SingleP2P g) {v : RouterId} {back : RouterLink} {a : Addr}
    (hb : back ∈ g.links v) (hp : back.isP2P) (hid : back.linkId = root)
    (ha : p2pNeighborAddress g v root = some a) : a = .v4 back.linkData := by
  obtain ⟨l, hl, hlp, hlid, rfl⟩ := p2pNeighborAddress_some ha
  have hmem : ∀ x, x ∈ g.links v → x.isP2P → x.linkId = root →
      x ∈ (g.links v).filter fun l => l.isP2P && l.linkId = root := by
    intro x hx hxp hxid
    exact mem_filter.2 ⟨hx, by simp [hxp, hxid]⟩
  have hlen := hone v root
  have h1 := hmem l hl hlp hlid
  have h2 := hmem back hb hp hid
  rcases hf : (g.links v).filter (fun l => l.isP2P && l.linkId = root) with _ | ⟨x, _ | ⟨y, ys⟩⟩ <;>
    rw [hf] at h1 h2 hlen
  · cases h1
  · rw [mem_singleton.1 h1, mem_singleton.1 h2]
  · simp at hlen

lemma exists_cheapest_of_suffix {v w : VertexId} {us ws ws' : List VertexId} {c c₁ : ℕ}
    {key : Addr × String} (hs : IsShortest (Linked g) (.router root) v us c)
    (hsuf : (w :: ws) <:+ v :: us) (hw : IsShortest (Linked g) (.router root) w ws' c₁)
    (hcode : codeHop g root (w :: ws') = some (.via key)) :
    ∃ us', IsCheapest (Linked g) (.router root) v us' c ∧
      codeHop g root (v :: us') = some (.via key) := by
  have hend : ∀ c, IsShortest (Linked g) (.router root) w ws c →
      IsCheapest (Linked g) (.router root) w ws' c := by
    intro c hws
    rw [le_antisymm (hws.least _ _ hw.path) (hw.least _ _ hws.path)]
    exact hw.cheapest
  induction us generalizing v c with
  | nil =>
    rcases suffix_cons_iff.1 hsuf with heq | hnil
    · obtain ⟨rfl, rfl⟩ := cons.inj heq
      exact ⟨ws', hend c hs, hcode⟩
    · exact absurd (suffix_nil.1 hnil) (by simp)
  | cons u us ih =>
    rcases suffix_cons_iff.1 hsuf with heq | hsuf
    · obtain ⟨rfl, rfl⟩ := cons.inj heq
      exact ⟨ws', hend c hs, hcode⟩
    · obtain ⟨c', m, he, rfl, hsu⟩ := hs.tail
      obtain ⟨us', hcheap, hcu⟩ := ih hsu hsuf
      refine ⟨u :: us', ⟨.step hcheap.trail he, fun us'' c'' ht => ?_⟩, codeHop_cons hcu⟩
      exact hs.le_trail ht

/-- Under the conditions every first hop of the RFC is one that the search resolves. -/
lemma rfcHops_subset (hone : SingleP2P g) (hres : Resolvable g root) (hret : NoReturn g root)
    (hmix : NoMixed g root) (hfirst : FirstAddresses g root) (v : VertexId) :
    RfcHops g root v ⊆ CodeHops g root v := by
  rintro h ⟨us, c, hs, hc, hrfc⟩
  have h0 := leg_zero hs.path.trail
  unfold RfcHop at hrfc
  split at hrfc
  · -- over a point-to-point link of the root
    rename_i r h1
    obtain ⟨back, hb, hp, hid, rfl⟩ := hrfc
    obtain ⟨c', -, hs'⟩ := hs.of_suffix (suffix_of_legs h0 h1)
    obtain ⟨c₀, m, he, -, -⟩ := hs'.tail
    have hp2p : ∃ a, p2pNeighborAddress g r root = some a := by
      cases he with
      | @p2p _ l hl hlp hback =>
        obtain ⟨x, hx⟩ := ne_none_iff_exists'.1 (hres l hl hlp hback)
        obtain ⟨a, ha, -⟩ := p2pNextHop_some hx
        exact ⟨a, ha⟩
    obtain ⟨a, ha⟩ := hp2p
    refine ⟨us, c, hs, hc, ?_⟩
    rw [codeHop_of_router h1, ha, p2pNeighborAddress_unique hone hb hp hid ha]
    rfl
  · -- a network of the root
    rename_i n h1 h2
    refine ⟨us, c, hs, hc, ?_⟩
    rw [codeHop, h1, h2, hrfc]
  · -- over a network of the root
    rename_i n r h1 h2
    obtain ⟨back, hb, htr, hid, rfl⟩ := hrfc
    have hsuf := suffix_of_three_legs h0 h1 h2
    obtain ⟨c', hle, hs'⟩ := hs.of_suffix hsuf
    obtain ⟨us', c'', hs'', -, hcode⟩ := hfirst r n c' back hs' (by omega) hb htr hid
    obtain ⟨us₂, hcheap, hcode₂⟩ := exists_cheapest_of_suffix hs hsuf hs'' hcode
    obtain ⟨us₃, hs₃, hcode₃⟩ := exists_shortest_of_trail hret hmix hcheap hc hcode₂
    exact ⟨us₃, c, hs₃, hc, hcode₃⟩
  · exact absurd hrfc id

end

lemma effectiveMaxPaths_pos (maxPaths : ℤ) : 0 < effectiveMaxPaths maxPaths := by
  unfold effectiveMaxPaths
  split_ifs <;> omega

/-- The next hops of every vertex of the result are the first hops of its shortest paths, as RFC
2328 Section 16.1.1 defines them, iff no vertex at distance zero has a free link back to
the root, no network of the root is reached at its distance over another router, and every address
of a router on a network of the root is the one taken on some shortest path. The premises: at most
one point-to-point link between two routers, next hops that resolve, and no more first hops than the
limit. -/
theorem compute_nextHops_iff (g : Graph) (root : RouterId) (maxPaths : ℤ)
    (hroot : g.routers.lookup root ≠ none) (hone : SingleP2P g) (hres : Resolvable g root)
    (hlim : WithinLimit g root (effectiveMaxPaths maxPaths)) :
    (∀ v n, (compute g root maxPaths).nodes.lookup v = some n →
      ∀ h, Represented root n h ↔ h ∈ RfcHops g root v) ↔
      NoReturn g root ∧ NoMixed g root ∧ FirstAddresses g root := by
  have hk := effectiveMaxPaths_pos maxPaths
  have hnode : ∀ v us c, IsShortest (Linked g) (.router root) v us c → c < lsInfinity →
      ∃ t, (search g root (effectiveMaxPaths maxPaths) (v4NextHop none)).tents.lookup v = some t ∧
        (compute g root maxPaths).nodes.lookup v = some ⟨v, t.dist, t.nextHops⟩ := by
    intro v us c hs hc
    obtain ⟨t, ht, -⟩ := search_dist hroot (k := effectiveMaxPaths maxPaths) (v4NextHop none) hs hc
    exact ⟨t, ht, lookup_computeWithNextHop.2 ⟨hroot, t, ht, rfl⟩⟩
  constructor
  · intro hall
    have hret : NoReturn g root := by
      intro u us hs hlink
      -- the way back gives the root next hops, and it has no first hop
      have hstart : IsShortest (Linked g) (.router root) (.router root) [] 0 :=
        ⟨⟨.start, nodup_singleton _⟩, fun _ _ _ => Nat.zero_le _⟩
      have hback : IsCheapest (Linked g) (.router root) (.router root) (u :: us) 0 :=
        ⟨.step hs.path.trail hlink, fun _ _ _ => Nat.zero_le _⟩
      obtain ⟨t, ht, hn⟩ := hnode _ _ _ hstart (by decide)
      have hne := nextHops_ne_nil hroot hk hres hback (by decide) ht
        ⟨root, by rw [dropLast_cons_of_ne_nil (by simp)]; exact mem_cons_self⟩
      obtain ⟨x, hx⟩ := exists_mem_of_ne_nil _ hne
      obtain ⟨us', c', hs', -, hrfc⟩ := (hall _ _ hn (.via x.key)).1 (.inr ⟨x, hx, rfl⟩)
      rw [shortest_root hs'] at hrfc
      exact hrfc
    have hmix : NoMixed g root := by
      intro n c r us c' m hs hc hr hsr hlink hcc
      -- the other router gives the network next hops, and it is attached
      have hother : IsCheapest (Linked g) (.router root) (.network n) (.router r :: us) c := by
        rw [← hcc]
        refine ⟨.step hsr.path.trail hlink, fun us' c'' ht => ?_⟩
        rw [hcc]
        exact hs.le_trail ht
      obtain ⟨t, ht, hn⟩ := hnode _ _ _ hs hc
      have hus : us ≠ [] := by
        rintro rfl
        exact hr (VertexId.router.inj hsr.path.trail.of_singleton.1)
      have hne := nextHops_ne_nil hroot hk hres hother hc ht ⟨r, by
          rw [dropLast_cons_of_ne_nil (by simp), dropLast_cons_of_ne_nil hus]
          exact mem_cons_of_mem _ mem_cons_self⟩
      rcases (hall _ _ hn .direct).2 ⟨_, c, hs, hc, rfl⟩ with ⟨-, hnil, -⟩ | ⟨x, -, hx⟩
      · exact hne hnil
      · cases hx
    refine ⟨hret, hmix, ?_⟩
    intro r n c back hs hc hb htr hid
    obtain ⟨t, ht, hn⟩ := hnode _ _ _ hs hc
    have hrfc : Hop.via (.v4 back.linkData, "") ∈ RfcHops g root (.router r) :=
      ⟨_, c, hs, hc, back, hb, htr, hid, rfl⟩
    rcases (hall _ _ hn _).2 hrfc with ⟨h, -⟩ | ⟨x, hx, hkey⟩
    · cases h
    · obtain ⟨us, c', hs', hc', hcode⟩ := via_mem_codeHops hroot hk hres hret hmix ht hx
      rw [← hkey] at hcode
      exact ⟨us, c', hs', hc', hcode⟩
  · rintro ⟨hret, hmix, hfirst⟩ v n hn h
    obtain ⟨-, t, ht, rfl⟩ := lookup_computeWithNextHop.1 hn
    have hlabel := label_eq_some.2 ⟨t, ht, rfl⟩
    have L := labels_search hroot (effectiveMaxPaths maxPaths) (v4NextHop none)
    have hlt := (L.real v t.dist hlabel).1
    constructor
    · rintro (⟨rfl, hnil, hv⟩ | ⟨x, hx, rfl⟩)
      · obtain ⟨n, rfl, hlink⟩ := (allSound_search hroot hk hres hret v t ht).direct hv hnil
        have htrail : Trail (Linked g) (.router root) [.network n, .router root] (0 + t.dist) :=
          .step .start hlink
        rw [Nat.zero_add] at htrail
        obtain ⟨us, hs⟩ := L.exists_shortest hlabel
        exact ⟨[.router root], t.dist, ⟨⟨htrail, by simp⟩, hs.least⟩, hlt, rfl⟩
      · exact codeHops_subset v (via_mem_codeHops hroot hk hres hret hmix ht hx)
    · intro hrfc
      obtain ⟨us, c, hs, hc, hcode⟩ := rfcHops_subset hone hres hret hmix hfirst v hrfc
      cases h with
      | via key =>
        obtain ⟨x, hx, hkey⟩ := mem_map.1
          (key_mem_of_shortest hroot hk hres hret hmix hlim hs hc ht hcode)
        exact .inr ⟨x, hx, by rw [hkey]⟩
      | direct =>
        left
        have hshape : ∃ n, v = .network n ∧ us = [.router root] := by
          unfold codeHop at hcode
          split at hcode
          · obtain ⟨a, -, ha⟩ := map_eq_some_iff.1 hcode
            cases ha
          · rename_i n h1 h2
            have h0 := leg_zero hs.path.trail
            obtain ⟨pre, hpre⟩ := suffix_of_legs h0 h1
            rcases pre with _ | ⟨x, pre⟩
            · obtain ⟨rfl, rfl⟩ := cons.inj hpre
              exact ⟨n, rfl, rfl⟩
            · have hlen : 3 ≤ (v :: us).length := by
                rw [← hpre]
                simp
              unfold leg at h2
              rw [getElem?_eq_none_iff, length_reverse] at h2
              omega
          · obtain ⟨a, -, ha⟩ := map_eq_some_iff.1 hcode
            cases ha
          · cases hcode
        obtain ⟨n, rfl, rfl⟩ := hshape
        exact ⟨rfl, nextHops_direct hroot hk hres hret hmix hs hc ht, by simp⟩

/-! ## Two areas -/

section

variable {g : Graph} {root : RouterId}

lemma mem_of_rfcHops {hops : List Hop}
    (hall : ∀ r, ∀ l ∈ g.links r, Hop.via (.v4 l.linkData, "") ∈ hops) {v : VertexId} {h : Hop}
    (hh : h ∈ RfcHops g root v) : h ∈ Hop.direct :: hops := by
  obtain ⟨us, c, -, -, hrfc⟩ := hh
  unfold RfcHop at hrfc
  split at hrfc
  · obtain ⟨back, hb, -, -, rfl⟩ := hrfc
    exact mem_cons_of_mem _ (hall _ back hb)
  · rw [hrfc]
    exact mem_cons_self
  · obtain ⟨back, hb, -, -, rfl⟩ := hrfc
    exact mem_cons_of_mem _ (hall _ back hb)
  · exact absurd hrfc id

lemma withinLimit_of_links (hops : List Hop) {k : ℕ}
    (hall : ∀ r, ∀ l ∈ g.links r, Hop.via (.v4 l.linkData, "") ∈ hops) (hk : hops.length < k) :
    WithinLimit g root k := by
  intro v hs hnodup hmem
  have hle := (subperm_of_subset hnodup fun h hh => mem_of_rfcHops hall (hmem h hh)).length_le
  rw [length_cons] at hle
  omega

lemma singleP2P_of_length (h : ∀ r, ((g.links r).filter RouterLink.isP2P).length ≤ 1) :
    SingleP2P g := by
  intro r r'
  refine le_trans (List.Sublist.length_le ?_) (h r)
  exact monotone_filter_right _ fun l hl => (Bool.and_eq_true _ _ ▸ hl).1

end

/-- Four routers and point-to-point links of one cost: 4 is behind 2 and behind 3. -/
def diamond : Graph where
  area := 0
  routers := (((SortedMap.empty.put 1
      [⟨2, 0x0a000102#32, .p2p, 10⟩, ⟨3, 0x0a000103#32, .p2p, 10⟩]).put 2
    [⟨1, 0x0a000201#32, .p2p, 10⟩, ⟨4, 0x0a000204#32, .p2p, 10⟩]).put 3
    [⟨1, 0x0a000301#32, .p2p, 10⟩, ⟨4, 0x0a000304#32, .p2p, 10⟩]).put 4
    [⟨2, 0x0a000402#32, .p2p, 10⟩, ⟨3, 0x0a000403#32, .p2p, 10⟩]
  networks := .empty

lemma links_diamond (r : RouterId) : diamond.links r =
    if r = 4 then [⟨2, 0x0a000402#32, .p2p, 10⟩, ⟨3, 0x0a000403#32, .p2p, 10⟩]
    else if r = 3 then [⟨1, 0x0a000301#32, .p2p, 10⟩, ⟨4, 0x0a000304#32, .p2p, 10⟩]
    else if r = 2 then [⟨1, 0x0a000201#32, .p2p, 10⟩, ⟨4, 0x0a000204#32, .p2p, 10⟩]
    else if r = 1 then [⟨2, 0x0a000102#32, .p2p, 10⟩, ⟨3, 0x0a000103#32, .p2p, 10⟩]
    else [] := by
  unfold Graph.links diamond
  simp only [SortedMap.lookup_put, SortedMap.lookup_empty]
  split_ifs <;> rfl

lemma p2p_of_mem_links_diamond {r : RouterId} {l : RouterLink} (h : l ∈ diamond.links r) :
    l.isTransit = false ∧ l.metric = 10 := by
  rw [links_diamond] at h
  split_ifs at h <;> revert l <;> decide

lemma linked_diamond {u v : VertexId} {m : ℕ} (h : Linked diamond u v m) :
    m = 10 ∧ ∀ n, v ≠ .network n := by
  rcases h with ⟨hl, -, -⟩ | ⟨hl, ht, -⟩ | ⟨hr, -⟩
  · exact ⟨by rw [(p2p_of_mem_links_diamond hl).2]; rfl, fun n => by simp⟩
  · rw [(p2p_of_mem_links_diamond hl).1] at ht
    cases ht
  · cases hr

/-- The diamond: router 4 has two next hops, and the lists are the first hops. -/
theorem nextHops_diamond : diamond.routers.lookup 1 ≠ none ∧
    (((compute diamond 1 16).nodes.lookup (.router 4)).map fun n => n.nextHops.length) = some 2 ∧
    ∀ v n, (compute diamond 1 16).nodes.lookup v = some n →
      ∀ h, Represented 1 n h ↔ h ∈ RfcHops diamond 1 v := by
  refine ⟨by decide, by decide +kernel,
    (compute_nextHops_iff diamond 1 16 (by decide) ?_ ?_ ?_).2 ⟨?_, ?_, ?_⟩⟩
  · intro r r'
    rw [links_diamond]
    split_ifs <;> grind [RouterLink.isP2P]
  · intro l hl _ _
    rw [links_diamond] at hl
    revert l
    decide
  · apply withinLimit_of_links ((diamond.links 1 ++ diamond.links 2 ++ diamond.links 3 ++
      diamond.links 4).map fun l => .via (.v4 l.linkData, ""))
    · intro r l hl
      refine mem_map.2 ⟨l, ?_, rfl⟩
      rw [links_diamond] at hl
      split_ifs at hl <;> revert l <;> decide
    · decide
  · intro u us _ hlink
    exact absurd (linked_diamond hlink).1 (by decide)
  · intro n c r us c' m _ _ _ _ hlink
    exact absurd rfl ((linked_diamond hlink).2 n)
  · intro r n c back hs
    obtain ⟨c', m, -, -, hs'⟩ := hs.tail
    obtain ⟨c'', m', hlink, -, -⟩ := hs'.tail
    exact absurd rfl ((linked_diamond hlink).2 n)

/-- A network that the root 1 reaches at 10 over its own link and over router 2: the link to 2 is at
5, and so is the link of 2 to the network. -/
def mixed : Graph where
  area := 0
  routers := (SortedMap.empty.put 1
      [⟨2, 0x0a000001#32, .p2p, 5⟩, ⟨9, 0x0a000901#32, .transit, 10⟩]).put 2
    [⟨1, 0x0a000002#32, .p2p, 5⟩, ⟨9, 0x0a000902#32, .transit, 5⟩]
  networks := SortedMap.empty.put 9 [1, 2]

lemma links_mixed (r : RouterId) : mixed.links r =
    if r = 2 then [⟨1, 0x0a000002#32, .p2p, 5⟩, ⟨9, 0x0a000902#32, .transit, 5⟩]
    else if r = 1 then [⟨2, 0x0a000001#32, .p2p, 5⟩, ⟨9, 0x0a000901#32, .transit, 10⟩]
    else [] := by
  unfold Graph.links mixed
  simp only [SortedMap.lookup_put, SortedMap.lookup_empty]
  split_ifs <;> rfl

/-- The mixed area meets every premise, and the network has lost its attachment: the next hop that
router 2 hands on fills the list that was empty. -/
theorem nextHops_mixed :
    mixed.routers.lookup 1 ≠ none ∧ SingleP2P mixed ∧ Resolvable mixed 1 ∧
      WithinLimit mixed 1 (effectiveMaxPaths 0) ∧
      ¬ ∀ v n, (compute mixed 1 0).nodes.lookup v = some n →
        ∀ h, Represented 1 n h ↔ h ∈ RfcHops mixed 1 v := by
  have hroot : mixed.routers.lookup 1 ≠ none := by decide
  refine ⟨hroot, ?_, ?_, ?_, fun hall => ?_⟩
  · apply singleP2P_of_length
    intro r
    rw [links_mixed]
    split_ifs <;> decide
  · intro l hl hp _
    rw [links_mixed, if_neg (by decide), if_pos rfl] at hl
    rcases mem_cons.1 hl with rfl | hl
    · decide
    · rw [mem_singleton.1 hl] at hp
      cases hp
  · apply withinLimit_of_links [.via (.v4 0x0a000002#32, ""), .via (.v4 0x0a000902#32, ""),
      .via (.v4 0x0a000001#32, ""), .via (.v4 0x0a000901#32, "")]
    · intro r l hl
      rw [links_mixed] at hl
      split_ifs at hl
      · rcases mem_cons.1 hl with rfl | hl
        · simp
        · rw [mem_singleton.1 hl]
          simp
      · rcases mem_cons.1 hl with rfl | hl
        · simp
        · rw [mem_singleton.1 hl]
          simp
      · cases hl
    · decide
  · have hn : (compute mixed 1 0).nodes.lookup (.network 9)
        = some ⟨.network 9, 10, [⟨.v4 0x0a000002#32, "", 2, false⟩]⟩ := by decide +kernel
    have hlabel : label mixed 1 8 (v4NextHop none) (.network 9) = some 10 := by decide +kernel
    have hlink : Linked mixed (.router 1) (.network 9) 10 :=
      .transit (l := ⟨9, 0x0a000901#32, .transit, 10⟩) (by decide) (by decide) (by decide)
    have hpath : IsPath (Linked mixed) (.router 1) [.network 9, .router 1] (0 + 10) :=
      ⟨.step .start hlink, by simp⟩
    obtain ⟨us, hs⟩ := (labels_search hroot 8 (v4NextHop none)).exists_shortest hlabel
    have hdirect : Hop.direct ∈ RfcHops mixed 1 (.network 9) :=
      ⟨[.router 1], 0 + 10, ⟨hpath, hs.least⟩, by decide, rfl⟩
    rcases (hall _ _ hn .direct).2 hdirect with ⟨-, hnil, -⟩ | ⟨x, -, hx⟩
    · cases hnil
    · cases hx

end Ze.OspfSpf
