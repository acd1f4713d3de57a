import Ze.Lib.ShortestPath
import Ze.OspfSpf.Compute

/-!
# The loop ends, and with the distances

The search settles a vertex again when its distance falls or its next hops grow, so nothing here
rests on the order of the heap: whatever is popped, a settled vertex has relaxed all its edges with
the distance and the next hops it has (`Inv.closed`), and one that changes is queued again.
-/

namespace Ze.OspfSpf

open Ze.Lib Ze.Net List
open SortedMap (lookup_put lookup_put_some)
open Option (some.inj)
open Function (update update_eq_self update_idem update_self)

/-! ## The links that pass the two-way check -/

/-- A link of the area that both its ends describe. Source: RFC 2328 Section 16.1 (2)(b), as
spf.go cites it. -/
inductive Linked (g : Graph) : VertexId → VertexId → ℕ → Prop
  | p2p {r : RouterId} {l : RouterLink} (hl : l ∈ g.links r) (ht : l.isP2P = true)
      (hback : twoWayRouterLink g r l.linkId = true) :
      Linked g (.router r) (.router l.linkId) l.metric.toNat
  | transit {r : RouterId} {l : RouterLink} (hl : l ∈ g.links r) (ht : l.isTransit = true)
      (hback : twoWayRouterNetworkLink g r l.linkId = true) :
      Linked g (.router r) (.network l.linkId) l.metric.toNat
  | attached {n : LinkStateId} {r : RouterId} (hr : r ∈ g.attached n)
      (hback : twoWayRouterNetworkLink g r n = true) :
      Linked g (.network n) (.router r) 0

lemma RouterLink.isP2P_of_isTransit {l : RouterLink} (h : l.isTransit) : l.isP2P = false := by
  unfold RouterLink.isTransit at h
  unfold RouterLink.isP2P
  rw [decide_eq_true_eq] at h
  rw [h]
  rfl

section

variable {g : Graph} (cur : Tent) (root : RouterId) (nh : NextHopSource)

variable {r : RouterId}

lemma p2p_mem_transitEdges {l : RouterLink} (hl : l ∈ g.links r)
    (ht : l.isP2P) (hback : twoWayRouterLink g r l.linkId) :
    ⟨.router l.linkId, l.metric.toNat, nextHopsForP2P g cur (.router r) root l.linkId l nh⟩ ∈
      transitEdges g (.router r) cur root nh := by
  refine mem_filterMap.2 ⟨l, hl, ?_⟩
  unfold linkEdge
  rw [if_pos ht, if_pos hback]

lemma transit_mem_transitEdges {l : RouterLink} (hl : l ∈ g.links r)
    (ht : l.isTransit) (hback : twoWayRouterNetworkLink g r l.linkId) :
    ⟨.network l.linkId, l.metric.toNat, cur.nextHops⟩ ∈ transitEdges g (.router r) cur root nh := by
  refine mem_filterMap.2 ⟨l, hl, ?_⟩
  unfold linkEdge
  rw [if_neg (by rw [RouterLink.isP2P_of_isTransit ht]; simp), if_pos ht, if_pos hback]

lemma attached_mem_transitEdges {n : LinkStateId} (hr : r ∈ g.attached n)
    (hback : twoWayRouterNetworkLink g r n) :
    ⟨.router r, 0, nextHopsForNetwork g cur n root r nh⟩ ∈
      transitEdges g (.network n) cur root nh := by
  refine mem_filterMap.2 ⟨r, hr, ?_⟩
  unfold attachedEdge
  rw [if_pos hback]

variable {cur root nh}

lemma transitEdges_cases {u : VertexId} {e : Edge} (he : e ∈ transitEdges g u cur root nh) :
    (∃ r l, u = .router r ∧ l ∈ g.links r ∧ l.isP2P ∧
      twoWayRouterLink g r l.linkId ∧
      e = ⟨.router l.linkId, l.metric.toNat, nextHopsForP2P g cur u root l.linkId l nh⟩) ∨
    (∃ r l, u = .router r ∧ l ∈ g.links r ∧ l.isTransit ∧
      twoWayRouterNetworkLink g r l.linkId ∧
      e = ⟨.network l.linkId, l.metric.toNat, cur.nextHops⟩) ∨
    (∃ n r, u = .network n ∧ r ∈ g.attached n ∧ twoWayRouterNetworkLink g r n ∧
      e = ⟨.router r, 0, nextHopsForNetwork g cur n root r nh⟩) := by
  cases u with
  | router r =>
    obtain ⟨l, hl, hle⟩ := mem_filterMap.1 he
    unfold linkEdge at hle
    split_ifs at hle with h1 h2 h3 h4 <;> cases hle
    · exact .inl ⟨r, l, rfl, hl, h1, h2, rfl⟩
    · exact .inr (.inl ⟨r, l, rfl, hl, h3, h4, rfl⟩)
  | network n =>
    obtain ⟨r, hr, hle⟩ := mem_filterMap.1 he
    unfold attachedEdge at hle
    split_ifs at hle with h1
    cases hle
    exact .inr (.inr ⟨n, r, rfl, hr, h1, rfl⟩)

lemma linked_iff {u v : VertexId} {m : ℕ} (cur : Tent) (root : RouterId) (nh : NextHopSource) :
    Linked g u v m ↔ ∃ e ∈ transitEdges g u cur root nh, e.toId = v ∧ e.metric = m := by
  constructor
  · intro h
    cases h with
    | p2p hl ht hback => exact ⟨_, p2p_mem_transitEdges cur root nh hl ht hback, rfl, rfl⟩
    | transit hl ht hback => exact ⟨_, transit_mem_transitEdges cur root nh hl ht hback, rfl, rfl⟩
    | attached hr hback => exact ⟨_, attached_mem_transitEdges cur root nh hr hback, rfl, rfl⟩
  · rintro ⟨e, he, rfl, rfl⟩
    rcases transitEdges_cases he with
      ⟨r, l, rfl, hl, ht, hback, rfl⟩ | ⟨r, l, rfl, hl, ht, hback, rfl⟩ | ⟨n, r, rfl, hr, hback,
        rfl⟩
    · exact .p2p hl ht hback
    · exact .transit hl ht hback
    · exact .attached hr hback

end

lemma Graph.router_mem_vertices {g : Graph} {r : RouterId} :
    VertexId.router r ∈ g.vertices ↔ g.routers.lookup r ≠ none := by
  unfold Graph.vertices
  simp [SortedMap.mem_keys_iff, Option.ne_none_iff_exists']

lemma Graph.mem_vertices_of_link {g : Graph} {r : RouterId} {l : RouterLink}
    (h : l ∈ g.links r) : VertexId.router r ∈ g.vertices := by
  rw [Graph.router_mem_vertices]
  intro hnone
  unfold Graph.links at h
  rw [hnone] at h
  cases h

lemma Linked.mem_vertices {g : Graph} {u v : VertexId} {m : ℕ} (h : Linked g u v m) :
    v ∈ g.vertices := by
  rcases h with ⟨_, _, hback⟩ | ⟨_, _, hback⟩ | ⟨_, hback⟩
  · obtain ⟨l', hl', -⟩ := any_eq_true.1 hback
    exact Graph.mem_vertices_of_link hl'
  · unfold twoWayRouterNetworkLink at hback
    rw [Bool.and_eq_true] at hback
    have hin := hback.1
    unfold Graph.attached at hin
    unfold Graph.vertices
    refine mem_append.2 (.inr (mem_map.2 ⟨_, ?_, rfl⟩))
    rw [SortedMap.mem_keys_iff]
    rcases hl : g.networks.lookup _ with _ | rs
    · rw [hl] at hin
      cases hin
    · exact ⟨rs, rfl⟩
  · unfold twoWayRouterNetworkLink at hback
    rw [Bool.and_eq_true] at hback
    obtain ⟨l', hl', -⟩ := any_eq_true.1 hback.2
    exact Graph.mem_vertices_of_link hl'

/-! ## Lists of next hops -/

variable {a : List NextHop} {h : NextHop}

lemma containsNextHop_append {b : List NextHop} :
    containsNextHop (a ++ b) h = (containsNextHop a h || containsNextHop b h) :=
  any_append

lemma containsNextHop_iff {hops : List NextHop} :
    containsNextHop hops h ↔ h.key ∈ hops.map NextHop.key := by
  unfold containsNextHop
  rw [any_eq_true, mem_map]
  simp

lemma addNextHop_cases (k : ℕ) (out : List NextHop) (x : NextHop) :
    (addNextHop k out x = out ∧ (x.addr.isValid → containsNextHop out x ∨ k ≤ out.length)) ∨
    (addNextHop k out x = out ++ [x] ∧ x.addr.isValid ∧ containsNextHop out x = false ∧
      out.length < k) := by
  unfold addNextHop
  by_cases hv : x.addr.isValid
  swap
  · rw [if_pos (by simpa using hv)]
    exact .inl ⟨rfl, fun h => absurd h hv⟩
  rw [if_neg (by simp [hv])]
  by_cases hc : containsNextHop out x
  · rw [if_pos hc]
    exact .inl ⟨rfl, fun _ => .inl hc⟩
  rw [if_neg hc]
  by_cases hk : k ≤ out.length
  · rw [if_pos hk]
    exact .inl ⟨rfl, fun _ => .inr hk⟩
  · rw [if_neg hk]
    exact .inr ⟨rfl, hv, Bool.not_eq_true _ ▸ hc, by omega⟩

lemma mergeNextHops_append (a b : List NextHop) (k : ℕ) :
    ∃ ext, mergeNextHops a b k = a ++ ext ∧ ∀ h ∈ ext, h ∈ b ∧ h.addr.isValid := by
  unfold mergeNextHops
  induction b generalizing a with
  | nil => exact ⟨[], by simp, by simp⟩
  | cons x b ih =>
    rw [foldl_cons]
    obtain ⟨ext, heq, hext⟩ := ih (addNextHop k a x)
    rw [heq]
    rcases addNextHop_cases k a x with ⟨hadd, -⟩ | ⟨hadd, hv, -, -⟩
    · rw [hadd]
      exact ⟨ext, rfl, fun h hh => ⟨mem_cons_of_mem _ (hext h hh).1, (hext h hh).2⟩⟩
    · rw [hadd, append_assoc]
      refine ⟨[x] ++ ext, rfl, fun h hh => ?_⟩
      rcases mem_cons.1 hh with rfl | hh
      · exact ⟨mem_cons_self, hv⟩
      · exact ⟨mem_cons_of_mem _ (hext h hh).1, (hext h hh).2⟩

lemma length_mergeNextHops_le (b : List NextHop) {k : ℕ}
    (h : a.length ≤ k) : (mergeNextHops a b k).length ≤ k := by
  refine foldlRecOn (motive := (·.length ≤ k)) b (addNextHop k) h fun out h x _ => ?_
  rcases addNextHop_cases k out x with ⟨hadd, -⟩ | ⟨hadd, -, -, hlt⟩
  · rwa [hadd]
  · rw [hadd, length_append, length_singleton]
    exact hlt

lemma nodup_mergeNextHops (b : List NextHop) (k : ℕ)
    (h : (a.map NextHop.key).Nodup) : ((mergeNextHops a b k).map NextHop.key).Nodup := by
  refine foldlRecOn (motive := fun l => (l.map NextHop.key).Nodup) b (addNextHop k) h
    fun out h x _ => ?_
  rcases addNextHop_cases k out x with ⟨hadd, -⟩ | ⟨hadd, -, hc, -⟩
  · rwa [hadd]
  · rw [hadd, map_append, map_singleton]
    refine nodup_append'.2 ⟨h, nodup_singleton _, ?_⟩
    rw [disjoint_singleton]
    intro hmem
    rw [containsNextHop_iff.2 hmem] at hc
    cases hc

lemma contains_mergeNextHops (a b : List NextHop) (k : ℕ) (hh : h ∈ b)
    (hv : h.addr.isValid) :
    containsNextHop (mergeNextHops a b k) h ∨ k ≤ (mergeNextHops a b k).length := by
  unfold mergeNextHops
  induction b generalizing a with
  | nil => cases hh
  | cons x b ih =>
    rw [foldl_cons]
    rcases mem_cons.1 hh with rfl | hh
    · obtain ⟨ext, heq, -⟩ := mergeNextHops_append (addNextHop k a h) b k
      unfold mergeNextHops at heq
      rw [heq]
      rcases addNextHop_cases k a h with ⟨hadd, hin⟩ | ⟨hadd, -, -, -⟩
      · rw [hadd]
        rcases hin hv with hc | hc
        · exact .inl (by rw [containsNextHop_append, hc]; rfl)
        · exact .inr (by rw [length_append]; omega)
      · left
        rw [hadd]
        simp [containsNextHop]
    · exact ih (addNextHop k a x) hh

lemma mergeNextHops_full {k : ℕ} (b : List NextHop) (h : k ≤ a.length) :
    mergeNextHops a b k = a := by
  refine foldlRecOn (motive := (· = a)) b (addNextHop k) rfl fun out hout x _ => ?_
  rw [hout, addNextHop, if_pos h]
  simp

lemma capNextHops_eq (k : ℕ) (l out : List NextHop) :
    capNextHops k l out = mergeNextHops out l k := by
  induction l generalizing out with
  | nil => rfl
  | cons x l ih =>
    have hcons : mergeNextHops out (x :: l) k = mergeNextHops (addNextHop k out x) l k := rfl
    unfold capNextHops
    rw [hcons]
    unfold addNextHop
    by_cases hv : x.addr.isValid
    · by_cases hc : containsNextHop out x
      · simp [hv, hc, ih]
      · by_cases hk : k ≤ out.length
        · simp [hv, hc, hk, mergeNextHops_full]
        · simp [hv, hc, hk, ih]
    · simp [hv, ih]

lemma contains_merge_cap (a hops : List NextHop) (k : ℕ) (hh : h ∈ hops)
    (hv : h.addr.isValid) :
    containsNextHop (mergeNextHops a (capNextHops k hops []) k) h ∨
      k ≤ (mergeNextHops a (capNextHops k hops []) k).length := by
  rw [capNextHops_eq]
  obtain ⟨ext, hcap, hvalid⟩ := mergeNextHops_append [] hops k
  rw [nil_append] at hcap
  have hnodup := nodup_mergeNextHops (a := []) hops k nodup_nil
  rcases contains_mergeNextHops [] hops k hh hv with hc | hfull
  · obtain ⟨x, hx, hkey⟩ := mem_map.1 (containsNextHop_iff.1 hc)
    have hxv : x.addr.isValid := (hvalid x (hcap ▸ hx)).2
    rcases contains_mergeNextHops a _ k hx hxv with hc' | hc'
    · left
      rw [containsNextHop_iff, ← hkey]
      exact containsNextHop_iff.1 hc'
    · exact .inr hc'
  · -- the capped list is full: if nothing is left out, it fits into the merged one
    by_cases hlen : k ≤ (mergeNextHops a (mergeNextHops [] hops k) k).length
    · exact .inr hlen
    have hsub : (mergeNextHops [] hops k).map NextHop.key ⊆
        (mergeNextHops a (mergeNextHops [] hops k) k).map NextHop.key := by
      intro y hy
      obtain ⟨x, hx, rfl⟩ := mem_map.1 hy
      have hxv : x.addr.isValid := (hvalid x (hcap ▸ hx)).2
      rcases contains_mergeNextHops a _ k hx hxv with hc' | hc'
      · exact containsNextHop_iff.1 hc'
      · exact absurd hc' hlen
    have hle := (subperm_of_subset hnodup hsub).length_le
    rw [length_map, length_map] at hle
    omega

/-! ## One relaxation -/

lemma clampMetric_eq {base delta : ℕ} (h : base + delta < lsInfinity) :
    clampMetric base delta = base + delta := by
  have hsum : (base + delta) % 2 ^ 64 = base + delta := by
    apply Nat.mod_eq_of_lt
    unfold lsInfinity at h
    omega
  unfold clampMetric
  simp only [hsum]
  split_ifs <;> omega

lemma clampMetric_ge {base delta : ℕ} (hb : base < lsInfinity) (hd : delta < 2 ^ 16)
    (h : lsInfinity ≤ base + delta) : clampMetric base delta = lsInfinity := by
  have hsum : (base + delta) % 2 ^ 64 = base + delta := by
    apply Nat.mod_eq_of_lt
    unfold lsInfinity at hb
    omega
  unfold clampMetric
  simp only [hsum]
  split_ifs <;> omega

/-- What one relaxation can do: nothing, where the sum is too large, the target is closer, or it has
all the next hops at the same distance; or a write of the target, which is queued again. -/
lemma relax_cases (cur : Tent) (k : ℕ) (s : State) (e : Edge) (hcur : cur.dist < lsInfinity)
    (hm : e.metric < 2 ^ 16) :
    (relax cur k s e = s ∧
      (cur.dist + e.metric < lsInfinity →
        ∃ nt, s.tents.lookup e.toId = some nt ∧
          (nt.dist < cur.dist + e.metric ∨
            (nt.dist = cur.dist + e.metric ∧
              mergeNextHops nt.nextHops (capNextHops k e.nextHops []) k = nt.nextHops)))) ∨
    (cur.dist + e.metric < lsInfinity ∧ ∃ t' : Tent,
      t'.dist = cur.dist + e.metric ∧ t'.settled = false ∧
      relax cur k s e =
        { heap := Heap.push HeapItem.less s.heap ⟨e.toId, cur.dist + e.metric⟩
          tents := s.tents.put e.toId t' } ∧
      ((t'.nextHops = capNextHops k e.nextHops [] ∧
          ∀ nt, s.tents.lookup e.toId = some nt → cur.dist + e.metric < nt.dist) ∨
        ∃ nt, s.tents.lookup e.toId = some nt ∧ nt.dist = cur.dist + e.metric ∧
          t'.nextHops = mergeNextHops nt.nextHops (capNextHops k e.nextHops []) k ∧
          t'.nextHops.length ≠ nt.nextHops.length)) := by
  unfold relax
  by_cases hsum : cur.dist + e.metric < lsInfinity
  swap
  · simp only [clampMetric_ge hcur hm (by omega)]
    rw [if_pos le_rfl]
    exact .inl ⟨rfl, fun h => absurd h hsum⟩
  simp only [clampMetric_eq hsum]
  rw [if_neg (by omega)]
  rcases hl : s.tents.lookup e.toId with _ | nt
  · exact .inr ⟨hsum, _, rfl, rfl, rfl, .inl ⟨rfl, by simp⟩⟩
  simp only
  by_cases hlt : cur.dist + e.metric < nt.dist
  · rw [if_pos hlt]
    refine .inr ⟨hsum, _, rfl, rfl, rfl, .inl ⟨rfl, ?_⟩⟩
    rintro _ ⟨⟩
    exact hlt
  rw [if_neg hlt]
  by_cases heq : cur.dist + e.metric = nt.dist
  · rw [if_pos heq]
    by_cases hlen : (mergeNextHops nt.nextHops (capNextHops k e.nextHops []) k).length
        = nt.nextHops.length
    · rw [if_neg (by simpa using hlen)]
      refine .inl ⟨rfl, fun _ => ⟨nt, rfl, .inr ⟨heq.symm, ?_⟩⟩⟩
      obtain ⟨ext, hext, -⟩ := mergeNextHops_append nt.nextHops (capNextHops k e.nextHops []) k
      rw [hext, length_append] at hlen
      rw [hext, length_eq_zero_iff.1 (by omega : ext.length = 0), append_nil]
    · rw [if_pos hlen]
      refine .inr ⟨hsum, ⟨nt.dist, _, false⟩, heq.symm, rfl, rfl, .inr ⟨nt, rfl, ?_, rfl, hlen⟩⟩
      exact heq.symm
  · rw [if_neg heq]
    exact .inl ⟨rfl, fun _ => ⟨nt, rfl, .inl (by omega)⟩⟩

/-! ## The invariant -/

/-- The target of an edge that was relaxed from a vertex at distance `d` is closer, or at the sum
with every next hop of the edge unless the limit is reached. -/
def Relaxed (k : ℕ) (tents : SortedMap VertexId Tent) (d : ℕ) (e : Edge) : Prop :=
  d + e.metric < lsInfinity →
    ∃ t, tents.lookup e.toId = some t ∧
      (t.dist < d + e.metric ∨
        (t.dist = d + e.metric ∧
          ∀ h ∈ e.nextHops, h.addr.isValid = true →
            containsNextHop t.nextHops h = true ∨ k ≤ t.nextHops.length))

/-- What holds after every relaxation; `todo` are the edges still to relax out of each settled
vertex.
Source: spf.go computeWithNextHop. -/
structure Inv (g : Graph) (root : RouterId) (k : ℕ) (nh : NextHopSource)
    (todo : VertexId → List Edge) (s : State) : Prop where
  atRoot : ∃ t, s.tents.lookup (.router root) = some t ∧ t.dist = 0
  real : ∀ v t, s.tents.lookup v = some t →
    t.dist < lsInfinity ∧ ∃ us, Trail (Linked g) (.router root) (v :: us) t.dist
  inside : ∀ v t, s.tents.lookup v = some t → v ∈ g.vertices ∧ t.nextHops.length ≤ k
  distinct : ∀ v t, s.tents.lookup v = some t →
    (t.nextHops.map NextHop.key).Nodup ∧ ∀ h ∈ t.nextHops, h.addr.isValid = true
  queued : ∀ v t, s.tents.lookup v = some t → t.settled = false → ⟨v, t.dist⟩ ∈ s.heap
  items : ∀ i ∈ s.heap, ∃ t, s.tents.lookup i.id = some t ∧ t.dist ≤ i.dist
  closed : ∀ u t, s.tents.lookup u = some t → t.settled = true →
    ∀ e ∈ transitEdges g u t root nh, e ∈ todo u ∨ Relaxed k s.tents t.dist e

section

variable {g : Graph} {root : RouterId} {k : ℕ} {nh : NextHopSource} {todo : VertexId → List Edge}
  {s : State} {c : VertexId} {cur : Tent} {e : Edge} {es : List Edge}

lemma metric_lt {u : VertexId} (he : e ∈ transitEdges g u cur root nh) : e.metric < 2 ^ 16 := by
  rcases transitEdges_cases he with
    ⟨r, l, rfl, -, -, -, rfl⟩ | ⟨r, l, rfl, -, -, -, rfl⟩ | ⟨n, r, rfl, -, -, rfl⟩
  · exact l.metric.toNat_lt
  · exact l.metric.toNat_lt
  · exact Nat.two_pow_pos 16

lemma Relaxed.put {tents : SortedMap VertexId Tent} {d : ℕ} {e : Edge} {v : VertexId} {t' : Tent}
    (h : Relaxed k tents d e) (hold : ∀ nt, tents.lookup v = some nt → t'.dist < nt.dist ∨
      (t'.dist = nt.dist ∧ ∃ ext, t'.nextHops = nt.nextHops ++ ext)) :
    Relaxed k (tents.put v t') d e := by
  intro hsum
  obtain ⟨t, ht, hcase⟩ := h hsum
  rw [lookup_put]
  by_cases hv : e.toId = v
  · refine ⟨t', by rw [if_pos hv], ?_⟩
    rw [hv] at ht
    rcases hold t ht with hlt | ⟨heq, ext, hext⟩
    · left
      rcases hcase with h1 | ⟨h1, -⟩ <;> omega
    · rcases hcase with h1 | ⟨h1, hops⟩
      · left
        omega
      · refine .inr ⟨by omega, fun h hh hval => ?_⟩
        rw [hext]
        rcases hops h hh hval with hc | hc
        · exact .inl (by rw [containsNextHop_append, hc]; rfl)
        · exact .inr (by rw [length_append]; omega)
  · exact ⟨t, by rw [if_neg hv, ht], hcase⟩

lemma Inv.relax (I : Inv g root k nh todo s) (htodo : todo c = e :: es)
    (he : e ∈ transitEdges g c cur root nh) (hd : cur.dist < lsInfinity)
    (htr : ∃ us, Trail (Linked g) (.router root) (c :: us) cur.dist)
    (hc : ∀ t, s.tents.lookup c = some t → t.settled → t.dist = cur.dist) :
    Inv g root k nh (update todo c es) (relax cur k s e) ∧
      ∀ t, (relax cur k s e).tents.lookup c = some t → t.settled → t.dist = cur.dist := by
  have hlinked : Linked g c e.toId e.metric := (linked_iff cur root nh).2 ⟨e, he, rfl, rfl⟩
  -- an edge that was waiting is either this one or waits still
  have hwait : ∀ u e', e' ∈ todo u → (u = c ∧ e' = e) ∨ e' ∈ update todo c es u := by
    intro u e' he'
    by_cases hu : u = c
    · subst hu
      rw [htodo] at he'
      rw [update_self]
      rcases mem_cons.1 he' with h | h
      · exact .inl ⟨rfl, h⟩
      · exact .inr h
    · rw [Function.update_of_ne hu]
      exact .inr he'
  rcases relax_cases cur k s e hd (metric_lt he) with
    ⟨heq, hskip⟩ | ⟨hsum, t', hdt, hns, heq, hcase⟩
  · rw [heq]
    refine ⟨{ I with closed := ?_ }, hc⟩
    intro u t ht hset e' he'
    rcases I.closed u t ht hset e' he' with hw | hr
    · rcases hwait u e' hw with ⟨rfl, rfl⟩ | hw'
      · right
        intro hsum
        rw [hc t ht hset] at hsum ⊢
        obtain ⟨nt, hnt, h1 | ⟨h1, h2⟩⟩ := hskip hsum
        · exact ⟨nt, hnt, .inl h1⟩
        · refine ⟨nt, hnt, .inr ⟨h1, fun h hh hval => ?_⟩⟩
          have := contains_merge_cap nt.nextHops e'.nextHops k hh hval
          rwa [h2] at this
      · exact .inl hw'
    · exact .inr hr
  · rw [heq]
    -- the target is closer than it was, or has more next hops at the same distance
    have hold : ∀ nt, s.tents.lookup e.toId = some nt → t'.dist < nt.dist ∨
        (t'.dist = nt.dist ∧ ∃ ext, t'.nextHops = nt.nextHops ++ ext) := by
      intro nt hnt
      rcases hcase with ⟨-, hlt⟩ | ⟨nt', hnt', hdn, hmerge, -⟩
      · left
        have := hlt nt hnt
        omega
      · rw [hnt] at hnt'
        cases hnt'
        obtain ⟨ext, hext, -⟩ := mergeNextHops_append nt.nextHops (capNextHops k e.nextHops []) k
        exact .inr ⟨by omega, ext, by rw [hmerge, hext]⟩
    have hlen : t'.nextHops.length ≤ k := by
      rcases hcase with ⟨hcap, -⟩ | ⟨nt, hnt, -, hmerge, -⟩
      · rw [hcap, capNextHops_eq]
        exact length_mergeNextHops_le _ (Nat.zero_le _)
      · rw [hmerge]
        exact length_mergeNextHops_le _ (I.inside _ nt hnt).2
    have hdist : (t'.nextHops.map NextHop.key).Nodup ∧ ∀ h ∈ t'.nextHops, h.addr.isValid =
        true := by
      rcases hcase with ⟨hcap, -⟩ | ⟨nt, hnt, -, hmerge, -⟩
      · rw [hcap, capNextHops_eq]
        refine ⟨nodup_mergeNextHops _ k nodup_nil, fun h hh => ?_⟩
        obtain ⟨ext, hext, hval⟩ := mergeNextHops_append [] e.nextHops k
        rw [hext] at hh
        exact (hval h hh).2
      · rw [hmerge]
        refine ⟨nodup_mergeNextHops _ k (I.distinct _ nt hnt).1, fun h hh => ?_⟩
        obtain ⟨ext, hext, hval⟩ := mergeNextHops_append nt.nextHops (capNextHops k e.nextHops []) k
        rw [hext] at hh
        rcases mem_append.1 hh with hh | hh
        · exact (I.distinct _ nt hnt).2 h hh
        · exact (hval h hh).2
    have hhops : ∀ h ∈ e.nextHops, h.addr.isValid →
        containsNextHop t'.nextHops h ∨ k ≤ t'.nextHops.length := by
      intro h hh hval
      rcases hcase with ⟨hcap, -⟩ | ⟨nt, -, -, hmerge, -⟩
      · rw [hcap, capNextHops_eq]
        exact contains_mergeNextHops [] _ k hh hval
      · rw [hmerge]
        exact contains_merge_cap _ _ k hh hval
    have hput : ∀ v, (s.tents.put e.toId t').lookup v
        = if v = e.toId then some t' else s.tents.lookup v := fun v =>
      lookup_put s.tents e.toId v t'
    refine ⟨⟨?_, ?_, ?_, ?_, ?_, ?_, ?_⟩, ?_⟩
    · -- the root
      obtain ⟨t, ht, hd0⟩ := I.atRoot
      rw [hput]
      by_cases hv : VertexId.router root = e.toId
      · refine ⟨t', by rw [if_pos hv], ?_⟩
        rcases hold t (hv ▸ ht) with h | ⟨h, -⟩ <;> omega
      · exact ⟨t, by rw [if_neg hv, ht], hd0⟩
    · -- real
      intro v t ht
      rcases lookup_put_some ht with ⟨hv, rfl⟩ | ⟨hv, ht⟩
      · obtain ⟨us, htr⟩ := htr
        rw [hdt, hv]
        exact ⟨hsum, c :: us, .step htr hlinked⟩
      · exact I.real v t ht
    · -- inside
      intro v t ht
      rcases lookup_put_some ht with ⟨hv, rfl⟩ | ⟨hv, ht⟩
      · rw [hv]
        exact ⟨hlinked.mem_vertices, hlen⟩
      · exact I.inside v t ht
    · -- distinct
      intro v t ht
      rcases lookup_put_some ht with ⟨hv, rfl⟩ | ⟨hv, ht⟩
      · exact hdist
      · exact I.distinct v t ht
    · -- queued
      intro v t ht hset
      rcases lookup_put_some ht with ⟨hv, rfl⟩ | ⟨hv, ht⟩
      · exact Heap.mem_push.2 (.inl (by rw [hv, hdt]))
      · exact Heap.mem_push.2 (.inr (I.queued v t ht hset))
    · -- items
      intro i hi
      rcases Heap.mem_push.1 hi with rfl | hi
      · exact ⟨t', by rw [hput, if_pos rfl], hdt.le⟩
      · obtain ⟨t, ht, hle⟩ := I.items i hi
        by_cases hv : i.id = e.toId
        · refine ⟨t', by rw [hput, if_pos hv], ?_⟩
          rcases hold t (hv ▸ ht) with h | ⟨h, -⟩ <;> omega
        · exact ⟨t, by rw [hput, if_neg hv, ht], hle⟩
    · -- closed
      intro u t ht hset e' he'
      rcases lookup_put_some ht with ⟨hv, rfl⟩ | ⟨hv, hu⟩
      · rw [hns] at hset
        cases hset
      · rcases I.closed u t hu hset e' he' with hw | hr
        · rcases hwait u e' hw with ⟨rfl, rfl⟩ | hw'
          · right
            intro _
            rw [hc t hu hset]
            exact ⟨t', by rw [hput, if_pos rfl], .inr ⟨hdt, hhops⟩⟩
          · exact .inl hw'
        · exact .inr (hr.put hold)
    · -- the vertex whose edges are relaxed
      intro t ht hset
      rcases lookup_put_some ht with ⟨hv, rfl⟩ | ⟨hv, ht⟩
      · rw [hns] at hset
        cases hset
      · exact hc t ht hset

lemma Inv.relaxAll (cur : Tent) (I : Inv g root k nh todo s) (htodo : todo c = es)
    (hes : ∀ e ∈ es, e ∈ transitEdges g c cur root nh) (hd : cur.dist < lsInfinity)
    (htr : ∃ us, Trail (Linked g) (.router root) (c :: us) cur.dist)
    (hc : ∀ t, s.tents.lookup c = some t → t.settled → t.dist = cur.dist) :
    Inv g root k nh (update todo c []) (es.foldl (OspfSpf.relax cur k) s) := by
  induction es generalizing todo s with
  | nil =>
    have hsame : update todo c [] = todo := by
      conv_rhs => rw [← update_eq_self c todo, htodo]
    rw [hsame]
    exact I
  | cons e es ih =>
    obtain ⟨I', hc'⟩ := I.relax htodo (hes e mem_cons_self) hd htr hc
    have hrest := ih I' (update_self _ _ _) (fun e' he' => hes e' (mem_cons_of_mem _ he')) hc'
    rw [update_idem] at hrest
    exact hrest

variable {item : HeapItem} {heap : List HeapItem}

lemma Inv.drop (I : Inv g root k nh todo s)
    (hpop : Heap.pop HeapItem.less s.heap = some (item, heap))
    (hstale : ∀ t, s.tents.lookup item.id = some t → t.settled = false → t.dist < item.dist) :
    Inv g root k nh todo { s with heap := heap } := by
  refine { I with queued := ?_, items := ?_ }
  · intro v t ht hset
    rcases (Heap.mem_pop hpop).1 (I.queued v t ht hset) with h | h
    · subst h
      exact absurd (hstale t ht hset) (by simp)
    · exact h
  · exact fun i hi => I.items i ((Heap.mem_pop hpop).2 (.inr hi))

lemma Inv.settle (I : Inv g root k nh (fun _ => []) s)
    (hpop : Heap.pop HeapItem.less s.heap = some (item, heap))
    (hc : s.tents.lookup item.id = some cur) :
    Inv g root k nh (update (fun _ => []) item.id (transitEdges g item.id cur root nh))
      { heap := heap, tents := s.tents.put item.id { cur with settled := true } } := by
  have hput : ∀ v, (s.tents.put item.id { cur with settled := true }).lookup v
      = if v = item.id then some { cur with settled := true } else s.tents.lookup v := fun v =>
    lookup_put s.tents item.id v _
  have hold : ∀ v t, (s.tents.put item.id { cur with settled := true }).lookup v = some t →
      ∃ t₀, s.tents.lookup v = some t₀ ∧ t₀.dist = t.dist ∧ t₀.nextHops = t.nextHops := by
    intro v t ht
    rcases lookup_put_some ht with ⟨hv, rfl⟩ | ⟨hv, ht⟩
    · exact ⟨cur, by rw [hv, hc], rfl, rfl⟩
    · exact ⟨t, ht, rfl, rfl⟩
  have hkeep : ∀ v t₀, s.tents.lookup v = some t₀ →
      ∃ t, (s.tents.put item.id { cur with settled := true }).lookup v = some t ∧
        t.dist = t₀.dist ∧ t.nextHops = t₀.nextHops := by
    intro v t₀ ht
    rw [hput]
    by_cases hv : v = item.id
    · rw [hv, hc] at ht
      cases ht
      exact ⟨{ cur with settled := true }, by rw [if_pos hv], rfl, rfl⟩
    · exact ⟨t₀, by rw [if_neg hv, ht], rfl, rfl⟩
  refine ⟨?_, ?_, ?_, ?_, ?_, ?_, ?_⟩
  · obtain ⟨t₀, ht₀, hd⟩ := I.atRoot
    obtain ⟨t, ht, hdt, -⟩ := hkeep _ t₀ ht₀
    exact ⟨t, ht, by omega⟩
  · intro v t ht
    obtain ⟨t₀, ht₀, hd, -⟩ := hold v t ht
    rw [← hd]
    exact I.real v t₀ ht₀
  · intro v t ht
    obtain ⟨t₀, ht₀, -, hh⟩ := hold v t ht
    rw [← hh]
    exact I.inside v t₀ ht₀
  · intro v t ht
    obtain ⟨t₀, ht₀, -, hh⟩ := hold v t ht
    rw [← hh]
    exact I.distinct v t₀ ht₀
  · intro v t ht hset
    rcases lookup_put_some ht with ⟨hv, rfl⟩ | ⟨hv, ht⟩
    · cases hset
    · rcases (Heap.mem_pop hpop).1 (I.queued v t ht hset) with h | h
      · exact absurd (congrArg HeapItem.id h) hv
      · exact h
  · intro i hi
    obtain ⟨t₀, ht₀, hle⟩ := I.items i ((Heap.mem_pop hpop).2 (.inr hi))
    obtain ⟨t, ht, hd, -⟩ := hkeep _ t₀ ht₀
    exact ⟨t, ht, by omega⟩
  · intro u t ht hset e he
    rw [hput] at ht
    by_cases hu : u = item.id
    · subst hu
      rw [if_pos rfl] at ht
      cases ht
      rw [update_self]
      exact .inl he
    · rw [if_neg hu] at ht
      rcases I.closed u t ht hset e he with hw | hr
      · cases hw
      · right
        intro hsum
        obtain ⟨t₀, ht₀, hcase⟩ := hr hsum
        obtain ⟨t₁, ht₁, hd, hh⟩ := hkeep _ t₀ ht₀
        refine ⟨t₁, ht₁, ?_⟩
        rw [hd, hh]
        exact hcase

lemma Inv.visit (I : Inv g root k nh (fun _ => []) s)
    (hpop : Heap.pop HeapItem.less s.heap = some (item, heap)) :
    Inv g root k nh (fun _ => []) (visit g root k nh { s with heap := heap } item) := by
  obtain ⟨cur, hc, -⟩ := I.items item ((Heap.mem_pop hpop).2 (.inl rfl))
  unfold OspfSpf.visit
  simp only [hc]
  by_cases hset : cur.settled
  · rw [if_pos hset]
    refine I.drop hpop fun t ht hns => ?_
    rw [hc] at ht
    cases ht
    rw [hset] at hns
    cases hns
  rw [if_neg hset]
  by_cases hlt : cur.dist < item.dist
  · rw [if_pos hlt]
    refine I.drop hpop fun t ht _ => ?_
    rw [hc] at ht
    cases ht
    exact hlt
  rw [if_neg hlt]
  have I' := (I.settle hpop hc).relaxAll cur (update_self _ _ _) (fun _ he => he)
    (I.real _ cur hc).1 (I.real _ cur hc).2 (by
      intro t ht _
      rw [lookup_put, if_pos rfl] at ht
      cases ht
      rfl)
  have htodo : update (fun _ : VertexId => ([] : List Edge)) item.id [] = fun _ => [] :=
    update_eq_self item.id (fun _ : VertexId => ([] : List Edge))
  rw [update_idem, htodo] at I'
  exact I'

lemma Inv.loop (n : ℕ) (I : Inv g root k nh (fun _ => []) s) :
    Inv g root k nh (fun _ => []) (loop g root k nh n s) := by
  induction n generalizing s with
  | zero => exact I
  | succ n ih =>
    unfold OspfSpf.loop
    rcases hpop : Heap.pop HeapItem.less s.heap with _ | ⟨item, heap⟩
    · exact I
    · exact ih (I.visit hpop)

lemma inv_start (hroot : g.routers.lookup root ≠ none) :
    Inv g root k nh (fun _ => []) (start root) := by
  have hput : ∀ v, (start root).tents.lookup v
      = if v = .router root then some { dist := 0 } else none := by
    intro v
    unfold start
    rw [lookup_put, SortedMap.lookup_empty]
  have honly : ∀ v t, (start root).tents.lookup v = some t → v = .router root ∧ t =
      { dist := 0 } := by
    intro v t ht
    rw [hput] at ht
    by_cases hv : v = .router root
    · rw [if_pos hv] at ht
      exact ⟨hv, (some.inj ht).symm⟩
    · rw [if_neg hv] at ht
      cases ht
  refine ⟨⟨{ dist := 0 }, by rw [hput, if_pos rfl], rfl⟩, ?_, ?_, ?_, ?_, ?_, ?_⟩
  · intro v t ht
    obtain ⟨rfl, rfl⟩ := honly v t ht
    exact ⟨by decide, [], .start⟩
  · intro v t ht
    obtain ⟨rfl, rfl⟩ := honly v t ht
    exact ⟨Graph.router_mem_vertices.2 hroot, Nat.zero_le _⟩
  · intro v t ht
    obtain ⟨rfl, rfl⟩ := honly v t ht
    exact ⟨nodup_nil, by simp⟩
  · intro v t ht _
    obtain ⟨rfl, rfl⟩ := honly v t ht
    exact mem_singleton_self _
  · intro i hi
    rw [mem_singleton.1 hi]
    exact ⟨{ dist := 0 }, by rw [hput, if_pos rfl], le_rfl⟩
  · intro u t ht hset
    obtain ⟨rfl, rfl⟩ := honly u t ht
    cases hset

end

/-! ## How many turns are left -/

/-- What is left to improve in a vertex: its distance, and at that distance its next hops. -/
def room (k : ℕ) : Option Tent → ℕ
  | none => lsInfinity * (k + 1)
  | some t => t.dist * (k + 1) + (k - t.nextHops.length)

/-- The items in the heap and what is left to improve in the area. -/
def slack (g : Graph) (k : ℕ) (s : State) : ℕ :=
  s.heap.length + (g.vertices.map fun v => room k (s.tents.lookup v)).sum

section

variable {g : Graph} {root : RouterId} {k : ℕ} {nh : NextHopSource} {todo : VertexId → List Edge}
  {s : State} {c : VertexId} {cur : Tent} {e : Edge} {es : List Edge}

lemma mul_add_lt_mul {d d' k x : ℕ} (h : d < d') (hx : x ≤ k) : d * (k + 1) + x < d' * (k + 1) := by
  calc d * (k + 1) + x < d * (k + 1) + (k + 1) := by omega
    _ = (d + 1) * (k + 1) := by rw [Nat.add_mul, Nat.one_mul]
    _ ≤ d' * (k + 1) := Nat.mul_le_mul_right _ h

lemma Inv.slack_relax (I : Inv g root k nh todo s) (he : e ∈ transitEdges g c cur root nh)
    (hd : cur.dist < lsInfinity) : slack g k (OspfSpf.relax cur k s e) ≤ slack g k s := by
  rcases relax_cases cur k s e hd (metric_lt he) with
    ⟨heq, -⟩ | ⟨hsum, t', hdt, -, heq, hcase⟩
  · rw [heq]
  · rw [heq]
    have hlinked : Linked g c e.toId e.metric := (linked_iff cur root nh).2 ⟨e, he, rfl, rfl⟩
    have hless : room k (some t') + 1 ≤ room k (s.tents.lookup e.toId) := by
      rcases hcase with ⟨-, hlt⟩ | ⟨nt, hnt, hdn, hmerge, hlen⟩
      · rcases hl : s.tents.lookup e.toId with _ | nt
        · exact mul_add_lt_mul (by omega) (Nat.sub_le _ _)
        · have := mul_add_lt_mul (k := k) (x := k - t'.nextHops.length)
            (by have := hlt nt hl; omega : t'.dist < nt.dist) (Nat.sub_le _ _)
          simp only [room]
          omega
      · rw [hnt]
        obtain ⟨ext, hext, -⟩ := mergeNextHops_append nt.nextHops (capNextHops k e.nextHops []) k
        have hle : t'.nextHops.length ≤ k := by
          rw [hmerge]
          exact length_mergeNextHops_le _ (I.inside _ nt hnt).2
        have hgrow : nt.nextHops.length < t'.nextHops.length := by
          rw [hmerge, hext, length_append] at hlen ⊢
          omega
        simp only [room]
        rw [hdt, hdn]
        omega
    have hsum' := sum_map_add_le (fun v => room k (s.tents.lookup v))
      (fun v => room k ((s.tents.put e.toId t').lookup v)) (k := 1) hlinked.mem_vertices
      (by
        intro v _
        rw [lookup_put]
        by_cases hv : v = e.toId
        · rw [if_pos hv, hv]
          omega
        · rw [if_neg hv])
      (by
        rw [lookup_put, if_pos rfl]
        exact hless)
    unfold slack
    simp only [Heap.length_push]
    omega

lemma Inv.slack_relaxAll (cur : Tent) (I : Inv g root k nh todo s) (htodo : todo c = es)
    (hes : ∀ e ∈ es, e ∈ transitEdges g c cur root nh) (hd : cur.dist < lsInfinity)
    (htr : ∃ us, Trail (Linked g) (.router root) (c :: us) cur.dist)
    (hc : ∀ t, s.tents.lookup c = some t → t.settled → t.dist = cur.dist) :
    slack g k (es.foldl (OspfSpf.relax cur k) s) ≤ slack g k s := by
  induction es generalizing todo s with
  | nil => exact le_rfl
  | cons e es ih =>
    obtain ⟨I', hc'⟩ := I.relax htodo (hes e mem_cons_self) hd htr hc
    have hrest := ih I' (update_self _ _ _) (fun e' he' => hes e' (mem_cons_of_mem _ he')) hc'
    exact hrest.trans (I.slack_relax (hes e mem_cons_self) hd)

lemma Inv.slack_visit {item : HeapItem} {heap : List HeapItem} (I : Inv g root k nh (fun _ => []) s)
    (hpop : Heap.pop HeapItem.less s.heap = some (item, heap)) :
    slack g k (OspfSpf.visit g root k nh { s with heap := heap } item) + 1 ≤ slack g k s := by
  have hlen := Heap.length_pop hpop
  obtain ⟨cur, hc, -⟩ := I.items item ((Heap.mem_pop hpop).2 (.inl rfl))
  have hdrop : slack g k { s with heap := heap } + 1 ≤ slack g k s := by
    unfold slack
    simp only
    omega
  unfold OspfSpf.visit
  simp only [hc]
  by_cases hset : cur.settled
  · rw [if_pos hset]
    exact hdrop
  rw [if_neg hset]
  by_cases hlt : cur.dist < item.dist
  · rw [if_pos hlt]
    exact hdrop
  rw [if_neg hlt]
  have hfold := (I.settle hpop hc).slack_relaxAll cur (update_self _ _ _)
    (fun _ he => he) (I.real _ cur hc).1 (I.real _ cur hc).2 (by
      intro t ht _
      rw [lookup_put, if_pos rfl] at ht
      cases ht
      rfl)
  have hsame : slack g k ⟨heap, s.tents.put item.id { cur with settled := true }⟩
      = slack g k { s with heap := heap } := by
    unfold slack
    simp only
    congr 2
    apply map_congr_left
    intro v _
    rw [lookup_put]
    by_cases hv : v = item.id
    · rw [if_pos hv, hv, hc]
      rfl
    · rw [if_neg hv]
  rw [hsame] at hfold
  omega

lemma Inv.loop_heap {n : ℕ} (I : Inv g root k nh (fun _ => []) s) (hn : slack g k s ≤ n) :
    (OspfSpf.loop g root k nh n s).heap = [] := by
  induction n generalizing s with
  | zero =>
    unfold slack at hn
    exact length_eq_zero_iff.1 (by show s.heap.length = 0; omega)
  | succ n ih =>
    unfold OspfSpf.loop
    rcases hpop : Heap.pop HeapItem.less s.heap with _ | ⟨item, heap⟩
    · exact Heap.pop_eq_none.1 hpop
    · have := I.slack_visit hpop
      exact ih (I.visit hpop) (by omega)

end

/-! ## Where the search ends -/

section

variable {g : Graph} {root : RouterId} {k : ℕ} {nh : NextHopSource}

lemma sum_room_start (g : Graph) (root : RouterId) (k : ℕ) :
    (g.vertices.map fun v => room k ((start root).tents.lookup v)).sum
      ≤ g.vertices.length * (lsInfinity * (k + 1)) := by
  calc (g.vertices.map fun v => room k ((start root).tents.lookup v)).sum
      ≤ (g.vertices.map fun _ => lsInfinity * (k + 1)).sum := by
        apply sum_le_sum
        intro v _
        unfold start
        rw [lookup_put, SortedMap.lookup_empty]
        split_ifs
        · have : k ≤ lsInfinity * (k + 1) := by
            calc k ≤ 1 * (k + 1) := by omega
              _ ≤ lsInfinity * (k + 1) := Nat.mul_le_mul_right _ (by decide)
          simpa [room] using this
        · exact le_rfl
    _ = g.vertices.length * (lsInfinity * (k + 1)) := by
        rw [map_const', sum_replicate, Nat.nsmul_eq_mul]

lemma search_inv (hroot : g.routers.lookup root ≠ none) (k : ℕ) (nh : NextHopSource) :
    Inv g root k nh (fun _ => []) (search g root k nh) ∧ (search g root k nh).heap = [] ∧
      ∀ v t, (search g root k nh).tents.lookup v = some t → t.settled := by
  have I : Inv g root k nh (fun _ => []) (search g root k nh) :=
    (inv_start hroot).loop (turns g k)
  have hheap : (search g root k nh).heap = [] := by
    have I₀ : Inv g root k nh (fun _ => []) (start root) := inv_start hroot
    apply I₀.loop_heap
    have := sum_room_start g root k
    unfold slack turns
    have hone : (start root).heap.length = 1 := rfl
    omega
  refine ⟨I, hheap, fun v t ht => ?_⟩
  by_contra hset
  have hq := I.queued v t ht (Bool.not_eq_true _ ▸ hset)
  rw [hheap] at hq
  cases hq

def label (g : Graph) (root : RouterId) (k : ℕ) (nh : NextHopSource) (v : VertexId) : Option ℕ :=
  ((search g root k nh).tents.lookup v).map Tent.dist

lemma label_eq_some {v : VertexId} {d : ℕ} :
    label g root k nh v = some d ↔
      ∃ t, (search g root k nh).tents.lookup v = some t ∧ t.dist = d := by
  unfold label
  rw [Option.map_eq_some_iff]

lemma labels_search (hroot : g.routers.lookup root ≠ none) (k : ℕ) (nh : NextHopSource) :
    Labels (Linked g) (.router root) lsInfinity (label g root k nh) := by
  obtain ⟨I, -, hall⟩ := search_inv hroot k nh
  constructor
  · obtain ⟨t, ht, hd⟩ := I.atRoot
    exact label_eq_some.2 ⟨t, ht, hd⟩
  · intro v d hv
    obtain ⟨t, ht, rfl⟩ := label_eq_some.1 hv
    exact I.real v t ht
  · intro u d v m hu he hlt
    obtain ⟨t, ht, rfl⟩ := label_eq_some.1 hu
    obtain ⟨e, hmem, rfl, rfl⟩ := (linked_iff t root nh).1 he
    rcases I.closed u t ht (hall u t ht) e hmem with hw | hr
    · cases hw
    · obtain ⟨t', ht', hcase⟩ := hr hlt
      refine ⟨t'.dist, label_eq_some.2 ⟨t', ht', rfl⟩, ?_⟩
      rcases hcase with h | ⟨h, -⟩ <;> omega

lemma lookup_computeWithNextHop {maxPaths : ℤ} {v : VertexId} {n : NodeResult} :
    (computeWithNextHop g root maxPaths nh).nodes.lookup v = some n ↔
      g.routers.lookup root ≠ none ∧
        ∃ t, (search g root (effectiveMaxPaths maxPaths) nh).tents.lookup v = some t ∧
          n = ⟨v, t.dist, t.nextHops⟩ := by
  unfold computeWithNextHop
  rcases hg : g.routers.lookup root with _ | links
  · simp
  · obtain ⟨-, -, hall⟩ := search_inv (g := g) (show g.routers.lookup root ≠ none by rw [hg]; simp)
      (effectiveMaxPaths maxPaths) nh
    simp only [SortedMap.lookup_collect, Option.bind_eq_some_iff, ne_eq, reduceCtorEq,
      not_false_eq_true, true_and]
    constructor
    · rintro ⟨t, ht, hn⟩
      rw [if_pos (hall v t ht)] at hn
      exact ⟨t, ht, (some.inj hn).symm⟩
    · rintro ⟨t, ht, rfl⟩
      exact ⟨t, ht, by rw [if_pos (hall v t ht)]⟩

end

/-- The vertices of the result and their metrics are those of the shortest paths below `LSInfinity`
over two-way links, from a root that has a Router-LSA, whatever the limit on next hops and however
they are resolved. -/
theorem computeWithNextHop_metric_iff (g : Graph) (root : RouterId) (maxPaths : ℤ)
    (nh : NextHopSource) (v : VertexId) (d : ℕ) :
    (∃ n, (computeWithNextHop g root maxPaths nh).nodes.lookup v = some n ∧ n.metric = d) ↔
      g.routers.lookup root ≠ none ∧
        IsLeast {c ∈ pathCosts (Linked g) (.router root) v | c < lsInfinity} d := by
  simp only [lookup_computeWithNextHop]
  constructor
  · rintro ⟨n, ⟨hroot, t, ht, rfl⟩, rfl⟩
    refine ⟨hroot, ((labels_search hroot (effectiveMaxPaths maxPaths) nh).isLeast_iff v _).1 ?_⟩
    exact label_eq_some.2 ⟨t, ht, rfl⟩
  · rintro ⟨hroot, hleast⟩
    obtain ⟨t, ht, rfl⟩ := label_eq_some.1
      (((labels_search hroot (effectiveMaxPaths maxPaths) nh).isLeast_iff v d).2 hleast)
    exact ⟨_, ⟨hroot, t, ht, rfl⟩, rfl⟩

end Ze.OspfSpf
