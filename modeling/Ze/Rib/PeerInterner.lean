import Mathlib.Data.BitVec

/-!
# The interner of best-path records

A stored best-path record names its peer, next hop and metrics by 16-bit indices into tables that
all families share (`bestPrevInterner`). A slot of the peer table counts its references and is used
again once the last one is given back; the tables of next hops and metrics only grow.

Default file: `rib_bestchange.go`.
-/

namespace Ze.Rib

open List
open BitVec (ofNat)

/-! ## Tables -/

/-- An index into a reverse table. Source: plugins/rib/rib_bestchange.go: uint16. -/
abbrev Index := BitVec 16

def internerCap : ℕ := 1 <<< 16

/-- A map after a write. Source: m[v] = idx. -/
def assign {A : Type} [DecidableEq A] (m : A → Option Index) (v : A) (idx : Option Index) :
    A → Option Index :=
  fun x => if x = v then idx else m x

lemma assign_apply {A : Type} [DecidableEq A] (m : A → Option Index) (v x : A)
    (idx : Option Index) : assign m v idx x = if x = v then idx else m x := rfl

/-- The peer table. The source counts the references in uint64: each is a record or a pin in memory,
so no count wraps. Source: bestPrevInterner: the fields peers to peersFree. -/
structure PeerTable (Peer : Type) where
  peers : List Peer := []
  peerRefs : List ℕ := []
  peerIdx : Peer → Option Index := fun _ => none
  peersOverflowed : Bool := false
  peersFree : List Index := []

/-- A table that only grows.
Source: bestPrevInterner: the fields of the next hops, and those of the metrics. -/
structure ValueTable (A : Type) where
  values : List A := []
  idx : A → Option Index := fun _ => none
  overflowed : Bool := false

/-- Why a release panics. Source: releasePeer. -/
inductive Panic
  | unknownSlot
  | unownedSlot
  deriving DecidableEq, Repr

/-- The index of a value, which a value that is new gets. Source: internNextHop, internMetric. -/
def ValueTable.intern {A : Type} [DecidableEq A] (t : ValueTable A) (v : A) :
    Option Index × ValueTable A :=
  match t.idx v with
  | some idx => (some idx, t)
  | none =>
    if internerCap ≤ t.values.length then (none, { t with overflowed := true })
    else
      let idx := ofNat 16 t.values.length
      (some idx, { t with values := t.values ++ [v], idx := assign t.idx v (some idx) })

/-- Source: nextHopAt, metricAt. -/
def ValueTable.at_ {A : Type} [Inhabited A] (t : ValueTable A) (idx : Index) : A :=
  t.values.getD idx.toNat default

namespace PeerTable

variable {Peer : Type} [DecidableEq Peer] [Inhabited Peer]

def peerAt (b : PeerTable Peer) (idx : Index) : Peer := b.peers.getD idx.toNat default

/-- A slot at the end of the table. Source: internPeer, behind the free list. -/
def internNew (b : PeerTable Peer) (v : Peer) : Option Index × PeerTable Peer :=
  if internerCap ≤ b.peers.length then (none, { b with peersOverflowed := true })
  else
    let idx := ofNat 16 b.peers.length
    (some idx, { b with
      peers := b.peers ++ [v]
      peerRefs := b.peerRefs ++ [1]
      peerIdx := assign b.peerIdx v (some idx) })

def internPeer (b : PeerTable Peer) (v : Peer) : Option Index × PeerTable Peer :=
  match b.peerIdx v with
  | some idx => (some idx, { b with peerRefs := b.peerRefs.modify idx.toNat (· + 1) })
  | none =>
    match b.peersFree with
    | [] => b.internNew v
    | idx :: free =>
      if idx.toNat < b.peers.length then
        (some idx, { b with
          peersFree := free
          peers := b.peers.set idx.toNat v
          peerRefs := b.peerRefs.set idx.toNat 1
          peerIdx := assign b.peerIdx v (some idx) })
      else { b with peersFree := free }.internNew v

def retainPeer (b : PeerTable Peer) (v : Peer) : Option Index × PeerTable Peer :=
  match b.peerIdx v with
  | some idx => (some idx, { b with peerRefs := b.peerRefs.modify idx.toNat (· + 1) })
  | none => (none, b)

def releasePeer (b : PeerTable Peer) (idx : Index) : Except Panic (PeerTable Peer) :=
  match b.peerRefs[idx.toNat]? with
  | none => .error .unknownSlot
  | some 0 => .error .unownedSlot
  | some (n + 1) =>
    if n ≠ 0 then .ok { b with peerRefs := b.peerRefs.set idx.toNat n }
    else .ok
      { b with
        peerRefs := b.peerRefs.set idx.toNat n
        peerIdx := assign b.peerIdx (b.peerAt idx) none
        peers := b.peers.set idx.toNat default
        peersFree := idx :: b.peersFree }

/-! ## References -/

/-- A table is right for the references that are held: a slot counts those that name it and holds
the peer they were acquired for, a peer is found exactly while there is one, and the other slots are
free.
Source: bestPrevInterner. -/
structure Holds (b : PeerTable Peer) (refs : Multiset (Index × Peer)) : Prop where
  sized : b.peerRefs.length = b.peers.length
  capped : b.peers.length ≤ internerCap
  counts : ∀ i : Index, i.toNat < b.peers.length →
    b.peerRefs[i.toNat]? = some ((refs.map Prod.fst).count i)
  resolves : ∀ r ∈ refs, b.peers[r.1.toNat]? = some r.2
  indexed : ∀ v i, b.peerIdx v = some i ↔ (i, v) ∈ refs
  nodup : b.peersFree.Nodup
  free : ∀ i, i ∈ b.peersFree ↔ i.toNat < b.peers.length ∧ i ∉ refs.map Prod.fst

variable {b b' : PeerTable Peer} {refs rest : Multiset (Index × Peer)} {i : Index} {v : Peer}

omit [DecidableEq Peer] [Inhabited Peer] in
lemma Holds.lt_length (h : b.Holds refs) (hr : (i, v) ∈ refs) : i.toNat < b.peers.length :=
  (List.getElem?_eq_some_iff.mp (h.resolves _ hr)).1

omit [DecidableEq Peer] [Inhabited Peer] in
lemma Holds.peer_unique (h : b.Holds refs) {w : Peer} (hv : (i, v) ∈ refs) (hw : (i, w) ∈ refs) :
    v = w :=
  Option.some.inj ((h.resolves _ hv).symm.trans (h.resolves _ hw))

omit [DecidableEq Peer] in
lemma Holds.peerAt_eq (h : b.Holds refs) (hr : (i, v) ∈ refs) : b.peerAt i = v := by
  rw [peerAt, getD_eq_getElem?_getD, h.resolves _ hr]
  rfl

omit [DecidableEq Peer] [Inhabited Peer] in
lemma Holds.again (h : b.Holds refs) (hidx : b.peerIdx v = some i) :
    Holds { b with peerRefs := b.peerRefs.modify i.toNat (· + 1) } ((i, v) ::ₘ refs) := by
  have hmem : (i, v) ∈ refs := (h.indexed v i).mp hidx
  have hsame : ∀ r, r ∈ (i, v) ::ₘ refs ↔ r ∈ refs := by
    intro r
    rw [Multiset.mem_cons]
    exact ⟨fun hr => hr.elim (fun heq => heq ▸ hmem) id, .inr⟩
  refine ⟨?_, h.capped, fun j hj => ?_, fun r hr => h.resolves r ((hsame r).mp hr), fun w j => ?_,
    h.nodup, fun j => ?_⟩
  · rw [length_modify, h.sized]
  · rw [getElem?_modify, h.counts j hj, Multiset.map_cons]
    by_cases hji : i.toNat = j.toNat
    · obtain rfl := BitVec.eq_of_toNat_eq hji
      rw [Multiset.count_cons_self]
      simp
    · have hne : j ≠ i := fun heq => hji (congrArg _ heq.symm)
      rw [Multiset.count_cons_of_ne hne]
      simp [hji]
  · rw [hsame]
    exact h.indexed w j
  · rw [h.free j]
    simp only [Multiset.mem_map, hsame]

omit [Inhabited Peer] in
lemma Holds.indexed_assign (h : b.Holds refs) (hnone : b.peerIdx v = none) (i : Index) (w : Peer)
    (j : Index) : assign b.peerIdx v (some i) w = some j ↔ (j, w) ∈ (i, v) ::ₘ refs := by
  rw [assign_apply, Multiset.mem_cons]
  by_cases hw : w = v
  · subst hw
    rw [if_pos rfl]
    constructor
    · intro heq
      exact .inl (by rw [Option.some.inj heq])
    · rintro (heq | hr)
      · rw [(Prod.mk.inj heq).1]
      · rw [(h.indexed w j).mpr hr] at hnone
        cases hnone
  · rw [if_neg hw, h.indexed]
    exact ⟨.inr, fun hor => hor.resolve_left fun heq => hw (Prod.mk.inj heq).2⟩

omit [Inhabited Peer] in
lemma Holds.internNew (h : b.Holds refs) (hnone : b.peerIdx v = none) :
    match b.internNew v with
    | (some i, b') => b'.Holds ((i, v) ::ₘ refs)
    | (none, b') => b'.Holds refs := by
  rw [PeerTable.internNew]
  by_cases hfull : internerCap ≤ b.peers.length
  · rw [if_pos hfull]
    exact ⟨h.sized, h.capped, h.counts, h.resolves, h.indexed, h.nodup, h.free⟩
  rw [if_neg hfull]
  have hlt : b.peers.length < 65536 := Nat.not_le.1 hfull
  have hnew : (ofNat 16 b.peers.length).toNat = b.peers.length := by
    rw [BitVec.toNat_ofNat, Nat.mod_eq_of_lt hlt]
  have hunheld : ∀ w, (ofNat 16 b.peers.length, w) ∉ refs := by
    intro w hw
    have hin := h.lt_length hw
    rw [hnew] at hin
    exact Nat.lt_irrefl _ hin
  have hunheld' : ofNat 16 b.peers.length ∉ refs.map Prod.fst := by
    intro hmem
    obtain ⟨⟨j, w⟩, hr, rfl⟩ := Multiset.mem_map.1 hmem
    exact hunheld w hr
  refine ⟨?_, ?_, fun j hj => ?_, fun r hr => ?_, fun w j => ?_, h.nodup, fun j => ?_⟩
  · rw [length_append, length_append, h.sized]
    rfl
  · rw [length_append, length_singleton]
    exact Nat.not_le.1 hfull
  · rw [Multiset.map_cons]
    by_cases hji : j = ofNat 16 b.peers.length
    · rw [hji, Multiset.count_cons_self, Multiset.count_eq_zero_of_notMem hunheld', hnew,
        ← h.sized, getElem?_concat_length]
    · have hold : j.toNat < b.peers.length := by
        rw [length_append, length_singleton] at hj
        refine Nat.lt_of_le_of_ne (Nat.le_of_lt_succ hj) fun heq => hji ?_
        apply BitVec.eq_of_toNat_eq
        rw [hnew, heq]
      rw [Multiset.count_cons_of_ne hji, getElem?_append_left (h.sized ▸ hold), h.counts j hold]
  · rcases Multiset.mem_cons.1 hr with rfl | hr
    · rw [hnew, getElem?_concat_length]
    · rw [getElem?_append_left (h.lt_length hr), h.resolves r hr]
  · exact h.indexed_assign hnone _ w j
  · rw [h.free, Multiset.map_cons, Multiset.mem_cons, not_or, length_append, length_singleton]
    constructor
    · rintro ⟨hj, hnot⟩
      refine ⟨Nat.lt_succ_of_lt hj, fun heq => ?_, hnot⟩
      rw [heq, hnew] at hj
      exact Nat.lt_irrefl _ hj
    · rintro ⟨hj, hne, hnot⟩
      refine ⟨Nat.lt_of_le_of_ne (Nat.le_of_lt_succ hj) fun heq => hne ?_, hnot⟩
      apply BitVec.eq_of_toNat_eq
      rw [hnew, heq]

omit [Inhabited Peer] in
lemma Holds.reuse (h : b.Holds refs) (hnone : b.peerIdx v = none) {free : List Index}
    (hfree : b.peersFree = i :: free) :
    i.toNat < b.peers.length ∧ Holds { b with
      peersFree := free
      peers := b.peers.set i.toNat v
      peerRefs := b.peerRefs.set i.toNat 1
      peerIdx := assign b.peerIdx v (some i) } ((i, v) ::ₘ refs) := by
  obtain ⟨hin, hunheld⟩ := (h.free i).mp (by rw [hfree]; exact mem_cons_self)
  have hother : ∀ r ∈ refs, i.toNat ≠ r.1.toNat := by
    intro r hr heq
    exact hunheld (Multiset.mem_map.mpr ⟨r, hr, (BitVec.eq_of_toNat_eq heq).symm⟩)
  have hnodup := h.nodup
  rw [hfree, nodup_cons] at hnodup
  refine ⟨hin, ?_, ?_, fun j hj => ?_, fun r hr => ?_, fun w j => ?_, hnodup.2, fun j => ?_⟩
  · rw [length_set, length_set, h.sized]
  · rw [length_set]
    exact h.capped
  · rw [length_set] at hj
    rw [Multiset.map_cons]
    by_cases hji : i.toNat = j.toNat
    · obtain rfl := BitVec.eq_of_toNat_eq hji
      rw [getElem?_set_self (h.sized ▸ hin), Multiset.count_cons_self,
        Multiset.count_eq_zero_of_notMem hunheld]
    · have hne : j ≠ i := fun heq => hji (congrArg _ heq.symm)
      rw [getElem?_set_ne hji, h.counts j hj, Multiset.count_cons_of_ne hne]
  · rcases Multiset.mem_cons.mp hr with rfl | hr
    · rw [getElem?_set_self hin]
    · rw [getElem?_set_ne (hother r hr), h.resolves r hr]
  · exact h.indexed_assign hnone _ w j
  · have hmem := h.free j
    rw [hfree, mem_cons] at hmem
    rw [Multiset.map_cons, Multiset.mem_cons, not_or, length_set]
    constructor
    · intro hj
      obtain ⟨hlt, hnot⟩ := hmem.mp (.inr hj)
      refine ⟨hlt, fun heq => hnodup.1 ?_, hnot⟩
      rwa [heq] at hj
    · rintro ⟨hlt, hne, hnot⟩
      exact (hmem.mpr ⟨hlt, hnot⟩).resolve_left hne

omit [Inhabited Peer] in
lemma holds_internPeer (h : b.Holds refs) (v : Peer) :
    match b.internPeer v with
    | (some i, b') => b'.Holds ((i, v) ::ₘ refs)
    | (none, b') => b'.Holds refs := by
  rw [internPeer]
  rcases hidx : b.peerIdx v with _ | i
  · rcases hfree : b.peersFree with _ | ⟨i, free⟩
    · exact h.internNew hidx
    · obtain ⟨hin, hreuse⟩ := h.reuse hidx hfree
      simp only [if_pos hin]
      exact hreuse
  · exact h.again hidx

omit [DecidableEq Peer] [Inhabited Peer] in
lemma holds_retainPeer (h : b.Holds refs) (v : Peer) :
    match b.retainPeer v with
    | (some i, b') => b'.Holds ((i, v) ::ₘ refs)
    | (none, b') => b' = b := by
  rw [retainPeer]
  rcases hidx : b.peerIdx v with _ | i
  · rfl
  · exact h.again hidx

lemma holds_releasePeer (h : b.Holds ((i, v) ::ₘ rest)) :
    ∃ b', b.releasePeer i = .ok b' ∧ b'.Holds rest := by
  have hmem : (i, v) ∈ (i, v) ::ₘ rest := Multiset.mem_cons_self _ _
  have hin := h.lt_length hmem
  have hcount := h.counts i hin
  rw [Multiset.map_cons, Multiset.count_cons_self] at hcount
  have hresolves : ∀ r ∈ rest, b.peers[r.1.toNat]? = some r.2 :=
    fun r hr => h.resolves r (Multiset.mem_cons_of_mem hr)
  have hcounts : ∀ j : Index, j.toNat < b.peers.length →
      (b.peerRefs.set i.toNat ((rest.map Prod.fst).count i))[j.toNat]? =
        some ((rest.map Prod.fst).count j) := by
    intro j hj
    by_cases hji : i.toNat = j.toNat
    · obtain rfl := BitVec.eq_of_toNat_eq hji
      rw [getElem?_set_self (h.sized ▸ hin)]
    · have hne : j ≠ i := fun heq => hji (congrArg _ heq.symm)
      rw [getElem?_set_ne hji, h.counts j hj, Multiset.map_cons, Multiset.count_cons_of_ne hne]
  rw [releasePeer, hcount]
  by_cases hlast : (rest.map Prod.fst).count i ≠ 0
  · -- the slot is still referenced, for the same peer
    have hstill : (i, v) ∈ rest := by
      obtain ⟨⟨j, w⟩, hr, rfl⟩ := Multiset.mem_map.mp (Multiset.count_ne_zero.mp hlast)
      rwa [h.peer_unique hmem (Multiset.mem_cons_of_mem hr)]
    have hsame : ∀ r, r ∈ (i, v) ::ₘ rest ↔ r ∈ rest := by
      intro r
      rw [Multiset.mem_cons]
      exact ⟨fun hr => hr.elim (fun heq => heq ▸ hstill) id, .inr⟩
    refine ⟨_, if_pos hlast, ?_, h.capped, hcounts, hresolves, fun w j => ?_, h.nodup, fun j => ?_⟩
    · rw [length_set, h.sized]
    · rw [← hsame]
      exact h.indexed w j
    · rw [h.free j]
      simp only [Multiset.mem_map, hsame]
  · -- the slot is free, and nothing names it
    rw [ne_eq, not_not] at hlast
    have hgone : i ∉ rest.map Prod.fst := Multiset.count_eq_zero.mp hlast
    have hother : ∀ r ∈ rest, i.toNat ≠ r.1.toNat := by
      intro r hr heq
      exact hgone (Multiset.mem_map.mpr ⟨r, hr, (BitVec.eq_of_toNat_eq heq).symm⟩)
    refine ⟨_, if_neg (not_not.mpr hlast), ?_, ?_, ?_, fun r hr => ?_, fun w j => ?_, ?_,
      fun j => ?_⟩
    · rw [length_set, length_set, h.sized]
    · rw [length_set]
      exact h.capped
    · intro j hj
      rw [length_set] at hj
      exact hcounts j hj
    · rw [getElem?_set_ne (hother r hr), hresolves r hr]
    · change assign b.peerIdx (b.peerAt i) none w = some j ↔ (j, w) ∈ rest
      rw [assign_apply, h.peerAt_eq hmem]
      by_cases hw : w = v
      · subst hw
        rw [if_pos rfl]
        refine iff_of_false (by simp) fun hr => ?_
        -- the peer of the slot has no other slot
        have hidx := (h.indexed w j).mpr (Multiset.mem_cons_of_mem hr)
        rw [(h.indexed w i).mpr hmem] at hidx
        exact hother _ hr (by rw [Option.some.inj hidx])
      · rw [if_neg hw, h.indexed, Multiset.mem_cons]
        exact ⟨fun hor => hor.resolve_left fun heq => hw (Prod.mk.inj heq).2, .inr⟩
    · rw [nodup_cons]
      refine ⟨fun hfree => ?_, h.nodup⟩
      exact ((h.free i).mp hfree).2 (Multiset.mem_map.mpr ⟨_, hmem, rfl⟩)
    · rw [mem_cons, h.free, Multiset.map_cons, Multiset.mem_cons, not_or, length_set]
      constructor
      · rintro (rfl | ⟨hlt, -, hnot⟩)
        · exact ⟨hin, hgone⟩
        · exact ⟨hlt, hnot⟩
      · rintro ⟨hlt, hnot⟩
        by_cases hji : j = i
        · exact .inl hji
        · exact .inr ⟨hlt, hji, hnot⟩

omit [DecidableEq Peer] [Inhabited Peer] in
lemma holds_new : Holds ({} : PeerTable Peer) 0 := by
  refine ⟨rfl, Nat.zero_le _, fun i hi => absurd hi (Nat.not_lt_zero _), fun r hr => ?_,
    fun v i => ?_, nodup_nil, fun i => ?_⟩
  · exact absurd hr (Multiset.notMem_zero r)
  · exact iff_of_false (by simp) (Multiset.notMem_zero _)
  · refine iff_of_false not_mem_nil fun hlt => absurd hlt.1 (Nat.not_lt_zero _)

end PeerTable

end Ze.Rib
