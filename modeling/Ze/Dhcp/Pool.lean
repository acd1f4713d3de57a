import Mathlib.Data.List.Forall2
import Ze.Dhcp.Server

/-!
# The segments of the pool

What the operations of the address pool do to its segments: they stay where the ranges put them
(`Shaped`), and a taken address stays taken until it is released itself (`Keeps`). A binding takes
its address (`taken_reserve`).
-/

namespace Ze.Dhcp

open List
open Option (map_eq_some_iff)

/-! ## Segments -/

namespace PoolSegment

variable {seg : PoolSegment} {a b : IPv4}

/-- Where a segment is. Source: pool.go poolSegment. -/
def bounds (seg : PoolSegment) : IPv4 × BitVec 32 × ℕ := (seg.start, seg.size, seg.bitmap.length)

@[simp] lemma bounds_set : (seg.set b).bounds = seg.bounds := by
  rw [set]
  split_ifs
  · rfl
  · simp only [bounds, length_set]

@[simp] lemma bounds_clear : (seg.clear b).bounds = seg.bounds := by
  simp only [clear, bounds, length_set]

variable {seg' : PoolSegment}

lemma has_eq_of_bounds (h : seg'.bounds = seg.bounds) (a : IPv4) : seg'.has a = seg.has a := by
  simp only [bounds, Prod.mk.injEq] at h
  rw [has, has, h.1, h.2.1]

lemma isSet_set (h : seg.isSet a) : (seg.set b).isSet a := by
  rw [set]
  split_ifs
  · exact h
  · rw [isSet] at h ⊢
    simp only [getElem?_set]
    split_ifs with hidx hlen
    · rfl
    · rw [← hidx, getElem?_eq_none (not_lt.1 hlen)] at h
      cases h
    · exact h

/-- An address of the segment is taken once its bit is set. -/
lemma isSet_set_self (hlen : seg.bitmap.length = seg.size.toNat) (hhas : seg.has a) :
    (seg.set a).isSet a := by
  rw [set]
  split_ifs with hset
  · exact hset
  · rw [has, Bool.and_eq_true, decide_eq_true_eq, decide_eq_true_eq] at hhas
    have hidx : (a - seg.start).toNat < seg.bitmap.length := by
      rw [hlen]
      bv_omega
    rw [isSet, getElem?_set_self hidx]
    rfl

lemma isSet_clear (hne : b ≠ a) (h : seg.isSet a) : (seg.clear b).isSet a := by
  rw [isSet, clear, getElem?_set_ne]
  · exact h
  · intro hidx
    apply hne
    bv_omega

end PoolSegment

/-! ## Pools -/

namespace Pool

variable {p p' : Pool} {a b : IPv4} {mac : Mac}

/-- The segments are those of the ranges. Source: pool.go newPool. -/
def Shaped (ranges : List (IPv4 × IPv4)) (p : Pool) : Prop :=
  p.segments.map PoolSegment.bounds = ranges.map fun r => (r.1, r.2 - r.1 + 1#32,
    (r.2 - r.1 + 1#32).toNat)

variable {α : Type*} {f : PoolSegment → PoolSegment} {segs' : List PoolSegment}

lemma mem_modify {l : List α} {i : ℕ} {f : α → α} {y : α} (h : y ∈ l.modify i f) :
    ∃ x ∈ l, y = x ∨ y = f x := by
  obtain ⟨j, hj⟩ := mem_iff_getElem?.1 h
  rw [getElem?_modify] at hj
  obtain ⟨x, hx, heq⟩ := map_eq_some_iff.1 hj
  refine ⟨x, mem_of_getElem? hx, ?_⟩
  split_ifs at heq
  · exact .inr heq.symm
  · exact .inl heq.symm

lemma map_modify {β : Type*} {g : α → β} {f : α → α} (hfg : ∀ x, g (f x) = g x) (l : List α)
    (i : ℕ) :
    (l.modify i f).map g = l.map g := by
  apply ext_getElem?
  intro j
  rw [getElem?_map, getElem?_map, getElem?_modify, Option.map_eq_map, Option.map_map]
  congr 1
  funext x
  simp only [Function.comp_apply]
  split_ifs
  · exact hfg x
  · rfl

lemma forall₂_modify {R : α → α → Prop} {f : α → α} (hR : ∀ x, R x x) (hf : ∀ x, R x (f x))
    (l : List α) (i : ℕ) : Forall₂ R l (l.modify i f) := by
  induction l generalizing i with
  | nil => simp
  | cons x l ih =>
    cases i with
    | zero => exact .cons (hf x) (forall₂_same.2 fun y _ => hR y)
    | succ i => exact .cons (hR x) (ih i)

lemma find?_of_forall₂ {R : α → α → Prop} {P : α → Bool} (hR : ∀ x y, R x y → P y = P x)
    {l l' : List α} (h : Forall₂ R l l') {y : α} (hy : l'.find? P = some y) :
    ∃ x, l.find? P = some x ∧ R x y := by
  induction h with
  | nil => cases hy
  | @cons x y' l l' hxy _ ih =>
    rw [find?_cons, hR x y' hxy] at hy
    rw [find?_cons]
    cases hP : P x <;> rw [hP] at hy
    · exact ih hy
    · cases hy
      exact ⟨x, rfl, hxy⟩

lemma find?_modify {P : α → Bool} {f : α → α} (hP : ∀ x, P (f x) = P x) {l : List α} {i : ℕ}
    (h : l.findIdx? P = some i) : (l.modify i f).find? P = (l.find? P).map f := by
  induction l generalizing i with
  | nil => cases h
  | cons x l ih =>
    rw [findIdx?_cons] at h
    rw [find?_cons]
    cases hx : P x <;> rw [hx] at h
    · obtain ⟨j, hj, rfl⟩ := map_eq_some_iff.1 h
      rw [modify_succ_cons, find?_cons, hx]
      exact ih hj
    · cases h
      rw [modify_zero_cons, find?_cons, hP, hx]
      rfl

lemma Shaped.onSegment {ranges : List (IPv4 × IPv4)}
    (hs : p.Shaped ranges) (hf : ∀ seg, (f seg).bounds = seg.bounds) :
    (p.onSegment b f).Shaped ranges := by
  unfold Pool.onSegment
  split
  · exact hs
  · rw [Shaped, map_modify hf]
    exact hs

@[simp] lemma segments_forget (p : Pool) (b : IPv4) (pick : ℕ) :
    (p.forget b pick).segments = p.segments := by
  unfold Pool.forget
  simp only
  split <;> rfl

lemma exists_of_allocateIn {segs : List PoolSegment} (h : allocateIn segs = some (b, segs')) :
    ∃ before seg after idx, segs = before ++ seg :: after ∧ segs' = before ++ seg.set b :: after ∧
      seg.bitmap[idx]? = some false ∧ b = seg.start + BitVec.ofNat 32 idx := by
  induction segs generalizing b segs' with
  | nil => cases h
  | cons seg segs ih =>
    have hrest : ((allocateIn segs).map fun p => (p.1, seg :: p.2)) = some (b, segs') →
        ∃ before seg' after idx, seg :: segs = before ++ seg' :: after ∧
          segs' = before ++ seg'.set b :: after ∧
          seg'.bitmap[idx]? = some false ∧ b = seg'.start + BitVec.ofNat 32 idx := by
      intro hmap
      obtain ⟨⟨b', segs''⟩, hin, heq⟩ := map_eq_some_iff.1 hmap
      cases heq
      obtain ⟨before, seg', after, idx, rfl, rfl, hfree, hb⟩ := ih hin
      exact ⟨seg :: before, seg', after, idx, rfl, rfl, hfree, hb⟩
    rw [allocateIn] at h
    simp only at h
    split_ifs at h
    · exact hrest h
    · rcases hidx : seg.bitmap.findIdx? (!·) with _ | idx <;> rw [hidx] at h
      · exact hrest h
      · cases h
        obtain ⟨hlt, hfree, -⟩ := findIdx?_eq_some_iff_getElem.1 hidx
        refine ⟨[], seg, segs, idx, rfl, rfl, ?_, rfl⟩
        rw [getElem?_eq_getElem hlt]
        exact congrArg some (Bool.not_eq_true' _ ▸ hfree)

lemma shaped_new (ranges : List (IPv4 × IPv4)) (statics : List StaticMapping) :
    (Pool.new ranges statics).Shaped ranges := by
  have hbounds : ∀ (start stop : IPv4) (seg : PoolSegment), (statics.foldl (fun seg sm =>
        if start ≤ sm.ip ∧ sm.ip ≤ stop then
          { seg with
            staticSet := sm.ip :: seg.staticSet
            bitmap := seg.bitmap.set (sm.ip - start).toNat true
            allocated := seg.allocated + 1#32 }
        else seg) seg).bounds = seg.bounds := by
    intro start stop
    induction statics with
    | nil => exact fun seg => rfl
    | cons sm statics ih =>
      intro seg
      rw [foldl_cons, ih]
      split_ifs
      · simp only [PoolSegment.bounds, length_set]
      · rfl
  rw [Shaped, Pool.new, map_map]
  apply map_congr_left
  intro r _
  rw [Function.comp_apply, PoolSegment.new, hbounds]
  simp only [PoolSegment.bounds, length_replicate]

/-! ### Taken addresses -/

/-- The address is taken, where it lies in a segment. Source: pool.go allocate, findSegment. -/
def Taken (p : Pool) (a : IPv4) : Prop := ∀ seg, p.findSegment a = some seg → seg.isSet a = true

/-- The segments are where they were, and the address is taken where it was. -/
def Keeps (a : IPv4) (p p' : Pool) : Prop :=
  Forall₂ (fun seg seg' => seg'.bounds = seg.bounds ∧ (seg.isSet a = true → seg'.isSet a = true))
    p.segments p'.segments

lemma Keeps.refl (a : IPv4) (p : Pool) : Keeps a p p := forall₂_same.2 fun _ _ => ⟨rfl, id⟩

lemma Taken.keeps (ht : p.Taken a) (hk : Keeps a p p') : p'.Taken a := by
  intro seg' hseg'
  obtain ⟨seg, hseg, -, hset⟩ :=
    find?_of_forall₂ (fun _ _ h => PoolSegment.has_eq_of_bounds h.1 a) hk hseg'
  exact hset (ht seg hseg)

lemma Shaped.keeps {ranges : List (IPv4 × IPv4)} (hs : p.Shaped ranges) (hk : Keeps a p p') :
    p'.Shaped ranges := by
  have hsame : p'.segments.map PoolSegment.bounds = p.segments.map PoolSegment.bounds := by
    rw [Keeps] at hk
    generalize p.segments = l, p'.segments = l' at hk
    induction hk with
    | nil => rfl
    | cons hseg _ ih => rw [map_cons, map_cons, hseg.1, ih]
  rwa [Shaped, hsame]

lemma Shaped.release {ranges : List (IPv4 × IPv4)} {pick : ℕ} (hs : p.Shaped ranges) :
    (p.release b pick).Shaped ranges := by
  unfold Pool.release
  split
  · exact hs
  · split_ifs
    · exact hs
    · rw [Shaped, segments_forget]
      exact hs.onSegment fun _ => PoolSegment.bounds_clear
    · exact hs

lemma keeps_onSegment (hf : ∀ seg : PoolSegment, (f seg).bounds = seg.bounds ∧
    (seg.isSet a → (f seg).isSet a)) : Keeps a p (p.onSegment b f) := by
  unfold Pool.onSegment
  split
  · exact .refl a p
  · exact forall₂_modify (fun _ => ⟨rfl, id⟩) hf _ _

lemma keeps_reserve (a : IPv4) : Keeps a p (p.reserve b mac) :=
  keeps_onSegment (b := b) fun _ => ⟨PoolSegment.bounds_set, PoolSegment.isSet_set⟩

lemma keeps_markUnavailable (a : IPv4) : Keeps a p (p.markUnavailable b) :=
  keeps_onSegment fun _ => ⟨PoolSegment.bounds_set, PoolSegment.isSet_set⟩

lemma keeps_allocate (a : IPv4) (h : p.allocate mac = some (b, p')) : Keeps a p p' := by
  unfold Pool.allocate at h
  split at h
  · obtain ⟨-, rfl⟩ := Prod.mk.inj (Option.some.inj h)
    exact .refl a p
  · obtain ⟨⟨b', segs'⟩, hin, heq⟩ := map_eq_some_iff.1 h
    cases heq
    obtain ⟨before, seg, after, idx, hsegs, rfl, -⟩ := exists_of_allocateIn hin
    rw [Keeps, hsegs]
    exact rel_append (forall₂_same.2 fun _ _ => ⟨rfl, id⟩)
      (.cons ⟨PoolSegment.bounds_set, PoolSegment.isSet_set⟩ (forall₂_same.2 fun _ _ => ⟨rfl, id⟩))

/-- A release takes no address but its own away. -/
lemma keeps_release (hne : b ≠ a) (pick : ℕ) : Keeps a p (p.release b pick) := by
  unfold Pool.release
  split
  · exact .refl a p
  · split_ifs
    · exact .refl a p
    · rw [Keeps, segments_forget]
      exact keeps_onSegment fun _ => ⟨PoolSegment.bounds_clear, PoolSegment.isSet_clear hne⟩
    · exact .refl a p

lemma taken_reserve {ranges : List (IPv4 × IPv4)} (hs : p.Shaped ranges) (a : IPv4) (mac : Mac) :
    (p.reserve a mac).Taken a := by
  intro seg' hseg'
  have hfind : (p.onSegment a fun seg => seg.set a).findSegment a = some seg' := hseg'
  unfold Pool.onSegment at hfind
  split at hfind
  · rename_i hidx
    rw [findSegment, find?_eq_none.2 (by simpa using findIdx?_eq_none_iff.1 hidx)] at hfind
    cases hfind
  · rename_i i hidx
    rw [findSegment, find?_modify (fun seg => PoolSegment.has_eq_of_bounds PoolSegment.bounds_set a)
      hidx] at hfind
    obtain ⟨seg, hseg, rfl⟩ := map_eq_some_iff.1 hfind
    -- a segment has a bit for each of its addresses
    have hmem := mem_map_of_mem (f := PoolSegment.bounds) (mem_of_find?_eq_some hseg)
    rw [show p.segments.map _ = _ from hs] at hmem
    obtain ⟨r, -, hr⟩ := mem_map.1 hmem
    simp only [PoolSegment.bounds, Prod.mk.injEq] at hr
    exact PoolSegment.isSet_set_self (by rw [← hr.2.2, ← hr.2.1]) (by simpa using find?_some hseg)

end Pool

/-! ## The server -/

variable {I : Pool → Prop} {lt : LeaseTable} {h : Subnet}

/-- What the operations of the pool keep, the server keeps. Source: handler.go handle;
dhcpserver/lease.go add, release, expire. -/
structure PoolInvariant (I : Pool → Prop) : Prop where
  allocate : ∀ p mac b p', I p → p.allocate mac = some (b, p') → I p'
  reserve : ∀ p b mac, I p → I (p.reserve b mac)
  release : ∀ p b pick, I p → I (p.release b pick)
  markUnavailable : ∀ p b, I p → I (p.markUnavailable b)

lemma PoolInvariant.of_release (hI : PoolInvariant I) (h : I lt.pool) (mac : Mac)
    (pick : ℕ) : I (lt.release mac pick).pool := by
  unfold LeaseTable.release
  split
  · exact h
  · exact hI.release _ _ _ h

lemma PoolInvariant.of_add (hI : PoolInvariant I) (h : I lt.pool) (now : ℕ) (mac : Mac)
    (addr : IPv4) (sec : BitVec 32) (pick : ℕ) : I (lt.add now mac addr sec pick).pool := by
  unfold LeaseTable.add
  rcases lt.byMAC mac with _ | existing
  · exact h
  · simp only
    split_ifs
    · exact hI.release _ _ _ h
    · exact h

lemma PoolInvariant.of_handle (hI : PoolInvariant I) (hp : I lt.pool) (now : ℕ)
    (pkt : List Octet) (pick : ℕ) : I (h.handle lt now pkt pick).1.pool := by
  unfold Subnet.handle
  simp only
  split_ifs
  · exact hp
  · unfold Subnet.handleDiscover
    split
    · exact hp
    · split
      · exact hp
      · rename_i halloc
        exact hI.allocate _ _ _ _ hp halloc
  · unfold Subnet.handleRequest
    split
    · exact hp
    · exact hp
    · exact hI.of_add (hI.reserve _ _ _ hp) _ _ _ _ _
  · exact hI.of_release hp _ _
  · unfold Subnet.handleDecline
    apply hI.of_release
    split
    · exact hp
    · exact hI.markUnavailable _ _ hp
  · exact hp

lemma poolInvariant_shaped (ranges : List (IPv4 × IPv4)) :
    PoolInvariant (Pool.Shaped ranges) where
  allocate _ _ _ _ hs halloc := hs.keeps (Pool.keeps_allocate 0#32 halloc)
  reserve _ _ _ hs := hs.keeps (Pool.keeps_reserve 0#32)
  release _ _ _ hs := hs.release
  markUnavailable _ _ hs := hs.keeps (Pool.keeps_markUnavailable 0#32)

end Ze.Dhcp
