import Mathlib.Data.Int.Notation
import Ze.Net.Addr

/-!
# Best-path comparison

The pairwise criteria of the BGP decision process: what a `Candidate` carries, the globally ordered
criteria before MED (`compareBeforeMED`), the neighbor AS within which MED is comparable
(`neighborAS`, `sameNeighborAS`), and the criteria after MED (`compareAfterMED`).

Default file: `bestpath.go`.
-/

namespace Ze.Rib

open List

open Ze.Net (Addr)

inductive BestStep where
  | stale
  | localPref
  | aigp
  | asPathLen
  | origin
  | med
  | ebgpOverIBGP
  | igpCost
  | routerID
  | clusterList
  | peerAddr
  | pathID
  | equal
  deriving DecidableEq, Repr

structure Candidate where
  peerIP : Addr
  peerASN : UInt32
  /-- 0 when unknown. -/
  localASN : UInt32
  localPref : UInt32
  asPathLen : ℤ
  /-- First AS of the path, 0 when there is none. -/
  firstAS : UInt32
  /-- IGP 0, EGP 1, INCOMPLETE 2. -/
  origin : UInt8
  med : UInt32
  igpCost : UInt64
  aigp : UInt64
  hasAIGP : Bool
  originatorIP : Addr
  clusterListEntries : UInt16
  staleLevel : UInt8
  pathID : UInt32
  deriving DecidableEq, Repr

/-- Source: plugins/rib/storage/routeentry.go. -/
def depreferenceThreshold : UInt8 := 2

/-- Sum of two distances, saturating. Source: core/rib/igpcost/igpcost.go Add. -/
def igpcostAdd (a b : UInt64) : UInt64 :=
  if ~~~ (0 : UInt64) - a < b then ~~~ (0 : UInt64) else a + b

/-- The first criterion that tells the two apart decides.
Source: (the early returns of compareBeforeMED and compareAfterMED) -/
def decideBy : List (Ordering × BestStep) → Ordering × BestStep
  | [] => (.eq, .equal)
  | (r, step) :: rest => if r = .eq then decideBy rest else (r, step)

/-! ## Criteria before MED -/

/-- Step 0: stale-level depreference. Source: compareBeforeMED -/
def compareStale (a b : Candidate) : Ordering :=
  let aDepref := decide (depreferenceThreshold ≤ a.staleLevel)
  let bDepref := decide (depreferenceThreshold ≤ b.staleLevel)
  if aDepref ≠ bDepref then
    if !aDepref then .lt else .gt
  else if aDepref then compare a.staleLevel b.staleLevel
  else .eq

/-- A route with AIGP wins over one without; then the lower total distance. -/
def compareAIGP (a b : Candidate) : Ordering :=
  if a.hasAIGP ≠ b.hasAIGP then
    if a.hasAIGP then .lt else .gt
  else if !a.hasAIGP then .eq
  else compare (igpcostAdd a.aigp a.igpCost) (igpcostAdd b.aigp b.igpCost)

/-- The globally ordered criteria; `.lt` when `a` is better. -/
def compareBeforeMED (a b : Candidate) : Ordering × BestStep :=
  decideBy [
    (compareStale a b, .stale), (compare b.localPref a.localPref, .localPref),
    (compareAIGP a b, .aigp), (compare a.asPathLen b.asPathLen, .asPathLen),
    (compare a.origin b.origin, .origin)]

/-- The result alone. Source: compareBeforeMED. -/
def resultBeforeMED (a b : Candidate) : Ordering :=
  (compareBeforeMED a b).1

/-! ## MED -/

/-- The neighboring AS of a route, 0 when it is not known. -/
def neighborAS (c : Candidate) : UInt32 :=
  if c.firstAS ≠ 0 then c.firstAS
  else if c.localASN = 0 then 0
  else if c.peerASN ≠ c.localASN then 0
  else c.localASN

def sameNeighborAS (a b : Candidate) : Bool :=
  let neighbor := neighborAS a
  if neighbor = 0 then false else neighbor == neighborAS b

/-! ## Criteria after MED -/

/-- Step 5: eBGP over iBGP, skipped unless both local AS numbers are known.
Source: compareAfterMED -/
def compareEBGP (a b : Candidate) : Ordering :=
  if a.localASN ≠ 0 ∧ b.localASN ≠ 0 then
    let aEBGP := a.peerASN != a.localASN
    let bEBGP := b.peerASN != b.localASN
    if aEBGP ≠ bEBGP then
      if aEBGP then .lt else .gt
    else .eq
  else .eq

/-- Step 7: lowest router id, skipped unless both are known. Source: compareAfterMED -/
def compareRouterID (a b : Candidate) : Ordering :=
  if a.originatorIP.isValid ∧ b.originatorIP.isValid then a.originatorIP.cmp b.originatorIP
  else .eq

/-- The criteria for candidates that survived MED; `.lt` when `a` is better. -/
def compareAfterMED (a b : Candidate) : Ordering × BestStep :=
  decideBy [
    (compareEBGP a b, .ebgpOverIBGP), (compare a.igpCost b.igpCost, .igpCost),
    (compareRouterID a b, .routerID),
    (compare a.clusterListEntries b.clusterListEntries, .clusterList),
    (a.peerIP.cmp b.peerIP, .peerAddr), (compare a.pathID b.pathID, .pathID)]

/-- The result alone. Source: compareAfterMED. -/
def resultAfterMED (a b : Candidate) : Ordering :=
  (compareAfterMED a b).1

/-! ## The order before MED -/

lemma decideBy_fst (l : List (Ordering × BestStep)) :
    (decideBy l).1 = l.foldr (fun d r => d.1.then r) .eq := by
  induction l with
  | nil => rfl
  | cons d rest ih =>
    obtain ⟨r, step⟩ := d
    unfold decideBy
    cases r <;> simp [ih, Ordering.then]

lemma compare_false_true : compare false true = .lt := rfl

lemma compare_true_false : compare true false = .gt := rfl

def staleRank (c : Candidate) : UInt8 :=
  if depreferenceThreshold ≤ c.staleLevel then c.staleLevel else 0

lemma compare_zero_of_depreferenceThreshold_le {n : UInt8} (h : depreferenceThreshold ≤ n) :
    compare 0 n = .lt := by
  rw [Std.compare_eq_lt]
  exact UInt8.lt_of_lt_of_le (by decide) h

lemma compareStale_eq : compareStale = compareOn staleRank := by
  funext a b
  unfold compareStale compareOn staleRank
  by_cases ha : depreferenceThreshold ≤ a.staleLevel <;>
    by_cases hb : depreferenceThreshold ≤ b.staleLevel
  · simp [ha, hb]
  · have := compare_zero_of_depreferenceThreshold_le ha
    rw [Std.OrientedOrd.eq_swap, Ordering.swap_eq_lt] at this
    simp [ha, hb, this]
  · simp [ha, hb, compare_zero_of_depreferenceThreshold_le hb]
  · simp [ha, hb]

/-- The total distance of a route with AIGP, else 0. -/
def aigpRank (c : Candidate) : UInt64 :=
  if c.hasAIGP then igpcostAdd c.aigp c.igpCost else 0

lemma compareAIGP_eq : compareAIGP =
    compareLex (compareOn fun c => !c.hasAIGP) (compareOn aigpRank) := by
  funext a b
  unfold compareLex compareOn
  rcases ha : a.hasAIGP <;> rcases hb : b.hasAIGP
  · simp [compareAIGP, aigpRank, ha, hb]
  · simp [compareAIGP, ha, hb, compare_true_false]
  · simp [compareAIGP, ha, hb, compare_false_true]
  · have hmetric : compareAIGP a b = compare (aigpRank a) (aigpRank b) := by
      unfold compareAIGP aigpRank
      rw [if_neg (by simp [ha, hb]), if_neg (by simp [ha]), if_pos ha, if_pos hb]
    rw [hmetric]
    generalize aigpRank a = m, aigpRank b = n
    simp [ha, hb]

lemma resultBeforeMED_eq : resultBeforeMED =
    compareLex compareStale (compareLex (fun a b => compareOn Candidate.localPref b a)
      (compareLex compareAIGP (compareLex (compareOn Candidate.asPathLen)
        (compareOn Candidate.origin)))) := by
  funext a b
  unfold resultBeforeMED compareBeforeMED compareLex compareOn
  rw [decideBy_fst]
  simp only [foldr_cons, foldr_nil, Ordering.then_eq]

/-- The criteria before MED are transitive. Source: compareBeforeMED. -/
instance : Std.TransCmp resultBeforeMED := by
  rw [resultBeforeMED_eq, compareStale_eq, compareAIGP_eq]
  infer_instance

/-! ## The neighbor AS -/

variable {a b : Candidate}

lemma sameNeighborAS_iff : sameNeighborAS a b ↔ neighborAS a ≠ 0 ∧ neighborAS a = neighborAS b := by
  unfold sameNeighborAS
  by_cases h : neighborAS a = 0 <;> simp [h]

lemma sameNeighborAS_comm (a b : Candidate) : sameNeighborAS a b = sameNeighborAS b a := by
  rw [Bool.eq_iff_iff, sameNeighborAS_iff, sameNeighborAS_iff]
  constructor
  · rintro ⟨h, heq⟩
    exact ⟨heq ▸ h, heq.symm⟩
  · rintro ⟨h, heq⟩
    exact ⟨heq ▸ h, heq.symm⟩

/-! ## The criteria after MED -/

lemma resultAfterMED_eq : resultAfterMED =
    compareLex compareEBGP (compareLex (compareOn Candidate.igpCost)
      (compareLex compareRouterID (compareLex (compareOn Candidate.clusterListEntries)
        (compareLex (fun a b => a.peerIP.cmp b.peerIP) (compareOn Candidate.pathID))))) := by
  funext a b
  unfold resultAfterMED compareAfterMED compareLex compareOn
  rw [decideBy_fst]
  simp only [foldr_cons, foldr_nil, Ordering.then_eq]

/-- Exchanging the candidates reverses the eBGP step. -/
instance : Std.OrientedCmp compareEBGP where
  eq_swap := by
    intro a b
    unfold compareEBGP
    by_cases ha : a.localASN = 0
    · simp [ha]
    · by_cases hb : b.localASN = 0
      · simp [hb]
      · rcases heA : a.peerASN != a.localASN <;> rcases heB : b.peerASN != b.localASN <;>
          simp [ha, hb]

/-- Exchanging the candidates reverses the router-id step. -/
instance : Std.OrientedCmp compareRouterID where
  eq_swap := by
    intro a b
    unfold compareRouterID
    by_cases ha : a.originatorIP.isValid = true <;>
      by_cases hb : b.originatorIP.isValid = true
    · rw [if_pos ⟨ha, hb⟩, if_pos ⟨hb, ha⟩]
      exact Std.OrientedCmp.eq_swap
    · simp [hb]
    · simp [ha]
    · simp [ha]

/-- Exchanging the candidates reverses the outcome. Source: compareAfterMED -/
instance : Std.OrientedCmp resultAfterMED := by
  have hpeer : Std.OrientedCmp fun a b : Candidate => a.peerIP.cmp b.peerIP :=
    ⟨Std.OrientedCmp.eq_swap⟩
  rw [resultAfterMED_eq]
  infer_instance

lemma key_eq_of_resultAfterMED_eq (h : resultAfterMED a b = .eq) :
    (a.peerIP, a.pathID) = (b.peerIP, b.pathID) := by
  rw [resultAfterMED_eq] at h
  simp only [compareLex_eq_eq] at h
  obtain ⟨-, -, -, -, hpeer, hpath⟩ := h
  rw [Addr.cmp_eq_iff.1 hpeer, Std.LawfulEqOrd.eq_of_compare hpath]

/-- The candidate carries all that the criteria after MED compare. -/
def Candidate.Known (c : Candidate) : Prop :=
  c.localASN ≠ 0 ∧ c.originatorIP.isValid = true

instance (c : Candidate) : Decidable c.Known :=
  inferInstanceAs (Decidable (_ ∧ _))

/-- The criteria after MED for candidates with all fields known: every step compares a rank. -/
def rankAfterMED : Candidate → Candidate → Ordering :=
  compareLex (compareOn fun c => c.peerASN == c.localASN) (compareLex (compareOn Candidate.igpCost)
    (compareLex (fun a b => a.originatorIP.cmp b.originatorIP)
      (compareLex (compareOn Candidate.clusterListEntries)
        (compareLex (fun a b => a.peerIP.cmp b.peerIP) (compareOn Candidate.pathID)))))

/-- The ranks are transitive. -/
instance : Std.TransCmp rankAfterMED := by
  have haddr : ∀ f : Candidate → Addr, Std.TransCmp fun a b => (f a).cmp (f b) := fun f =>
    { eq_swap := Std.OrientedCmp.eq_swap, isLE_trans := Std.TransCmp.isLE_trans }
  unfold rankAfterMED
  infer_instance

lemma resultAfterMED_eq_rankAfterMED (ha : a.Known) (hb : b.Known) :
    resultAfterMED a b = rankAfterMED a b := by
  have hebgp : compareEBGP a b = compareOn (fun c => c.peerASN == c.localASN) a b := by
    unfold compareEBGP compareOn
    rw [if_pos ⟨ha.1, hb.1⟩]
    rcases heA : a.peerASN == a.localASN <;> rcases heB : b.peerASN == b.localASN <;>
      simp [bne, heA, heB, compare_false_true, compare_true_false]
  have hrouter : compareRouterID a b = a.originatorIP.cmp b.originatorIP := by
    unfold compareRouterID
    rw [if_pos ⟨ha.2, hb.2⟩]
  rw [resultAfterMED_eq]
  unfold rankAfterMED compareLex
  rw [hebgp, hrouter]

end Ze.Rib
