import Ze.Rib.BestPath

/-!
# The comparison of a pair and its reason

`comparePair` of `plugins/rib/bestpath.go`, and `comparePairWithReason`, which runs through the same
criteria in a chain of its own and says why.
-/

namespace Ze.Rib

open List

open Ze.Net (Addr)

/-! ## The two chains -/

/-- Source: bestpath.go. -/
def comparePair (a b : Candidate) : Ordering × BestStep :=
  let (result, step) := compareBeforeMED a b
  if result ≠ .eq then (result, step)
  else if sameNeighborAS a b = true ∧ a.med ≠ b.med then
    if a.med < b.med then (.lt, .med) else (.gt, .med)
  else compareAfterMED a b

/-- A candidate that a slice points to. The address is that of the object; the pointers of a slice
are equal when their addresses are. Source: bestpath.go *Candidate. -/
structure Ref where
  address : ℕ
  val : Candidate
  peerAddr : String
  deriving DecidableEq

/-- Source: bestpath.go ebgpLabel; core/bgp/routeaction/routeaction.go String. -/
def ebgpLabel (isEBGP : Bool) : String := if isEBGP then "ebgp" else "ibgp"

/-- The text of a comparison of two numbers. Source: bestpath.go comparePairWithReason.
-/
def versus {α : Type} [ToString α] (what : String) (a b : α) : String :=
  what ++ " " ++ toString a ++ " vs " ++ toString b

variable (addrString : Addr → String)

/-- Source: bestpath.go comparePairWithReason; addrString is Addr.String of
net/netip. -/
def comparePairWithReason (p q : Ref) : Ordering × BestStep × String :=
  let a := p.val
  let b := q.val
  let aDepref := decide (depreferenceThreshold ≤ a.staleLevel)
  let bDepref := decide (depreferenceThreshold ≤ b.staleLevel)
  if aDepref ≠ bDepref then
    let reason := versus "stale-level" a.staleLevel b.staleLevel ++ " (threshold " ++
      toString depreferenceThreshold ++ ")"
    if !aDepref then (.lt, .stale, reason) else (.gt, .stale, reason)
  else if aDepref = true ∧ a.staleLevel ≠ b.staleLevel then
    let reason := versus "stale-level" a.staleLevel b.staleLevel
    if a.staleLevel < b.staleLevel then (.lt, .stale, reason) else (.gt, .stale, reason)
  else if a.localPref ≠ b.localPref then
    let reason := versus "local-preference" a.localPref b.localPref
    if a.localPref > b.localPref then (.lt, .localPref, reason) else (.gt, .localPref, reason)
  else if compareAIGP a b ≠ .eq then
    (compareAIGP a b, .aigp, "aigp " ++ toString a.hasAIGP ++ "/" ++ toString a.aigp ++ " + " ++
      toString a.igpCost ++ " vs " ++ toString b.hasAIGP ++ "/" ++ toString b.aigp ++ " + " ++
      toString b.igpCost)
  else if a.asPathLen ≠ b.asPathLen then
    let reason := versus "as-path-length" a.asPathLen b.asPathLen
    if a.asPathLen < b.asPathLen then (.lt, .asPathLen, reason) else (.gt, .asPathLen, reason)
  else if a.origin ≠ b.origin then
    let reason := versus "origin" a.origin b.origin
    if a.origin < b.origin then (.lt, .origin, reason) else (.gt, .origin, reason)
  else if sameNeighborAS a b = true ∧ a.med ≠ b.med then
    let reason := versus "med" a.med b.med ++ " (same neighbor AS " ++ toString (neighborAS a) ++
      ")"
    if a.med < b.med then (.lt, .med, reason) else (.gt, .med, reason)
  else if (a.localASN ≠ 0 ∧ b.localASN ≠ 0) ∧
      (a.peerASN != a.localASN) ≠ (b.peerASN != b.localASN) then
    let aEBGP := a.peerASN != a.localASN
    let bEBGP := b.peerASN != b.localASN
    let reason := "ebgp-over-ibgp (\"" ++ ebgpLabel aEBGP ++ "\" vs \"" ++ ebgpLabel bEBGP ++ "\")"
    if aEBGP then (.lt, .ebgpOverIBGP, reason) else (.gt, .ebgpOverIBGP, reason)
  else if a.igpCost ≠ b.igpCost then
    let reason := versus "igp-cost" a.igpCost b.igpCost
    if a.igpCost < b.igpCost then (.lt, .igpCost, reason) else (.gt, .igpCost, reason)
  else if (a.originatorIP.isValid = true ∧ b.originatorIP.isValid = true) ∧
      a.originatorIP.cmp b.originatorIP ≠ .eq then
    (a.originatorIP.cmp b.originatorIP, .routerID,
      versus "router-id" (addrString a.originatorIP) (addrString b.originatorIP))
  else if a.clusterListEntries ≠ b.clusterListEntries then
    let reason := versus "cluster-list-length" a.clusterListEntries b.clusterListEntries
    if a.clusterListEntries < b.clusterListEntries then (.lt, .clusterList, reason)
    else (.gt, .clusterList, reason)
  else if a.peerIP ≠ b.peerIP then
    (a.peerIP.cmp b.peerIP, .peerAddr, versus "peer-address" p.peerAddr q.peerAddr)
  else if a.pathID ≠ b.pathID then
    (compare a.pathID b.pathID, .pathID, versus "path-id" a.pathID b.pathID)
  else (.eq, .equal, "identical candidates")

/-! ## The chains agree -/

/-- The outcome and the step of a comparison with its reason. -/
def decision (t : Ordering × BestStep × String) : Ordering × BestStep := (t.1, t.2.1)

section

variable {rest : Ordering × BestStep × String} {tail : List (Ordering × BestStep)} {step : BestStep}
  {reason : String}

lemma decision_outcome {p : Prop} [Decidable p] {r : Ordering} (hp : p ↔ r ≠ .eq)
    {found : Ordering × BestStep × String} (hfound : p → decision found = (r, step))
    (h : decision rest = decideBy tail) :
    decision (if p then found else rest) = decideBy ((r, step) :: tail) := by
  rw [decideBy]
  by_cases hr : r = .eq
  · rw [if_neg (fun h => hp.1 h hr), if_pos hr, h]
  · rw [if_pos (hp.2 hr), if_neg hr, hfound (hp.2 hr)]

lemma decision_lt {r : Ordering} {lt : Prop} [Decidable lt] (hlt : lt ↔ r = .lt) (hne : r ≠ .eq) :
    decision (if lt then (.lt, step, reason) else (.gt, step, reason)) = (r, step) := by
  rcases r
  · rw [if_pos (hlt.2 rfl)]
    rfl
  · exact absurd rfl hne
  · rw [if_neg fun h => by cases hlt.1 h]
    rfl

lemma decideBy_append (l m : List (Ordering × BestStep)) :
    decideBy (l ++ m) = if (decideBy l).1 = .eq then decideBy m else decideBy l := by
  induction l with
  | nil => rfl
  | cons d rest ih =>
    obtain ⟨r, step⟩ := d
    rw [cons_append, decideBy, decideBy]
    by_cases hr : r = .eq
    · rw [if_pos hr, if_pos hr, ih]
    · rw [if_neg hr, if_neg hr, if_neg hr]

lemma compare_ne_eq_iff {α : Type} [Ord α] [Std.LawfulEqOrd α] {x y : α} :
    x ≠ y ↔ compare x y ≠ .eq := by
  rw [ne_eq, ne_eq, Std.LawfulEqOrd.compare_eq_iff_eq]

end

/-- Step 4: lowest MED, within one neighbor AS. Source: bestpath.go comparePair. -/
def compareMED (a b : Candidate) : Ordering :=
  if sameNeighborAS a b then compare a.med b.med else .eq

variable {a b : Candidate}

lemma compareMED_ne_eq_iff : (sameNeighborAS a b ∧ a.med ≠ b.med) ↔ compareMED a b ≠ .eq := by
  rw [compareMED]
  by_cases hsame : sameNeighborAS a b
  · rw [if_pos hsame, and_iff_right hsame, compare_ne_eq_iff]
  · rw [if_neg hsame]
    simp [hsame]

lemma compareEBGP_ne_eq_iff :
    ((a.localASN ≠ 0 ∧ b.localASN ≠ 0) ∧
      (a.peerASN != a.localASN) ≠ (b.peerASN != b.localASN)) ↔ compareEBGP a b ≠ .eq := by
  rw [compareEBGP]
  by_cases hknown : a.localASN ≠ 0 ∧ b.localASN ≠ 0
  · rw [if_pos hknown, and_iff_right hknown]
    dsimp only
    split_ifs with hdiff <;> simp [hdiff]
  · rw [if_neg hknown]
    simp [hknown]

lemma compareRouterID_ne_eq_iff :
    ((a.originatorIP.isValid ∧ b.originatorIP.isValid) ∧
      a.originatorIP.cmp b.originatorIP ≠ .eq) ↔ compareRouterID a b ≠ .eq := by
  rw [compareRouterID]
  by_cases hknown : a.originatorIP.isValid ∧ b.originatorIP.isValid
  · rw [if_pos hknown, and_iff_right hknown]
  · rw [if_neg hknown]
    simp [hknown]

lemma comparePair_eq (a b : Candidate) :
    comparePair a b = decideBy [
      (compareStale a b, .stale),
      (compare b.localPref a.localPref, .localPref),
      (compareAIGP a b, .aigp),
      (compare a.asPathLen b.asPathLen, .asPathLen),
      (compare a.origin b.origin, .origin),
      (compareMED a b, .med),
      (compareEBGP a b, .ebgpOverIBGP),
      (compare a.igpCost b.igpCost, .igpCost),
      (compareRouterID a b, .routerID),
      (compare a.clusterListEntries b.clusterListEntries, .clusterList),
      (a.peerIP.cmp b.peerIP, .peerAddr),
      (compare a.pathID b.pathID, .pathID)] := by
  have hmed : (if sameNeighborAS a b = true ∧ a.med ≠ b.med then
      if a.med < b.med then (Ordering.lt, BestStep.med) else (.gt, .med)
      else compareAfterMED a b) = decideBy [
      (compareMED a b, .med), (compareEBGP a b, .ebgpOverIBGP),
      (compare a.igpCost b.igpCost, .igpCost), (compareRouterID a b, .routerID),
      (compare a.clusterListEntries b.clusterListEntries, .clusterList),
      (a.peerIP.cmp b.peerIP, .peerAddr), (compare a.pathID b.pathID, .pathID)] := by
    rw [decideBy]
    by_cases hne : sameNeighborAS a b ∧ a.med ≠ b.med
    · have hmed : compareMED a b = compare a.med b.med := if_pos hne.1
      have hdiff := compareMED_ne_eq_iff.1 hne
      rw [if_pos hne, if_neg hdiff, hmed]
      by_cases hlt : a.med < b.med
      · rw [if_pos hlt, Std.compare_eq_lt.2 hlt]
      · rw [hmed] at hdiff
        rw [if_neg hlt]
        rcases hcmp : compare a.med b.med with _ | _ | _
        · exact absurd (Std.compare_eq_lt.1 hcmp) hlt
        · exact absurd hcmp hdiff
        · rfl
    · have heq := compareMED_ne_eq_iff.not.1 hne
      rw [not_not] at heq
      rw [if_neg hne, if_pos heq]
      rfl
  have happend := decideBy_append [
    (compareStale a b, .stale), (compare b.localPref a.localPref, .localPref),
    (compareAIGP a b, .aigp), (compare a.asPathLen b.asPathLen, .asPathLen),
    (compare a.origin b.origin, .origin)] [
    (compareMED a b, .med), (compareEBGP a b, .ebgpOverIBGP),
    (compare a.igpCost b.igpCost, .igpCost), (compareRouterID a b, .routerID),
    (compare a.clusterListEntries b.clusterListEntries, .clusterList),
    (a.peerIP.cmp b.peerIP, .peerAddr), (compare a.pathID b.pathID, .pathID)]
  rw [← hmed, ← compareBeforeMED] at happend
  refine Eq.trans ?_ happend.symm
  rw [comparePair]
  by_cases hbefore : (compareBeforeMED a b).1 = .eq
  · rw [if_pos hbefore]
    simp only [hbefore, ne_eq, not_true_eq_false, if_false]
  · rw [if_neg hbefore]
    simp only [ne_eq, hbefore, not_false_eq_true, if_true]

lemma comparePair_fst (a b : Candidate) :
    (comparePair a b).1 =
      (resultBeforeMED a b).then ((compareMED a b).then (resultAfterMED a b)) := by
  rw [comparePair_eq, resultBeforeMED, compareBeforeMED, resultAfterMED, compareAfterMED]
  simp only [decideBy_fst, foldr_cons, foldr_nil, Ordering.then_assoc, Ordering.eq_then]

lemma step_of_decideBy_eq {l : List (Ordering × BestStep)} (h : (decideBy l).1 = .eq) :
    (decideBy l).2 = .equal := by
  induction l with
  | nil => rfl
  | cons d rest ih =>
    obtain ⟨r, step⟩ := d
    rw [decideBy] at h ⊢
    by_cases hr : r = .eq
    · rw [if_pos hr] at h ⊢
      exact ih h
    · rw [if_neg hr] at h
      exact absurd h hr

lemma step_of_comparePair_eq (h : (comparePair a b).1 = .eq) : (comparePair a b).2 = .equal := by
  rw [comparePair_eq] at h ⊢
  exact step_of_decideBy_eq h

lemma decision_stale {rest : Ordering × BestStep × String}
    {reason reason' : String} {tail : List (Ordering × BestStep)}
    (h : decision rest = decideBy tail) :
    decision (
      if decide (depreferenceThreshold ≤ a.staleLevel) ≠
          decide (depreferenceThreshold ≤ b.staleLevel) then
        if !decide (depreferenceThreshold ≤ a.staleLevel) then (.lt, .stale, reason)
        else (.gt, .stale, reason)
      else if decide (depreferenceThreshold ≤ a.staleLevel) = true ∧
          a.staleLevel ≠ b.staleLevel then
        if a.staleLevel < b.staleLevel then (.lt, .stale, reason') else (.gt, .stale, reason')
      else rest) = decideBy ((compareStale a b, .stale) :: tail) := by
  by_cases hdiff : decide (depreferenceThreshold ≤ a.staleLevel) ≠
      decide (depreferenceThreshold ≤ b.staleLevel)
  · rw [if_pos hdiff, decideBy, compareStale, if_pos hdiff]
    by_cases ha : (!decide (depreferenceThreshold ≤ a.staleLevel))
    · simp only [ha, if_true]
      rfl
    · rw [if_neg ha, if_neg ha]
      rfl
  · rw [if_neg hdiff]
    apply decision_outcome _ _ h
    · rw [compareStale, if_neg hdiff]
      by_cases ha : decide (depreferenceThreshold ≤ a.staleLevel)
      · rw [if_pos ha, and_iff_right ha, compare_ne_eq_iff]
      · rw [if_neg ha]
        simp [ha]
    · rintro ⟨ha, hne⟩
      have hstale : compareStale a b = compare a.staleLevel b.staleLevel := by
        rw [compareStale, if_neg hdiff, if_pos ha]
      rw [hstale]
      exact decision_lt Std.compare_eq_lt.symm (compare_ne_eq_iff.1 hne)

lemma decision_comparePairWithReason (p q : Ref) :
    decision (comparePairWithReason addrString p q) = comparePair p.val q.val := by
  rw [comparePair_eq, comparePairWithReason]
  apply decision_stale
  refine decision_outcome (ne_comm.trans compare_ne_eq_iff) (fun hne => ?_) ?_
  · exact decision_lt Std.compare_eq_lt.symm (compare_ne_eq_iff.1 hne.symm)
  refine decision_outcome Iff.rfl (fun _ => rfl) ?_
  refine decision_outcome compare_ne_eq_iff (fun hne => ?_) ?_
  · exact decision_lt Std.compare_eq_lt.symm (compare_ne_eq_iff.1 hne)
  refine decision_outcome compare_ne_eq_iff (fun hne => ?_) ?_
  · exact decision_lt Std.compare_eq_lt.symm (compare_ne_eq_iff.1 hne)
  refine decision_outcome compareMED_ne_eq_iff (fun hne => ?_) ?_
  · rw [show compareMED p.val q.val = _ from if_pos hne.1]
    exact decision_lt Std.compare_eq_lt.symm (compare_ne_eq_iff.1 hne.2)
  refine decision_outcome compareEBGP_ne_eq_iff (fun hne => ?_) ?_
  · rw [compareEBGP, if_pos hne.1, if_pos hne.2]
    dsimp only
    split_ifs <;> rfl
  refine decision_outcome compare_ne_eq_iff (fun hne => ?_) ?_
  · exact decision_lt Std.compare_eq_lt.symm (compare_ne_eq_iff.1 hne)
  refine decision_outcome compareRouterID_ne_eq_iff (fun hne => ?_) ?_
  · rw [compareRouterID, if_pos hne.1]
    rfl
  refine decision_outcome compare_ne_eq_iff (fun hne => ?_) ?_
  · exact decision_lt Std.compare_eq_lt.symm (compare_ne_eq_iff.1 hne)
  refine decision_outcome (Addr.cmp_eq_iff.not.symm) (fun _ => rfl) ?_
  exact decision_outcome compare_ne_eq_iff (fun _ => rfl) rfl

/-! ## Exchanging the candidates -/

lemma decideBy_swap (l : List (Ordering × BestStep)) :
    decideBy (l.map fun d => (d.1.swap, d.2)) = ((decideBy l).1.swap, (decideBy l).2) := by
  induction l with
  | nil => rfl
  | cons d rest ih =>
    obtain ⟨r, step⟩ := d
    rw [map_cons, decideBy, decideBy, ih]
    rcases r <;> rfl

lemma compare_eq_swap {α : Type} [Ord α] [Std.OrientedOrd α] (x y : α) :
    compare y x = (compare x y).swap := Std.OrientedOrd.eq_swap

lemma compareMED_swap (a b : Candidate) : compareMED b a = (compareMED a b).swap := by
  rw [compareMED, compareMED, sameNeighborAS_comm b a]
  split_ifs
  · exact Std.OrientedOrd.eq_swap
  · rfl

lemma comparePair_swap (a b : Candidate) :
    comparePair b a = ((comparePair a b).1.swap, (comparePair a b).2) := by
  have hstale : compareStale b a = (compareStale a b).swap := by
    rw [compareStale_eq]
    exact Std.OrientedCmp.eq_swap
  have haigp : compareAIGP b a = (compareAIGP a b).swap := by
    rw [compareAIGP_eq]
    exact Std.OrientedCmp.eq_swap
  have hebgp : compareEBGP b a = (compareEBGP a b).swap := Std.OrientedCmp.eq_swap
  have hrouter : compareRouterID b a = (compareRouterID a b).swap := Std.OrientedCmp.eq_swap
  have hpeer : b.peerIP.cmp a.peerIP = (a.peerIP.cmp b.peerIP).swap := Std.OrientedCmp.eq_swap
  rw [comparePair_eq b a, comparePair_eq a b, ← decideBy_swap, hstale, haigp, hebgp, hrouter, hpeer,
    compareMED_swap, compare_eq_swap b.localPref, compare_eq_swap a.asPathLen,
    compare_eq_swap a.origin, compare_eq_swap a.igpCost, compare_eq_swap a.clusterListEntries,
    compare_eq_swap a.pathID]
  rfl

end Ze.Rib
