import Ze.AttrPool.Handle
import Ze.Lib.Quota
import Ze.Rib.Selection

/-!
# Multipath selection

`SelectMultipath` of `plugins/rib/bestpath.go`: beside the primary, other survivors that tie with it
through the criteria that are not tie-breakers, up to a maximum, in the order of the survivors. The
candidates of a list have different peers or path identifiers here, so that equal pointers are equal
candidates, and the AS_PATH handle is a function of the candidate.
-/

namespace Ze.Rib

open Ze.AttrPool (Handle)
open Ze.Lib List
open scoped List

variable (asPathHandle : Candidate → Handle)

/-- Source: bestpath.go. -/
def multipathEqual (a b : Candidate) (relaxASPath : Bool) : Bool :=
  if a.localPref ≠ b.localPref then false
  else if compareAIGP a b ≠ .eq ∨ a.igpCost ≠ b.igpCost then false
  else if a.asPathLen ≠ b.asPathLen then false
  else if (relaxASPath = false ∧ (asPathHandle a).isValid = true ∧
      (asPathHandle b).isValid = true) ∧ asPathHandle a ≠ asPathHandle b then false
  else if a.origin ≠ b.origin then false
  else if sameNeighborAS a b = true ∧ a.med ≠ b.med then false
  else if (a.localASN ≠ 0 ∧ b.localASN ≠ 0) ∧
      (a.peerASN != a.localASN) ≠ (b.peerASN != b.localASN) then false
  else true

/-- The loop over the survivors, with the siblings so far. Source: bestpath.go
SelectMultipath, the loop. -/
def collectSiblings (primary : Candidate) (relaxASPath : Bool) (capacity : ℕ) :
    List Candidate → List Candidate → List Candidate
  | siblings, [] => siblings
  | siblings, c :: rest =>
    if c = primary then collectSiblings primary relaxASPath capacity siblings rest
    else if multipathEqual asPathHandle primary c relaxASPath then
      let siblings := siblings ++ [c]
      if siblings.length = capacity then siblings
      else collectSiblings primary relaxASPath capacity siblings rest
    else collectSiblings primary relaxASPath capacity siblings rest

/-- Source: bestpath.go. -/
def selectMultipath (sort : SortFunc compareNeighborAS) (candidates : List Candidate)
    (maxPaths : UInt32) (relaxASPath : Bool) : Option Candidate × List Candidate :=
  let selection := selectBestCandidates sort candidates
  match selection.best with
  | none => (none, [])
  | some primary =>
    if maxPaths ≤ 1 then (some primary, [])
    else
      let capacity := min (maxPaths.toNat - 1) (selection.eligible - 1)
      if capacity ≤ 0 then (some primary, [])
      else (some primary, collectSiblings asPathHandle primary relaxASPath capacity []
        (selection.scratch.take selection.eligible))

/-! ## The siblings -/

/-- The candidates of a list that tie with the primary. Source: bestpath.go
SelectMultipath. -/
def equalTo (primary : Candidate) (relaxASPath : Bool) (l : List Candidate) : List Candidate :=
  l.filter fun c => c ≠ primary ∧ multipathEqual asPathHandle primary c relaxASPath = true

section

variable {primary : Candidate} {relaxASPath : Bool}

lemma collectSiblings_eq {capacity : ℕ} (siblings l : List Candidate)
    (h : siblings.length < capacity) :
    collectSiblings asPathHandle primary relaxASPath capacity siblings l =
      siblings ++
        (equalTo asPathHandle primary relaxASPath l).take (capacity - siblings.length) := by
  induction l generalizing siblings with
  | nil => simp [collectSiblings, equalTo]
  | cons c rest ih =>
    rw [collectSiblings]
    by_cases hprimary : c = primary
    · rw [if_pos hprimary, ih siblings h, equalTo, equalTo, filter_cons_of_neg (by simp [hprimary])]
    · rw [if_neg hprimary]
      by_cases hequal : multipathEqual asPathHandle primary c relaxASPath
      · have htail : equalTo asPathHandle primary relaxASPath (c :: rest) =
            c :: equalTo asPathHandle primary relaxASPath rest :=
          filter_cons_of_pos (by simp [hprimary, hequal])
        obtain ⟨d, hd⟩ : ∃ d, capacity - siblings.length = d + 1 :=
          ⟨capacity - siblings.length - 1, by omega⟩
        rw [if_pos hequal, htail, hd, take_succ_cons]
        dsimp only
        rw [length_append, length_singleton]
        by_cases hfull : siblings.length + 1 = capacity
        · have hzero : d = 0 := by omega
          rw [if_pos hfull, hzero, take_zero]
        · rw [if_neg hfull, ih _ (by rw [length_append, length_singleton]; omega),
            append_assoc, length_append, length_singleton,
            show capacity - (siblings.length + 1) = d by omega, singleton_append]
      · rw [if_neg hequal, ih siblings h, equalTo, equalTo, filter_cons_of_neg (by simp [hequal])]

end

section

variable {l : List Candidate}

lemma selectMultipath_eq (sort : SortFunc compareNeighborAS) (l : List Candidate)
    (maxPaths : UInt32) (relaxASPath : Bool) :
    selectMultipath asPathHandle sort l maxPaths relaxASPath =
      (selectBest sort l, match selectBest sort l with
        | none => []
        | some primary => (equalTo asPathHandle primary relaxASPath
            (lowestMED (sort.sort (tiesBeforeMED l)))).take (maxPaths.toNat - 1)) := by
  obtain ⟨hbest, htake, -⟩ := selectBestCandidates_spec sort l
  rw [selectMultipath, selectBest]
  set selection := selectBestCandidates sort l
  rcases hprimary : selection.best with _ | primary
  · rfl
  · dsimp only
    set slice := lowestMED (sort.sort (tiesBeforeMED l)) with hslice
    have hmem : primary ∈ slice := leader_mem (hbest.symm.trans hprimary)
    -- the primary is among the survivors, so that the others fit the slice without it
    have hfits : (equalTo asPathHandle primary relaxASPath slice).length ≤
        selection.eligible - 1 := by
      have hsub : (equalTo asPathHandle primary relaxASPath slice).length < slice.length := by
        refine lt_of_le_of_ne (length_filter_le _ _) fun heq => ?_
        have hall := length_filter_eq_length_iff.1 heq primary hmem
        simp at hall
      have hlen : slice.length ≤ selection.eligible := by
        rw [← htake, length_take]
        exact Nat.min_le_left _ _
      omega
    by_cases hone : maxPaths ≤ 1
    · rw [if_pos hone]
      have hzero : maxPaths.toNat - 1 = 0 := by
        rw [UInt32.le_iff_toNat_le] at hone
        have h1 : (1 : UInt32).toNat = 1 := rfl
        omega
      rw [hzero, take_zero]
    · rw [if_neg hone]
      by_cases hcap : min (maxPaths.toNat - 1) (selection.eligible - 1) ≤ 0
      · have hpos : 0 < maxPaths.toNat - 1 := by
          rw [UInt32.le_iff_toNat_le] at hone
          have h1 : (1 : UInt32).toNat = 1 := rfl
          omega
        have hnil : equalTo asPathHandle primary relaxASPath slice = [] :=
          length_eq_zero_iff.1 (by omega)
        rw [if_pos hcap, hnil, take_nil]
      · rw [if_neg hcap, collectSiblings_eq asPathHandle [] _ (Nat.lt_of_not_le hcap), htake,
          nil_append, length_nil, Nat.sub_zero]
        congr 1
        by_cases hle : maxPaths.toNat - 1 ≤ selection.eligible - 1
        · rw [Nat.min_eq_left hle]
        · rw [Nat.min_eq_right (by omega), take_of_length_le hfits, take_of_length_le (by omega)]

lemma siblings_of_perm (sort : SortFunc compareNeighborAS) (hkey : Distinct l) {w : Candidate}
    (hw : SureLeader neighborKey preferred (survivors l) w) (maxPaths : UInt32)
    (relaxASPath : Bool) {l' : List Candidate} (hl' : l'.Perm l) :
    ∃ m, m.Perm (equalTo asPathHandle w relaxASPath (survivors l)) ∧ Ascending neighborKey m ∧
      (selectMultipath asPathHandle sort l' maxPaths relaxASPath).2 =
        m.take (maxPaths.toNat - 1) := by
  refine ⟨_, (lowestMED_sort_perm sort hl').filter _,
    List.Pairwise.filter _ (lowestMED_sort_ascending sort (tiesBeforeMED l')), ?_⟩
  rw [selectMultipath_eq, selectBest_of_sureLeader hkey sort hw hl']
  rfl

lemma exists_perm_siblings (sort : SortFunc compareNeighborAS) (hkey : Distinct l) {w : Candidate}
    (hw : SureLeader neighborKey preferred (survivors l) w) (maxPaths : UInt32)
    (relaxASPath : Bool) {m : List Candidate}
    (hm : m.Perm (equalTo asPathHandle w relaxASPath (survivors l)))
    (hasc : Ascending neighborKey m) :
    ∃ l' : List Candidate, l'.Perm l ∧
      (selectMultipath asPathHandle sort l' maxPaths relaxASPath).2 =
        m.take (maxPaths.toNat - 1) := by
  set test := fun c => decide (c ≠ w ∧ multipathEqual asPathHandle w c relaxASPath)
    with htest
  -- the survivors in an ascending order that keeps those that tie in the order of `m`
  set others := (survivors l).filter fun c => !test c with hothers
  have hall : (m ++ others).Perm (survivors l) :=
    (hm.append_right _).trans (filter_append_perm test _)
  set t := (m ++ others).insertionSort fun x y => neighborKey x ≤ neighborKey y with ht
  have htperm : t.Perm (survivors l) := (perm_insertionSort _ _).trans hall
  have htasc : Ascending neighborKey t := pairwise_insertionSort _ _
  have hsub : m.Sublist t := sublist_insertionSort hasc (sublist_append_left _ _)
  have hfilter : equalTo asPathHandle w relaxASPath t = m := by
    have hself : m.filter test = m := by
      apply filter_eq_self.2
      intro c hc
      exact (mem_filter.1 (hm.mem_iff.1 hc)).2
    have hsub' := hsub.filter test
    rw [hself] at hsub'
    refine (hsub'.eq_of_length ?_).symm
    exact hm.length_eq.trans (htperm.filter test).length_eq.symm
  obtain ⟨l', hl', hslice⟩ := exists_perm_survivors sort htperm htasc
  refine ⟨l', hl', ?_⟩
  rw [selectMultipath_eq, selectBest_of_sureLeader hkey sort hw hl', hslice]
  dsimp only
  rw [hfilter]

end

/-- **Theorem.** For every list of candidates with different peers or path identifiers the primary
is the selected candidate. Where a survivor is a sure leader, so that the primary does not depend on
the order of the candidates, the set of siblings is the same for every order exactly when the
maximum splits no neighbor AS: of the survivors that tie with the primary, taken by ascending
neighbor AS, it takes those of one neighbor AS all or not at all. -/
theorem selectMultipath_perm_iff (sort : SortFunc compareNeighborAS) {l : List Candidate}
    (hkey : Distinct l) (maxPaths : UInt32) (relaxASPath : Bool) :
    (selectMultipath asPathHandle sort l maxPaths relaxASPath).1 = selectBest sort l ∧
      ∀ w, SureLeader neighborKey preferred (survivors l) w →
        ((∀ l' : List Candidate, l'.Perm l → ∀ c,
            c ∈ (selectMultipath asPathHandle sort l' maxPaths relaxASPath).2 ↔
              c ∈ (selectMultipath asPathHandle sort l maxPaths relaxASPath).2) ↔
          Quota neighborKey (equalTo asPathHandle w relaxASPath (survivors l))
            (maxPaths.toNat - 1)) := by
  refine ⟨by rw [selectMultipath_eq], fun w hw => ?_⟩
  obtain ⟨m, hm, hasc, hsiblings⟩ :=
    siblings_of_perm asPathHandle sort hkey hw maxPaths relaxASPath (.refl l)
  have hnodup : (equalTo asPathHandle w relaxASPath (survivors l)).Nodup :=
    (survivors_nodup hkey).sublist filter_sublist
  rw [← take_eq_iff_quota hnodup hm hasc, hsiblings]
  constructor
  · intro hsame m' hm' hasc'
    obtain ⟨l', hl', heq⟩ :=
      exists_perm_siblings asPathHandle sort hkey hw maxPaths relaxASPath hm' hasc'
    rw [← heq]
    exact hsame l' hl'
  · intro hsame l' hl'
    obtain ⟨m', hm', hasc', heq⟩ :=
      siblings_of_perm asPathHandle sort hkey hw maxPaths relaxASPath hl'
    rw [heq]
    exact hsame m' hm' hasc'

def threeEqual : List Candidate := [routeFrom 1 1, routeFrom 2 2, routeFrom 3 3]

def oneHandle (_ : Candidate) : Handle := ⟨42, by decide⟩

/-- A maximum of three keeps both siblings in every order. -/
theorem selectMultipath_three :
    Distinct threeEqual ∧ ∀ l' : List Candidate, l'.Perm threeEqual → ∀ c,
      c ∈ (selectMultipath oneHandle insertionSortFunc l' 3 false).2 ↔
        c ∈ (selectMultipath oneHandle insertionSortFunc threeEqual 3 false).2 := by
  refine ⟨by decide, ?_⟩
  obtain ⟨w, hw⟩ := exists_sureLeader_of_known (l := threeEqual) (by decide) (by decide) (by decide)
  apply ((selectMultipath_perm_iff oneHandle insertionSortFunc (by decide) 3 false).2 w hw).2
  intro x _
  refine .inl ?_
  have hlen : (survivors threeEqual).length = 3 := by decide +kernel
  have hsub : (equalTo oneHandle w false (survivors threeEqual)).length <
      (survivors threeEqual).length := by
    refine lt_of_le_of_ne (length_filter_le _ _) fun heq => ?_
    have hall := length_filter_eq_length_iff.1 heq w hw.mem
    simp at hall
  have hle := countP_le_length (p := fun y => decide (neighborKey y ≤ neighborKey x))
    (l := equalTo oneHandle w false (survivors threeEqual))
  have htwo : (3 : UInt32).toNat - 1 = 2 := rfl
  rw [countUpTo, htwo]
  omega

/-- A maximum of two keeps the sibling that comes first. -/
theorem selectMultipath_order_dependent :
    Distinct threeEqual ∧
      (selectMultipath oneHandle insertionSortFunc threeEqual 2 false).2 = [routeFrom 2 2] ∧
      (selectMultipath oneHandle insertionSortFunc
        [routeFrom 1 1, routeFrom 3 3, routeFrom 2 2] 2 false).2 = [routeFrom 3 3] ∧
      [routeFrom 1 1, routeFrom 3 3, routeFrom 2 2].Perm threeEqual := by
  refine ⟨by decide, by decide +kernel, by decide +kernel, by decide⟩

end Ze.Rib
