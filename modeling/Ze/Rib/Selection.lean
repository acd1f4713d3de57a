import Ze.Lib.Election
import Ze.Lib.Retain
import Ze.Rib.BestPath

/-!
# Best-path selection

`selectBestCandidates` on its scratch slice: a pass for the best candidate before MED, the
in-place partition of its ties, the grouping by neighbor AS, the in-place elimination of higher
MEDs in each group, and a last pass with the criteria after MED.

Default file: `bestpath_selection.go`.
-/

namespace Ze.Rib

open Ze.Lib List
open scoped List
open UInt32 (le_trans lt_irrefl not_lt)

/-- Source: plugins/rib/bestpath_selection.go. -/
def compareNeighborAS (a b : Candidate) : Ordering :=
  compare (neighborAS a) (neighborAS b)

/-- A sort of a slice: a permutation in ascending order. Equal elements may change places, but a
slice that is in order is left as it is: insertion sort moves nothing in it, and for a longer slice
the pattern detection of pdqsort finds it in order. -/
structure SortFunc {α : Type} (cmp : α → α → Ordering) where
  sort : List α → List α
  perm : ∀ l, (sort l).Perm l
  sorted : ∀ l, (sort l).Pairwise fun x y => (cmp x y).isLE = true
  keeps : ∀ l, l.Pairwise (fun x y => (cmp x y).isLE = true) → sort l = l

/-- The end of the group that starts before `e`, and its lowest MED so far.
Source: retainLowestMED (inner loop) -/
def medGroup (neighbor : UInt32) (candidates : List Candidate) :
    ℕ → ℕ → Candidate → ℕ × Candidate
  | 0, e, lowest => (e, lowest)
  | n + 1, e, lowest =>
    match candidates[e]? with
    | none => (e, lowest)
    | some c =>
      if neighborAS c = neighbor then
        medGroup neighbor candidates n (e + 1) (if c.med < lowest.med then c else lowest)
      else (e, lowest)

/-- The groups from index `start` on, with `retained` candidates kept so far.
Source: retainLowestMED (outer loop) -/
def retainGroups : ℕ → ℕ → ℕ → List Candidate → List Candidate × ℕ
  | 0, _, retained, candidates => (candidates, retained)
  | n + 1, start, retained, candidates =>
    match candidates[start]? with
    | none => (candidates, retained)
    | some first =>
      let (e, lowest) :=
        -- AS 0 is not a group: none of its routes can suppress another
        if neighborAS first ≠ 0 then
          medGroup (neighborAS first) candidates candidates.length (start + 1) first
        else (start + 1, first)
      let (candidates, retained) :=
        retainRange (fun c => !decide (lowest.med < c.med)) (e - start) start retained
          candidates
      retainGroups n e retained candidates

def retainLowestMED (candidates : List Candidate) : List Candidate × ℕ :=
  retainGroups candidates.length 0 0 candidates

/-- What the selection returns and leaves behind in its scratch slice.
Source: selectBestCandidates -/
structure Selection where
  best : Option Candidate
  eligible : ℕ
  scratch : List Candidate
  deriving DecidableEq, Repr

def selectBestCandidates (sort : SortFunc compareNeighborAS) : List Candidate → Selection
  | [] => ⟨none, 0, []⟩
  | [c] => ⟨some c, 1, [c]⟩
  | first :: rest =>
    let beforeMED := scan (fun c best => resultBeforeMED c best == .lt) first rest
    let (candidates, eligible) :=
      retainRange (fun c => resultBeforeMED c beforeMED == .eq) (first :: rest).length 0 0
        (first :: rest)
    if eligible = 1 then ⟨candidates[0]?, 1, candidates⟩
    else
      let (grouped, retained) := retainLowestMED (sort.sort (candidates.take eligible))
      ⟨leader (fun c best => resultAfterMED c best == .lt) (grouped.take retained),
        retained, grouped ++ candidates.drop eligible⟩

/-- Source: plugins/rib/bestpath.go. -/
def selectBest (sort : SortFunc compareNeighborAS) (candidates : List Candidate) :
    Option Candidate :=
  (selectBestCandidates sort candidates).best

/-! ## The eliminations as filters -/

/-- The candidates that nothing precedes before MED. -/
def tiesBeforeMED (l : List Candidate) : List Candidate :=
  chosen (fun c x => resultBeforeMED x c != .lt) l

/-- The candidates with the lowest MED of their neighbor AS. -/
def lowestMED (l : List Candidate) : List Candidate :=
  chosen (fun c x => !(sameNeighborAS x c && decide (x.med < c.med))) l

variable {l l' A B : List Candidate} {c w x : Candidate}

lemma mem_lowestMED : c ∈ lowestMED l ↔ c ∈ l ∧ ∀ x ∈ l, sameNeighborAS x c → ¬ x.med < c.med := by
  unfold lowestMED
  rw [mem_chosen]
  refine and_congr_right fun _ => forall₂_congr fun x _ => ?_
  rw [Bool.not_eq_true', Bool.and_eq_false_imp, decide_eq_false_iff_not]

lemma mem_tiesBeforeMED : c ∈ tiesBeforeMED l ↔ c ∈ l ∧ ∀ x ∈ l, resultBeforeMED x c ≠ .lt := by
  unfold tiesBeforeMED
  rw [mem_chosen]
  simp only [bne_iff_ne]

@[simp]
lemma lowestMED_nil : lowestMED [] = [] := rfl

@[simp]
lemma lowestMED_singleton (c : Candidate) : lowestMED [c] = [c] := by
  simp [lowestMED, chosen, lt_irrefl]

@[simp]
lemma tiesBeforeMED_nil : tiesBeforeMED [] = [] := rfl

@[simp]
lemma tiesBeforeMED_singleton (c : Candidate) : tiesBeforeMED [c] = [c] := by
  have hself : resultBeforeMED c c = .eq := Std.ReflCmp.compare_self
  simp [tiesBeforeMED, chosen, hself]

/-! ## The in-place elimination of higher MEDs -/

lemma lowestMED_append (h : ∀ x ∈ A, ∀ y ∈ B, sameNeighborAS x y = false) :
    lowestMED (A ++ B) = lowestMED A ++ lowestMED B := by
  unfold lowestMED chosen
  rw [filter_append]
  congr 1
  · apply filter_congr
    intro c hc
    have hB : (B.all fun x => !(sameNeighborAS x c && decide (x.med < c.med))) := by
      rw [all_eq_true]
      intro x hx
      rw [sameNeighborAS_comm, h c hc x hx]
      rfl
    rw [all_append, hB, Bool.and_true]
  · apply filter_congr
    intro c hc
    have hA : (A.all fun x => !(sameNeighborAS x c && decide (x.med < c.med))) := by
      rw [all_eq_true]
      intro x hx
      rw [h x hx c hc]
      rfl
    rw [all_append, hA, Bool.true_and]

lemma medGroup_eq (neighbor : UInt32) (pre xs : List Candidate) (n : ℕ) (hn : xs.length ≤ n)
    (lowest : Candidate) :
    ∃ low : Candidate, medGroup neighbor (pre ++ xs) n pre.length lowest =
        (pre.length + (xs.takeWhile fun c => neighborAS c == neighbor).length, low) ∧
      low ∈ lowest :: xs.takeWhile (fun c => neighborAS c == neighbor) ∧
      ∀ x ∈ lowest :: xs.takeWhile (fun c => neighborAS c == neighbor), low.med ≤ x.med := by
  induction xs generalizing pre n lowest with
  | nil =>
    refine ⟨lowest, ?_, mem_cons_self, by simp⟩
    cases n <;> simp [medGroup]
  | cons c cs ih =>
    obtain ⟨n, rfl⟩ : ∃ m, n = m + 1 := ⟨n - 1, by simp only [length_cons] at hn; omega⟩
    have hget : (pre ++ c :: cs)[pre.length]? = some c := by simp
    unfold medGroup
    rw [hget]
    by_cases hc : neighborAS c = neighbor
    · obtain ⟨low, heq, hmem, hmin⟩ := ih (pre ++ [c]) n (by simpa using hn)
        (if c.med < lowest.med then c else lowest)
      have hnext : ∀ y ∈ [c, lowest], low.med ≤ y.med := by
        have hfirst := hmin _ mem_cons_self
        intro y hy
        rw [mem_cons, mem_singleton] at hy
        split_ifs at hfirst with hlt
        · rcases hy with rfl | rfl
          · exact hfirst
          · exact le_trans hfirst (UInt32.le_of_lt hlt)
        · rcases hy with rfl | rfl
          · exact le_trans hfirst (not_lt.1 hlt)
          · exact hfirst
      refine ⟨low, ?_, ?_, ?_⟩
      · rw [append_assoc, singleton_append, length_append, length_singleton] at heq
        simp only [hc, if_true, heq, takeWhile_cons, beq_self_eq_true, length_cons]
        rw [Nat.add_assoc, Nat.add_comm 1]
      · simp only [takeWhile_cons, hc, beq_self_eq_true, if_true, mem_cons]
        rcases mem_cons.1 hmem with h | h
        · split_ifs at h with hlt
          · exact .inr (.inl h)
          · exact .inl h
        · exact .inr (.inr h)
      · simp only [takeWhile_cons, hc, beq_self_eq_true, if_true, mem_cons]
        rintro y (rfl | rfl | hy)
        · exact hnext y (by simp)
        · exact hnext y (by simp)
        · exact hmin y (mem_cons_of_mem _ hy)
    · refine ⟨lowest, ?_, mem_cons_self, ?_⟩
      · simp [hc]
      · simp [hc]

/-- The neighbor AS as a number, by which the survivors are grouped. -/
def neighborKey (c : Candidate) : ℕ :=
  (neighborAS c).toNat

lemma lowestMED_group {g : List Candidate} {low : Candidate} (hlow : low ∈ g)
    (hmin : ∀ x ∈ g, low.med ≤ x.med) (hsame : ∀ x ∈ g, ∀ y ∈ g, sameNeighborAS x y) :
    (g.filter fun c => !decide (low.med < c.med)) = lowestMED g := by
  apply filter_congr
  intro c hc
  rw [Bool.eq_iff_iff, all_eq_true]
  constructor
  · intro h x hx
    have hle : c.med ≤ low.med := by simpa using h
    have hcx : c.med ≤ x.med := le_trans hle (hmin x hx)
    simp [not_lt.2 hcx]
  · intro h
    have := h low hlow
    simp only [hsame low hlow c hc, Bool.true_and] at this
    exact this

variable {xs : List Candidate} {b : Candidate}

lemma neighborKey_lt_of_mem_dropWhile (hasc : Ascending neighborKey (c :: xs))
    (hx : x ∈ xs.dropWhile fun x => neighborAS x == neighborAS c) :
    neighborKey c < neighborKey x := by
  induction xs with
  | nil => exact absurd hx not_mem_nil
  | cons z zs ih =>
    unfold Ascending at hasc ih
    rw [pairwise_cons, pairwise_cons] at hasc
    by_cases hz : neighborAS z = neighborAS c
    · rw [dropWhile_cons_of_pos (by simpa using hz)] at hx
      refine ih (pairwise_cons.2 ⟨fun y hy => ?_, hasc.2.2⟩) hx
      exact hasc.1 y (mem_cons_of_mem _ hy)
    · -- `z` is strictly above, and the rest is not below `z`
      have hcz : neighborKey c < neighborKey z := by
        refine lt_of_le_of_ne (hasc.1 z mem_cons_self) fun heq => hz ?_
        exact (UInt32.toNat_inj.1 heq).symm
      rw [dropWhile_cons_of_neg (by simpa using hz)] at hx
      rcases mem_cons.1 hx with rfl | hx
      · exact hcz
      · exact lt_of_lt_of_le hcz (hasc.2.1 x hx)

lemma exists_firstGroup (pre : List Candidate) {n : ℕ}
    (hasc : Ascending neighborKey (c :: xs)) (hn : xs.length ≤ n) :
    ∃ (g rest : List Candidate) (low : Candidate), c :: xs = c :: g ++ rest ∧
      (if neighborAS c ≠ 0 then
          medGroup (neighborAS c) (pre ++ c :: xs) n (pre.length + 1) c
        else (pre.length + 1, c)) = (pre.length + (c :: g).length, low) ∧
      ((c :: g).filter fun x => !decide (low.med < x.med)) = lowestMED (c :: g) ∧
      ∀ x ∈ c :: g, ∀ y ∈ rest, sameNeighborAS x y = false := by
  by_cases hzero : neighborAS c = 0
  · refine ⟨[], xs, c, rfl, by simp [hzero], ?_, ?_⟩
    · simp [lt_irrefl]
    · intro x hx y _
      rw [mem_singleton] at hx
      simp [hx, sameNeighborAS, hzero]
  · obtain ⟨low, heq, hmem, hmin⟩ := medGroup_eq (neighborAS c) (pre ++ [c]) xs n hn c
    have hgroup : ∀ x ∈ c :: xs.takeWhile (fun x => neighborAS x == neighborAS c),
        neighborAS x = neighborAS c := by
      intro x hx
      rcases mem_cons.1 hx with rfl | hx
      · rfl
      · simpa using all_eq_true.1 all_takeWhile x hx
    refine ⟨xs.takeWhile fun x => neighborAS x == neighborAS c,
      xs.dropWhile fun x => neighborAS x == neighborAS c, low, ?_, ?_, ?_, ?_⟩
    · rw [cons_append, takeWhile_append_dropWhile]
    · rw [if_pos hzero]
      rw [append_assoc, singleton_append, length_append, length_singleton] at heq
      rw [heq, length_cons, Nat.add_assoc, Nat.add_comm 1]
    · apply lowestMED_group hmem hmin
      intro x hx y hy
      rw [sameNeighborAS_iff, hgroup x hx, hgroup y hy]
      exact ⟨hzero, rfl⟩
    · -- the rest starts above the group and is ascending
      intro x hx y hy
      have hlt := neighborKey_lt_of_mem_dropWhile hasc hy
      rw [← Bool.not_eq_true, sameNeighborAS_iff, hgroup x hx]
      intro h
      unfold neighborKey at hlt
      rw [h.2] at hlt
      exact Nat.lt_irrefl _ hlt

lemma retainGroups_eq (n : ℕ) (kept dropped todo : List Candidate) (hn : todo.length ≤ n)
    (hasc : Ascending neighborKey todo) :
    ∃ dropped' : List Candidate,
      (kept ++ lowestMED todo ++ dropped').Perm (kept ++ dropped ++ todo) ∧
      retainGroups n (kept.length + dropped.length) kept.length (kept ++ dropped ++ todo) =
        (kept ++ lowestMED todo ++ dropped', (kept ++ lowestMED todo).length) := by
  induction n generalizing kept dropped todo with
  | zero =>
    rw [Nat.le_zero, length_eq_zero_iff] at hn
    subst hn
    exact ⟨dropped, by simp, by simp [retainGroups]⟩
  | succ n ih =>
    rcases todo with _ | ⟨c, xs⟩
    · refine ⟨dropped, by simp, ?_⟩
      unfold retainGroups
      simp
    · have hget : (kept ++ dropped ++ c :: xs)[kept.length + dropped.length]? = some c := by
        rw [← length_append]
        simp
      obtain ⟨g, rest, low, hsplit, hgroup, hkeep, hsep⟩ :=
        exists_firstGroup (kept ++ dropped) hasc
          (show xs.length ≤ (kept ++ dropped ++ c :: xs).length by simp; omega)
      rw [show (kept ++ dropped).length = _ from length_append] at hgroup
      obtain ⟨dropped₁, hperm₁, hrange⟩ :=
        retainRange_eq (fun x => !decide (low.med < x.med)) (c :: g) kept dropped rest
      have hboth := filter_append_perm (fun x => !decide (low.med < x.med)) (c :: g)
      rw [hkeep] at hrange hboth
      have hrest : rest.length ≤ n := by
        have := congrArg length hsplit
        simp only [length_cons, length_append] at this hn
        omega
      have hascRest : Ascending neighborKey rest := by
        unfold Ascending at hasc ⊢
        rw [hsplit] at hasc
        exact (pairwise_append.1 hasc).2.1
      obtain ⟨dropped₂, hperm₂, hloop⟩ := ih (kept ++ lowestMED (c :: g)) dropped₁ rest hrest
        hascRest
      have hlen : kept.length + dropped.length + (c :: g).length =
          (kept ++ lowestMED (c :: g)).length + dropped₁.length := by
        have h₁ := hperm₁.length_eq
        have h₂ := hboth.length_eq
        rw [length_append] at h₁ h₂ ⊢
        omega
      rw [hsplit, lowestMED_append hsep, ← append_assoc kept]
      refine ⟨dropped₂, hperm₂.trans ?_, ?_⟩
      · calc kept ++ lowestMED (c :: g) ++ dropped₁ ++ rest ~ kept ++ lowestMED (c :: g) ++
                (dropped ++ (c :: g).filter fun x => !!decide (low.med < x.med)) ++ rest :=
              (hperm₁.append_left _).append_right _
          _ ~ kept ++ (dropped ++ (lowestMED (c :: g) ++
                (c :: g).filter fun x => !!decide (low.med < x.med))) ++ rest := by
              rw [append_assoc kept]
              exact ((perm_append_comm_assoc _ _ _).append_left _).append_right _
          _ ~ kept ++ (dropped ++ (c :: g)) ++ rest :=
              ((hboth.append_left _).append_left _).append_right _
          _ = kept ++ dropped ++ (c :: g ++ rest) := by
              simp only [append_assoc]
      · rw [hsplit] at hget hgroup
        unfold retainGroups
        simp only [hget]
        rw [hgroup]
        simp only [Nat.add_sub_cancel_left]
        rw [hrange]
        simp only
        rw [hlen]
        exact hloop

lemma retainLowestMED_eq (hasc : Ascending neighborKey l) :
    ∃ dropped : List Candidate, (lowestMED l ++ dropped).Perm l ∧
      retainLowestMED l = (lowestMED l ++ dropped, (lowestMED l).length) := by
  obtain ⟨dropped, hperm, heq⟩ := retainGroups_eq l.length [] [] l (Nat.le_refl _) hasc
  exact ⟨dropped, hperm, heq⟩

/-! ## The selection as an elimination -/

/-- The later pass replaces `best` by `c`. Source: selectBestCandidates (last loop) -/
def preferred (c best : Candidate) : Bool :=
  resultAfterMED c best == .lt

lemma isLE_compareNeighborAS (a b : Candidate) :
    (compareNeighborAS a b).isLE ↔ neighborKey a ≤ neighborKey b := by
  unfold compareNeighborAS neighborKey
  rw [Std.isLE_compare, UInt32.le_iff_toNat_le]

lemma SortFunc.ascending (sort : SortFunc compareNeighborAS) (l : List Candidate) :
    Ascending neighborKey (sort.sort l) :=
  (sort.sorted l).imp fun h => (isLE_compareNeighborAS _ _).1 h

lemma SortFunc.sort_of_ascending (sort : SortFunc compareNeighborAS)
    (h : Ascending neighborKey l) : sort.sort l = l :=
  sort.keeps l (List.Pairwise.imp (fun h => (isLE_compareNeighborAS _ _).2 h) h)

/-- Insertion sort, which the sort of a short slice is. Source: slices.SortFunc. -/
def insertionSortFunc : SortFunc compareNeighborAS where
  sort l := l.insertionSort fun x y => neighborKey x ≤ neighborKey y
  perm l := perm_insertionSort _ l
  sorted l := by
    refine (pairwise_insertionSort (fun x y => neighborKey x ≤ neighborKey y) l).imp ?_
    exact fun h => (isLE_compareNeighborAS _ _).2 h
  keeps l h := List.Pairwise.insertionSort_eq
    (h.imp fun h => (isLE_compareNeighborAS _ _).1 h)

lemma lowestMED_sort_singleton (sort : SortFunc compareNeighborAS) (c : Candidate) :
    lowestMED (sort.sort [c]) = [c] := by
  rw [sort.sort_of_ascending (pairwise_singleton _ _), lowestMED_singleton]

lemma filter_eq_tiesBeforeMED
    (hlead : leader (fun c best => resultBeforeMED c best == .lt) l = some b) :
    (l.filter fun c => resultBeforeMED c b == .eq) = tiesBeforeMED l := by
  have hmin := leader_min hlead
  apply filter_congr
  intro c hc
  rw [Bool.eq_iff_iff, beq_iff_eq, all_eq_true]
  constructor
  · intro heq x hx
    rw [bne_iff_ne]
    intro hlt
    exact hmin x hx (Std.TransCmp.lt_of_lt_of_eq hlt heq)
  · intro h
    have h₁ := hmin c hc
    have h₂ := h b (leader_mem hlead)
    have hswap : resultBeforeMED b c = (resultBeforeMED c b).swap := Std.OrientedCmp.eq_swap
    rw [bne_iff_ne, hswap] at h₂
    cases hcb : resultBeforeMED c b with
    | lt => exact absurd hcb h₁
    | eq => rfl
    | gt => exact absurd (congrArg Ordering.swap hcb) h₂

lemma retainRange_ties
    (hlead : leader (fun c best => resultBeforeMED c best == .lt) l = some b) :
    ∃ dropped : List Candidate, (tiesBeforeMED l ++ dropped).Perm l ∧
      retainRange (fun c => resultBeforeMED c b == .eq) l.length 0 0 l =
        (tiesBeforeMED l ++ dropped, (tiesBeforeMED l).length) := by
  obtain ⟨dropped, hperm, heq⟩ :=
    retainRange_eq (fun c => resultBeforeMED c b == .eq) l [] [] []
  have hall := filter_append_perm (fun c => resultBeforeMED c b == .eq) l
  rw [filter_eq_tiesBeforeMED hlead] at heq hall
  simp only [nil_append, append_nil, length_nil, Nat.add_zero] at heq hperm
  exact ⟨dropped, (hperm.append_left _).trans hall, heq⟩

/-- What the selection returns and what it leaves at the front of the slice: the survivors of both
eliminations, and the leader of them. No candidate is lost from the slice. -/
lemma selectBestCandidates_spec (sort : SortFunc compareNeighborAS) (l : List Candidate) :
    (selectBestCandidates sort l).best =
        leader preferred (lowestMED (sort.sort (tiesBeforeMED l))) ∧
      (selectBestCandidates sort l).scratch.take (selectBestCandidates sort l).eligible =
        lowestMED (sort.sort (tiesBeforeMED l)) ∧
      (selectBestCandidates sort l).scratch.Perm l := by
  rcases l with _ | ⟨first, _ | ⟨second, rest⟩⟩
  · have hnil : sort.sort [] = [] := (sort.perm []).eq_nil
    simp [selectBestCandidates, hnil, leader]
  · rw [tiesBeforeMED_singleton, lowestMED_sort_singleton]
    exact ⟨rfl, rfl, .refl _⟩
  · obtain ⟨dropped, hperm, hpart⟩ := retainRange_ties (show leader (fun c best =>
      resultBeforeMED c best == .lt) (first :: second :: rest) = some _ from rfl)
    simp only [selectBestCandidates, hpart]
    by_cases hone : (tiesBeforeMED (first :: second :: rest)).length = 1
    · -- one candidate before MED: returned at once
      obtain ⟨c, hc⟩ := length_eq_one_iff.1 hone
      rw [if_pos hone, hc, lowestMED_sort_singleton]
      exact ⟨rfl, rfl, hc ▸ hperm⟩
    · obtain ⟨higher, hperm', hmed⟩ :=
        retainLowestMED_eq (sort.ascending (tiesBeforeMED (first :: second :: rest)))
      rw [if_neg hone, take_left, drop_left, hmed]
      simp only [take_left]
      refine ⟨rfl, ?_, ?_⟩
      · rw [append_assoc, take_left]
      · exact ((hperm'.trans (sort.perm _)).append_right _).trans hperm

/-- The selected candidate is the leader of the survivors. -/
lemma selectBest_eq (sort : SortFunc compareNeighborAS) (l : List Candidate) :
    selectBest sort l = leader preferred (lowestMED (sort.sort (tiesBeforeMED l))) :=
  (selectBestCandidates_spec sort l).1

/-! ## Survivors -/

def survivors (l : List Candidate) : List Candidate :=
  lowestMED (tiesBeforeMED l)

lemma lowestMED_sort_perm (sort : SortFunc compareNeighborAS) (h : l'.Perm l) :
    (lowestMED (sort.sort (tiesBeforeMED l'))).Perm (survivors l) :=
  chosen_perm ((sort.perm _).trans (chosen_perm h))

lemma lowestMED_sort_ascending (sort : SortFunc compareNeighborAS) (l : List Candidate) :
    Ascending neighborKey (lowestMED (sort.sort l)) :=
  List.Pairwise.filter _ (sort.ascending l)

lemma survivors_ne_nil (h : l ≠ []) : survivors l ≠ [] := by
  have hties : tiesBeforeMED l ≠ [] := by
    obtain ⟨b, hb⟩ := exists_leader (fun c best => resultBeforeMED c best == .lt) h
    exact ne_nil_of_mem (mem_tiesBeforeMED.2 ⟨leader_mem hb, leader_min hb⟩)
  -- the lowest MED of all ties is not above that of its neighbor AS
  obtain ⟨c, hc⟩ := exists_leader (fun c best => compareOn Candidate.med c best == .lt) hties
  refine ne_nil_of_mem (mem_lowestMED.2 ⟨leader_mem hc, fun x hx _ hlt => ?_⟩)
  exact leader_min hc x hx (Std.compare_eq_lt.2 hlt)

lemma mem_tiesBeforeMED_iff (hw : w ∈ tiesBeforeMED l) :
    x ∈ tiesBeforeMED l ↔ x ∈ l ∧ resultBeforeMED x w = .eq := by
  rw [mem_tiesBeforeMED] at hw ⊢
  refine and_congr_right fun hx => ⟨fun h => ?_, fun heq y hy hlt => ?_⟩
  · have hswap : resultBeforeMED w x = (resultBeforeMED x w).swap := Std.OrientedCmp.eq_swap
    have h₁ := hw.2 x hx
    have h₂ := h w hw.1
    rw [hswap] at h₂
    cases hxw : resultBeforeMED x w with
    | lt => exact absurd hxw h₁
    | eq => rfl
    | gt => exact absurd (congrArg Ordering.swap hxw) h₂
  · exact hw.2 y hy (Std.TransCmp.lt_of_lt_of_eq hlt heq)

/-- **Theorem.** Where every local AS and every router id is known, the selected candidate is
minimal before MED, has the lowest MED of its neighbor AS among its ties, and no candidate that
survives both eliminations is preferred to it after MED. -/
theorem selectBest_eliminates (sort : SortFunc compareNeighborAS) (hne : l ≠ [])
    (hknown : ∀ c ∈ l, c.localASN ≠ 0 ∧ c.originatorIP.isValid) :
    ∃ w ∈ l, selectBest sort l = some w ∧
      (∀ x ∈ l, resultBeforeMED x w ≠ .lt) ∧
      (∀ x ∈ l, resultBeforeMED x w = .eq → sameNeighborAS x w → ¬ x.med < w.med) ∧
      ∀ x ∈ l, resultBeforeMED x w = .eq →
        (∀ y ∈ l, resultBeforeMED y w = .eq → sameNeighborAS y x → ¬ y.med < x.med) →
        resultAfterMED x w ≠ .lt := by
  have hperm := lowestMED_sort_perm sort (List.Perm.refl l)
  have hsome : lowestMED (sort.sort (tiesBeforeMED l)) ≠ [] := fun hnil =>
    survivors_ne_nil hne (nil_perm.1 (hnil ▸ hperm))
  obtain ⟨w, hw⟩ := exists_leader preferred hsome
  have hsurv := mem_lowestMED.1 (hperm.mem_iff.1 (leader_mem hw))
  have hties := mem_tiesBeforeMED.1 hsurv.1
  refine ⟨w, hties.1, (selectBest_eq sort l).trans hw, hties.2, fun x hx heq => ?_,
    fun x hx heq hx' => ?_⟩
  · exact hsurv.2 x ((mem_tiesBeforeMED_iff hsurv.1).2 ⟨hx, heq⟩)
  · have hmem : ∀ c ∈ lowestMED (sort.sort (tiesBeforeMED l)), c.Known := fun c hc =>
      hknown c (mem_tiesBeforeMED.1 (mem_lowestMED.1 (hperm.mem_iff.1 hc)).1).1
    have hsame : leader preferred (lowestMED (sort.sort (tiesBeforeMED l))) =
        leader (fun c best => rankAfterMED c best == .lt)
          (lowestMED (sort.sort (tiesBeforeMED l))) := by
      refine leader_congr fun c hc d hd => ?_
      rw [preferred, resultAfterMED_eq_rankAfterMED (hmem c hc) (hmem d hd)]
    have hxmem : x ∈ lowestMED (sort.sort (tiesBeforeMED l)) := by
      rw [hperm.mem_iff, survivors, mem_lowestMED]
      refine ⟨(mem_tiesBeforeMED_iff hsurv.1).2 ⟨hx, heq⟩, fun y hy => ?_⟩
      obtain ⟨hy, hyw⟩ := (mem_tiesBeforeMED_iff hsurv.1).1 hy
      exact hx' y hy hyw
    rw [resultAfterMED_eq_rankAfterMED (hmem x hxmem) (hmem w (leader_mem hw))]
    exact leader_min (hsame ▸ hw) x hxmem

/-- A route from a peer of AS 65001, known by the last octet of its address and router id; router id
0 stands for an unknown one. -/
def routeFrom (peer : BitVec 32) (router : BitVec 32) : Candidate where
  peerIP := .v4 peer
  peerASN := 65001
  localASN := 65000
  localPref := 100
  asPathLen := 1
  firstAS := 65001
  origin := 0
  med := 0
  igpCost := 0
  aigp := 0
  hasAIGP := false
  originatorIP := if router = 0 then .zero else .v4 router
  clusterListEntries := 0
  staleLevel := 0
  pathID := 0

/-- Routes of two neighbor ASes, one with a higher MED and one with a higher interior cost. -/
def fourRoutes : List Candidate :=
  [routeFrom 3 2, { routeFrom 1 1 with med := 5 }, routeFrom 2 3,
    { routeFrom 4 1 with firstAS := 65002, igpCost := 9 }]

/-- The elimination among four routes. -/
theorem selectBest_eliminates_four :
    (∀ c ∈ fourRoutes, c.localASN ≠ 0 ∧ c.originatorIP.isValid) ∧
      selectBest insertionSortFunc fourRoutes = some (routeFrom 3 2) ∧
      ∃ w ∈ fourRoutes, selectBest insertionSortFunc fourRoutes = some w ∧
        ∀ x ∈ fourRoutes, resultBeforeMED x w ≠ .lt := by
  refine ⟨by decide, by decide +kernel, ?_⟩
  obtain ⟨w, hw, hsel, hmin, -⟩ := selectBest_eliminates insertionSortFunc
    (show fourRoutes ≠ [] by decide) (by decide)
  exact ⟨w, hw, hsel, hmin⟩

/-! ## The order of the candidates -/

/-- The outcome is the same for every order of the candidates.
Source: plugins/rib/rib_commands.go gatherPrefixCandidatesLocked (iteration over a map) -/
def OrderIndependent (sort : SortFunc compareNeighborAS) (l : List Candidate) : Prop :=
  ∀ l' : List Candidate, l'.Perm l → selectBest sort l' = selectBest sort l

lemma exists_perm_survivors (sort : SortFunc compareNeighborAS) {m : List Candidate}
    (hm : m.Perm (survivors l)) (hasc : Ascending neighborKey m) :
    ∃ l' : List Candidate, l'.Perm l ∧ lowestMED (sort.sort (tiesBeforeMED l')) = m := by
  -- the ties in an ascending order that keeps the survivors in the order of `m`
  obtain ⟨others, hothers⟩ := exists_append_perm hm
  set t := (m ++ others).insertionSort fun x y => neighborKey x ≤ neighborKey y
  have htperm : t.Perm (tiesBeforeMED l) := (perm_insertionSort _ _).trans hothers
  have htasc : Ascending neighborKey t := pairwise_insertionSort _ _
  have hsub : m.Sublist t := sublist_insertionSort hasc (sublist_append_left _ _)
  obtain ⟨lost, hlost⟩ := exists_append_perm htperm
  refine ⟨t ++ lost, hlost, ?_⟩
  have hties : tiesBeforeMED (t ++ lost) = t :=
    chosen_eq_of_sublist hlost (sublist_append_left _ _) htperm
  rw [hties, sort.sort_of_ascending htasc]
  exact chosen_eq_of_sublist htperm hsub hm

lemma preferred_eq_not (hkey : (c.peerIP, c.pathID) ≠ (x.peerIP, x.pathID)) :
    preferred c x = !preferred x c := by
  have hswap : resultAfterMED x c = (resultAfterMED c x).swap := Std.OrientedCmp.eq_swap
  unfold preferred
  rw [hswap]
  cases h : resultAfterMED c x with
  | lt => rfl
  | eq => exact absurd (key_eq_of_resultAfterMED_eq h) hkey
  | gt => rfl

section

/-- Candidates with different peer or path identifier are told apart by the last pass. -/
def Distinct (l : List Candidate) : Prop :=
  l.Pairwise fun x y => (x.peerIP, x.pathID) ≠ (y.peerIP, y.pathID)

instance (l : List Candidate) : Decidable (Distinct l) :=
  inferInstanceAs (Decidable (l.Pairwise _))

variable (hkey : Distinct l)

include hkey

lemma survivors_nodup : (survivors l).Nodup := by
  have hsub : (survivors l).Sublist l := filter_sublist.trans filter_sublist
  refine (List.Pairwise.sublist hsub hkey).imp fun h heq => h ?_
  rw [heq]

lemma preferred_survivors :
    ∀ x ∈ survivors l, ∀ y ∈ survivors l, x ≠ y → preferred x y = !preferred y x := by
  intro x hx y hy hxy
  have hsymm : Std.Symm fun x y : Candidate => (x.peerIP, x.pathID) ≠ (y.peerIP, y.pathID) :=
    ⟨fun _ _ h => h.symm⟩
  have hmem : ∀ c ∈ survivors l, c ∈ l := fun c hc =>
    (mem_tiesBeforeMED.1 (mem_lowestMED.1 hc).1).1
  exact preferred_eq_not (List.Pairwise.forall hkey (hmem x hx) (hmem y hy) hxy)

lemma selectBest_of_sureLeader (sort : SortFunc compareNeighborAS)
    (hw : SureLeader neighborKey preferred (survivors l) w) (h : l'.Perm l) :
    selectBest sort l' = some w := by
  rw [selectBest_eq]
  exact (leader_eq_iff (survivors_nodup hkey) (preferred_survivors hkey)).2 hw _
    (lowestMED_sort_perm sort h) (lowestMED_sort_ascending sort _)

/-- Where every local AS and every router id is known there is a sure leader. -/
lemma exists_sureLeader_of_known (hne : l ≠ []) (hknown : ∀ c ∈ l, c.Known) :
    ∃ w, SureLeader neighborKey preferred (survivors l) w := by
  have hmem : ∀ c ∈ survivors l, c.Known := fun c hc =>
    hknown c (mem_tiesBeforeMED.1 (mem_lowestMED.1 hc).1).1
  obtain ⟨w, hw⟩ := exists_leader (fun c best => rankAfterMED c best == .lt) (survivors_ne_nil hne)
  have hwmem := leader_mem hw
  have hbeats : ∀ x ∈ survivors l, x ≠ w → preferred w x := by
    intro x hx hne
    have hmin := leader_min hw x hx
    rw [preferred_survivors hkey w hwmem x hx hne.symm, preferred,
      resultAfterMED_eq_rankAfterMED (hmem x hx) (hmem w hwmem), Bool.not_eq_true',
      beq_eq_false_iff_ne]
    exact hmin
  refine ⟨w, hwmem, fun x hx hne _ => hbeats x hx hne, fun r hr => ?_⟩
  obtain ⟨low, hlow, -, hlead⟩ := hr
  have hr := mem_filter.1 (hlow.mem_iff.1 (leader_mem hlead))
  refine hbeats r hr.1 fun heq => ?_
  rw [heq] at hr
  simp at hr

end

/-- **Theorem.** The selected candidate is the same for every order of the candidates iff a survivor
is preferred to every other survivor whose neighbor AS is not lower, and to every survivor that a
pass over those of lower neighbor AS can end with. -/
theorem selectBest_perm_iff (sort : SortFunc compareNeighborAS) (hne : l ≠ []) (hkey : Distinct l) :
    OrderIndependent sort l ↔ ∃ w, SureLeader neighborKey preferred (survivors l) w := by
  constructor
  · intro h
    have hsome : lowestMED (sort.sort (tiesBeforeMED l)) ≠ [] := fun hnil =>
      survivors_ne_nil hne (nil_perm.1 (hnil ▸ lowestMED_sort_perm sort (.refl l)))
    obtain ⟨w, hw⟩ := exists_leader preferred hsome
    refine ⟨w, (leader_eq_iff (survivors_nodup hkey) (preferred_survivors hkey)).1 ?_⟩
    intro m hm hasc
    obtain ⟨l', hl', heq⟩ := exists_perm_survivors sort hm hasc
    have hsame := h l' hl'
    rwa [selectBest_eq, selectBest_eq, heq, hw] at hsame
  · rintro ⟨w, hw⟩ l' hl'
    rw [selectBest_of_sureLeader hkey sort hw hl', selectBest_of_sureLeader hkey sort hw (.refl l)]

/-- Two routes whose router ids are known. -/
theorem selectBest_perm_two :
    Distinct [routeFrom 3 1, routeFrom 1 2] ∧
      OrderIndependent insertionSortFunc [routeFrom 3 1, routeFrom 1 2] := by
  refine ⟨by decide, (selectBest_perm_iff insertionSortFunc (by decide) (by decide)).2 ?_⟩
  exact exists_sureLeader_of_known (by decide) (by decide) (by decide)

/-- Three routes of which one has no router id: each is preferred to another, and the order of the
slice decides. -/
theorem selectBest_order_dependent :
    Distinct [routeFrom 3 1, routeFrom 1 2, routeFrom 2 0] ∧
      ¬ OrderIndependent insertionSortFunc [routeFrom 3 1, routeFrom 1 2, routeFrom 2 0] := by
  refine ⟨by decide, fun h => ?_⟩
  have hsame := h [routeFrom 1 2, routeFrom 2 0, routeFrom 3 1] (by decide)
  revert hsame
  decide +kernel

end Ze.Rib
