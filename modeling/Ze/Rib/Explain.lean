import Ze.Rib.Reason
import Ze.Rib.Selection

/-!
# The explained selection

`SelectBestExplain` of `plugins/rib/bestpath.go`: the selection runs over a copy of the slice and
notes every candidate that it removes, with the candidate that removed it.

Default file: `bestpath_selection.go`.
-/

namespace Ze.Rib

open Ze.Lib
open List hiding swap swap_self
open Ze.Net (Addr)
open scoped List
open Prod (fst snd)
open Nat (add_assoc add_zero zero_add)

/-! ## The explanation -/

/-- Source: bestpath.go. -/
structure PairwiseStep where
  incumbentIdx : ℕ
  challengerIdx : ℕ
  winnerIdx : ℕ
  step : BestStep
  reason : String
  deriving DecidableEq

/-- Source: bestpath.go bestPathExplanation. -/
structure Explanation where
  candidates : List Ref
  steps : List PairwiseStep
  winner : Option Ref
  /-- The position of the pointer with an address. -/
  indices : ℕ → ℕ

variable (addrString : Addr → String)

/-- A removal is noted. The positions are those of candidates: a pointer outside the slice, on which
the source would panic, notes nothing. Source: plugins/rib/bestpath_selection.go. -/
def Explanation.remove (e : Explanation) (loser winner : Ref) : Explanation :=
  let loserIdx := e.indices loser.address
  let winnerIdx := e.indices winner.address
  let incumbentIdx := min loserIdx winnerIdx
  let challengerIdx := max loserIdx winnerIdx
  match e.candidates[challengerIdx]?, e.candidates[incumbentIdx]? with
  | some challenger, some incumbent =>
    let (_, step, reason) := comparePairWithReason addrString challenger incumbent
    { e with steps := e.steps ++ [⟨incumbentIdx, challengerIdx, winnerIdx, step, reason⟩] }
  | _, _ => e

/-- A removal is noted where there is an explanation. Source: if explanation != nil. -/
def note (explanation : Option Explanation) (loser winner : Ref) : Option Explanation :=
  explanation.map fun e => e.remove addrString loser winner

/-! ## The selection with an explanation -/

/-- The pass that moves the candidates to keep to the front, and notes the others as removed by
`winner`.
Source: the loops that partition a range. -/
def partitionRange (keep : Ref → Bool) (winner : Ref) :
    ℕ → ℕ → ℕ → List Ref → Option Explanation → (List Ref × ℕ) × Option Explanation
  | 0, _, r, l, explanation => ((l, r), explanation)
  | n + 1, i, r, l, explanation =>
    match l[i]? with
    | none => ((l, r), explanation)
    | some x =>
      if keep x then partitionRange keep winner n (i + 1) (r + 1) (swap l r i) explanation
      else partitionRange keep winner n (i + 1) r l (note addrString explanation x winner)

/-- The end of the group that starts before `e`, and its lowest MED so far.
Source: retainLowestMED (inner loop). -/
def groupEnd (neighbor : UInt32) (candidates : List Ref) : ℕ → ℕ → Ref → ℕ × Ref
  | 0, e, lowest => (e, lowest)
  | n + 1, e, lowest =>
    match candidates[e]? with
    | none => (e, lowest)
    | some c =>
      if neighborAS c.val = neighbor then
        groupEnd neighbor candidates n (e + 1) (if c.val.med < lowest.val.med then c else lowest)
      else (e, lowest)

/-- The groups from index `start` on, with `retained` candidates kept so far.
Source: retainLowestMED (outer loop). -/
def partitionGroups :
    ℕ → ℕ → ℕ → List Ref → Option Explanation → (List Ref × ℕ) × Option Explanation
  | 0, _, retained, candidates, explanation => ((candidates, retained), explanation)
  | n + 1, start, retained, candidates, explanation =>
    match candidates[start]? with
    | none => ((candidates, retained), explanation)
    | some first =>
      let (e, lowest) :=
        if neighborAS first.val ≠ 0 then
          groupEnd (neighborAS first.val) candidates candidates.length (start + 1) first
        else (start + 1, first)
      let ((candidates, retained), explanation) :=
        partitionRange addrString (fun c => !decide (lowest.val.med < c.val.med)) lowest (e - start)
          start retained candidates explanation
      partitionGroups n e retained candidates explanation

/-- The last pass: the better of two goes on, and the other is noted.
Source: selectBestCandidates, the last loop. -/
def lastPass (best : Ref) : List Ref → Option Explanation → Ref × Option Explanation
  | [], explanation => (best, explanation)
  | candidate :: rest, explanation =>
    if resultAfterMED candidate.val best.val == .lt then
      lastPass candidate rest (note addrString explanation best candidate)
    else lastPass best rest (note addrString explanation candidate best)

/-- What the selection returns, leaves behind in its scratch slice and has noted.
Source: selectBestCandidates. -/
structure RefSelection where
  best : Option Ref
  eligible : ℕ
  scratch : List Ref
  explanation : Option Explanation

/-- Groups pointers by the neighbor AS of what they point to. Source: compareNeighborAS. -/
def compareRefAS (p q : Ref) : Ordering := compareNeighborAS p.val q.val

/-- Source: selectBestCandidates. -/
def selectRefs (sort : SortFunc compareRefAS) :
    List Ref → Option Explanation → RefSelection
  | [], explanation => ⟨none, 0, [], explanation⟩
  | [c], explanation => ⟨some c, 1, [c], explanation⟩
  | first :: rest, explanation =>
    let beforeMED := scan (fun c best => resultBeforeMED c.val best.val == .lt) first rest
    let ((candidates, eligible), explanation) :=
      partitionRange addrString (fun c => resultBeforeMED c.val beforeMED.val == .eq) beforeMED
        (first :: rest).length 0 0 (first :: rest) explanation
    if eligible = 1 then ⟨candidates[0]?, 1, candidates, explanation⟩
    else
      let slice := sort.sort (candidates.take eligible)
      let ((grouped, retained), explanation) :=
        partitionGroups addrString slice.length 0 0 slice explanation
      match grouped.take retained with
      | [] => ⟨none, retained, grouped ++ candidates.drop eligible, explanation⟩
      | best :: others =>
        let (best, explanation) := lastPass addrString best others explanation
        ⟨some best, retained, grouped ++ candidates.drop eligible, explanation⟩

/-- The selection over pointers. Source: bestpath.go SelectBest. -/
def selectBestRef (sort : SortFunc compareRefAS) (candidates : List Ref) : Option Ref :=
  (selectRefs addrString sort candidates none).best

/-- The positions of the pointers of a slice; a pointer that is there twice has its last. Source:
bestpath.go SelectBestExplain, exp.indices. -/
def indicesOf (candidates : List Ref) : ℕ → ℕ :=
  candidates.zipIdx.foldl (fun indices x address => if address = x.1.address then x.2
    else indices address) fun _ => 0

/-- Source: bestpath.go. -/
def selectBestExplain (sort : SortFunc compareRefAS) (candidates : List Ref) : Option Explanation :=
  if candidates.isEmpty then none
  else
    let exp : Explanation := ⟨candidates, [], none, indicesOf candidates⟩
    let selection := selectRefs addrString sort candidates (some exp)
    selection.explanation.map fun e => { e with winner := selection.best }

/-! ## The removals of a pass -/

/-- Removals, each a candidate and the one that removed it, are noted in their order. -/
def noteAll (explanation : Option Explanation) (removals : List (Ref × Ref)) : Option Explanation :=
  removals.foldl (fun e x => note addrString e x.1 x.2) explanation

lemma noteAll_append (explanation : Option Explanation) (s t : List (Ref × Ref)) :
    noteAll addrString explanation (s ++ t) =
      noteAll addrString (noteAll addrString explanation s) t :=
  foldl_append

lemma partitionRange_fst (keep : Ref → Bool) (winner : Ref) (n i r : ℕ) (l : List Ref)
    (explanation : Option Explanation) :
    (partitionRange addrString keep winner n i r l explanation).1 = retainRange keep n i r l := by
  induction n generalizing i r l explanation with
  | zero => rfl
  | succ n ih =>
    rw [partitionRange, retainRange]
    rcases l[i]? with _ | x
    · rfl
    · dsimp only
      split_ifs
      · exact ih _ _ _ _
      · exact ih _ _ _ _

lemma partitionRange_snd (keep : Ref → Bool) (winner : Ref) (range kept dropped rest : List Ref)
    (explanation : Option Explanation) :
    (partitionRange addrString keep winner range.length (kept.length + dropped.length) kept.length
      (kept ++ dropped ++ (range ++ rest)) explanation).2 =
        noteAll addrString explanation
          ((range.filter fun x => !keep x).map fun x => (x, winner)) := by
  induction range generalizing kept dropped explanation with
  | nil => rfl
  | cons x xs ih =>
    have hx : (kept ++ dropped ++ (x :: xs ++ rest))[kept.length + dropped.length]? = some x := by
      rw [getElem?_append_right (by simp), length_append, Nat.sub_self]
      rfl
    rw [length_cons, partitionRange, hx]
    dsimp only
    by_cases hkeep : keep x
    · rw [if_pos hkeep, filter_cons_of_neg (by simp [hkeep])]
      rcases dropped with _ | ⟨d, ds⟩
      · -- nothing was dropped yet: the element is exchanged with itself
        have htail := ih (kept ++ [x]) [] explanation
        simp only [length_append, length_cons, length_nil, zero_add,
          add_zero, append_nil, append_assoc, cons_append, nil_append] at htail ⊢
        rw [swap_self, htail]
      · have htail := ih (kept ++ [x]) (ds ++ [d]) explanation
        rw [cons_append, length_cons, swap_middle]
        simp only [length_append, length_cons, length_nil, zero_add,
          append_assoc, cons_append, nil_append] at htail ⊢
        rw [← htail]
        congr 2
        omega
    · rw [if_neg hkeep, filter_cons_of_pos (by simp [hkeep])]
      have htail := ih kept (dropped ++ [x]) (note addrString explanation x winner)
      simp only [length_append, length_cons, length_nil, zero_add,
        append_assoc, cons_append, nil_append, add_assoc] at htail ⊢
      exact htail

lemma partitionRange_eq (keep : Ref → Bool) (winner : Ref) (range kept dropped rest : List Ref) :
    ∃ dropped' : List Ref, dropped'.Perm (dropped ++ range.filter fun x => !keep x) ∧
      ∀ explanation, partitionRange addrString keep winner range.length
        (kept.length + dropped.length) kept.length
        (kept ++ dropped ++ (range ++ rest)) explanation =
        ((kept ++ range.filter keep ++ dropped' ++ rest, (kept ++ range.filter keep).length),
          noteAll addrString explanation
            ((range.filter fun x => !keep x).map fun x => (x, winner))) := by
  obtain ⟨dropped', hperm, heq⟩ := retainRange_eq keep range kept dropped rest
  refine ⟨dropped', hperm, fun explanation => Prod.ext ?_ ?_⟩
  · rw [partitionRange_fst, heq]
  · exact partitionRange_snd addrString keep winner range kept dropped rest explanation

/-! ## The groups -/

lemma groupEnd_eq (neighbor : UInt32) (pre xs : List Ref) (n : ℕ) (hn : xs.length ≤ n)
    (lowest : Ref) :
    ∃ g rest : List Ref, ∃ low : Ref, xs = g ++ rest ∧
      groupEnd neighbor (pre ++ xs) n pre.length lowest = (pre.length + g.length, low) ∧
      low ∈ lowest :: g ∧ ∀ x ∈ g, neighborAS x.val = neighbor := by
  induction xs generalizing pre n lowest with
  | nil =>
    refine ⟨[], [], lowest, rfl, ?_, mem_cons_self, fun x hx => absurd hx not_mem_nil⟩
    rcases n with _ | n
    · rfl
    · simp [groupEnd]
  | cons c cs ih =>
    obtain ⟨n, rfl⟩ : ∃ m, n = m + 1 := ⟨n - 1, by rw [length_cons] at hn; omega⟩
    have hget : (pre ++ c :: cs)[pre.length]? = some c := by simp
    rw [groupEnd, hget]
    dsimp only
    by_cases hc : neighborAS c.val = neighbor
    · rw [if_pos hc]
      obtain ⟨g, rest, low, hsplit, heq, hmem, hsame⟩ := ih (pre ++ [c]) n (by simpa using hn)
        (if c.val.med < lowest.val.med then c else lowest)
      rw [append_assoc, singleton_append, length_append, length_singleton] at heq
      refine ⟨c :: g, rest, low, by rw [hsplit, cons_append], ?_, ?_, ?_⟩
      · rw [heq, length_cons, add_assoc, Nat.add_comm 1]
      · rcases mem_cons.1 hmem with h | h
        · split_ifs at h
          · exact mem_cons_of_mem _ (h ▸ mem_cons_self)
          · exact h ▸ mem_cons_self
        · exact mem_cons_of_mem _ (mem_cons_of_mem _ h)
      · exact forall_mem_cons.2 ⟨hc, hsame⟩
    · rw [if_neg hc]
      exact ⟨[], c :: cs, lowest, rfl, rfl, mem_cons_self, fun x hx => absurd hx not_mem_nil⟩

/-- A removal by MED: both are of one neighbor AS, and the one that removes has the lower MED.
Source: retainLowestMED. -/
def RemovesByMED (x : Ref × Ref) : Prop :=
  sameNeighborAS x.2.val x.1.val = true ∧ x.2.val.med < x.1.val.med

lemma exists_firstRefGroup (pre : List Ref) (c : Ref) (xs : List Ref) {n : ℕ} (hn : xs.length ≤ n) :
    ∃ (g rest : List Ref) (low : Ref), xs = g ++ rest ∧
      (if neighborAS c.val ≠ 0 then
          groupEnd (neighborAS c.val) (pre ++ c :: xs) n (pre.length + 1) c
        else (pre.length + 1, c)) = (pre.length + (c :: g).length, low) ∧
      low ∈ c :: g ∧
        ∀ x ∈ c :: g, low.val.med < x.val.med → sameNeighborAS low.val x.val := by
  by_cases hzero : neighborAS c.val = 0
  · refine ⟨[], xs, c, rfl, by simp [hzero], mem_cons_self, fun x hx hlt => ?_⟩
    rw [mem_singleton.1 hx] at hlt
    exact absurd hlt (UInt32.lt_irrefl _)
  · obtain ⟨g, rest, low, hsplit, heq, hmem, hsame⟩ :=
      groupEnd_eq (neighborAS c.val) (pre ++ [c]) xs n hn c
    have hgroup : ∀ x ∈ c :: g, neighborAS x.val = neighborAS c.val :=
      forall_mem_cons.2 ⟨rfl, hsame⟩
    rw [append_assoc, singleton_append, length_append, length_singleton] at heq
    refine ⟨g, rest, low, hsplit, ?_, hmem, fun x hx _ => ?_⟩
    · rw [if_pos hzero, heq, length_cons, add_assoc, Nat.add_comm 1]
    · rw [sameNeighborAS_iff, hgroup low hmem, hgroup x hx]
      exact ⟨hzero, rfl⟩

lemma partitionGroups_eq (n : ℕ) (kept dropped todo : List Ref) (hn : todo.length ≤ n) :
    ∃ (keeps dropped' : List Ref) (removals : List (Ref × Ref)),
      (∀ explanation, partitionGroups addrString n (kept.length + dropped.length) kept.length
        (kept ++ dropped ++ todo) explanation =
        ((kept ++ keeps ++ dropped', (kept ++ keeps).length),
          noteAll addrString explanation removals)) ∧
      (keeps ++ removals.map fst).Perm todo ∧
      ∀ x ∈ removals, x.1 ∈ todo ∧ x.2 ∈ todo ∧ RemovesByMED x := by
  induction n generalizing kept dropped todo with
  | zero =>
    rw [Nat.le_zero, length_eq_zero_iff] at hn
    subst hn
    exact ⟨[], dropped, [], by simp [partitionGroups, noteAll], .refl _,
      fun x hx => absurd hx not_mem_nil⟩
  | succ n ih =>
    rcases todo with _ | ⟨c, xs⟩
    · refine ⟨[], dropped, [], fun explanation => ?_, .refl _, fun x hx => absurd hx not_mem_nil⟩
      rw [partitionGroups]
      simp [noteAll]
    · have hget : (kept ++ dropped ++ c :: xs)[kept.length + dropped.length]? = some c := by
        rw [← length_append]
        simp
      obtain ⟨g, rest, low, rfl, hgroup, hlow, hmed⟩ := exists_firstRefGroup (kept ++ dropped) c xs
        (show xs.length ≤ (kept ++ dropped ++ c :: xs).length by simp; omega)
      rw [show (kept ++ dropped).length = _ from length_append] at hgroup
      set keep := fun x : Ref => !decide (low.val.med < x.val.med) with hkeep
      obtain ⟨dropped₁, hdropped, hrange⟩ :=
        partitionRange_eq addrString keep low (c :: g) kept dropped rest
      obtain ⟨keeps, dropped', removals, hrun, hperm, hremovals⟩ := ih
        (kept ++ (c :: g).filter keep) dropped₁ rest
        (by simp only [length_cons, length_append] at hn; omega)
      refine ⟨(c :: g).filter keep ++ keeps, dropped',
        ((c :: g).filter fun x => !keep x).map (fun x => (x, low)) ++ removals, ?_, ?_, ?_⟩
      · intro explanation
        rw [partitionGroups, hget]
        dsimp only
        rw [hgroup]
        dsimp only
        rw [Nat.add_sub_cancel_left, ← cons_append, hrange]
        have hcut := (filter_append_perm keep (c :: g)).length_eq
        have hend : kept.length + dropped.length + (c :: g).length =
            (kept ++ (c :: g).filter keep).length + dropped₁.length := by
          rw [hdropped.length_eq, length_append, length_append]
          rw [length_append] at hcut
          omega
        rw [hend, hrun, noteAll_append, append_assoc kept]
      · rw [map_append, map_map]
        rw [show fst ∘ (fun x : Ref => (x, low)) = id from rfl, map_id]
        have hcut := filter_append_perm keep (c :: g)
        refine List.Perm.trans ?_ (hcut.append hperm)
        simp only [append_assoc]
        refine List.Perm.append_left _ ?_
        rw [← append_assoc, ← append_assoc]
        exact perm_append_comm.append_right _
      · intro x hx
        rcases mem_append.1 hx with hx | hx
        · obtain ⟨y, hy, rfl⟩ := mem_map.1 hx
          obtain ⟨hy, hlt⟩ := mem_filter.1 hy
          rw [hkeep, Bool.not_not, decide_eq_true_eq] at hlt
          rw [← cons_append]
          exact ⟨mem_append_left _ hy, mem_append_left _ hlow, hmed y hy hlt, hlt⟩
        · obtain ⟨h₁, h₂, h₃⟩ := hremovals x hx
          rw [← cons_append]
          exact ⟨mem_append_right _ h₁, mem_append_right _ h₂, h₃⟩

/-! ## What the pointers point to -/

lemma groupEnd_map (neighbor : UInt32) (l : List Ref) (n e : ℕ) (lowest : Ref) :
    medGroup neighbor (l.map Ref.val) n e lowest.val =
      ((groupEnd neighbor l n e lowest).1, (groupEnd neighbor l n e lowest).2.val) := by
  induction n generalizing e lowest with
  | zero => rfl
  | succ n ih =>
    rw [medGroup, groupEnd, getElem?_map]
    rcases l[e]? with _ | c
    · rfl
    · dsimp only [Option.map_some]
      by_cases hc : neighborAS c.val = neighbor
      · rw [if_pos hc, if_pos hc, ← ih]
        congr 1
        split_ifs <;> rfl
      · rw [if_neg hc, if_neg hc]

lemma partitionGroups_map (n start retained : ℕ) (l : List Ref) (explanation : Option Explanation) :
    retainGroups n start retained (l.map Ref.val) =
      ((partitionGroups addrString n start retained l explanation).1.1.map Ref.val,
        (partitionGroups addrString n start retained l explanation).1.2) := by
  induction n generalizing start retained l explanation with
  | zero => rfl
  | succ n ih =>
    rw [retainGroups, partitionGroups, getElem?_map]
    rcases l[start]? with _ | first
    · rfl
    · have hgroup : (if neighborAS first.val ≠ 0 then
          medGroup (neighborAS first.val) (l.map Ref.val) (l.map Ref.val).length (start + 1)
            first.val
          else (start + 1, first.val)) =
          ((if neighborAS first.val ≠ 0 then
            groupEnd (neighborAS first.val) l l.length (start + 1) first
            else (start + 1, first)).1, (if neighborAS first.val ≠ 0 then
            groupEnd (neighborAS first.val) l l.length (start + 1) first
            else (start + 1, first)).2.val) := by
        rw [length_map]
        split_ifs
        · exact groupEnd_map _ _ _ _ _
        · rfl
      dsimp only [Option.map_some]
      rw [hgroup]
      generalize (if neighborAS first.val ≠ 0 then
            groupEnd (neighborAS first.val) l l.length (start + 1) first
            else (start + 1, first)) = group
      dsimp only
      have hfst := partitionRange_fst addrString (fun c => !decide (group.2.val.med < c.val.med))
        group.2 (group.1 - start) start retained l explanation
      generalize partitionRange addrString (fun c => !decide (group.2.val.med < c.val.med)) group.2
        (group.1 - start) start retained l explanation = run at hfst ⊢
      rw [retainRange_map Ref.val, ← hfst]
      exact ih _ _ _ run.2

/-- **Run.** The last pass ends with the leader, and notes every other candidate as removed by one
that it does not beat. -/
lemma lastPass_eq (best : Ref) (l : List Ref) (hnodup : (best :: l).Nodup) :
    ∃ removals : List (Ref × Ref),
      (∀ explanation, lastPass addrString best l explanation =
        (scan (fun c b => resultAfterMED c.val b.val == .lt) best l,
          noteAll addrString explanation removals)) ∧
      (scan (fun c b => resultAfterMED c.val b.val == .lt) best l ::
        removals.map fst).Perm (best :: l) ∧
      ∀ x ∈ removals, x.1 ∈ best :: l ∧ x.2 ∈ best :: l ∧ x.1 ≠ x.2 ∧
        resultAfterMED x.2.val x.1.val ≠ .gt := by
  induction l generalizing best with
  | nil =>
    exact ⟨[], fun _ => rfl, .refl _, fun x hx => absurd hx not_mem_nil⟩
  | cons c l ih =>
    obtain ⟨hbest, hl⟩ := nodup_cons.1 hnodup
    rw [mem_cons, not_or] at hbest
    have hpass : ∀ winner loser : Ref, (winner :: l).Nodup →
        [winner, loser].Perm [best, c] → winner ≠ loser →
        resultAfterMED winner.val loser.val ≠ .gt →
        (∀ explanation, lastPass addrString best (c :: l) explanation =
          lastPass addrString winner l (note addrString explanation loser winner)) →
        scan (fun c b => resultAfterMED c.val b.val == .lt) best (c :: l) =
          scan (fun c b => resultAfterMED c.val b.val == .lt) winner l →
        ∃ removals : List (Ref × Ref),
          (∀ explanation, lastPass addrString best (c :: l) explanation =
            (scan (fun c b => resultAfterMED c.val b.val == .lt) best (c :: l),
              noteAll addrString explanation removals)) ∧
          (scan (fun c b => resultAfterMED c.val b.val == .lt) best (c :: l) ::
            removals.map fst).Perm (best :: c :: l) ∧
          ∀ x ∈ removals, x.1 ∈ best :: c :: l ∧ x.2 ∈ best :: c :: l ∧ x.1 ≠ x.2 ∧
            resultAfterMED x.2.val x.1.val ≠ .gt := by
      intro winner loser hnodup' hpair hne hafter hrun hscan
      obtain ⟨removals, htail, hperm, hremovals⟩ := ih winner hnodup'
      have hall : (winner :: loser :: l).Perm (best :: c :: l) := hpair.append_right l
      have hsub : ∀ y ∈ winner :: l, y ∈ best :: c :: l := by
        intro y hy
        rw [← hall.mem_iff]
        rcases mem_cons.1 hy with rfl | hy
        · exact mem_cons_self
        · exact mem_cons_of_mem _ (mem_cons_of_mem _ hy)
      refine ⟨(loser, winner) :: removals, fun explanation => ?_, ?_, ?_⟩
      · rw [hrun, htail, hscan]
        rfl
      · rw [hscan, map_cons]
        refine (List.Perm.swap _ _ _).trans ?_
        exact (hperm.cons loser).trans ((List.Perm.swap _ _ _).trans hall)
      · intro x hx
        rcases mem_cons.1 hx with rfl | hx
        · refine ⟨?_, hsub _ mem_cons_self, hne.symm, hafter⟩
          rw [← hall.mem_iff]
          exact mem_cons_of_mem _ mem_cons_self
        · obtain ⟨h₁, h₂, h₃⟩ := hremovals x hx
          exact ⟨hsub _ h₁, hsub _ h₂, h₃⟩
    by_cases hlt : resultAfterMED c.val best.val == .lt
    · refine hpass c best hl (List.Perm.swap _ _ _) (Ne.symm hbest.1) ?_ ?_ ?_
      · rw [beq_iff_eq] at hlt
        rw [hlt]
        decide
      · intro explanation
        rw [lastPass, if_pos hlt]
      · rw [scan, if_pos hlt]
    · refine hpass best c (nodup_cons.2 ⟨hbest.2, (nodup_cons.1 hl).2⟩) (.refl _)
        hbest.1 ?_ ?_ ?_
      · rw [beq_iff_eq] at hlt
        have hswap : resultAfterMED best.val c.val = (resultAfterMED c.val best.val).swap :=
          Std.OrientedCmp.eq_swap
        rw [hswap]
        rcases h : resultAfterMED c.val best.val with _ | _ | _
        · exact absurd h hlt
        · decide
        · decide
      · intro explanation
        rw [lastPass, if_neg hlt]
      · rw [scan, if_neg hlt]

/-! ## The removals of the selection -/

def Removes (l : List Ref) (x : Ref × Ref) : Prop :=
  x.1 ∈ l ∧ x.2 ∈ l ∧ x.1 ≠ x.2 ∧ (comparePair x.2.val x.1.val).1 ≠ .gt

lemma ne_of_comparePair_eq_lt {p q : Ref} (h : (comparePair q.val p.val).1 = .lt) : p ≠ q := by
  rintro rfl
  have hswap := congrArg fst (comparePair_swap p.val p.val)
  rw [h] at hswap
  cases hswap

section

variable {l : List Ref}

/-- The candidates that tie before MED with the best of them. -/
def tiesWith (b : Ref) (l : List Ref) : List Ref :=
  l.filter fun c => resultBeforeMED c.val b.val == .eq

variable {b : Ref} {x : Ref × Ref}

lemma resultBeforeMED_of_ties {p q : Ref} (hp : p ∈ tiesWith b l) (hq : q ∈ tiesWith b l) :
    resultBeforeMED p.val q.val = .eq := by
  have hpb : resultBeforeMED p.val b.val = .eq := by simpa using (mem_filter.1 hp).2
  have hqb : resultBeforeMED q.val b.val = .eq := by simpa using (mem_filter.1 hq).2
  have hbq : resultBeforeMED b.val q.val = .eq := by
    rw [show resultBeforeMED b.val q.val = (resultBeforeMED q.val b.val).swap from
      Std.OrientedCmp.eq_swap, hqb]
    rfl
  exact Std.TransCmp.eq_trans hpb hbq

lemma removes_beforeMED (hb : b ∈ l) (hmin : ∀ x ∈ l, resultBeforeMED x.val b.val ≠ .lt) :
    ∀ x ∈ (l.filter fun c => !(resultBeforeMED c.val b.val == .eq)).map fun c => (c, b),
      Removes l x := by
  intro x hx
  obtain ⟨c, hc, rfl⟩ := mem_map.1 hx
  obtain ⟨hc, hne⟩ := mem_filter.1 hc
  have hne : resultBeforeMED c.val b.val ≠ .eq := by simpa using hne
  have hlt : resultBeforeMED b.val c.val = .lt := by
    rw [show resultBeforeMED b.val c.val = (resultBeforeMED c.val b.val).swap from
      Std.OrientedCmp.eq_swap]
    rcases h : resultBeforeMED c.val b.val with _ | _ | _
    · exact absurd h (hmin c hc)
    · exact absurd h hne
    · rfl
  have hpair : (comparePair b.val c.val).1 = .lt := by
    rw [comparePair_fst, hlt]
    rfl
  refine ⟨hc, hb, ne_of_comparePair_eq_lt hpair, ?_⟩
  rw [hpair]
  decide

lemma removes_byMED (h₁ : x.1 ∈ tiesWith b l) (h₂ : x.2 ∈ tiesWith b l)
    (hmed : RemovesByMED x) : Removes l x := by
  have hpair : (comparePair x.2.val x.1.val).1 = .lt := by
    rw [comparePair_fst, resultBeforeMED_of_ties h₂ h₁, compareMED, if_pos hmed.1,
      Std.compare_eq_lt.2 hmed.2]
    rfl
  refine ⟨(mem_filter.1 h₁).1, (mem_filter.1 h₂).1, ne_of_comparePair_eq_lt hpair, ?_⟩
  rw [hpair]
  decide

lemma removes_afterMED {kept : List Ref} (hties : ∀ p ∈ kept, p ∈ tiesWith b l)
    (hmed : ∀ p ∈ kept, ∀ q ∈ kept, sameNeighborAS p.val q.val → ¬ p.val.med < q.val.med)
    (hx : x.1 ∈ kept ∧ x.2 ∈ kept ∧ x.1 ≠ x.2 ∧ resultAfterMED x.2.val x.1.val ≠ .gt) :
    Removes l x := by
  obtain ⟨h₁, h₂, hne, hafter⟩ := hx
  have heq : compareMED x.2.val x.1.val = .eq := by
    by_contra h
    obtain ⟨hsame, hdiff⟩ := compareMED_ne_eq_iff.2 h
    have hlt := hmed x.2 h₂ x.1 h₁ hsame
    have hgt := hmed x.1 h₁ x.2 h₂ (by rwa [sameNeighborAS_comm])
    exact hdiff (UInt32.le_antisymm (UInt32.not_lt.1 hgt) (UInt32.not_lt.1 hlt))
  refine ⟨(mem_filter.1 (hties _ h₁)).1, (mem_filter.1 (hties _ h₂)).1, hne, ?_⟩
  rw [comparePair_fst, resultBeforeMED_of_ties (hties _ h₂) (hties _ h₁), heq]
  exact hafter

lemma keeps_lowestMED (sort : SortFunc compareRefAS) {ties keeps dropped : List Ref} {n : ℕ}
    (hties : ties ≠ [])
    (hrun : (partitionGroups addrString (sort.sort ties).length 0 0 (sort.sort ties) none).1 =
      (keeps ++ dropped, n)) (hn : n = keeps.length) :
    keeps.map Ref.val = lowestMED ((sort.sort ties).map Ref.val) ∧ keeps ≠ [] := by
  have hasc : Ascending neighborKey ((sort.sort ties).map Ref.val) := by
    refine pairwise_map.mpr ((sort.sorted ties).imp fun h => ?_)
    exact (isLE_compareNeighborAS _ _).mp h
  obtain ⟨higher, -, hmed⟩ := retainLowestMED_eq hasc
  have hmap := partitionGroups_map addrString (sort.sort ties).length 0 0 (sort.sort ties) none
  rw [hrun] at hmap
  rw [retainLowestMED, length_map, hmap, Prod.mk.injEq, hn] at hmed
  have hkeeps : keeps.map Ref.val = lowestMED ((sort.sort ties).map Ref.val) := by
    have hlen : keeps.length = (lowestMED ((sort.sort ties).map Ref.val)).length := hmed.2
    have htake := congrArg (List.take keeps.length) hmed.1
    rw [map_append, take_left' (length_map ..), hlen, take_left] at htake
    exact htake
  refine ⟨hkeeps, ?_⟩
  rintro rfl
  obtain ⟨c, hc⟩ := exists_leader (fun c best => compareOn Candidate.med c best == .lt)
    (show (sort.sort ties).map Ref.val ≠ [] from fun h => hties
      ((sort.perm ties).symm.trans (map_eq_nil_iff.mp h ▸ .refl _)).eq_nil)
  have hmem : c ∈ lowestMED ((sort.sort ties).map Ref.val) :=
    mem_lowestMED.mpr ⟨leader_mem hc, fun x hx _ hlt =>
      leader_min hc x hx (Std.compare_eq_lt.mpr hlt)⟩
  rw [← hkeeps] at hmem
  cases hmem

/-- **The removals.** The selection of a non-empty slice has a winner and removes every other
candidate once, each by one that `comparePair` does not rank below it. Neither the winner nor the
removals depend on the explanation, which is what they are noted in. -/
lemma selectRefs_removals (sort : SortFunc compareRefAS) (hne : l ≠ []) (hnodup : l.Nodup) :
    ∃ (w : Ref) (removals : List (Ref × Ref)),
      (∀ explanation, (selectRefs addrString sort l explanation).best = some w ∧
        (selectRefs addrString sort l explanation).explanation =
          noteAll addrString explanation removals) ∧
      (w :: removals.map fst).Perm l ∧ ∀ x ∈ removals, Removes l x := by
  rcases l with _ | ⟨first, _ | ⟨second, rest⟩⟩
  · exact absurd rfl hne
  · exact ⟨first, [], fun _ => ⟨rfl, rfl⟩, .refl _, fun x hx => absurd hx not_mem_nil⟩
  · set b := scan (fun c best : Ref => resultBeforeMED c.val best.val == .lt) first (second :: rest)
      with hb
    set l := first :: second :: rest with hl
    have hbl : b ∈ l := by
      rcases scan_mem (fun c best : Ref => resultBeforeMED c.val best.val == .lt) first
        (second :: rest) with h | h
      · rw [hb, h]
        exact mem_cons_self
      · exact mem_cons_of_mem _ h
    have hlead : leader (fun c best => resultBeforeMED c best == .lt) (l.map Ref.val) =
        some b.val := by
      rw [hl, map_cons, leader, scan_map]
    have hmin : ∀ x ∈ l, resultBeforeMED x.val b.val ≠ .lt := fun x hx =>
      leader_min hlead x.val (mem_map_of_mem hx)
    obtain ⟨dropped, hdropped, hbefore⟩ := partitionRange_eq addrString
      (fun c => resultBeforeMED c.val b.val == .eq) b l [] [] []
    simp only [nil_append, append_nil, length_nil, add_zero] at hbefore hdropped
    set removed := l.filter fun c => !(resultBeforeMED c.val b.val == .eq) with hremoved
    have hcut : (tiesWith b l ++ removed).Perm l := filter_append_perm _ l
    have hfst : (removed.map fun c => (c, b)).map fst = removed := by
      rw [map_map]
      exact map_id _
    rw [← tiesWith] at hbefore
    by_cases hone : (tiesWith b l).length = 1
    · -- one candidate before MED: returned at once
      obtain ⟨w, hw⟩ := length_eq_one_iff.1 hone
      refine ⟨w, removed.map fun c => (c, b), fun explanation => ?_, ?_, removes_beforeMED hbl hmin⟩
      · rw [hl, selectRefs, ← hb, ← hl]
        · simp only [hbefore, hw, length_singleton, if_true]
          exact ⟨rfl, trivial⟩
        · exact cons_ne_nil _ _
      · rw [hfst]
        rwa [hw] at hcut
    · have hties : tiesWith b l ≠ [] := by
        refine ne_nil_of_mem (mem_filter.2 ⟨hbl, ?_⟩)
        rw [beq_iff_eq]
        exact Std.ReflCmp.compare_self
      set slice := sort.sort (tiesWith b l) with hslice
      have hsort := sort.perm (tiesWith b l)
      obtain ⟨keeps, lost, byMED, hgroups, hperm, hbyMED⟩ :=
        partitionGroups_eq addrString slice.length [] [] slice (Nat.le_refl _)
      simp only [nil_append, length_nil, add_zero] at hgroups
      obtain ⟨hlowest, hkeeps⟩ := keeps_lowestMED addrString sort hties
        (congrArg fst (hgroups none)) rfl
      have hslicemem : ∀ p ∈ slice, p ∈ tiesWith b l := fun p hp => hsort.mem_iff.1 hp
      have hkeepsmem : ∀ p ∈ keeps, p ∈ tiesWith b l := fun p hp =>
        hslicemem p (hperm.mem_iff.1 (mem_append_left _ hp))
      have hmed : ∀ p ∈ keeps, ∀ q ∈ keeps, sameNeighborAS p.val q.val →
          ¬ p.val.med < q.val.med := by
        intro p hp q hq hsame
        have hqmem : q.val ∈ lowestMED (slice.map Ref.val) := by
          rw [← hlowest]
          exact mem_map_of_mem hq
        refine (mem_lowestMED.1 hqmem).2 p.val (mem_map_of_mem ?_) hsame
        exact hperm.mem_iff.1 (mem_append_left _ hp)
      have hkeepsnodup : keeps.Nodup := by
        have htn : (tiesWith b l).Nodup := hnodup.sublist filter_sublist
        have hall := hperm.nodup_iff.2 (hsort.nodup_iff.2 htn)
        exact hall.sublist (sublist_append_left _ _)
      obtain ⟨best, others, rfl⟩ := exists_cons_of_ne_nil hkeeps
      obtain ⟨after, hlast, hafterperm, hafter⟩ := lastPass_eq addrString best others hkeepsnodup
      refine ⟨scan (fun c best : Ref => resultAfterMED c.val best.val == .lt) best others,
        (removed.map fun c => (c, b)) ++ byMED ++ after, fun explanation => ?_, ?_, ?_⟩
      · rw [hl, selectRefs, ← hb, ← hl]
        · simp only [hbefore, if_neg hone, take_left, ← hslice, hgroups, hlast, noteAll_append]
          exact ⟨trivial, trivial⟩
        · exact cons_ne_nil _ _
      · rw [map_append, map_append, hfst]
        have hkept := hafterperm.append_right (byMED.map fst)
        have hwhole := ((hkept.trans hperm).trans hsort).append_right removed
        refine List.Perm.trans ?_ (hwhole.trans hcut)
        rw [cons_append, cons_append]
        refine List.Perm.cons _ ?_
        refine perm_append_comm.trans ?_
        rw [append_assoc]
        exact perm_append_comm.append_left _
      · intro x hx
        rcases mem_append.1 hx with hx | hx
        · rcases mem_append.1 hx with hx | hx
          · exact removes_beforeMED hbl hmin x hx
          · obtain ⟨h₁, h₂, hby⟩ := hbyMED x hx
            exact removes_byMED (hslicemem _ h₁) (hslicemem _ h₂) hby
        · exact removes_afterMED hkeepsmem hmed (hafter x hx)

end

/-! ## The noted steps -/

/-- The candidate that a step removes. Source: bestpath.go PairwiseStep. -/
def PairwiseStep.loserIdx (s : PairwiseStep) : ℕ :=
  if s.winnerIdx = s.incumbentIdx then s.challengerIdx else s.incumbentIdx

lemma foldl_indices_of_notMem (l : List Ref) (k : ℕ) (indices : ℕ → ℕ) {address : ℕ}
    (h : address ∉ l.map Ref.address) :
    (l.zipIdx k).foldl (fun indices x address => if address = x.1.address then x.2
      else indices address) indices address = indices address := by
  induction l generalizing k indices with
  | nil => rfl
  | cons p l ih =>
    rw [map_cons, mem_cons, not_or] at h
    rw [zipIdx_cons, foldl_cons, ih _ _ h.2, if_neg h.1]

lemma foldl_indices (l : List Ref) (k : ℕ) (indices : ℕ → ℕ) (hptr : (l.map Ref.address).Nodup)
    {i : ℕ} {p : Ref} (hp : l[i]? = some p) :
    (l.zipIdx k).foldl (fun indices x address => if address = x.1.address then x.2
      else indices address) indices p.address = k + i := by
  induction l generalizing k indices i with
  | nil => cases hp
  | cons q l ih =>
    rw [map_cons, nodup_cons] at hptr
    rw [zipIdx_cons, foldl_cons]
    rcases i with _ | i
    · cases hp
      rw [foldl_indices_of_notMem _ _ _ hptr.1, if_pos rfl, add_zero]
    · rw [getElem?_cons_succ] at hp
      rw [ih (k + 1) _ hptr.2 hp]
      omega

section

variable {l : List Ref}

variable {p : Ref} {e : Explanation}

lemma indicesOf_eq (hptr : (l.map Ref.address).Nodup) {i : ℕ} (hp : l[i]? = some p) :
    indicesOf l p.address = i := by
  rw [indicesOf, foldl_indices l 0 _ hptr hp, zero_add]

lemma getElem?_indicesOf (hptr : (l.map Ref.address).Nodup) (hp : p ∈ l) :
    l[indicesOf l p.address]? = some p := by
  obtain ⟨i, hi⟩ := mem_iff_getElem?.1 hp
  rwa [indicesOf_eq hptr hi]

lemma map_indicesOf (hptr : (l.map Ref.address).Nodup) :
    l.map (fun p => indicesOf l p.address) = range l.length := by
  apply ext_getElem
  · rw [length_map, length_range]
  · intro i hi _
    rw [length_map] at hi
    rw [getElem_map, getElem_range]
    exact indicesOf_eq hptr (getElem?_eq_getElem hi)

/-- A step names two candidates, the criterion that `comparePair` decides them by and the one that
it decides for; where it finds a tie, one of the two. Source: bestpath.go PairwiseStep.
-/
def AgreesWithPair (l : List Ref) (s : PairwiseStep) : Prop :=
  ∃ incumbent challenger, l[s.incumbentIdx]? = some incumbent ∧
    l[s.challengerIdx]? = some challenger ∧ s.incumbentIdx < s.challengerIdx ∧
    s.step = (comparePair challenger.val incumbent.val).2 ∧
    match (comparePair challenger.val incumbent.val).1 with
    | .lt => s.winnerIdx = s.challengerIdx
    | .gt => s.winnerIdx = s.incumbentIdx
    | .eq => s.step = .equal ∧ (s.winnerIdx = s.challengerIdx ∨ s.winnerIdx = s.incumbentIdx)

variable (hptr : (l.map Ref.address).Nodup) (hcandidates : e.candidates = l)
  (hindices : e.indices = indicesOf l)
include hptr hcandidates hindices

lemma remove_explains {x : Ref × Ref} (hx : Removes l x) :
    ∃ s, e.remove addrString x.1 x.2 = { e with steps := e.steps ++ [s] } ∧
      s.loserIdx = indicesOf l x.1.address ∧ AgreesWithPair l s := by
  obtain ⟨h₁, h₂, hne, hpair⟩ := hx
  have hget₁ := getElem?_indicesOf hptr h₁
  have hget₂ := getElem?_indicesOf hptr h₂
  rw [Explanation.remove, hcandidates, hindices]
  dsimp only
  set i := indicesOf l x.1.address
  set j := indicesOf l x.2.address
  have hij : i ≠ j := by
    intro h
    rw [h, hget₂] at hget₁
    exact hne (Option.some.inj hget₁).symm
  have hdecision := fun p q : Ref => decision_comparePairWithReason addrString p q
  rcases Nat.lt_or_gt_of_ne hij with hlt | hlt
  · -- the loser came first: it is the incumbent
    rw [Nat.min_eq_left hlt.le, Nat.max_eq_right hlt.le, hget₁, hget₂]
    refine ⟨_, rfl, ?_, x.1, x.2, hget₁, hget₂, hlt, ?_, ?_⟩
    · exact if_neg hlt.ne'
    · exact congrArg snd (hdecision x.2 x.1)
    · rcases hcmp : (comparePair x.2.val x.1.val).1 with _ | _ | _
      · rfl
      · refine ⟨?_, .inl rfl⟩
        exact (congrArg snd (hdecision x.2 x.1)).trans (step_of_comparePair_eq hcmp)
      · exact absurd hcmp hpair
  · rw [Nat.min_eq_right hlt.le, Nat.max_eq_left hlt.le, hget₁, hget₂]
    have hswap := comparePair_swap x.2.val x.1.val
    refine ⟨_, rfl, ?_, x.2, x.1, hget₂, hget₁, hlt, ?_, ?_⟩
    · exact if_pos rfl
    · exact congrArg snd (hdecision x.1 x.2)
    · rcases hcmp : (comparePair x.1.val x.2.val).1 with _ | _ | _
      · rw [hswap] at hcmp
        rcases h : (comparePair x.2.val x.1.val).1 with _ | _ | _ <;> rw [h] at hcmp hpair
        · cases hcmp
        · cases hcmp
        · exact absurd rfl hpair
      · refine ⟨?_, .inr rfl⟩
        exact (congrArg snd (hdecision x.1 x.2)).trans (step_of_comparePair_eq hcmp)
      · rfl

/-- **Run.** Every removal is noted, in its order, as `comparePair` has it. -/
lemma noteAll_explains {removals : List (Ref × Ref)} (hremovals : ∀ x ∈ removals, Removes l x) :
    ∃ steps, noteAll addrString (some e) removals = some { e with steps := e.steps ++ steps } ∧
      steps.map PairwiseStep.loserIdx =
        (removals.map fst).map (fun p => indicesOf l p.address) ∧
      ∀ s ∈ steps, AgreesWithPair l s := by
  induction removals generalizing e with
  | nil => exact ⟨[], by simp [noteAll], rfl, fun s hs => absurd hs not_mem_nil⟩
  | cons x removals ih =>
    rw [forall_mem_cons] at hremovals
    obtain ⟨s, hs, hloser, hagrees⟩ :=
      remove_explains addrString hptr hcandidates hindices hremovals.1
    obtain ⟨steps, hsteps, hlosers, hall⟩ := ih (e := { e with steps := e.steps ++ [s] })
      hcandidates hindices hremovals.2
    refine ⟨s :: steps, ?_, ?_, forall_mem_cons.2 ⟨hagrees, hall⟩⟩
    · rw [noteAll, foldl_cons, note, Option.map_some, hs, ← noteAll, hsteps, append_assoc]
      rfl
    · rw [map_cons, map_cons, map_cons, hloser, hlosers]

end

/-- **The explained selection.** For every non-empty slice of pointers to different candidates the
explanation names the winner of the selection; every other candidate is removed by exactly one step;
and each step names the criterion that `comparePair` decides its pair by, and the winner that it
decides for, or one of the two where it finds a tie. `comparePair` and `comparePairWithReason`
decide every pair the same way, by the same criterion. -/
theorem selectBestExplain_spec (sort : SortFunc compareRefAS) {l : List Ref} (hne : l ≠ [])
    (hptr : (l.map Ref.address).Nodup) :
    (∃ (e : Explanation) (w : Ref) (i : ℕ), selectBestExplain addrString sort l = some e ∧
      e.winner = some w ∧ selectBestRef addrString sort l = some w ∧ e.candidates = l ∧
      l[i]? = some w ∧ (i :: e.steps.map PairwiseStep.loserIdx).Perm (range l.length) ∧
      ∀ s ∈ e.steps, AgreesWithPair l s) ∧
      ∀ p q : Ref, (comparePairWithReason addrString p q).1 = (comparePair p.val q.val).1 ∧
        (comparePairWithReason addrString p q).2.1 = (comparePair p.val q.val).2 := by
  have hnodup : l.Nodup := List.Nodup.of_map _ hptr
  obtain ⟨w, removals, hrun, hperm, hremovals⟩ := selectRefs_removals addrString sort hne hnodup
  obtain ⟨steps, hsteps, hlosers, hall⟩ := noteAll_explains addrString
    (e := ⟨l, [], none, indicesOf l⟩) hptr rfl rfl hremovals
  constructor
  · refine ⟨⟨l, steps, some w, indicesOf l⟩, w, indicesOf l w.address, ?_, rfl, (hrun none).1, rfl,
      ?_, ?_, hall⟩
    · rw [selectBestExplain, if_neg (by rwa [List.isEmpty_iff])]
      dsimp only
      rw [(hrun _).1, (hrun _).2, hsteps]
      rfl
    · exact getElem?_indicesOf hptr (hperm.mem_iff.1 mem_cons_self)
    · have hmap := hperm.map fun p => indicesOf l p.address
      rwa [map_cons, ← hlosers, map_indicesOf hptr] at hmap
  · intro p q
    have h := decision_comparePairWithReason addrString p q
    exact ⟨congrArg fst h, congrArg snd h⟩

/-- Insertion sort of pointers. Source: slices.SortFunc. -/
def insertionSortRefs : SortFunc compareRefAS where
  sort l := l.insertionSort fun p q => neighborKey p.val ≤ neighborKey q.val
  perm l := perm_insertionSort _ l
  sorted l := by
    refine (pairwise_insertionSort (fun p q : Ref => neighborKey p.val ≤ neighborKey q.val)
      l).imp ?_
    exact fun h => (isLE_compareNeighborAS _ _).2 h
  keeps l h := List.Pairwise.insertionSort_eq
    (h.imp fun h => (isLE_compareNeighborAS _ _).1 h)

/-- The text of an IPv4 address, and of no address. Source: net/netip Addr.String. -/
def dotted : Addr → String
  | .v4 bits => ".".intercalate ([24, 16, 8, 0].map fun k =>
    toString ((bits >>> k).toNat % 256))
  | _ => "invalid IP"

def fourRefs : List Ref :=
  [⟨10, routeFrom 3 2, "0.0.0.3"⟩, ⟨11, { routeFrom 1 1 with med := 5 }, "0.0.0.1"⟩,
    ⟨12, routeFrom 2 3, "0.0.0.2"⟩,
    ⟨13, { routeFrom 4 1 with firstAS := 65002, igpCost := 9 }, "0.0.0.4"⟩]

/-- Four routes of which one wins and three are removed. -/
theorem selectBestExplain_four :
    (fourRefs.map Ref.address).Nodup ∧ ∃ e, selectBestExplain dotted insertionSortRefs fourRefs =
      some e ∧ e.winner = selectBestRef dotted insertionSortRefs fourRefs ∧ e.steps.length = 3 := by
  refine ⟨by decide, ?_⟩
  obtain ⟨⟨e, w, i, he, hwinner, hbest, -, -, hperm, -⟩, -⟩ :=
    selectBestExplain_spec dotted insertionSortRefs (show fourRefs ≠ [] by decide) (by decide)
  refine ⟨e, he, hwinner.trans hbest.symm, ?_⟩
  have hlen := hperm.length_eq
  rw [length_cons, length_map, length_range] at hlen
  exact Nat.succ.inj hlen

end Ze.Rib
