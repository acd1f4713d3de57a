import Mathlib.Data.List.Perm.Basic
import Mathlib.Data.List.Pairwise
import Mathlib.Data.List.Dedup
import Mathlib.Data.List.Sort

/-!
# Electing one element by a linear pass

`scan better b l` walks over `l` and keeps the best element so far, from `b` on; `leader better l`
is its outcome. With a tournament, a relation that only decides every pair of distinct elements, the
leader depends on the order of the list. `leader_eq_iff`: every order of a set that is ascending in
a key elects `w` iff `w` beats every other element whose key is not lower, and every element that
can lead the elements of lower key (`CanLead`).
-/

namespace Ze.Lib

open List

variable {α : Type*} (better : α → α → Bool)

/-- The best element after a pass over the list, starting with `b`. -/
def scan : α → List α → α
  | b, [] => b
  | b, x :: xs => scan (if better x b then x else b) xs

def leader : List α → Option α
  | [] => none
  | x :: xs => some (scan better x xs)

variable {better} {b w r : α} {l pre post : List α}

lemma scan_append (b : α) (l l' : List α) :
    scan better b (l ++ l') = scan better (scan better b l) l' := by
  induction l generalizing b with
  | nil => rfl
  | cons x xs ih => exact ih _

lemma scan_map {β : Type*} (better : α → α → Bool) (f : β → α) (b : β) (l : List β) :
    scan better (f b) (l.map f) = f (scan (fun x y => better (f x) (f y)) b l) := by
  induction l generalizing b with
  | nil => rfl
  | cons x xs ih =>
    rw [map_cons, scan, scan, ← ih]
    congr 1
    split_ifs <;> rfl

lemma scan_mem (better : α → α → Bool) (b : α) (l : List α) :
    scan better b l = b ∨ scan better b l ∈ l := by
  induction l generalizing b with
  | nil => exact .inl rfl
  | cons x xs ih =>
    unfold scan
    split_ifs with h
    · rcases ih x with hx | hx
      · exact .inr (by rw [hx]; exact mem_cons_self)
      · exact .inr (mem_cons_of_mem _ hx)
    · rcases ih b with hb | hb
      · exact .inl hb
      · exact .inr (mem_cons_of_mem _ hb)

lemma scan_eq_self (h : ∀ x ∈ l, better x b = false) : scan better b l = b := by
  induction l with
  | nil => rfl
  | cons x xs ih =>
    unfold scan
    rw [if_neg (by rw [h x mem_cons_self]; exact Bool.false_ne_true)]
    exact ih fun y hy => h y (mem_cons_of_mem _ hy)

lemma not_better_of_scan_eq_self (hb : b ∉ l) (h : scan better b l = b) :
    ∀ x ∈ l, better x b = false := by
  induction l with
  | nil => exact fun x hx => absurd hx not_mem_nil
  | cons x xs ih =>
    rw [mem_cons, not_or] at hb
    unfold scan at h
    split_ifs at h with hx
    · -- `x` takes over, and `b` does not come back
      rcases scan_mem better x xs with heq | hmem
      · exact absurd (h.symm.trans heq) hb.1
      · exact absurd (h ▸ hmem) hb.2
    · intro y hy
      rcases mem_cons.1 hy with rfl | hy
      · exact Bool.not_eq_true _ ▸ hx
      · exact ih hb.2 h y hy

lemma leader_mem (h : leader better l = some r) : r ∈ l := by
  cases l with
  | nil => cases h
  | cons x xs =>
    rw [leader, Option.some.injEq] at h
    rcases scan_mem better x xs with hx | hx
    · rw [← h, hx]
      exact mem_cons_self
    · exact h ▸ mem_cons_of_mem _ hx

lemma exists_leader (better : α → α → Bool) (h : l ≠ []) : ∃ r, leader better l = some r := by
  cases l with
  | nil => exact absurd rfl h
  | cons x xs => exact ⟨_, rfl⟩

lemma leader_append (h : leader better pre = some r) (post : List α) :
    leader better (pre ++ post) = some (scan better r post) := by
  cases pre with
  | nil => cases h
  | cons x xs =>
    rw [leader, Option.some.injEq] at h
    rw [cons_append, leader, scan_append, h]

lemma leader_of_beats (hpre : ∀ r, leader better pre = some r → better w r)
    (hpost : ∀ x ∈ post, better x w = false) : leader better (pre ++ w :: post) = some w := by
  rcases pre with _ | ⟨x, xs⟩
  · rw [nil_append, leader, scan_eq_self hpost]
  · obtain ⟨r, hr⟩ := exists_leader better (cons_ne_nil x xs)
    rw [leader_append hr, scan, if_pos (hpre r hr), scan_eq_self hpost]

lemma beats_of_leader (hpre : w ∉ pre) (hpost : w ∉ post)
    (h : leader better (pre ++ w :: post) = some w) :
    (∀ r, leader better pre = some r → better w r) ∧ ∀ x ∈ post, better x w = false := by
  rcases pre with _ | ⟨x, xs⟩
  · rw [nil_append, leader, Option.some.injEq] at h
    exact ⟨fun r hr => (Option.some_ne_none r hr.symm).elim, not_better_of_scan_eq_self hpost h⟩
  · obtain ⟨r, hr⟩ := exists_leader better (cons_ne_nil x xs)
    rw [leader_append hr, scan, Option.some.injEq] at h
    split_ifs at h with hw
    · refine ⟨fun r' hr' => ?_, not_better_of_scan_eq_self hpost h⟩
      rw [hr, Option.some.injEq] at hr'
      exact hr' ▸ hw
    · -- otherwise the winner is the leader of the first part or comes after `w`
      have hmem := leader_mem hr
      rcases scan_mem better r post with heq | hin
      · exact absurd (by rw [← h, heq]; exact hmem) hpre
      · exact absurd (h ▸ hin) hpost

lemma scan_congr {better' : α → α → Bool}
    (h : ∀ x ∈ b :: l, ∀ y ∈ b :: l, better x y = better' x y) :
    scan better b l = scan better' b l := by
  induction l generalizing b with
  | nil => rfl
  | cons x xs ih =>
    unfold scan
    rw [h x (by simp) b (by simp)]
    apply ih
    intro y hy z hz
    have hsub : ∀ u, u ∈ (if better' x b = true then x else b) :: xs → u ∈ b :: x :: xs := by
      intro u hu
      rcases mem_cons.1 hu with rfl | hu
      · split_ifs <;> simp
      · simp [hu]
    exact h y (hsub y hy) z (hsub z hz)

lemma leader_congr {better' : α → α → Bool}
    (h : ∀ x ∈ l, ∀ y ∈ l, better x y = better' x y) : leader better l = leader better' l := by
  cases l with
  | nil => rfl
  | cons b l => exact congrArg some (scan_congr h)

/-! ## Transitive comparisons -/

section

variable {cmp : α → α → Ordering} [Std.TransCmp cmp]

/-- Under a transitive comparison a pass ends with an element that nothing seen precedes. -/
lemma scan_min (b : α) (l : List α) :
    cmp b (scan (fun x y => cmp x y == .lt) b l) ≠ .lt ∧
      ∀ x ∈ l, cmp x (scan (fun x y => cmp x y == .lt) b l) ≠ .lt := by
  induction l generalizing b with
  | nil =>
    refine ⟨?_, fun x hx => absurd hx not_mem_nil⟩
    have hself : cmp b b = .eq := Std.ReflCmp.compare_self
    rw [scan, hself]
    exact Ordering.noConfusion
  | cons x xs ih =>
    unfold scan
    split_ifs with hx
    · obtain ⟨h₁, h₂⟩ := ih x
      rw [beq_iff_eq] at hx
      refine ⟨fun hb => ?_, fun y hy => ?_⟩
      · exact h₁ (Std.TransCmp.lt_trans hx hb)
      · rcases mem_cons.1 hy with rfl | hy
        · exact h₁
        · exact h₂ y hy
    · obtain ⟨h₁, h₂⟩ := ih b
      rw [beq_iff_eq] at hx
      refine ⟨h₁, fun y hy => ?_⟩
      rcases mem_cons.1 hy with rfl | hy
      · intro hy
        -- `b` is not after `y`, and `y` is before the winner
        have hby : (cmp b y).isLE := by
          have hswap : cmp b y = (cmp y b).swap := Std.OrientedCmp.eq_swap
          rw [hswap]
          cases h : cmp y b with
          | lt => exact absurd h hx
          | eq | gt => rfl
        exact h₁ (Std.TransCmp.lt_of_isLE_of_lt hby hy)
      · exact h₂ y hy

/-- Under a transitive comparison the leader is a minimum. -/
lemma leader_min (h : leader (fun x y => cmp x y == .lt) l = some r) : ∀ x ∈ l, cmp x r ≠ .lt := by
  cases l with
  | nil => cases h
  | cons b l =>
    rw [leader] at h
    cases h
    intro x hx
    rcases mem_cons.1 hx with rfl | hx
    · exact (scan_min x l).1
    · exact (scan_min b l).2 x hx

end

/-! ## Tournaments over a list in key order -/

section

variable {β : Type*} [LinearOrder β] (key : α → β) {S low rest : List α}

def Ascending (l : List α) : Prop :=
  l.Pairwise fun x y => key x ≤ key y

def CanLead (better : α → α → Bool) (S : List α) (r : α) : Prop :=
  ∃ l : List α, l.Perm S ∧ Ascending key l ∧ leader better l = some r

variable {key}

lemma exists_ascending (key : α → β) (S : List α) : ∃ l : List α, l.Perm S ∧ Ascending key l := by
  classical
  refine ⟨S.insertionSort fun x y => key x ≤ key y, perm_insertionSort _ S, ?_⟩
  exact pairwise_insertionSort (fun x y => key x ≤ key y) S

lemma Ascending.split (h : Ascending key l) (k : β) :
    l = l.filter (fun x => decide (key x < k)) ++ l.filter (fun x => !decide (key x < k)) := by
  induction l with
  | nil => rfl
  | cons x xs ih =>
    unfold Ascending at h
    rw [pairwise_cons] at h
    by_cases hx : key x < k
    · simp only [filter_cons, hx, decide_true, if_true, Bool.not_true, Bool.false_eq_true,
        if_false, cons_append, cons.injEq, true_and]
      exact ih h.2
    · -- nothing behind `x` is below the bound either
      have hall : ∀ y ∈ x :: xs, ¬ key y < k := by
        intro y hy
        rcases mem_cons.1 hy with rfl | hy
        · exact hx
        · exact not_lt.2 (le_trans (not_lt.1 hx) (h.1 y hy))
      rw [filter_eq_nil_iff.2 fun y hy => by simpa using hall y hy, nil_append,
        filter_eq_self.2 fun y hy => by simpa using hall y hy]

lemma exists_ascending_around [DecidableEq α] (hw : w ∈ S)
    (hlow : low.Perm (S.filter fun x => decide (key x < key w))) (hasc : Ascending key low) :
    ∃ rest : List α, (low ++ w :: rest).Perm S ∧ Ascending key (low ++ w :: rest) ∧
      ∀ x ∈ S, x ≠ w → key w ≤ key x → x ∈ rest := by
  obtain ⟨rest, hperm, hsorted⟩ :=
    exists_ascending key ((S.erase w).filter fun x => !decide (key x < key w))
  have hrest : ∀ x ∈ rest, key w ≤ key x := by
    intro x hx
    have := of_mem_filter (hperm.mem_iff.1 hx)
    simpa using this
  have hbelow : ∀ x ∈ low, key x < key w := by
    intro x hx
    simpa using of_mem_filter (hlow.mem_iff.1 hx)
  refine ⟨rest, ?_, ?_, ?_⟩
  · -- the two filters of `S` without `w` and with it differ only in `w` itself
    have hsame : (S.filter fun x => decide (key x < key w)).Perm
        ((S.erase w).filter fun x => decide (key x < key w)) := by
      have := (perm_cons_erase hw).filter fun x => decide (key x < key w)
      rwa [filter_cons_of_neg (by simp)] at this
    calc low ++ w :: rest ~ w :: (low ++ rest) := perm_middle
      _ ~ w :: ((S.erase w).filter (fun x => decide (key x < key w)) ++
            (S.erase w).filter fun x => !decide (key x < key w)) :=
          ((hlow.trans hsame).append hperm).cons w
      _ ~ w :: S.erase w := (filter_append_perm _ _).cons w
      _ ~ S := (perm_cons_erase hw).symm
  · unfold Ascending
    rw [pairwise_append, pairwise_cons]
    refine ⟨hasc, ⟨hrest, hsorted⟩, fun x hx y hy => ?_⟩
    rcases mem_cons.1 hy with rfl | hy
    · exact le_of_lt (hbelow x hx)
    · exact le_trans (le_of_lt (hbelow x hx)) (hrest y hy)
  · intro x hx hne hle
    rw [hperm.mem_iff, mem_filter]
    exact ⟨(mem_erase_of_ne hne).2 hx, by simpa using hle⟩

lemma Ascending.leader_cases (h : Ascending key l) (k : β) (hr : leader better l = some r) :
    leader better (l.filter fun x => decide (key x < k)) = some r ∨ r ∈ l ∧ k ≤ key r := by
  rcases hlow : l.filter (fun x => decide (key x < k)) with _ | ⟨x, xs⟩
  · refine .inr ⟨leader_mem hr, ?_⟩
    have := filter_eq_nil_iff.1 hlow r (leader_mem hr)
    simpa using this
  · obtain ⟨q, hq⟩ := exists_leader better (cons_ne_nil x xs)
    rw [h.split k, hlow, leader_append hq, Option.some.injEq] at hr
    rcases scan_mem better q (l.filter fun x => !decide (key x < k)) with heq | hmem
    · exact .inl (by rw [hq, ← heq, hr])
    · rw [hr] at hmem
      exact .inr ⟨mem_of_mem_filter hmem, by simpa using of_mem_filter hmem⟩

/-- `w` is elected from every ascending order of `S`, as a condition on `S` alone. -/
structure SureLeader (key : α → β) (better : α → α → Bool) (S : List α) (w : α) : Prop where
  mem : w ∈ S
  /-- It beats whatever may come after it. -/
  upper : ∀ x ∈ S, x ≠ w → key w ≤ key x → better w x = true
  /-- It beats whatever the elements that always come before it may elect. -/
  lower : ∀ r, CanLead key better (S.filter fun x => decide (key x < key w)) r →
    better w r = true

/-- **Theorem.** When distinct elements always beat one another one way, every ascending order of
`S` elects `w` iff `w` is a sure leader. -/
lemma leader_eq_iff [DecidableEq α] (hnd : S.Nodup)
    (hbetter : ∀ x ∈ S, ∀ y ∈ S, x ≠ y → better x y = !better y x) :
    (∀ l : List α, l.Perm S → Ascending key l → leader better l = some w) ↔
      SureLeader key better S w := by
  constructor
  · intro h
    have hw : w ∈ S := by
      obtain ⟨l, hl, hasc⟩ := exists_ascending key S
      exact hl.mem_iff.1 (leader_mem (h l hl hasc))
    -- what electing `w` says about an order that puts the lower elements first
    have hbeats : ∀ low : List α, low.Perm (S.filter fun x => decide (key x < key w)) →
        Ascending key low → (∀ r, leader better low = some r → better w r) ∧
          ∀ x ∈ S, x ≠ w → key w ≤ key x → better x w = false := by
      intro low hlow hasc
      obtain ⟨rest, hperm, hsorted, hrest⟩ := exists_ascending_around hw hlow hasc
      have hnodup : (w :: (low ++ rest)).Nodup :=
        (hperm.symm.trans perm_middle).nodup hnd
      have hnot := (nodup_cons.1 hnodup).1
      rw [mem_append, not_or] at hnot
      obtain ⟨h₁, h₂⟩ := beats_of_leader hnot.1 hnot.2 (h _ hperm hsorted)
      exact ⟨h₁, fun x hx hne hle => h₂ x (hrest x hx hne hle)⟩
    refine ⟨hw, fun x hx hne hle => ?_, fun r hr => ?_⟩
    · obtain ⟨low, hlow, hasc⟩ := exists_ascending key (S.filter fun x => decide (key x < key w))
      rw [hbetter w hw x hx hne.symm, (hbeats low hlow hasc).2 x hx hne hle, Bool.not_false]
    · obtain ⟨low, hlow, hasc, hlead⟩ := hr
      exact (hbeats low hlow hasc).1 r hlead
  · intro h l hl hasc
    obtain ⟨pre, post, rfl⟩ := append_of_mem (hl.mem_iff.2 h.mem)
    have hnodup := (hl.symm.trans perm_middle).nodup hnd
    have hnot := (nodup_cons.1 hnodup).1
    rw [mem_append, not_or] at hnot
    have hmem : ∀ x, x ∈ pre ∨ x ∈ post → x ∈ S := fun x hx =>
      hl.mem_iff.1 (by rcases hx with hx | hx <;> simp [hx])
    unfold Ascending at hasc
    rw [pairwise_append, pairwise_cons] at hasc
    obtain ⟨hpre, ⟨hpost, -⟩, -⟩ := hasc
    apply leader_of_beats
    · intro r hr
      rcases Ascending.leader_cases hpre (key w) hr with hlow | ⟨hr, hle⟩
      · -- `r` leads the elements below `w`, all of which stand before `w`
        refine h.lower r ⟨_, ?_, hpre.filter _, hlow⟩
        have hperm := hl.filter fun x => decide (key x < key w)
        have hnil : (w :: post).filter (fun x => decide (key x < key w)) = [] := by
          rw [filter_eq_nil_iff]
          intro x hx
          rcases mem_cons.1 hx with rfl | hx
          · simp
          · simpa using hpost x hx
        rwa [filter_append, hnil, append_nil] at hperm
      · exact h.upper r (hmem r (.inl hr)) (fun heq => hnot.1 (heq ▸ hr)) hle
    · intro x hx
      have hne : x ≠ w := fun heq => hnot.2 (heq ▸ hx)
      rw [hbetter x (hmem x (.inr hx)) w h.mem hne,
        h.upper x (hmem x (.inr hx)) hne (hpost x hx), Bool.not_true]

end

end Ze.Lib
