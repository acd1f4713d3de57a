import Ze.Lib.Election

/-!
# The first elements of a list in key order

A list in ascending order of a key is cut after its first `n` elements. Elements with one key may
stand in any order, so the cut can take different elements of a key.
-/

namespace Ze.Lib

open List

variable {α β : Type*} [LinearOrder β] {key : α → β} {l m S : List α} {x : α} {n : ℕ}

def countBelow (key : α → β) (S : List α) (k : β) : ℕ := S.countP fun y => decide (key y < k)

/-- How many elements have a key that is not greater. -/
def countUpTo (key : α → β) (S : List α) (k : β) : ℕ := S.countP fun y => decide (key y ≤ k)

/-- The first `n` elements in key order take all elements of each key, or none. -/
def Quota (key : α → β) (S : List α) (n : ℕ) : Prop :=
  ∀ x ∈ S, countUpTo key S (key x) ≤ n ∨ n ≤ countBelow key S (key x)

lemma Ascending.split_le (h : Ascending key l) (k : β) :
    l = l.filter (fun x => decide (key x ≤ k)) ++ l.filter (fun x => !decide (key x ≤ k)) := by
  induction l with
  | nil => rfl
  | cons x xs ih =>
    unfold Ascending at h
    rw [pairwise_cons] at h
    by_cases hx : key x ≤ k
    · rw [filter_cons_of_pos (by simpa using hx), filter_cons_of_neg (by simpa using hx),
        cons_append, ← ih h.2]
    · have hall : ∀ y ∈ x :: xs, ¬ key y ≤ k := by
        intro y hy
        rcases mem_cons.1 hy with rfl | hy
        · exact hx
        · exact fun hle => hx (le_trans (h.1 y hy) hle)
      rw [filter_eq_nil_iff.2 fun y hy => by simpa using hall y hy, nil_append,
        filter_eq_self.2 fun y hy => by simpa using hall y hy]

lemma mem_take_of_countUpTo (hm : m.Perm S) (hasc : Ascending key m) (hx : x ∈ S)
    (hn : countUpTo key S (key x) ≤ n) : x ∈ m.take n := by
  have hlen : (m.filter fun y => decide (key y ≤ key x)).length ≤ n := by
    rw [← countP_eq_length_filter, hm.countP_eq]
    exact hn
  have hmem : x ∈ m.filter fun y => decide (key y ≤ key x) :=
    mem_filter.2 ⟨hm.mem_iff.2 hx, by simp⟩
  rw [hasc.split_le (key x), take_append, take_of_length_le hlen]
  exact mem_append_left _ hmem

lemma notMem_take_of_countBelow (hm : m.Perm S) (hasc : Ascending key m)
    (hn : n ≤ countBelow key S (key x)) : x ∉ m.take n := by
  have hlen : n ≤ (m.filter fun y => decide (key y < key x)).length := by
    rw [← countP_eq_length_filter, hm.countP_eq]
    exact hn
  rw [hasc.split (key x), take_append_of_le_length hlen]
  intro hmem
  have hlt := (mem_filter.1 (mem_of_mem_take hmem)).2
  rw [decide_eq_true_eq] at hlt
  exact lt_irrefl _ hlt

lemma Quota.mem_take_iff (h : Quota key S n) (hm : m.Perm S) (hasc : Ascending key m) :
    x ∈ m.take n ↔ x ∈ S ∧ countUpTo key S (key x) ≤ n := by
  constructor
  · intro hx
    have hS := hm.mem_iff.1 (mem_of_mem_take hx)
    refine ⟨hS, (h x hS).resolve_right fun hn => ?_⟩
    exact notMem_take_of_countBelow hm hasc hn hx
  · rintro ⟨hS, hn⟩
    exact mem_take_of_countUpTo hm hasc hS hn

lemma key_eq_of_getElem? {z : α} (hm : m.Perm S) (hasc : Ascending key m) {k : β}
    (hlow : countBelow key S k < n) (hup : n < countUpTo key S k) (hz : m[n]? = some z) :
    key z = k := by
  have hbelow : (m.filter fun y => decide (key y < k)).length ≤ n := by
    rw [← countP_eq_length_filter, hm.countP_eq]
    exact hlow.le
  have hupto : n < (m.filter fun y => decide (key y ≤ k)).length := by
    rw [← countP_eq_length_filter, hm.countP_eq]
    exact hup
  apply le_antisymm
  · rw [hasc.split_le k, getElem?_append_left hupto] at hz
    simpa using (mem_filter.1 (mem_of_getElem? hz)).2
  · rw [hasc.split k, getElem?_append_right hbelow] at hz
    simpa using (mem_filter.1 (mem_of_getElem? hz)).2

/-- **Theorem.** Every ascending order of a list gives the same first `n` elements exactly when the
cut splits no key. -/
lemma take_eq_iff_quota [DecidableEq α] (hS : S.Nodup) (hm : m.Perm S) (hasc : Ascending key m) :
    (∀ m' : List α, m'.Perm S → Ascending key m' → ∀ x, x ∈ m'.take n ↔ x ∈ m.take n) ↔
      Quota key S n := by
  constructor
  · intro hsame x hx
    by_contra hsplit
    rw [not_or, not_le, not_le] at hsplit
    have hlen : n < m.length := by
      rw [hm.length_eq]
      exact lt_of_lt_of_le hsplit.1 countP_le_length
    -- the element at the cut is not taken, but first of its key it would be
    set z := m.get ⟨n, hlen⟩ with hz
    have hget : m[n]? = some z := getElem?_eq_getElem hlen
    have hzS : z ∈ S := hm.mem_iff.1 (get_mem _ _)
    have hkey : key z = key x := key_eq_of_getElem? hm hasc hsplit.2 hsplit.1 hget
    have hnot : z ∉ m.take n := by
      have hnodup := hm.nodup_iff.2 hS
      rw [← take_append_drop n m, nodup_append] at hnodup
      intro hmem
      refine hnodup.2.2 z hmem z ?_ rfl
      rw [drop_eq_getElem_cons hlen]
      exact mem_cons_self
    obtain ⟨low, hlow, hlowasc⟩ := exists_ascending key (S.filter fun y => decide (key y < key z))
    obtain ⟨rest, hperm, hasc', -⟩ := exists_ascending_around hzS hlow hlowasc
    apply hnot
    rw [← hsame _ hperm hasc']
    have hlt : low.length < n := by
      rw [hlow.length_eq, ← countP_eq_length_filter, hkey]
      exact hsplit.2
    rw [take_append, take_of_length_le hlt.le]
    refine mem_append_right _ ?_
    obtain ⟨d, hd⟩ : ∃ d, n - low.length = d + 1 := ⟨n - low.length - 1, by omega⟩
    rw [hd, take_succ_cons]
    exact mem_cons_self
  · intro h m' hm' hasc' x
    rw [h.mem_take_iff hm' hasc', h.mem_take_iff hm hasc]

end Ze.Lib
