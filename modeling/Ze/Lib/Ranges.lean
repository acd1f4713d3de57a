import Mathlib.Algebra.Order.Ring.Int
import Mathlib.Data.List.Basic

/-!
# Ranges of a list that is sent in pieces

A list in increasing order is cut into pieces of `n` elements, and piece `k` is said to describe a
range: from its first element to its last one, the first piece from the bottom and the last piece to
the top (`InRange`). `rank` is the number of elements below a point.
-/

namespace Ze.Lib

open List

variable {I : Type} [LinearOrder I] {l : List I}

def rank (l : List I) (x : I) : ℕ := l.countP (· < x)

lemma lt_iff_lt_rank (hl : l.Pairwise (· < ·)) {i : ℕ} {a x : I} (ha : l[i]? = some a) :
    a < x ↔ i < rank l x := by
  induction l generalizing i with
  | nil => simp at ha
  | cons b l ih =>
    rw [pairwise_cons] at hl
    unfold rank
    by_cases hb : b < x
    · rw [countP_cons_of_pos (by simpa using hb)]
      cases i with
      | zero =>
        simp only [getElem?_cons_zero] at ha
        cases ha
        exact ⟨fun _ => Nat.succ_pos _, fun _ => hb⟩
      | succ i =>
        rw [getElem?_cons_succ] at ha
        rw [ih hl.2 ha]
        exact Nat.succ_lt_succ_iff.symm
    · have hzero : (b :: l).countP (· < x) = 0 := by
        rw [countP_eq_zero]
        intro c hc
        rcases mem_cons.1 hc with rfl | hc
        · simpa using hb
        · simpa using le_trans (not_lt.1 hb) (hl.1 c hc).le
      rw [hzero]
      have hba : b ≤ a := by
        rcases mem_cons.1 (mem_of_getElem? ha) with rfl | hmem
        · exact le_refl _
        · exact (hl.1 a hmem).le
      exact ⟨fun hax => absurd (lt_of_le_of_lt hba hax) hb, fun h => absurd h (Nat.not_lt_zero _)⟩

lemma lt_of_getElem? (hl : l.Pairwise (· < ·)) {i j : ℕ} {a b : I} (hij : i < j)
    (ha : l[i]? = some a) (hb : l[j]? = some b) : a < b := by
  obtain ⟨hi, rfl⟩ := List.getElem?_eq_some_iff.mp ha
  obtain ⟨hj, rfl⟩ := List.getElem?_eq_some_iff.1 hb
  exact pairwise_iff_getElem.1 hl i j hi hj hij

lemma rank_of_getElem? (hl : l.Pairwise (· < ·)) {i : ℕ} {a : I} (ha : l[i]? = some a) :
    rank l a = i := by
  have hnot : ¬ i < rank l a := fun h => lt_irrefl a ((lt_iff_lt_rank hl ha).2 h)
  rcases Nat.lt_or_ge (rank l a) i with hlt | hge
  · have hi := (List.getElem?_eq_some_iff.mp ha).1
    obtain ⟨b, hb⟩ : ∃ b, l[rank l a]? = some b :=
      ⟨_, getElem?_eq_getElem (Nat.lt_trans hlt hi)⟩
    have hba := lt_of_getElem? hl hlt hb ha
    exact absurd ((lt_iff_lt_rank hl hb).1 hba) (lt_irrefl _)
  · omega

/-! ## The range of a piece -/

/-- A point is in the range that piece `k` describes. -/
def InRange (n : ℕ) (l : List I) (k : ℕ) (x : I) : Prop :=
  (k = 0 ∨ ∃ a, l[k * n]? = some a ∧ a ≤ x) ∧
    (l.length ≤ (k + 1) * n ∨ ∃ b, l[(k + 1) * n - 1]? = some b ∧ x ≤ b)

section

variable {n k : ℕ} {x : I}

lemma exists_le_iff (hl : l.Pairwise (· < ·)) {i : ℕ} (hi : i < l.length) (hx : x ∉ l) :
    (∃ a, l[i]? = some a ∧ a ≤ x) ↔ i < rank l x := by
  obtain ⟨a, ha⟩ : ∃ a, l[i]? = some a := ⟨_, getElem?_eq_getElem hi⟩
  rw [← lt_iff_lt_rank hl ha]
  have hne : a ≠ x := by
    rintro rfl
    exact hx (mem_of_getElem? ha)
  constructor
  · rintro ⟨b, hb, hbx⟩
    rw [ha, Option.some.injEq] at hb
    exact lt_of_le_of_ne (hb ▸ hbx) hne
  · intro h
    exact ⟨a, ha, h.le⟩

lemma exists_ge_iff (hl : l.Pairwise (· < ·)) {i : ℕ} (hi : i < l.length) :
    (∃ b, l[i]? = some b ∧ x ≤ b) ↔ rank l x ≤ i := by
  obtain ⟨b, hb⟩ : ∃ b, l[i]? = some b := ⟨_, getElem?_eq_getElem hi⟩
  have hiff := not_congr (lt_iff_lt_rank (x := x) hl hb)
  rw [not_lt, not_lt] at hiff
  constructor
  · rintro ⟨c, hc, hxc⟩
    rw [hb, Option.some.injEq] at hc
    exact hiff.1 (hc ▸ hxc)
  · intro h
    exact ⟨b, hb, hiff.2 h⟩

lemma inRange_iff_rank (hn : 0 < n) (hl : l.Pairwise (· < ·)) (hk : k * n < l.length) (hx : x ∉ l) :
    InRange n l k x ↔ (k = 0 ∨ k * n < rank l x) ∧
      (l.length ≤ (k + 1) * n ∨ rank l x < (k + 1) * n) := by
  have hpos : 0 < (k + 1) * n := Nat.mul_pos (Nat.succ_pos k) hn
  unfold InRange
  rw [exists_le_iff hl hk hx]
  refine and_congr_right fun _ => ?_
  rcases Nat.lt_or_ge ((k + 1) * n - 1) l.length with hlt | hge
  · rw [exists_ge_iff hl hlt]
    refine or_congr_right ⟨fun h => ?_, fun h => ?_⟩ <;> omega
  · refine ⟨fun _ => .inl ?_, fun _ => .inl ?_⟩ <;> omega

/-- An element is in the range of its own piece and of no other. -/
lemma inRange_iff_of_mem (hn : 0 < n) (hl : l.Pairwise (· < ·)) (hk : k * n < l.length) {i : ℕ}
    (hi : l[i]? = some x) : InRange n l k x ↔ k = i / n := by
  have hlen := (List.getElem?_eq_some_iff.mp hi).1
  have hrank := rank_of_getElem? hl hi
  have hlow : (∃ a, l[k * n]? = some a ∧ a ≤ x) ↔ k * n ≤ i := by
    obtain ⟨a, ha⟩ : ∃ a, l[k * n]? = some a := ⟨_, getElem?_eq_getElem hk⟩
    constructor
    · rintro ⟨b, hb, hbx⟩
      by_contra hlt
      exact absurd (lt_of_getElem? hl (not_le.mp hlt) hi hb) (not_lt.mpr hbx)
    · intro h
      refine ⟨a, ha, ?_⟩
      by_contra hlt
      have hrk := (lt_iff_lt_rank hl hi).mp (not_le.mp hlt)
      rw [rank_of_getElem? hl ha] at hrk
      omega
  have hhigh : (l.length ≤ (k + 1) * n ∨ ∃ b, l[(k + 1) * n - 1]? = some b ∧ x ≤ b) ↔
      i < (k + 1) * n := by
    have hpos : 0 < (k + 1) * n := Nat.mul_pos (Nat.succ_pos k) hn
    rcases Nat.lt_or_ge ((k + 1) * n - 1) l.length with hlt | hge
    · rw [exists_ge_iff hl hlt, hrank]
      constructor <;> intro h <;> omega
    · refine ⟨fun _ => by omega, fun _ => .inl (by omega)⟩
  unfold InRange
  rw [hlow, hhigh]
  have hdiv : k = i / n ↔ k * n ≤ i ∧ i < (k + 1) * n := by
    rw [eq_comm, Nat.div_eq_iff hn]
    have hsucc : (k + 1) * n = k * n + n := Nat.succ_mul k n
    rw [hsucc]
    omega
  rw [hdiv]
  refine and_congr_left fun _ => ⟨fun h => ?_, .inr⟩
  rcases h with rfl | h
  · simp
  · exact h

/-- A point that is no element is in some range, unless it lies between two pieces. -/
lemma exists_inRange_iff (hn : 0 < n) (hl : l.Pairwise (· < ·)) (hne : l ≠ []) (hx : x ∉ l) :
    (∃ k, k * n < l.length ∧ InRange n l k x) ↔
      ¬ (0 < rank l x ∧ rank l x < l.length ∧ n ∣ rank l x) := by
  have hlen : 0 < l.length := length_pos_of_ne_nil hne
  constructor
  · rintro ⟨k, hk, hin⟩ ⟨hpos, hlt, q, hq⟩
    rw [inRange_iff_rank hn hl hk hx, hq] at hin
    rw [hq] at hlt hpos
    obtain ⟨hlow, hhigh⟩ := hin
    have hkq : k < q := by
      rcases hlow with rfl | hlow
      · exact Nat.pos_of_mul_pos_left hpos
      · rw [Nat.mul_comm n q] at hlow
        exact Nat.lt_of_mul_lt_mul_right hlow
    have hup : (k + 1) * n ≤ n * q := by
      rw [Nat.mul_comm n q]
      exact Nat.mul_le_mul_right n hkq
    omega
  · intro hnot
    rcases Nat.lt_or_ge (rank l x) l.length with hlt | hge
    · -- the piece that holds the next element above the point
      have hk : rank l x / n * n ≤ rank l x := Nat.div_mul_le_self _ _
      have hup : rank l x < (rank l x / n + 1) * n :=
        (Nat.div_lt_iff_lt_mul hn).1 (Nat.lt_succ_self _)
      refine ⟨rank l x / n, by omega, (inRange_iff_rank hn hl (by omega) hx).2 ⟨?_, .inr hup⟩⟩
      rcases Nat.eq_zero_or_pos (rank l x) with hzero | hpos
      · exact .inl (by rw [hzero, Nat.zero_div])
      · refine .inr (lt_of_le_of_ne hk fun heq => hnot ⟨hpos, hlt, ?_⟩)
        exact ⟨rank l x / n, by rw [Nat.mul_comm]; exact heq.symm⟩
    · -- the last piece
      have hk : (l.length - 1) / n * n ≤ l.length - 1 := Nat.div_mul_le_self _ _
      have hup : l.length - 1 < ((l.length - 1) / n + 1) * n :=
        (Nat.div_lt_iff_lt_mul hn).1 (Nat.lt_succ_self _)
      refine ⟨(l.length - 1) / n, by omega,
        (inRange_iff_rank hn hl (by omega) hx).2 ⟨.inr ?_, .inl ?_⟩⟩ <;> omega

end

end Ze.Lib
