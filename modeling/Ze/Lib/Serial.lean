import Mathlib.Tactic.Ring

/-!
# Serial numbers

A counter that is sent modulo `n` is compared by the distance from one number forward to another,
taken modulo `n`. `Before` calls a number earlier when that distance is positive and less than half
of the range.
-/

namespace Ze.Lib.Serial

variable {n a b : ℕ}

/-- How far `b` is ahead of `a` on the circle of `n` numbers. -/
def dist (n a b : ℕ) : ℕ :=
  (b + (n - a % n)) % n

/-- `a` comes before `b`: `b` is ahead of it, by less than half of the circle. -/
def Before (n a b : ℕ) : Prop :=
  0 < dist n a b ∧ 2 * dist n a b < n

lemma dist_of_le (hn : 0 < n) (hab : a ≤ b) (h : b - a < n) : dist n a b = b - a := by
  have hdiv := Nat.div_add_mod a n
  have hmod := Nat.mod_lt a hn
  have hsum : b + (n - a % n) = (b - a) + n * (a / n + 1) := by
    rw [Nat.mul_add, Nat.mul_one]
    omega
  unfold dist
  rw [hsum, Nat.add_mul_mod_self_left, Nat.mod_eq_of_lt h]

lemma dist_of_lt (hba : b < a) (h : a - b ≤ n) : dist n a b = n - (a - b) := by
  have hdiv := Nat.div_add_mod a n
  have hmod := Nat.mod_lt a (by omega : 0 < n)
  have hsum : b + (n - a % n) = (n - (a - b)) + n * (a / n) := by omega
  unfold dist
  rw [hsum, Nat.add_mul_mod_self_left, Nat.mod_eq_of_lt (by omega)]

/-- A smaller counter less than half a range back comes before. -/
lemma before_of_lt (hab : a < b) (h : 2 * (b - a) < n) : Before n a b := by
  unfold Before
  rw [dist_of_le (by omega) hab.le (by omega)]
  omega

lemma not_before_of_le (hba : b ≤ a) (h : 2 * (a - b) ≤ n) : ¬ Before n a b := by
  rintro ⟨hpos, hhalf⟩
  rcases hba.eq_or_lt with rfl | hlt
  · rw [dist_of_le (by omega) le_rfl (by omega)] at hpos
    omega
  · rw [dist_of_lt hlt (by omega)] at hhalf
    omega

lemma eq_of_dist_eq_zero (hab : a ≤ b) (h : b - a < n) (hd : dist n a b = 0) : a = b := by
  rw [dist_of_le (by omega) hab h] at hd
  omega

end Ze.Lib.Serial
