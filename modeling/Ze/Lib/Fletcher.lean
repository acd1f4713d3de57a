import Mathlib.Algebra.BigOperators.Group.List.Basic
import Mathlib.Tactic.Ring

/-!
# Fletcher sums

Two sums of a list over a commutative ring: the plain one, and the one in which an element counts
once for every element from it to the end. A loop that adds each element to a first accumulator and
that to a second one computes both (`foldl_fletcher`). Two neighbouring elements can be chosen so
that both sums vanish, whatever the others are (`sum_check`, `weightedSum_check`).
-/

namespace Ze.Lib

open List

variable {R : Type*} [CommRing R]

/-- The sum in which an element has the number of elements from it to the end as its weight. -/
def weightedSum : List R → R
  | [] => 0
  | b :: l => (l.length + 1) * b + weightedSum l

lemma foldl_fletcher (l : List R) (c : R × R) :
    l.foldl (fun c b => (c.1 + b, c.2 + (c.1 + b))) c =
      (c.1 + l.sum, c.2 + l.length * c.1 + weightedSum l) := by
  induction l generalizing c with
  | nil => simp [weightedSum]
  | cons b l ih =>
    rw [foldl_cons, ih, sum_cons, weightedSum, length_cons]
    refine Prod.ext ?_ ?_
    · dsimp only
      ring
    · dsimp only
      push_cast
      ring

lemma sum_set {l : List R} {i : ℕ} (hi : i < l.length) (v : R) :
    (l.set i v).sum = l.sum + (v - l[i]) := by
  rw [sum_set', dif_pos hi]
  ring

lemma weightedSum_set {l : List R} {i : ℕ} (hi : i < l.length) (v : R) :
    weightedSum (l.set i v) = weightedSum l + (l.length - i) * (v - l[i]) := by
  induction l generalizing i with
  | nil => simp at hi
  | cons b l ih =>
    rcases i with _ | i
    · simp only [set_cons_zero, weightedSum, length_cons, getElem_cons_zero]
      push_cast
      ring
    · rw [length_cons, Nat.add_lt_add_iff_right] at hi
      simp only [set_cons_succ, weightedSum, length_cons, getElem_cons_succ, length_set, ih hi]
      push_cast
      ring

section

variable {l : List R} {i : ℕ} (hi : i + 1 < l.length) (hi' : i < l.length) (hzero : l[i] = 0)
  (hzero' : l[i + 1] = 0) {x y : R} (hx : x = (l.length - i - 1) * l.sum - weightedSum l)
  (hy : y = weightedSum l - (l.length - i) * l.sum)
include hi hzero hzero' hx hy

lemma sum_check : ((l.set i x).set (i + 1) y).sum = 0 := by
  rw [sum_set (by simpa using hi), sum_set (by omega), getElem_set_ne (by omega), hzero,
    hzero', hx, hy]
  ring

lemma weightedSum_check : weightedSum ((l.set i x).set (i + 1) y) = 0 := by
  rw [weightedSum_set (by simpa using hi), weightedSum_set (by omega),
    getElem_set_ne (by omega), hzero, hzero', hx, hy, length_set]
  push_cast
  ring

end

end Ze.Lib
