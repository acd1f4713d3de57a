import Mathlib.Data.List.Basic
import Mathlib.Algebra.Order.Group.Nat

/-!
# Numerals of a fixed width

`digits base width n` is a number in `width` places, most significant first, and `value` reads a
list of digits back. `value_digits` is the round trip for a number that fits its width;
`le_foldl_shift` bounds what a loop over the digits has read so far by what it ends with.
-/

namespace Ze.Lib.Numeral

open List

/-- A number in `width` places, most significant first. -/
def digits (base : ℕ) : ℕ → ℕ → List ℕ
  | 0, _ => []
  | width + 1, n => digits base width (n / base) ++ [n % base]

def shift (base v d : ℕ) : ℕ := v * base + d

def value (base : ℕ) (ds : List ℕ) : ℕ := ds.foldl (shift base) 0

variable {base : ℕ}

@[simp] lemma length_digits (width n : ℕ) : (digits base width n).length = width := by
  induction width generalizing n with
  | zero => rfl
  | succ width ih => rw [digits, length_append, ih, length_singleton]

lemma lt_of_mem_digits (hbase : 0 < base) {width n d : ℕ} (h : d ∈ digits base width n) :
    d < base := by
  induction width generalizing n with
  | zero => cases h
  | succ width ih =>
    rw [digits, mem_append, mem_singleton] at h
    rcases h with h | rfl
    · exact ih h
    · exact Nat.mod_lt _ hbase

/-- A number that fits its width is read back. -/
lemma value_digits {width n : ℕ} (h : n < base ^ width) : value base (digits base width n) = n := by
  induction width generalizing n with
  | zero =>
    rw [Nat.pow_zero, Nat.lt_one_iff] at h
    rw [h]
    rfl
  | succ width ih =>
    have hdiv : n / base < base ^ width := by
      apply Nat.div_lt_of_lt_mul
      rwa [Nat.mul_comm, ← Nat.pow_succ]
    rw [digits, value, foldl_append]
    change shift base (value base (digits base width (n / base))) (n % base) = n
    rw [ih hdiv, shift, Nat.mul_comm]
    exact Nat.div_add_mod n base

lemma le_foldl_shift (hbase : 0 < base) (ds : List ℕ) (v : ℕ) : v ≤ ds.foldl (shift base) v := by
  induction ds generalizing v with
  | nil => exact Nat.le_refl v
  | cons d ds ih =>
    refine Nat.le_trans ?_ (ih _)
    rw [shift]
    exact Nat.le_trans (Nat.le_mul_of_pos_right v hbase) (Nat.le_add_right _ _)

end Ze.Lib.Numeral
