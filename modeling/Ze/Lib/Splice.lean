import Mathlib.Data.List.TakeDrop

/-!
# Copying into a slice

`splice dst pos src` is `dst` after `src` was copied into it from position `pos` on: what does not
fit is lost, and `dst` keeps its length. `window mem base n` is the slice of so many elements.
-/

namespace Ze.Lib

open List

variable {α : Type*} {dst src : List α} {pos n : ℕ}

/-- `dst` after `src` was copied into it at `pos`. Source: Go, copy(dst[pos:], src). -/
def splice (dst : List α) (pos : ℕ) (src : List α) : List α :=
  dst.take pos ++ (src.take (dst.length - pos) ++ dst.drop (pos + src.length))

section

variable (h : pos + src.length ≤ dst.length)
include h

lemma splice_of_fits :
    splice dst pos src = dst.take pos ++ (src ++ dst.drop (pos + src.length)) := by
  have hsrc : src.take (dst.length - pos) = src := take_of_length_le (by omega)
  rw [splice, hsrc]

lemma length_splice : (splice dst pos src).length = dst.length := by
  rw [splice_of_fits h]
  simp only [length_append, length_take, length_drop]
  omega

lemma take_splice (hn : n ≤ pos) : (splice dst pos src).take n = dst.take n := by
  rw [splice_of_fits h, take_append_of_le_length (by rw [length_take]; omega),
    take_take, Nat.min_eq_left hn]

lemma take_splice_end : (splice dst pos src).take (pos + src.length) = dst.take pos ++ src := by
  have hlen : (dst.take pos ++ src).length = pos + src.length := by
    rw [length_append, length_take]
    omega
  rw [splice_of_fits h, ← append_assoc, ← hlen, take_left]

lemma drop_splice (hn : pos + src.length ≤ n) : (splice dst pos src).drop n = dst.drop n := by
  have hlen : (dst.take pos ++ src).length = pos + src.length := by
    rw [length_append, length_take]
    omega
  obtain ⟨k, rfl⟩ := Nat.exists_eq_add_of_le hn
  rw [splice_of_fits h, ← append_assoc, ← drop_drop, ← hlen, drop_left, drop_drop]

end

lemma splice_self {rest : List α} (h : dst.drop pos = src ++ rest) :
    dst.take pos ++ (src ++ dst.drop (pos + src.length)) = dst := by
  rw [← drop_drop, h, drop_left, ← h, take_append_drop]

/-! ## Windows -/

/-- The `n` elements from `base` on. Source: Go, mem[base:base+n]. -/
def window (mem : List α) (base n : ℕ) : List α := (mem.drop base).take n

lemma length_window {mem : List α} {base n : ℕ} (h : base + n ≤ mem.length) :
    (window mem base n).length = n := by
  rw [window, length_take, length_drop]
  omega

lemma drop_window (mem : List α) (base n k : ℕ) :
    (window mem base n).drop k = window mem (base + k) (n - k) := by
  rw [window, window, drop_take, drop_drop]

lemma window_splice_of_apart {base : ℕ} (h : pos + src.length ≤ dst.length)
    (hapart : base + n ≤ pos ∨ pos + src.length ≤ base) :
    window (splice dst pos src) base n = window dst base n := by
  rcases hapart with hbefore | hbehind
  · have htake := take_splice h hbefore
    have hdrop := congrArg (drop base) htake
    rw [drop_take, drop_take, Nat.add_sub_cancel_left] at hdrop
    exact hdrop
  · rw [window, drop_splice h hbehind]
    rfl

lemma window_splice (h : pos + src.length ≤ dst.length) :
    window (splice dst pos src) pos src.length = src := by
  have hlen : (dst.take pos).length = pos := by
    rw [length_take]
    omega
  have hdrop := congrArg (drop pos) (take_splice_end h)
  rw [drop_take, Nat.add_sub_cancel_left, drop_left' hlen] at hdrop
  exact hdrop

lemma splice_splice {src' : List α} (h : pos + src.length + src'.length ≤ dst.length) :
    splice (splice dst pos src) (pos + src.length) src' = splice dst pos (src ++ src') := by
  have hfirst : pos + src.length ≤ dst.length := by omega
  have hboth : pos + (src ++ src').length ≤ dst.length := by
    rw [length_append]
    omega
  have hsecond : pos + src.length + src'.length ≤ (splice dst pos src).length := by
    rw [length_splice hfirst]
    exact h
  rw [splice_of_fits hsecond, take_splice_end hfirst, drop_splice hfirst (by omega),
    splice_of_fits hboth, length_append, append_assoc, append_assoc, Nat.add_assoc]

lemma splice_last {front : List α} {x y : α} (d : α) (h : pos + front.length + 1 ≤ dst.length) :
    (splice dst pos (front ++ [x])).getD (pos + front.length) d = x ∧
      splice (splice dst pos (front ++ [x])) (pos + front.length) [y] =
        splice dst pos (front ++ [y]) := by
  have hfront : pos + front.length ≤ dst.length := by omega
  have hlen : (splice dst pos front).length = dst.length := length_splice hfront
  have hone : ∀ z : α, pos + front.length + [z].length ≤ (splice dst pos front).length := by
    intro z
    rw [hlen, length_singleton]
    exact h
  have htwo : ∀ z : α, splice (splice dst pos front) (pos + front.length) [z] =
      splice dst pos (front ++ [z]) := by
    intro z
    apply splice_splice
    rw [length_singleton]
    exact h
  have hpos : ((splice dst pos front).take (pos + front.length)).length = pos + front.length := by
    rw [length_take]
    omega
  rw [← htwo x, ← htwo y]
  constructor
  · rw [splice_of_fits (hone x), getD_eq_getElem?_getD,
      getElem?_append_right (by omega), hpos, Nat.sub_self]
    rfl
  · rw [splice_of_fits (hone x)]
    have hagain : pos + front.length + [y].length ≤ ((splice dst pos front).take
        (pos + front.length) ++ ([x] ++ (splice dst pos front).drop
          (pos + front.length + [x].length))).length := by
      rw [← splice_of_fits (hone x), length_splice (hone x)]
      exact hone y
    rw [splice_of_fits hagain, splice_of_fits (hone y), take_append_of_le_length (by omega),
      take_take, Nat.min_self]
    have hdrop : ∀ z : α, ((splice dst pos front).take (pos + front.length) ++ ([x] ++
        (splice dst pos front).drop (pos + front.length + [x].length))).drop
          (pos + front.length + [z].length) =
        (splice dst pos front).drop (pos + front.length + [z].length) := by
      intro z
      rw [← drop_drop, drop_left' hpos]
      rfl
    rw [hdrop y]

lemma modify_append_cons (xs ys : List α) (y : α) (f : α → α) :
    (xs ++ y :: ys).modify xs.length f = xs ++ f y :: ys := by
  induction xs with
  | nil => rfl
  | cons x xs ih =>
    rw [cons_append, length_cons, modify_succ_cons, ih, cons_append]

end Ze.Lib
