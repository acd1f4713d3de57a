import Mathlib.Data.List.Perm.Basic

/-!
# Moving the kept elements of a range to the front

`retainRange p n i r l` is the in-place loop that walks over the `n` elements from index `i` and
swaps every element that passes `p` to the end of the first `r` elements. `retainRange_eq` reads it
as a filter that moves what was dropped behind in some order.

`chosen p l` keeps the elements that pass a test against the whole list, as an elimination round
does.
-/

namespace Ze.Lib

open List

variable {α : Type*}

def swap (l : List α) (i j : ℕ) : List α :=
  match l[i]?, l[j]? with
  | some x, some y => (l.set i y).set j x
  | _, _ => l

/-- One pass over `n` elements from `i`, with `r` elements kept so far: the slice and the number of
kept elements. -/
def retainRange (p : α → Bool) : ℕ → ℕ → ℕ → List α → List α × ℕ
  | 0, _, r, l => (l, r)
  | n + 1, i, r, l =>
    match l[i]? with
    | none => (l, r)
    | some x =>
      if p x then retainRange p n (i + 1) (r + 1) (swap l r i)
      else retainRange p n (i + 1) r l

lemma swap_self (l : List α) (i : ℕ) : swap l i i = l := by
  unfold swap
  rcases h : l[i]? with _ | x
  · rfl
  · show (l.set i x).set i x = l
    obtain ⟨hlt, heq⟩ := List.getElem?_eq_some_iff.mp h
    rw [set_set, ← heq]
    exact set_getElem_self hlt

lemma swap_middle (kept ds rest : List α) (d x : α) :
    swap (kept ++ (d :: ds) ++ x :: rest) kept.length (kept.length + (ds.length + 1)) =
      kept ++ [x] ++ (ds ++ [d]) ++ rest := by
  have hfirst : (kept ++ (d :: ds) ++ x :: rest)[kept.length]? = some d := by
    simp
  have hsecond : (kept ++ (d :: ds) ++ x :: rest)[kept.length + (ds.length + 1)]? = some x := by
    rw [append_assoc, getElem?_append_right (by omega), Nat.add_sub_cancel_left]
    simp
  unfold swap
  rw [hfirst, hsecond]
  simp only [append_assoc, cons_append, set_append_right _ _ (Nat.le_refl _),
    Nat.sub_self, set_cons_zero]
  rw [set_append_right _ _ (by omega), Nat.add_sub_cancel_left, set_cons_succ,
    set_append_right _ _ (Nat.le_refl _), Nat.sub_self]
  simp

/-- The pass over a range, as a filter. -/
lemma retainRange_eq (p : α → Bool) (range kept dropped rest : List α) :
    ∃ dropped' : List α, dropped'.Perm (dropped ++ range.filter fun x => !p x) ∧
      retainRange p range.length (kept.length + dropped.length) kept.length
          (kept ++ dropped ++ (range ++ rest)) =
        (kept ++ range.filter p ++ dropped' ++ rest, (kept ++ range.filter p).length) := by
  induction range generalizing kept dropped with
  | nil => exact ⟨dropped, by simp, by simp [retainRange]⟩
  | cons x xs ih =>
    have hx : (kept ++ dropped ++ (x :: xs ++ rest))[kept.length + dropped.length]? = some x := by
      rw [getElem?_append_right (by simp), length_append, Nat.sub_self]
      rfl
    simp only [length_cons, retainRange, hx]
    by_cases hp : p x
    · rw [if_pos hp, filter_cons_of_pos hp, filter_cons_of_neg (by simp [hp])]
      rcases dropped with _ | ⟨d, ds⟩
      · -- nothing was dropped yet: the element is exchanged with itself
        obtain ⟨dropped', hperm, heq⟩ := ih (kept ++ [x]) []
        refine ⟨dropped', hperm, ?_⟩
        simp only [length_append, length_cons, length_nil, Nat.zero_add,
          Nat.add_zero, append_nil, append_assoc, cons_append, nil_append] at heq ⊢
        rw [swap_self, heq]
      · obtain ⟨dropped', hperm, heq⟩ := ih (kept ++ [x]) (ds ++ [d])
        refine ⟨dropped', hperm.trans ?_, ?_⟩
        · exact (perm_append_singleton d ds).append_right _
        · rw [cons_append, length_cons, swap_middle]
          simp only [length_append, length_cons, length_nil, Nat.zero_add,
            append_assoc, cons_append, nil_append] at heq ⊢
          rw [← heq]
          congr 1
          omega
    · rw [if_neg hp, filter_cons_of_neg hp, filter_cons_of_pos (by simp [hp])]
      obtain ⟨dropped', hperm, heq⟩ := ih kept (dropped ++ [x])
      refine ⟨dropped', ?_, ?_⟩
      · rwa [append_assoc, singleton_append] at hperm
      · simp only [length_append, length_cons, length_nil, Nat.zero_add,
          append_assoc, cons_append, nil_append, Nat.add_assoc] at heq ⊢
        exact heq

lemma swap_map {β : Type*} (f : α → β) (l : List α) (i j : ℕ) :
    swap (l.map f) i j = (swap l i j).map f := by
  unfold swap
  rw [getElem?_map, getElem?_map]
  rcases l[i]? with _ | x
  · rfl
  · rcases l[j]? with _ | y
    · rfl
    · simp only [Option.map_some, map_set]

lemma retainRange_map {β : Type*} (f : α → β) (p : β → Bool) (n i r : ℕ) (l : List α) :
    retainRange p n i r (l.map f) =
      ((retainRange (fun x => p (f x)) n i r l).1.map f,
        (retainRange (fun x => p (f x)) n i r l).2) := by
  induction n generalizing i r l with
  | zero => rfl
  | succ n ih =>
    rw [retainRange, retainRange, getElem?_map]
    rcases l[i]? with _ | x
    · rfl
    · simp only [Option.map_some]
      by_cases hx : p (f x)
      · rw [if_pos hx, if_pos hx, swap_map, ih]
      · rw [if_neg hx, if_neg hx, ih]

/-! ## Tests against the whole list -/

/-- The elements that pass `p` against every element. -/
def chosen (p : α → α → Bool) (l : List α) : List α :=
  l.filter fun c => l.all (p c)

variable {p : α → α → Bool} {l l' m : List α}

lemma mem_chosen {c : α} : c ∈ chosen p l ↔ c ∈ l ∧ ∀ x ∈ l, p c x := by
  unfold chosen
  rw [mem_filter, all_eq_true]

lemma chosen_eq_filter (h : l'.Perm l) : chosen p l' = l'.filter fun c => l.all (p c) := by
  unfold chosen
  apply filter_congr
  intro c _
  rw [Bool.eq_iff_iff, all_eq_true, all_eq_true]
  exact forall_congr' fun x => by rw [h.mem_iff]

lemma chosen_perm (h : l'.Perm l) : (chosen p l').Perm (chosen p l) := by
  rw [chosen_eq_filter h]
  exact h.filter _

lemma exists_append_perm (hm : m.Perm (chosen p l)) : ∃ r : List α, (m ++ r).Perm l :=
  ⟨_, (hm.append_right _).trans (filter_append_perm (fun c => l.all (p c)) l)⟩

lemma chosen_eq_of_sublist (h : l'.Perm l) (hsub : m.Sublist l')
    (hm : m.Perm (chosen p l)) : chosen p l' = m := by
  have hall : m.filter (fun c => l.all (p c)) = m := by
    rw [filter_eq_self]
    intro c hc
    exact all_eq_true.2 (mem_chosen.1 (hm.mem_iff.1 hc)).2
  have hsub' : m.Sublist (chosen p l') := by
    rw [chosen_eq_filter h, ← hall]
    exact hsub.filter _
  exact (hsub'.eq_of_length (hm.trans (chosen_perm h).symm).length_eq).symm

end Ze.Lib
