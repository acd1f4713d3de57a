import Mathlib.Data.List.Nodup

/-!
# The first of the least elements of a list

A selection walks a list, skips what is not eligible, and keeps the first element of the least rank.
`FirstLeast` says what it ends with. Taking an element out by `SwapRemoved` may change it.
-/

namespace Ze.Lib

open List

variable {α : Type*} {ok : α → Prop} {rank : α → ℕ} {l l' : List α} {a x : α} {i b : ℕ}

/-- The element at an index is eligible, none that is eligible ranks below it, and those before it
rank above. -/
structure FirstLeast (ok : α → Prop) (rank : α → ℕ) (l : List α) (b : ℕ) (a : α) : Prop where
  get : l[b]? = some a
  eligible : ok a
  least : ∀ (j : ℕ) (x : α), l[j]? = some x → ok x → rank a ≤ rank x
  first : ∀ (j : ℕ) (x : α), l[j]? = some x → ok x → j < b → rank a < rank x

/-- A list without the element at `i`, whose place the last one has taken. -/
def SwapRemoved (l : List α) (i : ℕ) (l' : List α) : Prop :=
  ∀ j, l'[j]? = if j + 1 < l.length then if j = i then l[l.length - 1]? else l[j]? else none

lemma FirstLeast.unique {b' : ℕ} {a' : α} (h : FirstLeast ok rank l b a)
    (h' : FirstLeast ok rank l b' a') :
    b = b' ∧ a = a' := by
  have hb : b = b' := by
    rcases Nat.lt_trichotomy b b' with hlt | heq | hgt
    · have hup := h.least b' a' h'.get h'.eligible
      have hdown := h'.first b a h.get h.eligible hlt
      omega
    · exact heq
    · have hup := h'.least b a h.get h.eligible
      have hdown := h.first b' a' h'.get h'.eligible hgt
      omega
  refine ⟨hb, ?_⟩
  have hget := h.get
  rw [hb, h'.get] at hget
  exact (Option.some.inj hget).symm

lemma SwapRemoved.mem {j : ℕ} (hl : SwapRemoved l i l') (hx : l'[j]? = some x) :
    (j ≠ i ∧ l[j]? = some x ∧ j + 1 < l.length) ∨ (j = i ∧ l[l.length - 1]? = some x ∧
      i + 1 < l.length) := by
  rw [hl j] at hx
  split_ifs at hx with hlt hji
  · exact .inr ⟨hji, hx, hji ▸ hlt⟩
  · exact .inl ⟨hji, hx, hlt⟩

lemma SwapRemoved.map {β : Type*} (f : α → β) (hl : SwapRemoved l i l') :
    SwapRemoved (l.map f) i (l'.map f) := by
  intro j
  rw [getElem?_map, hl j, length_map, getElem?_map, getElem?_map]
  split_ifs <;> rfl

lemma SwapRemoved.nodup (hl : SwapRemoved l i l') (hd : l.Nodup) : l'.Nodup := by
  have hinj : ∀ (j k : ℕ) (x : α), l[j]? = some x → l[k]? = some x → j = k := by
    intro j k x hj hk
    obtain ⟨hjlt, hjx⟩ := List.getElem?_eq_some_iff.mp hj
    obtain ⟨hklt, hkx⟩ := List.getElem?_eq_some_iff.1 hk
    exact (hd.getElem_inj_iff).1 (hjx.trans hkx.symm)
  rw [nodup_iff_getElem?_ne_getElem?]
  intro j k hjk hk heq
  have hx := getElem?_eq_getElem hk
  rw [hx] at heq
  rcases hl.mem heq with ⟨hji, hj, hjlt⟩ | ⟨hji, hj, hjlt⟩
  · rcases hl.mem hx with ⟨-, hk', -⟩ | ⟨-, hk', -⟩
    · exact absurd (hinj j k _ hj hk') (Nat.ne_of_lt hjk)
    · have := hinj j _ _ hj hk'
      omega
  · rcases hl.mem hx with ⟨-, hk', hklt⟩ | ⟨hki, -⟩
    · have := hinj _ k _ hj hk'
      omega
    · omega

lemma FirstLeast.swapRemoved (h : FirstLeast ok rank l b a) (hl : SwapRemoved l i l')
    (hi : i < l.length) (hne : i ≠ b)
    (hkeep : ∀ z, i < b → b + 1 < l.length → l[l.length - 1]? = some z → ok z → rank z ≠ rank a) :
    ∃ b', FirstLeast ok rank l' b' a := by
  have hb : b < l.length := (List.getElem?_eq_some_iff.mp h.get).1
  have hleast : ∀ (j : ℕ) (x : α), l'[j]? = some x → ok x → rank a ≤ rank x := by
    intro j x hx hok
    rcases hl.mem hx with ⟨-, hx, -⟩ | ⟨-, hx, -⟩
    · exact h.least _ _ hx hok
    · exact h.least _ _ hx hok
  by_cases hlast : b + 1 < l.length
  · -- The element keeps its place.
    refine ⟨b, ?_, h.eligible, hleast, fun j x hx hok hj => ?_⟩
    · rw [hl b, if_pos hlast, if_neg (Ne.symm hne), h.get]
    · rcases hl.mem hx with ⟨-, hx, -⟩ | ⟨rfl, hx, -⟩
      · exact h.first j x hx hok hj
      · have hle := h.least _ _ hx hok
        have hrank := hkeep x hj hlast hx hok
        omega
  · -- It was the last one and moves to `i`.
    have hmoved : l.length - 1 = b := by omega
    refine ⟨i, ?_, h.eligible, hleast, fun j x hx hok hj => ?_⟩
    · rw [hl i, if_pos (by omega), if_pos rfl, hmoved, h.get]
    · rcases hl.mem hx with ⟨-, hx, -⟩ | ⟨rfl, -⟩
      · exact h.first j x hx hok (by omega)
      · omega

/-- An element that is as good as the first of the least moves in before it and takes its place. -/
lemma FirstLeast.displaced {z : α} (h : FirstLeast ok rank l b a) (hl : SwapRemoved l i l')
    (hlt : i < b) (hlast : b + 1 < l.length) (hz : l[l.length - 1]? = some z) (hok : ok z)
    (hrank : rank z = rank a) :
    FirstLeast ok rank l' i z := by
  refine ⟨?_, hok, fun j x hx hokx => ?_, fun j x hx hokx hj => ?_⟩
  · rw [hl i, if_pos (by omega), if_pos rfl, hz]
  · rw [hrank]
    rcases hl.mem hx with ⟨-, hx, -⟩ | ⟨-, hx, -⟩
    · exact h.least _ _ hx hokx
    · exact h.least _ _ hx hokx
  · rw [hrank]
    rcases hl.mem hx with ⟨-, hx, -⟩ | ⟨rfl, -⟩
    · exact h.first j x hx hokx (by omega)
    · omega

end Ze.Lib
