import Mathlib.Data.List.Perm.Basic
import Mathlib.Logic.Equiv.Basic

/-!
# Binary heaps in a slice

The array heap that programs write by hand: `push` appends and sifts up, `pop` takes the first
element, moves the last one into its place and sifts down. The order is a Boolean `less`.

The order of the elements needs `less` to be a strict weak order; that the elements are kept does
not.
-/

namespace Ze.Lib.Heap

open List

section

variable {α : Type} (less : α → α → Bool)

def parent (i : ℕ) : ℕ := (i - 1) / 2

def swap (l : List α) (i j : ℕ) : List α :=
  match l[i]?, l[j]? with
  | some x, some y => (l.set i y).set j x
  | _, _ => l

/-- Whether the element at `i` is less than the one at `j`. -/
def lessAt (l : List α) (i j : ℕ) : Bool :=
  match l[i]?, l[j]? with
  | some x, some y => less x y
  | _, _ => false

/-- The element at `i` moves up while it is less than the one above it. The first argument counts
the moves left: `i` is always enough. -/
def siftUp : ℕ → List α → ℕ → List α
  | 0, l, _ => l
  | n + 1, l, i =>
    if i = 0 then l
    else if lessAt less l i (parent i) then siftUp n (swap l i (parent i)) (parent i)
    else l

/-- The smaller of the two elements under `i`, the left one on a tie. -/
def child (l : List α) (i : ℕ) : ℕ :=
  if 2 * i + 2 < l.length ∧ lessAt less l (2 * i + 2) (2 * i + 1) then 2 * i + 2 else 2 * i + 1

/-- The element at `i` moves down while an element under it is less. The first argument counts the
moves left: the length of the heap is always enough. -/
def siftDown : ℕ → List α → ℕ → List α
  | 0, l, _ => l
  | n + 1, l, i =>
    if l.length ≤ 2 * i + 1 then l
    else if lessAt less l (child less l i) i then
      siftDown n (swap l i (child less l i)) (child less l i)
    else l

def push (l : List α) (x : α) : List α := siftUp less l.length (l ++ [x]) l.length

/-- Take the first element, put the last one in its place and sift that down. -/
def pop : List α → Option (α × List α)
  | [] => none
  | x :: rest =>
    match rest.getLast? with
    | none => some (x, [])
    | some z => some (x, siftDown less rest.length (z :: rest.dropLast) 0)

end

/-! ## The elements are kept -/

section

variable {α : Type} {less : α → α → Bool}

lemma perm_swap (l : List α) (i j : ℕ) : (swap l i j).Perm l := by
  unfold swap
  rcases hi : l[i]? with _ | x
  · exact List.Perm.refl l
  rcases hj : l[j]? with _ | y
  · exact List.Perm.refl l
  obtain ⟨hil, rfl⟩ := List.getElem?_eq_some_iff.mp hi
  obtain ⟨hjl, rfl⟩ := List.getElem?_eq_some_iff.1 hj
  exact set_set_perm hil hjl

lemma length_swap (l : List α) (i j : ℕ) : (swap l i j).length = l.length :=
  (perm_swap l i j).length_eq

lemma perm_siftUp (n : ℕ) (l : List α) (i : ℕ) : (siftUp less n l i).Perm l := by
  induction n generalizing l i with
  | zero => exact List.Perm.refl l
  | succ n ih =>
    unfold siftUp
    split_ifs
    · exact List.Perm.refl l
    · exact (ih _ _).trans (perm_swap l i (parent i))
    · exact List.Perm.refl l

lemma perm_siftDown (n : ℕ) (l : List α) (i : ℕ) : (siftDown less n l i).Perm l := by
  induction n generalizing l i with
  | zero => exact List.Perm.refl l
  | succ n ih =>
    unfold siftDown
    split_ifs
    · exact List.Perm.refl l
    · exact (ih _ _).trans (perm_swap l i _)
    · exact List.Perm.refl l

lemma perm_push (l : List α) (x : α) : (push less l x).Perm (x :: l) :=
  (perm_siftUp _ _ _).trans perm_append_comm

lemma length_push (l : List α) (x : α) : (push less l x).length = l.length + 1 :=
  (perm_push l x).length_eq

lemma mem_push {l : List α} {x y : α} : y ∈ push less l x ↔ y = x ∨ y ∈ l := by
  rw [(perm_push l x).mem_iff, mem_cons]

lemma pop_eq_none {l : List α} : pop less l = none ↔ l = [] := by
  cases l with
  | nil => simp [pop]
  | cons x rest =>
    unfold pop
    rcases hz : rest.getLast? with _ | z <;> simp [hz]

lemma perm_pop {l l' : List α} {x : α} (h : pop less l = some (x, l')) : l.Perm (x :: l') := by
  cases l with
  | nil => simp [pop] at h
  | cons y rest =>
    unfold pop at h
    rcases hz : rest.getLast? with _ | z
    · simp only [hz, Option.some.injEq, Prod.mk.injEq] at h
      obtain ⟨rfl, rfl⟩ := h
      rw [getLast?_eq_none_iff.1 hz]
    · simp only [hz, Option.some.injEq, Prod.mk.injEq] at h
      obtain ⟨rfl, rfl⟩ := h
      apply List.Perm.cons
      refine List.Perm.trans ?_ (perm_siftDown _ _ _).symm
      obtain ⟨front, rfl⟩ := getLast?_eq_some_iff.1 hz
      rw [dropLast_concat]
      exact perm_append_comm

lemma length_pop {l l' : List α} {x : α} (h : pop less l = some (x, l')) :
    l.length = l'.length + 1 := (perm_pop h).length_eq

lemma mem_pop {l l' : List α} {x y : α} (h : pop less l = some (x, l')) :
    y ∈ l ↔ y = x ∨ y ∈ l' := by
  rw [(perm_pop h).mem_iff, mem_cons]

end

/-! ## The order is kept -/

section

variable {α : Type} {less : α → α → Bool}

def Ordered (less : α → α → Bool) (l : List α) : Prop :=
  ∀ k, 0 < k → lessAt less l k (parent k) = false

/-- In order but for the element at `i`, which may be less than the one above it; what is under `i`
is not less than what is above `i`. -/
structure UpOrder (less : α → α → Bool) (l : List α) (i : ℕ) : Prop where
  off : ∀ k, 0 < k → k ≠ i → lessAt less l k (parent k) = false
  grand : ∀ k, 0 < k → 0 < i → parent k = i → lessAt less l k (parent i) = false

/-- In order but for the element at `i`, which may be greater than those under it; what is under `i`
is not less than what is above `i`. -/
structure DownOrder (less : α → α → Bool) (l : List α) (i : ℕ) : Prop where
  off : ∀ k, 0 < k → parent k ≠ i → lessAt less l k (parent k) = false
  grand : ∀ k, 0 < k → 0 < i → parent k = i → lessAt less l k (parent i) = false

lemma getElem?_swap {l : List α} {i j : ℕ} (hi : i < l.length) (hj : j < l.length) (k : ℕ) :
    (swap l i j)[k]? = l[Equiv.swap i j k]? := by
  unfold swap
  rw [getElem?_eq_getElem hi, getElem?_eq_getElem hj]
  simp only [getElem?_set, length_set, Equiv.swap_apply_def]
  by_cases hkj : j = k
  · subst hkj
    by_cases hij : j = i
    · simp [hij, hi]
    · simp [hij, hi, hj]
  · by_cases hki : i = k
    · subst hki
      simp [hkj, hi, hj]
    · rw [if_neg hkj, if_neg hki, if_neg (Ne.symm hki), if_neg (Ne.symm hkj)]

lemma lessAt_swap {l : List α} {i j : ℕ} (hi : i < l.length) (hj : j < l.length) (a b : ℕ) :
    lessAt less (swap l i j) a b = lessAt less l (Equiv.swap i j a) (Equiv.swap i j b) := by
  unfold lessAt
  rw [getElem?_swap hi hj, getElem?_swap hi hj]

lemma lessAt_lt {l : List α} {i j : ℕ} (h : lessAt less l i j) : i < l.length ∧ j < l.length := by
  unfold lessAt at h
  rcases hi : l[i]? with _ | x
  · simp [hi] at h
  rcases hj : l[j]? with _ | y
  · simp [hi, hj] at h
  exact ⟨(List.getElem?_eq_some_iff.mp hi).1, (List.getElem?_eq_some_iff.mp hj).1⟩

lemma parent_lt {i : ℕ} (h : 0 < i) : parent i < i := by
  unfold parent
  omega

variable (asymm : ∀ x y, less x y → less y x = false)
variable (trans : ∀ x y z, less x y → less y z → less x z)
variable (weak : ∀ x y z, less x z → less x y ∨ less y z)

include asymm in
lemma lessAt_asymm {l : List α} {i j : ℕ} (h : lessAt less l i j) : lessAt less l j i = false := by
  obtain ⟨hi, hj⟩ := lessAt_lt h
  simp only [lessAt, getElem?_eq_getElem hi, getElem?_eq_getElem hj] at h ⊢
  exact asymm _ _ h

include trans in
lemma lessAt_trans {l : List α} {i j k : ℕ} (h : lessAt less l i j)
    (h' : lessAt less l j k) : lessAt less l i k := by
  obtain ⟨hi, hj⟩ := lessAt_lt h
  obtain ⟨-, hk⟩ := lessAt_lt h'
  simp only [lessAt, getElem?_eq_getElem hi, getElem?_eq_getElem hj,
    getElem?_eq_getElem hk] at h h' ⊢
  exact trans _ _ _ h h'

include weak in
lemma lessAt_weak {l : List α} {i j k : ℕ} (hj : j < l.length)
    (h : lessAt less l i j = false) (h' : lessAt less l j k = false) :
    lessAt less l i k = false := by
  by_contra hc
  rw [Bool.not_eq_false] at hc
  obtain ⟨hi, hk⟩ := lessAt_lt hc
  simp only [lessAt, getElem?_eq_getElem hi, getElem?_eq_getElem hj,
    getElem?_eq_getElem hk] at h h' hc
  rcases weak _ (l[j]) _ hc with h₁ | h₂
  · rw [h] at h₁
    cases h₁
  · rw [h'] at h₂
    cases h₂

include asymm trans weak in
lemma UpOrder.move {l : List α} {i : ℕ} (o : UpOrder less l i) (hi : 0 < i)
    (hless : lessAt less l i (parent i)) :
    UpOrder less (swap l i (parent i)) (parent i) := by
  obtain ⟨hil, hpl⟩ := lessAt_lt hless
  have hpi := parent_lt hi
  constructor
  · intro k hk hkp
    rw [lessAt_swap hil hpl]
    have hkk := parent_lt hk
    by_cases hki : k = i
    · subst hki
      rw [Equiv.swap_apply_left, Equiv.swap_apply_right]
      exact lessAt_asymm asymm hless
    rw [Equiv.swap_apply_of_ne_of_ne hki hkp]
    by_cases hpk : parent k = i
    · rw [hpk, Equiv.swap_apply_left]
      exact o.grand k hk hi hpk
    by_cases hpp : parent k = parent i
    · rw [hpp, Equiv.swap_apply_right]
      by_contra hc
      rw [Bool.not_eq_false] at hc
      have := o.off k hk hki
      rw [hpp, lessAt_trans trans hc hless] at this
      cases this
    · rw [Equiv.swap_apply_of_ne_of_ne hpk hpp]
      exact o.off k hk hki
  · intro k hk hp0 hkp
    rw [lessAt_swap hil hpl]
    have hpp := parent_lt hp0
    rw [Equiv.swap_apply_of_ne_of_ne (by omega : parent (parent i) ≠ i) (by omega)]
    have hup : lessAt less l (parent i) (parent (parent i)) = false :=
      o.off _ hp0 (by omega)
    by_cases hki : k = i
    · rw [hki, Equiv.swap_apply_left]
      exact hup
    · have hkk := parent_lt hk
      rw [Equiv.swap_apply_of_ne_of_ne hki (by omega)]
      apply lessAt_weak weak hpl _ hup
      rw [← hkp]
      exact o.off k hk hki

lemma UpOrder.finish {l : List α} {i : ℕ} (o : UpOrder less l i)
    (hstop : 0 < i → lessAt less l i (parent i) = false) : Ordered less l := by
  intro k hk
  by_cases hki : k = i
  · subst hki
    exact hstop hk
  · exact o.off k hk hki

include asymm trans weak in
lemma UpOrder.siftUp {n : ℕ} {l : List α} {i : ℕ} (o : UpOrder less l i) (hn : i ≤ n) :
    Ordered less (siftUp less n l i) := by
  induction n generalizing l i with
  | zero => exact o.finish fun h => absurd h (by omega)
  | succ n ih =>
    unfold Heap.siftUp
    by_cases hi : i = 0
    · rw [if_pos hi]
      exact o.finish fun h => absurd h (by omega)
    rw [if_neg hi]
    have hpi := parent_lt (Nat.pos_of_ne_zero hi)
    by_cases hless : lessAt less l i (parent i)
    · rw [if_pos hless]
      exact ih (o.move asymm trans weak (Nat.pos_of_ne_zero hi) hless) (by omega)
    · rw [if_neg hless]
      exact o.finish fun _ => Bool.not_eq_true _ ▸ hless

include asymm trans weak in
lemma Ordered.push {l : List α} (h : Ordered less l) (x : α) : Ordered less (push less l x) := by
  unfold Heap.push
  apply UpOrder.siftUp asymm trans weak _ (Nat.le_refl _)
  have hout : ∀ k, l.length < k → ∀ j, lessAt less (l ++ [x]) k j = false := by
    intro k hk j
    unfold lessAt
    rw [getElem?_eq_none (by simp; omega)]
  constructor
  · intro k hk hkl
    by_cases hlt : k < l.length
    · have hkk := parent_lt hk
      unfold lessAt
      rw [getElem?_append_left hlt, getElem?_append_left (by omega)]
      exact h k hk
    · exact hout k (by omega) _
  · intro k hk _ hkp
    have hkk := parent_lt hk
    exact hout k (by omega) _

section

variable {l : List α} {i : ℕ}

lemma child_eq (less : α → α → Bool) (l : List α) (i : ℕ) :
    child less l i = 2 * i + 1 ∨ child less l i = 2 * i + 2 := by
  unfold child
  split_ifs
  · exact .inr rfl
  · exact .inl rfl

lemma parent_child (less : α → α → Bool) (l : List α) (i : ℕ) : parent (child less l i) = i := by
  unfold parent
  rcases child_eq less l i with h | h <;> rw [h] <;> omega

lemma child_lt (h : 2 * i + 1 < l.length) : child less l i < l.length := by
  unfold child
  split_ifs with hr
  · exact hr.1
  · exact h

include asymm in
lemma lessAt_child {k : ℕ} (hk : 0 < k) (hki : parent k = i) :
    lessAt less l k (child less l i) = false := by
  have hcases : k = 2 * i + 1 ∨ k = 2 * i + 2 := by
    unfold parent at hki
    omega
  have hself : ∀ j, lessAt less l j j = false := by
    intro j
    by_contra hc
    rw [Bool.not_eq_false] at hc
    have := lessAt_asymm asymm hc
    rw [hc] at this
    cases this
  unfold child
  by_cases hr : 2 * i + 2 < l.length ∧ lessAt less l (2 * i + 2) (2 * i + 1)
  · rw [if_pos hr]
    rcases hcases with rfl | rfl
    · exact lessAt_asymm asymm hr.2
    · exact hself _
  · rw [if_neg hr]
    rcases hcases with rfl | rfl
    · exact hself _
    · by_contra hc
      rw [Bool.not_eq_false] at hc
      exact hr ⟨(lessAt_lt hc).1, hc⟩

end

include asymm in
lemma DownOrder.move {l : List α} {i : ℕ} (o : DownOrder less l i)
    (hless : lessAt less l (child less l i) i) :
    DownOrder less (swap l i (child less l i)) (child less l i) := by
  obtain ⟨hcl, hil⟩ := lessAt_lt hless
  have hpc := parent_child less l i
  have hc0 : 0 < child less l i := by
    rcases child_eq less l i with h | h <;> omega
  have hic : i < child less l i := by
    have := parent_lt hc0
    omega
  constructor
  · intro k hk hkc
    rw [lessAt_swap hil hcl]
    by_cases hkc' : k = child less l i
    · rw [hkc', hpc, Equiv.swap_apply_right, Equiv.swap_apply_left]
      exact lessAt_asymm asymm hless
    by_cases hki : k = i
    · rw [hki] at hk hkc ⊢
      have hpi := parent_lt hk
      rw [Equiv.swap_apply_left, Equiv.swap_apply_of_ne_of_ne (by omega : parent i ≠ i) hkc]
      exact o.grand _ hc0 hk hpc
    rw [Equiv.swap_apply_of_ne_of_ne hki hkc']
    by_cases hpk : parent k = i
    · rw [hpk, Equiv.swap_apply_left]
      exact lessAt_child asymm hk hpk
    · rw [Equiv.swap_apply_of_ne_of_ne hpk hkc]
      exact o.off k hk hpk
  · intro k hk _ hkc
    have hkk := parent_lt hk
    rw [lessAt_swap hil hcl, hpc, Equiv.swap_apply_left,
      Equiv.swap_apply_of_ne_of_ne (by omega : k ≠ i) (by omega)]
    rw [← hkc]
    exact o.off k hk (by omega)

include asymm weak in
lemma DownOrder.finish {l : List α} {i : ℕ} (o : DownOrder less l i)
    (hstop : 2 * i + 1 < l.length → lessAt less l (child less l i) i = false) :
    Ordered less l := by
  intro k hk
  by_cases hki : parent k = i
  · by_cases hin : k < l.length
    · have hfirst : 2 * i + 1 < l.length := by
        unfold parent at hki
        omega
      rw [hki]
      exact lessAt_weak weak (child_lt hfirst) (lessAt_child asymm hk hki) (hstop hfirst)
    · unfold lessAt
      rw [getElem?_eq_none (by omega)]
  · exact o.off k hk hki

include asymm weak in
lemma DownOrder.siftDown {n : ℕ} {l : List α} {i : ℕ} (o : DownOrder less l i)
    (hn : l.length ≤ n + i) : Ordered less (siftDown less n l i) := by
  induction n generalizing l i with
  | zero => exact o.finish asymm weak fun h => absurd h (by omega)
  | succ n ih =>
    unfold Heap.siftDown
    by_cases hlen : l.length ≤ 2 * i + 1
    · rw [if_pos hlen]
      exact o.finish asymm weak fun h => absurd h (by omega)
    rw [if_neg hlen]
    by_cases hless : lessAt less l (child less l i) i
    · rw [if_pos hless]
      apply ih (o.move asymm hless)
      rw [length_swap]
      rcases child_eq less l i with h | h <;> omega
    · rw [if_neg hless]
      exact o.finish asymm weak fun _ => Bool.not_eq_true _ ▸ hless

include asymm weak in
lemma Ordered.pop {l l' : List α} {x : α} (h : Ordered less l)
    (hpop : pop less l = some (x, l')) : Ordered less l' := by
  cases l with
  | nil => simp [Heap.pop] at hpop
  | cons y rest =>
    unfold Heap.pop at hpop
    rcases hz : rest.getLast? with _ | z
    · simp only [hz, Option.some.injEq, Prod.mk.injEq] at hpop
      obtain ⟨-, rfl⟩ := hpop
      intro k _
      simp [lessAt]
    · simp only [hz, Option.some.injEq, Prod.mk.injEq] at hpop
      obtain ⟨-, rfl⟩ := hpop
      obtain ⟨front, rfl⟩ := getLast?_eq_some_iff.mp hz
      rw [dropLast_concat]
      apply DownOrder.siftDown asymm weak _ (by simp)
      constructor
      · intro k hk hpk
        -- away from the first place the new slice is a part of the old one
        have hsame : ∀ a, 0 < a → a < (z :: front).length →
            (z :: front)[a]? = (y :: (front ++ [z]))[a]? := by
          intro a ha hal
          obtain ⟨b, rfl⟩ := Nat.exists_eq_succ_of_ne_zero (by omega : a ≠ 0)
          simp only [Nat.succ_eq_add_one, getElem?_cons_succ, length_cons] at hal ⊢
          rw [getElem?_append_left (by omega)]
        have hkk := parent_lt hk
        by_cases hin : k < (z :: front).length
        · have := h k hk
          unfold lessAt at this ⊢
          rw [hsame k hk hin, hsame (parent k) (by omega) (by omega)]
          exact this
        · unfold lessAt
          rw [getElem?_eq_none (by omega)]
      · intro k _ h0
        exact absurd h0 (by omega)

include asymm weak in
lemma Ordered.first_le {l : List α} (h : Ordered less l) (k : ℕ) : lessAt less l k 0 = false := by
  induction k using Nat.strongRecOn with
  | ind k ih =>
    rcases Nat.eq_zero_or_pos k with rfl | hk
    · by_contra hc
      rw [Bool.not_eq_false] at hc
      have := lessAt_asymm asymm hc
      rw [hc] at this
      cases this
    · by_cases hin : parent k < l.length
      · exact lessAt_weak weak hin (h k hk) (ih _ (parent_lt hk))
      · have hkk := parent_lt hk
        unfold lessAt
        rw [getElem?_eq_none (by omega)]

include asymm weak in
/-- What a pop returns is a least element. -/
lemma Ordered.pop_le {l l' : List α} {x y : α} (h : Ordered less l)
    (hpop : Heap.pop less l = some (x, l')) (hy : y ∈ l) : less y x = false := by
  cases l with
  | nil => cases hy
  | cons z rest =>
    have hx : z = x := by
      unfold Heap.pop at hpop
      rcases hz : rest.getLast? with _ | w
      · simp only [hz, Option.some.injEq, Prod.mk.injEq] at hpop
        exact hpop.1
      · simp only [hz, Option.some.injEq, Prod.mk.injEq] at hpop
        exact hpop.1
    obtain ⟨k, hk⟩ := mem_iff_getElem?.mp hy
    have := h.first_le asymm weak k
    unfold lessAt at this
    rw [hk] at this
    rw [← hx]
    exact this

end

end Ze.Lib.Heap
