import Mathlib.Algebra.Order.Ring.Int
import Mathlib.Data.Finset.Card

/-!
# Maps that list their keys in order

`SortedMap K V` is a finite map together with the list of its keys in increasing order, which is
how the programs keep a map whose keys they send: the order is a field, so a map out of order
cannot be built.
-/

namespace Ze.Lib

open List

/-- The keys are words: there are some of so many bits. -/
instance neZero8 : NeZero (2 ^ 8) := ⟨by decide⟩

instance neZero32 : NeZero (2 ^ 32) := ⟨by decide⟩

instance neZero48 : NeZero (2 ^ 48) := ⟨by decide⟩

instance neZero64 : NeZero (2 ^ 64) := ⟨by decide⟩

/-- A map whose entries are listed in the order of their keys. -/
structure SortedMap (K V : Type) [LinearOrder K] where
  items : List (K × V)
  sorted : (items.map Prod.fst).Pairwise (· < ·)

namespace SortedMap

variable {K V : Type} [LinearOrder K]

def empty : SortedMap K V := ⟨[], List.Pairwise.nil⟩

instance : Inhabited (SortedMap K V) := ⟨empty⟩

def lookup (m : SortedMap K V) (k : K) : Option V := m.items.lookup k

def keys (m : SortedMap K V) : List K := m.items.map Prod.fst

/-- How many entries there are. Source: Go, len. -/
def size (m : SortedMap K V) : ℕ := m.items.length

def place (k : K) (v : V) : List (K × V) → List (K × V)
  | [] => [(k, v)]
  | x :: xs =>
    if x.1 < k then x :: place k v xs
    else if x.1 = k then (k, v) :: xs
    else (k, v) :: x :: xs

lemma mem_keys_place {k a : K} {v : V} {xs : List (K × V)} :
    a ∈ (place k v xs).map Prod.fst ↔ a = k ∨ a ∈ xs.map Prod.fst := by
  induction xs with
  | nil => simp [place]
  | cons x xs ih =>
    unfold place
    by_cases hlt : x.1 < k
    · rw [if_pos hlt, map_cons, mem_cons, ih, map_cons, mem_cons]
      tauto
    · rw [if_neg hlt]
      by_cases heq : x.1 = k
      · rw [if_pos heq, map_cons, mem_cons, map_cons, mem_cons, heq]
        tauto
      · rw [if_neg heq, map_cons, mem_cons]

lemma sorted_place {k : K} {v : V} {xs : List (K × V)}
    (h : (xs.map Prod.fst).Pairwise (· < ·)) : ((place k v xs).map Prod.fst).Pairwise (· < ·) := by
  induction xs with
  | nil => simp [place]
  | cons x xs ih =>
    rw [map_cons, pairwise_cons] at h
    unfold place
    by_cases hlt : x.1 < k
    · rw [if_pos hlt, map_cons, pairwise_cons]
      refine ⟨fun a ha => ?_, ih h.2⟩
      rcases mem_keys_place.1 ha with rfl | ha
      · exact hlt
      · exact h.1 a ha
    · rw [if_neg hlt]
      by_cases heq : x.1 = k
      · rw [if_pos heq, map_cons, pairwise_cons]
        exact ⟨fun a ha => heq ▸ h.1 a ha, h.2⟩
      · rw [if_neg heq]
        have hk : k < x.1 := lt_of_le_of_ne (not_lt.1 hlt) (Ne.symm heq)
        rw [map_cons, map_cons, pairwise_cons, pairwise_cons]
        refine ⟨fun a ha => ?_, h⟩
        rcases mem_cons.1 ha with rfl | ha
        · exact hk
        · exact hk.trans (h.1 a ha)

lemma lookup_place {k a : K} {v : V} {xs : List (K × V)} :
    (place k v xs).lookup a = if a = k then some v else xs.lookup a := by
  induction xs with
  | nil =>
    unfold place
    rw [lookup_cons]
    by_cases h : a = k
    · simp [h]
    · simp [h, beq_false_of_ne h]
  | cons x xs ih =>
    unfold place
    by_cases hlt : x.1 < k
    · rw [if_pos hlt, lookup_cons, ih, lookup_cons]
      by_cases hax : a = x.1
      · have hne : a ≠ k := fun h => (ne_of_lt hlt) (hax.symm.trans h)
        simp [hax, hax ▸ hne]
      · rw [beq_false_of_ne hax]
    · rw [if_neg hlt]
      by_cases heq : x.1 = k
      · rw [if_pos heq, lookup_cons, lookup_cons, heq]
        by_cases hak : a = k
        · simp [hak]
        · simp [hak, beq_false_of_ne hak]
      · rw [if_neg heq, lookup_cons]
        by_cases hak : a = k
        · simp [hak]
        · simp [hak, beq_false_of_ne hak]

/-- A write under a key. Source: Go, m[k] = v. -/
def put (m : SortedMap K V) (k : K) (v : V) : SortedMap K V :=
  ⟨place k v m.items, sorted_place m.sorted⟩

/-- A delete. Source: Go, delete. -/
def erase (m : SortedMap K V) (k : K) : SortedMap K V where
  items := m.items.filter (·.1 ≠ k)
  sorted := m.sorted.sublist (filter_sublist.map _)

/-- A function applied to the value under a key, if there is one. -/
def modify (m : SortedMap K V) (k : K) (f : V → V) : SortedMap K V where
  items := m.items.map fun x => if x.1 = k then (x.1, f x.2) else x
  sorted := by
    have hmap : (m.items.map fun x => if x.1 = k then (x.1, f x.2) else x).map Prod.fst =
        m.items.map Prod.fst := by
      rw [map_map]
      refine map_congr_left fun x _ => ?_
      simp only [Function.comp_apply]
      split_ifs <;> rfl
    rw [hmap]
    exact m.sorted

/-- A function applied to every entry, which may drop it. -/
def filterMap (m : SortedMap K V) (f : V → Option V) : SortedMap K V where
  items := m.items.filterMap fun x => (f x.2).map fun v => (x.1, v)
  sorted := by
    have hsub : ((m.items.filterMap fun x => (f x.2).map fun v => (x.1, v)).map Prod.fst).Sublist
        (m.items.map Prod.fst) := by
      induction m.items with
      | nil => exact List.Sublist.refl _
      | cons x xs ih =>
        rw [filterMap_cons]
        cases f x.2 with
        | none => exact ih.cons _
        | some v => exact ih.cons_cons _
    exact m.sorted.sublist hsub

def collect {W : Type} (m : SortedMap K V) (f : K → V → Option W) : SortedMap K W where
  items := m.items.filterMap fun x => (f x.1 x.2).map fun w => (x.1, w)
  sorted := by
    have hsub :
        ((m.items.filterMap fun x => (f x.1 x.2).map fun w => (x.1, w)).map Prod.fst).Sublist
          (m.items.map Prod.fst) := by
      induction m.items with
      | nil => exact List.Sublist.refl _
      | cons x xs ih =>
        rw [filterMap_cons]
        rcases f x.1 x.2 with _ | w
        · exact ih.cons _
        · exact ih.cons_cons _
    exact m.sorted.sublist hsub

/-! ## Reading a map -/

variable (m : SortedMap K V)

@[simp] lemma lookup_empty (k : K) : (empty : SortedMap K V).lookup k = none := rfl

lemma lookup_put (k a : K) (v : V) :
    (m.put k v).lookup a = if a = k then some v else m.lookup a := lookup_place

lemma lookup_put_some {m : SortedMap K V} {k a : K} {v w : V}
    (h : (m.put k v).lookup a = some w) : a = k ∧ v = w ∨ a ≠ k ∧ m.lookup a = some w := by
  rw [lookup_put] at h
  by_cases ha : a = k
  · rw [if_pos ha] at h
    exact .inl ⟨ha, Option.some.inj h⟩
  · rw [if_neg ha] at h
    exact .inr ⟨ha, h⟩

lemma lookup_erase (k a : K) : (m.erase k).lookup a = if a = k then none else m.lookup a := by
  unfold erase lookup
  simp only
  induction m.items with
  | nil => simp
  | cons x xs ih =>
    by_cases hx : x.1 = k
    · rw [filter_cons_of_neg (by simpa using hx), ih, lookup_cons]
      by_cases hak : a = k
      · simp [hak]
      · rw [beq_false_of_ne (hx ▸ hak)]
    · rw [filter_cons_of_pos (by simpa using hx), lookup_cons, ih, lookup_cons]
      by_cases hax : a = x.1
      · simp [hax, hx]
      · rw [beq_false_of_ne hax]

lemma lookup_modify (k a : K) (f : V → V) :
    (m.modify k f).lookup a = if a = k then (m.lookup a).map f else m.lookup a := by
  unfold modify lookup
  simp only
  induction m.items with
  | nil => simp
  | cons x xs ih =>
    rw [map_cons, lookup_cons, ih, lookup_cons]
    by_cases hx : x.1 = k
    · by_cases hak : a = k
      · simp [hx, hak]
      · simp [hx, hak, beq_false_of_ne hak]
    · by_cases hax : a = x.1
      · simp [hax, hx]
      · simp [hx, beq_false_of_ne hax]

lemma mem_keys_iff {k : K} : k ∈ m.keys ↔ ∃ v, m.lookup k = some v := by
  unfold keys lookup
  induction m.items with
  | nil => simp
  | cons x xs ih =>
    rw [map_cons, mem_cons, ih, lookup_cons]
    by_cases hk : k = x.1
    · simp [hk]
    · simp [hk, beq_false_of_ne hk]

lemma sorted_keys : m.keys.Pairwise (· < ·) := m.sorted

lemma nodup_keys : m.keys.Nodup := m.sorted.imp fun h => ne_of_lt h

lemma mem_items_iff {k : K} {v : V} : (k, v) ∈ m.items ↔ m.lookup k = some v := by
  have hnodup : (m.items.map Prod.fst).Nodup := m.nodup_keys
  unfold lookup
  generalize m.items = items at hnodup
  induction items with
  | nil => simp
  | cons x xs ih =>
    rw [map_cons, nodup_cons] at hnodup
    have htail : (k, v) ∈ xs ↔ xs.lookup k = some v := ih hnodup.2
    rw [mem_cons, htail, lookup_cons]
    by_cases hk : k = x.1
    · have hnone : xs.lookup k = none := by
        rw [lookup_eq_none_iff]
        intro y hy
        have hne : k ≠ y.1 := by
          intro h
          exact hnodup.1 (hk ▸ h ▸ mem_map_of_mem hy)
        simpa using hne
      rw [hnone, hk]
      simp only [BEq.rfl, reduceCtorEq, or_false, Option.some.injEq]
      constructor
      · intro h
        rw [← h]
      · intro h
        rw [← h]
    · rw [beq_false_of_ne hk]
      constructor
      · rintro (h | h)
        · exact absurd (congrArg Prod.fst h) hk
        · exact h
      · exact .inr

lemma lookup_filterMap (f : V → Option V) (a : K) :
    (m.filterMap f).lookup a = (m.lookup a).bind f := by
  refine Option.ext fun v => ?_
  rw [← mem_items_iff, Option.bind_eq_some_iff]
  constructor
  · intro h
    obtain ⟨x, hx, hv⟩ := mem_filterMap.1 h
    obtain ⟨w, hw, heq⟩ := Option.map_eq_some_iff.1 hv
    cases heq
    exact ⟨x.2, (mem_items_iff m).1 hx, hw⟩
  · rintro ⟨u, hu, hv⟩
    refine mem_filterMap.2 ⟨(a, u), (mem_items_iff m).2 hu, ?_⟩
    simp only [hv, Option.map_some]

lemma lookup_collect {W : Type} (f : K → V → Option W) (a : K) :
    (m.collect f).lookup a = (m.lookup a).bind (f a) := by
  refine Option.ext fun w => ?_
  rw [← mem_items_iff, Option.bind_eq_some_iff]
  constructor
  · intro h
    obtain ⟨x, hx, hv⟩ := mem_filterMap.1 h
    obtain ⟨w', hw, heq⟩ := Option.map_eq_some_iff.1 hv
    cases heq
    exact ⟨x.2, (mem_items_iff m).1 hx, hw⟩
  · rintro ⟨u, hu, hv⟩
    refine mem_filterMap.2 ⟨(a, u), (mem_items_iff m).2 hu, ?_⟩
    simp only [hv, Option.map_some]

/-! ## How many entries there are -/

lemma size_eq_card : m.size = m.keys.toFinset.card := by
  rw [toFinset_card_of_nodup m.nodup_keys]
  unfold size keys
  rw [length_map]

lemma size_le_of_subset {s : Finset K} (h : ∀ k ∈ m.keys, k ∈ s) : m.size ≤ s.card := by
  rw [size_eq_card]
  exact Finset.card_le_card fun k hk => h k (mem_toFinset.1 hk)

end SortedMap

end Ze.Lib
