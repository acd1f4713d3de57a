import Mathlib.Data.Finset.Card

/-!
# Changes to a set, one by one and as a batch

A change is an element and whether it is put in (`true`) or taken out (`false`).
-/

namespace Ze.Lib.Changeset

open List
open Finset (mem_sdiff mem_union mem_union_right union_insert)

variable {α : Type*} [DecidableEq α] {s : Finset α} {a : α} {cs : List (α × Bool)}

/-! ## One change after the other -/

def apply (s : Finset α) (c : α × Bool) : Finset α :=
  if c.2 then insert c.1 s else s.erase c.1

def applyAll (s : Finset α) (cs : List (α × Bool)) : Finset α := cs.foldl apply s

/-- What the last change that names the element does; `none` if no change names it. -/
def last : List (α × Bool) → α → Option Bool
  | [], _ => none
  | c :: cs, a => (last cs a).or (if c.1 = a then some c.2 else none)

/-- An element that some change puts in and the last change that names it takes out. -/
def Undone (cs : List (α × Bool)) (a : α) : Prop := (a, true) ∈ cs ∧ last cs a = some false

instance (cs : List (α × Bool)) (a : α) : Decidable (Undone cs a) :=
  inferInstanceAs (Decidable (_ ∧ _))

lemma mem_apply (s : Finset α) (c : α × Bool) (a : α) :
    a ∈ apply s c ↔ if c.1 = a then c.2 = true else a ∈ s := by
  obtain ⟨b, put⟩ := c
  by_cases h : b = a
  · subst h
    cases put <;> simp [apply]
  · cases put <;> simp [apply, h, Ne.symm h]

/-- The last change decides, and without one the set before. -/
lemma mem_applyAll :
    (cs : List (α × Bool)) → ∀ s : Finset α, (a ∈ applyAll s cs ↔ (last cs a).getD (decide (a ∈ s)))
  | [], s => by simp [applyAll, last]
  | c :: cs, s => by
      have ih := mem_applyAll cs (apply s c)
      rw [applyAll, foldl_cons]
      rw [applyAll] at ih
      rw [ih, last]
      cases h : last cs a with
      | some b => rfl
      | none =>
        rw [Option.none_or, Option.getD_none, decide_eq_true_eq, mem_apply]
        split_ifs with hc
        · rfl
        · rw [Option.getD_none, decide_eq_true_eq]

variable {b : Bool} {cap : ℕ}

lemma mem_of_last : (cs : List (α × Bool)) → last cs a = some b → (a, b) ∈ cs
  | [], h => by cases h
  | (x, put) :: cs, h => by
      rw [last, Option.or_eq_some_iff] at h
      rcases h with h | ⟨-, h⟩
      · exact mem_cons_of_mem _ (mem_of_last cs h)
      · split_ifs at h with hx
        cases h
        exact hx ▸ mem_cons_self

lemma last_isSome : (cs : List (α × Bool)) → (a, b) ∈ cs → (last cs a).isSome
  | c :: cs, h => by
      rw [last, Option.isSome_or]
      rcases mem_cons.1 h with rfl | h
      · simp
      · rw [last_isSome cs h, Bool.true_or]

/-! ## As a batch -/

def adds (cs : List (α × Bool)) : List α := (cs.filter fun c => c.2).map Prod.fst

def dels (cs : List (α × Bool)) : List α := (cs.filter fun c => !c.2).map Prod.fst

omit [DecidableEq α] in
lemma mem_adds : a ∈ adds cs ↔ (a, true) ∈ cs := by simp [adds]

omit [DecidableEq α] in
lemma mem_dels : a ∈ dels cs ↔ (a, false) ∈ cs := by simp [dels]

lemma foldl_erase : (ds : List α) → ∀ s : Finset α,
    ds.foldl (fun s a => s.erase a) s = s \ ds.toFinset
  | [], s => by simp
  | d :: ds, s => by
      rw [foldl_cons, foldl_erase ds]
      ext a
      simp only [mem_sdiff, Finset.mem_erase, mem_toFinset, mem_cons, not_or]
      tauto

/-- The batch does to an element what the changes do one after the other, unless it is put in and
ends up taken out; the elements taken out may be anything when nothing was there. -/
lemma mem_batch_iff (h : ¬ Undone cs a) {ds : List α} (hds : ∀ a ∈ s, a ∈ ds ↔ a ∈ dels cs) :
    a ∈ (s \ ds.toFinset) ∪ (adds cs).toFinset ↔ a ∈ applyAll s cs := by
  rw [mem_applyAll, mem_union, mem_sdiff, mem_toFinset, mem_toFinset, mem_adds]
  cases hl : last cs a with
  | none =>
    -- no change names the element
    have hnone : ∀ b, (a, b) ∉ cs := by
      intro b hb
      have := last_isSome cs hb
      rw [hl] at this
      cases this
    rw [Option.getD_none, decide_eq_true_eq]
    constructor
    · rintro (⟨hs, -⟩ | hc)
      · exact hs
      · exact absurd hc (hnone true)
    · intro hs
      refine .inl ⟨hs, ?_⟩
      rw [hds a hs, mem_dels]
      exact hnone false
  | some b =>
    have hmem := mem_of_last cs hl
    rw [Option.getD_some]
    cases b with
    | true => exact ⟨fun _ => rfl, fun _ => .inr hmem⟩
    | false =>
      constructor
      · rintro (⟨hs, hd⟩ | hc)
        · exact absurd (mem_dels.2 hmem) (mt (hds a hs).2 hd)
        · exact absurd ⟨hc, hl⟩ h
      · intro hf
        cases hf

/-- What the batch leaves is what the changes leave, with all that they put in. -/
lemma batch_eq {ds : List α} (hds : ∀ a ∈ s, a ∈ ds ↔ a ∈ dels cs) :
    (s \ ds.toFinset) ∪ (adds cs).toFinset = applyAll s cs ∪ (adds cs).toFinset := by
  ext a
  by_cases h : Undone cs a
  · have hadd : a ∈ (adds cs).toFinset := mem_toFinset.2 (mem_adds.2 h.1)
    exact ⟨fun _ => mem_union_right _ hadd, fun _ => mem_union_right _ hadd⟩
  · rw [mem_batch_iff h hds, mem_union]
    refine ⟨.inl, fun ha => ha.elim id fun hadd => ?_⟩
    exact (mem_batch_iff h hds).1 (mem_union_right _ hadd)

/-! ## Additions below a limit -/

def addCapped (cap : ℕ) (s : Finset α) (a : α) : Finset α :=
  if a ∈ s then s else if cap ≤ s.card then s else insert a s

lemma card_foldl_addCapped_le (as : List α) (hs : s.card ≤ cap) :
    (as.foldl (addCapped cap) s).card ≤ cap := by
  induction as generalizing s with
  | nil => exact hs
  | cons a as ih =>
    rw [foldl_cons]
    apply ih
    rw [addCapped]
    split_ifs with ha hfull
    · exact hs
    · exact hs
    · rw [Finset.card_insert_of_notMem ha]
      omega

/-- A run of additions below a limit: everything is in, or the set is full and some of the elements
are missing. -/
lemma foldl_addCapped_cases : (as : List α) → ∀ s : Finset α, s.card ≤ cap →
    as.foldl (addCapped cap) s = s ∪ as.toFinset ∨
      as.foldl (addCapped cap) s ⊂ s ∪ as.toFinset ∧ (as.foldl (addCapped cap) s).card = cap
  | [], s, _ => .inl (by simp)
  | a :: as, s, hcap => by
      rw [foldl_cons, toFinset_cons]
      by_cases ha : a ∈ s
      · have hstep : addCapped cap s a = s := if_pos ha
        have hunion : s ∪ insert a as.toFinset = s ∪ as.toFinset := by
          rw [union_insert, Finset.insert_eq_of_mem (Finset.mem_union_left _ ha)]
        rw [hstep, hunion]
        exact foldl_addCapped_cases as s hcap
      · by_cases hfull : cap ≤ s.card
        · -- full: neither this element nor a later one gets in
          have hstep : addCapped cap s a = s := by rw [addCapped, if_neg ha, if_pos hfull]
          have hcard : s.card = cap := le_antisymm hcap hfull
          have hstuck : ∀ bs : List α, bs.foldl (addCapped cap) s = s := by
            intro bs
            induction bs with
            | nil => rfl
            | cons b bs ih =>
              have hb : addCapped cap s b = s := by rw [addCapped, if_pos hfull, ite_self]
              rw [foldl_cons, hb, ih]
          rw [hstep, hstuck]
          refine .inr ⟨?_, hcard⟩
          refine Finset.ssubset_iff_subset_ne.2 ⟨Finset.subset_union_left, ?_⟩
          intro heq
          exact ha (heq ▸ mem_union_right _ (Finset.mem_insert_self a _))
        · have hstep : addCapped cap s a = insert a s := by
            rw [addCapped, if_neg ha, if_neg hfull]
          have hunion : s ∪ insert a as.toFinset = insert a s ∪ as.toFinset := by
            rw [union_insert, Finset.insert_union]
          rw [hstep, hunion]
          refine foldl_addCapped_cases as (insert a s) ?_
          rw [Finset.card_insert_of_notMem ha]
          omega

lemma foldl_addCapped_of_le {as : List α} (h : (s ∪ as.toFinset).card ≤ cap) :
    as.foldl (addCapped cap) s = s ∪ as.toFinset := by
  have hs : s.card ≤ cap := (Finset.card_le_card Finset.subset_union_left).trans h
  rcases foldl_addCapped_cases as s hs with heq | ⟨hlt, hcard⟩
  · exact heq
  · have := Finset.card_lt_card hlt
    omega

lemma foldl_addCapped_of_lt {as : List α} (hs : s.card ≤ cap) (h : cap < (s ∪ as.toFinset).card) :
    as.foldl (addCapped cap) s ⊂ s ∪ as.toFinset ∧ (as.foldl (addCapped cap) s).card = cap := by
  rcases foldl_addCapped_cases as s hs with heq | hcase
  · have hle := card_foldl_addCapped_le as hs
    rw [heq] at hle
    omega
  · exact hcase

end Ze.Lib.Changeset
