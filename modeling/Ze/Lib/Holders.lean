import Mathlib.Data.List.Perm.Basic

/-!
# Tables and pools of holders

Two places where a concurrent program keeps references: a table, which is an association list with
one entry for each key, and a pool of threads, of which one at a time takes a step.
-/

namespace Ze.Lib

open List
open Prod (fst)

/-! ## Tables -/

namespace Table

variable {K V : Type*} [DecidableEq K]

def drop (m : List (K × V)) (k : K) : List (K × V) := m.filter fun e => e.1 ≠ k

def put (m : List (K × V)) (k : K) (v : V) : List (K × V) := (k, v) :: drop m k

lemma nodup_drop {m : List (K × V)} (h : (m.map fst).Nodup) (k : K) : ((drop m k).map fst).Nodup :=
  h.sublist (filter_sublist.map _)

lemma nodup_put {m : List (K × V)} (h : (m.map fst).Nodup) (k : K) (v : V) :
    ((put m k v).map fst).Nodup := by
  rw [put, map_cons, nodup_cons]
  refine ⟨fun hmem => ?_, nodup_drop h k⟩
  obtain ⟨e, he, heq⟩ := mem_map.1 hmem
  exact of_decide_eq_true (mem_filter.1 he).2 heq

section

variable [BEq K] [LawfulBEq K] {m : List (K × V)} {k : K} {v : V}

omit [DecidableEq K] in
lemma ne_of_lookup (h : m.lookup k = none) : ∀ e ∈ m, e.1 ≠ k := by
  intro e he heq
  have hne := lookup_eq_none_iff.1 h e he
  rw [heq] at hne
  simp at hne

lemma drop_of_lookup (h : m.lookup k = none) : drop m k = m :=
  filter_eq_self.2 fun e he => decide_eq_true (ne_of_lookup h e he)

lemma lookup_drop (m : List (K × V)) (k x : K) :
    (drop m k).lookup x = if x = k then none else m.lookup x := by
  induction m with
  | nil => simp [drop]
  | cons e m ih =>
    obtain ⟨k', v⟩ := e
    by_cases hk : k' = k
    · subst hk
      have hdrop : drop ((k', v) :: m) k' = drop m k' := by simp [drop]
      rw [hdrop, ih, lookup_cons]
      split_ifs with hx
      · rfl
      · rw [beq_false_of_ne hx]
    · have hdrop : drop ((k', v) :: m) k = (k', v) :: drop m k := by simp [drop, hk]
      rw [hdrop, lookup_cons, lookup_cons, ih]
      rcases hx : x == k' with _ | _
      · rfl
      · rw [beq_iff_eq] at hx
        subst hx
        simp only [if_neg hk]

lemma lookup_put (m : List (K × V)) (k x : K) (v : V) :
    (put m k v).lookup x = if x = k then some v else m.lookup x := by
  rw [put, lookup_cons, lookup_drop]
  split_ifs with hx
  · rw [hx, beq_self_eq_true]
  · rw [beq_false_of_ne hx]

lemma perm_of_lookup (hnodup : (m.map fst).Nodup) (h : m.lookup k = some v) :
    m.Perm ((k, v) :: drop m k) := by
  induction m with
  | nil => cases h
  | cons e m ih =>
    obtain ⟨k', v'⟩ := e
    rw [map_cons, nodup_cons] at hnodup
    rw [lookup_cons] at h
    by_cases hk : k = k'
    · subst hk
      rw [beq_self_eq_true] at h
      cases h
      rw [drop, filter_cons_of_neg (by simp), filter_eq_self.2]
      intro e he
      refine decide_eq_true fun heq => hnodup.1 ?_
      exact mem_map.2 ⟨e, he, heq⟩
    · rw [beq_eq_false_iff_ne.2 hk] at h
      rw [drop, filter_cons_of_pos (by simpa using Ne.symm hk)]
      exact ((ih hnodup.2 h).cons _).trans (List.Perm.swap ..)

omit [DecidableEq K] in
lemma mem_of_lookup (h : m.lookup k = some v) : (k, v) ∈ m := by
  induction m with
  | nil => cases h
  | cons e m ih =>
    obtain ⟨k', v'⟩ := e
    rw [lookup_cons] at h
    rcases hk : k == k' with _ | _ <;> rw [hk] at h
    · exact mem_cons_of_mem _ (ih h)
    · cases h
      rw [beq_iff_eq] at hk
      rw [hk]
      exact mem_cons_self

end

end Table

/-! ## Pools -/

/-- The threads of a pool after one of them took a step: it goes on as another, or is done. -/
def stepped {T : Type*} (tasks : List T) (i : ℕ) : Option T → List T
  | some t => tasks.set i t
  | none => tasks.eraseIdx i

lemma exists_split {T : Type*} {tasks : List T} {i : ℕ} {t : T} (h : tasks[i]? = some t) :
    ∃ before behind, tasks = before ++ t :: behind ∧
      ∀ next, stepped tasks i next = before ++ (next.toList ++ behind) := by
  obtain ⟨hi, rfl⟩ := List.getElem?_eq_some_iff.mp h
  refine ⟨tasks.take i, tasks.drop (i + 1), ?_, fun next => ?_⟩
  · rw [← drop_eq_getElem_cons hi, take_append_drop]
  · rcases next with _ | t
    · rw [stepped, eraseIdx_eq_take_drop_succ]
      rfl
    · rw [stepped, set_eq_take_append_cons_drop, if_pos hi]
      rfl

/-! ## Locks -/

section

variable {T L : Type*} {lock : T → Option L} {t : T} {before behind : List T}

lemma lock_ne_of_nodup (h : ((before ++ t :: behind).filterMap lock).Nodup) {u : T}
    (hu : u ∈ before ++ behind) {l : L} (hl : lock u = some l) : lock t ≠ some l := by
  intro ht
  have hperm := (@perm_middle _ t before behind).filterMap lock
  have hnodup := hperm.nodup h
  rw [filterMap_cons, ht, nodup_cons] at hnodup
  exact hnodup.1 (mem_filterMap.2 ⟨u, hu, hl⟩)

lemma nodup_locks_of_step (h : ((before ++ t :: behind).filterMap lock).Nodup) {next : Option T}
    (hnext : ∀ u ∈ next, ∀ l, lock u = some l →
      lock t = some l ∨ l ∉ (before ++ t :: behind).filterMap lock) :
    ((before ++ (next.toList ++ behind)).filterMap lock).Nodup := by
  have hrest : ((before ++ behind).filterMap lock).Nodup :=
    h.sublist (((sublist_cons_self t behind).append_left before).filterMap lock)
  rcases next with _ | u
  · exact hrest
  · rw [Option.toList_some, singleton_append]
    have hperm := (@perm_middle _ u before behind).filterMap lock
    apply hperm.symm.nodup
    rcases hl : lock u with _ | l
    · rw [filterMap_cons, hl]
      exact hrest
    · rw [filterMap_cons, hl, nodup_cons]
      refine ⟨fun hmem => ?_, hrest⟩
      obtain ⟨x, hx, hxl⟩ := mem_filterMap.1 hmem
      rcases hnext u rfl l hl with ht | hfree
      · exact lock_ne_of_nodup h hx hxl ht
      · refine hfree (mem_filterMap.2 ⟨x, ?_, hxl⟩)
        exact (mem_append.1 hx).elim (mem_append_left _)
          fun hx => mem_append_right _ (mem_cons_of_mem _ hx)

end

end Ze.Lib
