import Mathlib.Algebra.Order.BigOperators.Group.List
import Mathlib.Algebra.Order.Group.Nat
import Mathlib.Algebra.Order.Ring.Int
import Mathlib.Data.List.Nodup
import Mathlib.Order.Bounds.Basic

/-!
# Shortest paths

In a weighted graph `edge u v m` is an edge from `u` to `v` of cost `m`. A *trail* from `s` is
listed from its end back to `s`, with its cost; a *path* is a trail that visits nothing twice, and a
*shortest path* a path that no other path to the same end undercuts. A *cheapest trail* costs no
more than a shortest path, but may go round a circle that costs nothing.
-/

namespace Ze.Lib

open List

variable {V : Type} {edge : V → V → ℕ → Prop} {s : V}

/-- `Trail edge s l c`: the vertices of `l`, from its end back to `s`, follow edges, and the costs
add up to `c`. -/
inductive Trail (edge : V → V → ℕ → Prop) (s : V) : List V → ℕ → Prop
  | start : Trail edge s [s] 0
  | step {u v : V} {us : List V} {c m : ℕ} :
      Trail edge s (u :: us) c → edge u v m → Trail edge s (v :: u :: us) (c + m)

structure IsPath (edge : V → V → ℕ → Prop) (s : V) (l : List V) (c : ℕ) : Prop where
  trail : Trail edge s l c
  nodup : l.Nodup

/-- A path to `v`, over `us` back to `s`, that no path to `v` undercuts. -/
structure IsShortest (edge : V → V → ℕ → Prop) (s v : V) (us : List V) (c : ℕ) : Prop where
  path : IsPath edge s (v :: us) c
  least : ∀ us' c', IsPath edge s (v :: us') c' → c ≤ c'

/-- A trail to `v`, over `us` back to `s`, that no trail to `v` undercuts; it may visit a vertex
twice. -/
structure IsCheapest (edge : V → V → ℕ → Prop) (s v : V) (us : List V) (c : ℕ) : Prop where
  trail : Trail edge s (v :: us) c
  least : ∀ us' c', Trail edge s (v :: us') c' → c ≤ c'

def pathCosts (edge : V → V → ℕ → Prop) (s v : V) : Set ℕ := {c | ∃ us, IsPath edge s (v :: us) c}

/-! ## Trails -/

variable {c : ℕ}

lemma Trail.mem_start {l : List V} (h : Trail edge s l c) : s ∈ l := by
  induction h with
  | start => exact mem_singleton_self s
  | step _ _ ih => exact mem_cons_of_mem _ ih

lemma Trail.of_singleton {v : V} (h : Trail edge s [v] c) : v = s ∧ c = 0 := by
  cases h
  exact ⟨rfl, rfl⟩

lemma Trail.cut {l : List V} (h : Trail edge s l c) {v : V} (hv : v ∈ l) :
    ∃ us c', c' ≤ c ∧ Trail edge s (v :: us) c' ∧ (v :: us) <:+ l := by
  induction h with
  | start =>
    rw [mem_singleton] at hv
    subst hv
    exact ⟨[], 0, le_rfl, .start, suffix_rfl⟩
  | @step u w us c m h he ih =>
    rcases mem_cons.1 hv with rfl | hv
    · exact ⟨u :: us, c + m, le_rfl, .step h he, suffix_rfl⟩
    · obtain ⟨us', c', hle, ht, hsuf⟩ := ih hv
      exact ⟨us', c', by omega, ht, hsuf.trans (suffix_cons _ _)⟩

/-- A trail can be cut to a path that costs no more. -/
lemma Trail.exists_path {v : V} {us : List V} (h : Trail edge s (v :: us) c) :
    ∃ us' c', c' ≤ c ∧ IsPath edge s (v :: us') c' := by
  generalize hl : v :: us = l at h
  induction h generalizing v us with
  | start =>
    obtain ⟨rfl, rfl⟩ := cons.inj hl
    exact ⟨[], 0, le_rfl, .start, nodup_singleton _⟩
  | @step u w ws c m h he ih =>
    obtain ⟨rfl, rfl⟩ := cons.inj hl
    obtain ⟨us', c', hle, hp⟩ := ih rfl
    by_cases hv : v ∈ u :: us'
    · obtain ⟨us'', c'', hle', ht, hsuf⟩ := hp.trail.cut hv
      exact ⟨us'', c'', by omega, ht, hp.nodup.sublist hsuf.sublist⟩
    · exact ⟨u :: us', c' + m, by omega, .step hp.trail he, nodup_cons.2 ⟨hv, hp.nodup⟩⟩

lemma IsShortest.le_trail {v : V} {us us' : List V} {c' : ℕ} (h : IsShortest edge s v us c)
    (ht : Trail edge s (v :: us') c') : c ≤ c' := by
  obtain ⟨us'', c'', hle, hp⟩ := ht.exists_path
  exact (h.least us'' c'' hp).trans hle

/-- A shortest path without its last edge is a shortest path. -/
lemma IsShortest.tail {u v : V} {us : List V} (h : IsShortest edge s v (u :: us) c) :
    ∃ c' m, edge u v m ∧ c = c' + m ∧ IsShortest edge s u us c' := by
  obtain ⟨ht, hn⟩ := h.path
  cases ht with
  | @step _ _ _ c' m ht he =>
    refine ⟨c', m, he, rfl, ⟨ht, (nodup_cons.1 hn).2⟩, ?_⟩
    intro us' c'' hp
    have := h.le_trail (.step hp.trail he)
    omega

lemma IsCheapest.tail {u v : V} {us : List V} (h : IsCheapest edge s v (u :: us) c) :
    ∃ c' m, edge u v m ∧ c = c' + m ∧ IsCheapest edge s u us c' := by
  cases h.trail with
  | @step _ _ _ c' m ht he =>
    refine ⟨c', m, he, rfl, ht, fun us' c'' ht' => ?_⟩
    have := h.least _ _ (.step ht' he)
    omega

lemma IsShortest.cheapest {v : V} {us : List V} (h : IsShortest edge s v us c) :
    IsCheapest edge s v us c := ⟨h.path.trail, fun _ _ ht => h.le_trail ht⟩

lemma IsCheapest.shortest_of_path {v : V} {us us' : List V} {c' : ℕ}
    (h : IsCheapest edge s v us c) (hp : IsPath edge s (v :: us') c') (hle : c' ≤ c) :
    IsShortest edge s v us' c := by
  obtain rfl : c' = c := le_antisymm hle (h.least us' c' hp.trail)
  exact ⟨hp, fun us'' c'' hp' => h.least us'' c'' hp'.trail⟩

lemma IsCheapest.exists_shortest {v : V} {us : List V} (h : IsCheapest edge s v us c) :
    ∃ us', IsShortest edge s v us' c := by
  obtain ⟨us', c', hle, hp⟩ := h.trail.exists_path
  exact ⟨us', h.shortest_of_path hp hle⟩

lemma IsShortest.of_suffix {v w : V} {us ws : List V} (h : IsShortest edge s v us c)
    (hsuf : (w :: ws) <:+ v :: us) : ∃ c', c' ≤ c ∧ IsShortest edge s w ws c' := by
  induction us generalizing v c with
  | nil =>
    rcases suffix_cons_iff.1 hsuf with heq | hnil
    · obtain ⟨rfl, rfl⟩ := cons.inj heq
      exact ⟨c, le_rfl, h⟩
    · exact absurd (suffix_nil.1 hnil) (by simp)
  | cons u us ih =>
    rcases suffix_cons_iff.1 hsuf with heq | hsuf
    · obtain ⟨rfl, rfl⟩ := cons.inj heq
      exact ⟨c, le_rfl, h⟩
    · obtain ⟨c', m, -, rfl, h'⟩ := h.tail
      obtain ⟨c'', hle, hs⟩ := ih h' hsuf
      exact ⟨c'', by omega, hs⟩

lemma IsShortest.of_infix {v u w : V} {ws : List V} (h : IsShortest edge s w ws c)
    (hin : [v, u] <:+: w :: ws) : ∃ us c', c' ≤ c ∧ IsShortest edge s v (u :: us) c' := by
  induction ws generalizing w c with
  | nil => exact absurd hin.length_le (by simp)
  | cons u' ws ih =>
    rcases infix_cons_iff.1 hin with hpre | hin
    · obtain ⟨rfl, hpre'⟩ := cons_prefix_cons.1 hpre
      obtain ⟨rfl, -⟩ := cons_prefix_cons.1 hpre'
      exact ⟨ws, c, le_rfl, h⟩
    · obtain ⟨c', m, -, rfl, h'⟩ := h.tail
      obtain ⟨us, c'', hle, hs⟩ := ih h' hin
      exact ⟨us, c'', by omega, hs⟩

/-! ## Labels -/

/-- What a search leaves on the vertices below a bound: the start is at 0, every label is the cost
of a trail, and no edge improves one. -/
structure Labels (edge : V → V → ℕ → Prop) (s : V) (bound : ℕ) (label : V → Option ℕ) :
    Prop where
  start : label s = some 0
  real : ∀ v d, label v = some d → d < bound ∧ ∃ us, Trail edge s (v :: us) d
  closed : ∀ u d v m, label u = some d → edge u v m → d + m < bound →
    ∃ d', label v = some d' ∧ d' ≤ d + m

namespace Labels

variable {bound : ℕ} {label : V → Option ℕ}

section

variable (L : Labels edge s bound label)
include L

lemma le_trail {v : V} {us : List V} {c : ℕ} (h : Trail edge s (v :: us) c) (hc : c < bound) :
    ∃ d, label v = some d ∧ d ≤ c := by
  generalize hl : v :: us = l at h
  induction h generalizing v us with
  | start =>
    obtain ⟨rfl, rfl⟩ := cons.inj hl
    exact ⟨0, L.start, le_rfl⟩
  | @step u w ws c m h he ih =>
    obtain ⟨rfl, rfl⟩ := cons.inj hl
    obtain ⟨d, hd, hle⟩ := ih (by omega) rfl
    obtain ⟨d', hd', hle'⟩ := L.closed u d v m hd he (by omega)
    exact ⟨d', hd', by omega⟩

lemma exists_shortest {v : V} {d : ℕ} (h : label v = some d) : ∃ us, IsShortest edge s v us d := by
  obtain ⟨hlt, us, ht⟩ := L.real v d h
  have hlow : ∀ us' c', IsPath edge s (v :: us') c' → d ≤ c' := by
    intro us' c' hp
    by_cases hc : c' < bound
    · obtain ⟨d', hd', hle⟩ := L.le_trail hp.trail hc
      rw [h] at hd'
      cases hd'
      exact hle
    · omega
  obtain ⟨us', c', hle, hp⟩ := ht.exists_path
  have heq : c' = d := le_antisymm hle (hlow us' c' hp)
  subst heq
  exact ⟨us', hp, hlow⟩

lemma of_shortest {v : V} {us : List V} {c : ℕ} (h : IsShortest edge s v us c) (hc : c < bound) :
    label v = some c := by
  obtain ⟨d, hd, hle⟩ := L.le_trail h.path.trail hc
  obtain ⟨us', h'⟩ := L.exists_shortest hd
  rw [hd, le_antisymm hle (h.least us' d h'.path)]

/-- The labels are the distances below the bound. -/
lemma isLeast_iff (v : V) (d : ℕ) :
    label v = some d ↔ IsLeast {c ∈ pathCosts edge s v | c < bound} d := by
  constructor
  · intro h
    obtain ⟨us, hs⟩ := L.exists_shortest h
    refine ⟨⟨⟨us, hs.path⟩, (L.real v d h).1⟩, ?_⟩
    rintro c ⟨⟨us', hp⟩, -⟩
    exact hs.least us' c hp
  · rintro ⟨⟨⟨us, hp⟩, hlt⟩, hleast⟩
    obtain ⟨d', hd', hle⟩ := L.le_trail hp.trail hlt
    obtain ⟨us', hs⟩ := L.exists_shortest hd'
    have hge : d ≤ d' := hleast ⟨⟨us', hs.path⟩, by omega⟩
    rw [hd', le_antisymm hle hge]

/-- A shortest path grows by an edge that the labels find tight. -/
lemma extend {u v : V} {us : List V} {d m : ℕ} (h : IsShortest edge s u us d) (he : edge u v m)
    (hv : label v = some (d + m)) (hnew : v ∉ u :: us) : IsShortest edge s v (u :: us) (d + m) := by
  refine ⟨⟨.step h.path.trail he, nodup_cons.2 ⟨hnew, h.path.nodup⟩⟩, ?_⟩
  obtain ⟨us', hs⟩ := L.exists_shortest hv
  exact hs.least

end

end Labels

/-! ## Turns of a search -/

lemma sum_map_add_le {α : Type} (f f' : α → ℕ) {l : List α} {a : α} {k : ℕ} (ha : a ∈ l)
    (hle : ∀ x ∈ l, f' x ≤ f x) (hk : f' a + k ≤ f a) : (l.map f').sum + k ≤ (l.map f).sum := by
  induction l with
  | nil => cases ha
  | cons x l ih =>
    rw [map_cons, map_cons, sum_cons, sum_cons]
    have hrest : (l.map f').sum ≤ (l.map f).sum :=
      sum_le_sum fun y hy => hle y (mem_cons_of_mem _ hy)
    have hx := hle x mem_cons_self
    rcases mem_cons.1 ha with rfl | ha
    · omega
    · have := ih ha fun y hy => hle y (mem_cons_of_mem _ hy)
      omega

end Ze.Lib
