import Mathlib.Data.Option.Basic
import Mathlib.Data.List.Basic

/-!
# Streams of changes to a keyed view

A producer holds a view `K → Option V` and emits changes, which a consumer replays into a map of its
own. `apply` fails on a change that does not fit the map (an `add` of a held key, an `update` or
`remove` of a missing one).

`Emits` says what a producer owes for one key, up to a relation `agree` between values;
`apply_emits` and `replay_keys` then give a consumer that agrees with the producer again.
-/

namespace Ze.Lib

open List

variable {K V : Type*}

inductive Delta (K V : Type*) where
  | add (k : K) (v : V)
  | update (k : K) (v : V)
  | remove (k : K)
  deriving DecidableEq, Repr

namespace Delta

def key : Delta K V → K
  | add k _ => k
  | update k _ => k
  | remove k => k

variable [DecidableEq K]

/-- The consumer's map after one change; fails on a change that does not fit. -/
def apply (m : K → Option V) : Delta K V → Option (K → Option V)
  | add k v => if (m k).isNone then some (Function.update m k (some v)) else none
  | update k v => if (m k).isSome then some (Function.update m k (some v)) else none
  | remove k => if (m k).isSome then some (Function.update m k none) else none

def replay : (K → Option V) → List (Delta K V) → Option (K → Option V)
  | m, [] => some m
  | m, d :: ds => (apply m d).bind fun m' => replay m' ds

/-- What a producer owes for key `k` when its view goes from `prev` to `new`. -/
def Emits (agree : V → V → Prop) (k : K) (prev new : Option V) : Option (Delta K V) → Prop
  | none => Option.Rel agree prev new
  | some (add k' v) => k' = k ∧ prev = none ∧ new = some v
  | some (update k' v) => k' = k ∧ prev ≠ none ∧ new = some v
  | some (remove k') => k' = k ∧ prev ≠ none ∧ new = none

variable {agree : V → V → Prop} {m : K → Option V} {k : K} {prev new : Option V}
  {d : Option (Delta K V)}

lemma replay_append (m : K → Option V) (ds es : List (Delta K V)) :
    replay m (ds ++ es) = (replay m ds).bind fun m' => replay m' es := by
  induction ds generalizing m with
  | nil => rfl
  | cons d ds ih =>
    simp only [cons_append, replay]
    cases apply m d with
    | none => rfl
    | some m' => exact ih m'

lemma eq_none_iff_of_rel {x y : Option V} (h : Option.Rel agree x y) : x = none ↔ y = none := by
  cases h <;> simp

lemma rel_trans (htrans : ∀ u v w, agree u v → agree v w → agree u w) {x y z : Option V}
    (hxy : Option.Rel agree x y) (hyz : Option.Rel agree y z) : Option.Rel agree x z := by
  cases hxy with
  | none => exact hyz
  | some hab =>
    cases hyz with
    | some hbc => exact .some (htrans _ _ _ hab hbc)

lemma eq_iff_rel_eq {x y : Option V} : Option.Rel Eq x y ↔ x = y := by
  constructor
  · intro h
    cases h with
    | some heq => rw [heq]
    | none => rfl
  · rintro rfl
    cases x with
    | none => exact .none
    | some v => exact .some rfl

/-- The consumer of one key's change agrees with the producer again, and its other keys are as
before. -/
lemma apply_emits (hrefl : ∀ v, agree v v) (htrans : ∀ u v w, agree u v → agree v w → agree u w)
    (hm : Option.Rel agree (m k) prev) (hd : Emits agree k prev new d) :
    ∃ m', replay m d.toList = some m' ∧ Option.Rel agree (m' k) new ∧
      ∀ k', k' ≠ k → m' k' = m k' := by
  cases d with
  | none =>
    exact ⟨m, rfl, rel_trans htrans hm hd, fun _ _ => rfl⟩
  | some d =>
    have hsome : ∀ v : V, new = some v → ∀ m' : K → Option V, m' = Function.update m k (some v) →
        Option.Rel agree (m' k) new ∧ ∀ k', k' ≠ k → m' k' = m k' := by
      rintro v rfl m' rfl
      refine ⟨?_, fun k' hk' => Function.update_of_ne hk' _ _⟩
      rw [Function.update_self]
      exact .some (hrefl v)
    cases d with
    | add k' v =>
      obtain ⟨rfl, hprev, hnew⟩ := hd
      have hnone : (m k').isNone := by
        rw [Option.isNone_iff_eq_none]
        exact (eq_none_iff_of_rel hm).2 hprev
      refine ⟨_, ?_, hsome v hnew _ rfl⟩
      simp only [Option.toList, replay, apply, hnone, if_true, Option.bind_some]
    | update k' v =>
      obtain ⟨rfl, hprev, hnew⟩ := hd
      have hheld : (m k').isSome := by
        rw [← Option.ne_none_iff_isSome]
        exact fun h => hprev ((eq_none_iff_of_rel hm).1 h)
      refine ⟨_, ?_, hsome v hnew _ rfl⟩
      simp only [Option.toList, replay, apply, hheld, if_true, Option.bind_some]
    | remove k' =>
      obtain ⟨rfl, hprev, rfl⟩ := hd
      have hheld : (m k').isSome := by
        rw [← Option.ne_none_iff_isSome]
        exact fun h => hprev ((eq_none_iff_of_rel hm).1 h)
      refine ⟨Function.update m k' none, ?_, ?_, fun k'' hk'' => Function.update_of_ne hk'' _ _⟩
      · simp only [Option.toList, replay, apply, hheld, if_true, Option.bind_some]
      · rw [Function.update_self]
        exact .none

lemma replay_keys (hrefl : ∀ v, agree v v)
    (htrans : ∀ u v w, agree u v → agree v w → agree u w) {before after : K → Option V}
    {change : K → Option (Delta K V)} (ks : List K) (hnodup : ks.Nodup) :
    ∀ m : K → Option V, (∀ k ∈ ks, Option.Rel agree (m k) (before k)) →
      (∀ k ∈ ks, Emits agree k (before k) (after k) (change k)) →
      ∃ m', replay m (ks.filterMap change) = some m' ∧
        (∀ k ∈ ks, Option.Rel agree (m' k) (after k)) ∧ ∀ k, k ∉ ks → m' k = m k := by
  induction ks with
  | nil => exact fun m _ _ => ⟨m, rfl, by simp, fun _ _ => rfl⟩
  | cons k ks ih =>
    intro m hm hchange
    rw [nodup_cons] at hnodup
    obtain ⟨m₁, hreplay₁, hk, hother⟩ :=
      apply_emits hrefl htrans (hm k mem_cons_self) (hchange k mem_cons_self)
    have hm₁ : ∀ k' ∈ ks, Option.Rel agree (m₁ k') (before k') := by
      intro k' hk'
      rw [hother k' (fun h => hnodup.1 (h ▸ hk'))]
      exact hm k' (mem_cons_of_mem _ hk')
    obtain ⟨m₂, hreplay₂, hks, hrest⟩ :=
      ih hnodup.2 m₁ hm₁ fun k' hk' => hchange k' (mem_cons_of_mem _ hk')
    refine ⟨m₂, ?_, ?_, ?_⟩
    · have hsplit : (k :: ks).filterMap change = (change k).toList ++ ks.filterMap change := by
        cases h : change k <;> simp [h]
      rw [hsplit, replay_append, hreplay₁, Option.bind_some, hreplay₂]
    · intro k' hk'
      rcases mem_cons.1 hk' with rfl | hk'
      · rw [hrest k' hnodup.1]
        exact hk
      · exact hks k' hk'
    · intro k' hk'
      rw [mem_cons, not_or] at hk'
      rw [hrest k' hk'.2, hother k' hk'.1]

/-! ## A consumer that takes every change -/

def value : Delta K V → Option V
  | add _ v => some v
  | update _ v => some v
  | remove _ => none

/-- The map after one change, whether it fits or not. -/
def write (m : K → Option V) (d : Delta K V) : K → Option V := Function.update m d.key d.value

def writeAll (m : K → Option V) (ds : List (Delta K V)) : K → Option V := ds.foldl write m

def Apart (cs ds : List (Delta K V)) : Prop := ∀ c ∈ cs, ∀ d ∈ ds, c.key ≠ d.key

instance (cs ds : List (Delta K V)) : Decidable (Apart cs ds) :=
  inferInstanceAs (Decidable (∀ c ∈ cs, _))

section

variable {cs ds : List (Delta K V)} {m' : K → Option V}

lemma writeAll_append (m : K → Option V) (cs ds : List (Delta K V)) :
    writeAll m (cs ++ ds) = writeAll (writeAll m cs) ds :=
  foldl_append

lemma write_eq_of_apply {d : Delta K V} (h : apply m d = some m') : write m d = m' := by
  cases d with
  | add k v | update k v | remove k =>
    simp only [apply] at h
    split_ifs at h
    exact Option.some.inj h

lemma writeAll_eq_of_replay (h : replay m ds = some m') : writeAll m ds = m' := by
  induction ds generalizing m with
  | nil => exact Option.some.inj h
  | cons d ds ih =>
    rw [replay] at h
    obtain ⟨m₁, happly, hrest⟩ := Option.bind_eq_some_iff.1 h
    rw [← write_eq_of_apply happly] at hrest
    exact ih hrest

lemma writeAll_rel {R : Option V → Option V → Prop} (hrefl : ∀ x, R x x) (hm : R (m k) (m' k))
    (ds : List (Delta K V)) : R (writeAll m ds k) (writeAll m' ds k) := by
  induction ds generalizing m m' with
  | nil => exact hm
  | cons d ds ih =>
    apply ih
    unfold write
    by_cases hd : k = d.key
    · subst hd
      rw [Function.update_self, Function.update_self]
      exact hrefl _
    · rw [Function.update_of_ne hd, Function.update_of_ne hd]
      exact hm

/-- What holds of the value at a key, and of every value the stream writes there, holds after it. -/
lemma writeAll_of_forall {P : Option V → Prop} (hm : P (m k))
    (hds : ∀ d ∈ ds, d.key = k → P d.value) : P (writeAll m ds k) := by
  induction ds generalizing m with
  | nil => exact hm
  | cons d ds ih =>
    apply ih
    · unfold write
      by_cases hd : k = d.key
      · subst hd
        rw [Function.update_self]
        exact hds d mem_cons_self rfl
      · rw [Function.update_of_ne hd]
        exact hm
    · exact fun e he => hds e (mem_cons_of_mem d he)

lemma writeAll_filter (m : K → Option V) (ds : List (Delta K V)) (k : K) :
    writeAll m ds k = writeAll m (ds.filter fun d => d.key = k) k := by
  induction ds generalizing m with
  | nil => rfl
  | cons d ds ih =>
    rw [filter_cons]
    by_cases hd : d.key = k
    · rw [if_pos (decide_eq_true hd)]
      exact ih (write m d)
    · rw [if_neg (by simpa using hd), ← ih m]
      have hwrite : write m d k = m k := Function.update_of_ne (Ne.symm hd) _ _
      exact writeAll_rel (fun _ => rfl) hwrite ds

/-- Streams about other keys commute. -/
lemma writeAll_comm (m : K → Option V) (h : Apart cs ds) :
    writeAll m (cs ++ ds) = writeAll m (ds ++ cs) := by
  funext k
  rw [writeAll_filter m (cs ++ ds), writeAll_filter m (ds ++ cs), filter_append, filter_append]
  by_cases hcs : cs.filter (fun d => d.key = k) = []
  · rw [hcs, append_nil, nil_append]
  · have hds : ds.filter (fun d => d.key = k) = [] := by
      obtain ⟨c, hc⟩ := exists_mem_of_ne_nil _ hcs
      rw [mem_filter, decide_eq_true_iff] at hc
      rw [filter_eq_nil_iff]
      intro d hd heq
      apply h c hc.1 d hd
      rw [hc.2, of_decide_eq_true heq]
    rw [hds, append_nil, nil_append]

/-- A stream cut by a part of the key, the parts in any order, writes the same. -/
lemma writeAll_flatMap_filter {F : Type*} [DecidableEq F] (part : K → F) (m : K → Option V)
    {parts : List F} (hnodup : parts.Nodup) (ds : List (Delta K V))
    (hparts : ∀ d ∈ ds, part d.key ∈ parts) :
    writeAll m (parts.flatMap fun p => ds.filter fun d => part d.key = p) = writeAll m ds := by
  funext k
  rw [writeAll_filter m (flatMap _ _), writeAll_filter m ds]
  -- one part has every change of the key, the others have none
  have hone : ∀ p, (ds.filter fun d => part d.key = p).filter (fun d => d.key = k) =
      if part k = p then ds.filter (fun d => d.key = k) else [] := by
    intro p
    rw [filter_filter]
    split_ifs with hp
    · apply filter_congr
      intro d _
      by_cases hd : d.key = k
      · simp [hd, hp]
      · simp [hd]
    · rw [filter_eq_nil_iff]
      intro d _ hd
      rw [Bool.and_eq_true, decide_eq_true_iff, decide_eq_true_iff] at hd
      exact hp (hd.1 ▸ hd.2)
  have hcut : ∀ ps : List F, ps.Nodup →
      (ps.flatMap fun p => ds.filter fun d => part d.key = p).filter (fun d => d.key = k) =
        if part k ∈ ps then ds.filter (fun d => d.key = k) else [] := by
    intro ps hps
    induction ps with
    | nil => rfl
    | cons p ps ih =>
      rw [nodup_cons] at hps
      rw [flatMap_cons, filter_append, hone, ih hps.2]
      by_cases hp : part k = p
      · subst hp
        simp [hps.1]
      · simp [hp]
  rw [hcut parts hnodup]
  split_ifs with hmem
  · rfl
  · have hnone : ds.filter (fun d => d.key = k) = [] := by
      rw [filter_eq_nil_iff]
      intro d hd heq
      apply hmem
      rw [← of_decide_eq_true heq]
      exact hparts d hd
    rw [hnone]

end

end Delta

end Ze.Lib
