import Ze.LocRib.Path

/-!
# Path groups

A `PathGroup` holds every path that was offered for one prefix, and the index of the selected one.
Every operation ends with `selectBest`, so in a group that an operation has produced the stored
index is the selected one (`PathGroup.Selected`).
-/

namespace Ze.LocRib

open List

open Ze.Net (Prefix)

/-- The paths of one prefix; `bestIdx` is `none` for the source's -1.
Source: core/rib/locrib/entry.go. -/
structure PathGroup where
  paths : List Path
  bestIdx : Option ℕ
  deriving DecidableEq, Repr

/-- The better of the best path so far and the path at index `i`: lower distance, then lower metric,
then the one seen first. Source: entry.go selectBest (loop body). -/
def keepBest (i : ℕ) (best : Option (ℕ × Path)) (p : Path) : Option (ℕ × Path) :=
  if !p.valid then best
  else if p.hidden then best
  else
    match best with
    | none => some (i, p)
    | some (_, b) =>
      if p.adminDistance < b.adminDistance then some (i, p)
      else if b.adminDistance < p.adminDistance then best
      else if p.metric < b.metric then some (i, p)
      else best

/-- The pass over the paths from index `i`.
Source: entry.go selectBest (loop) -/
def selectFrom : ℕ → Option (ℕ × Path) → List Path → Option ℕ
  | _, best, [] => best.map Prod.fst
  | i, best, p :: ps => selectFrom (i + 1) (keepBest i best p) ps

/-- Source: entry.go. -/
def selectBest (paths : List Path) : Option ℕ :=
  selectFrom 0 none paths

namespace PathGroup

/-- A group without paths. Source: core/rib/locrib/manager.go insert. -/
def empty : PathGroup := ⟨[], none⟩

/-- Source: entry.go. -/
def best (g : PathGroup) : Option Path :=
  match g.bestIdx.bind (g.paths[·]?) with
  | none => none
  | some p => if p.valid then some p else none

/-- The group with these paths and its best one selected. -/
def select (paths : List Path) : PathGroup :=
  ⟨paths, selectBest paths⟩

/-- The paths with the one of the same key replaced, or the new one appended.
Source: entry.go PathGroup.upsert -/
def replace (p : Path) : List Path → List Path
  | [] => [p]
  | q :: qs => if q.key = p.key then p :: qs else q :: replace p qs

/-- Source: entry.go. -/
def upsert (pub : Published) (g : PathGroup) (p : Path) : PathGroup :=
  let p := { p with adminDistance := resolvedDistance pub p }
  select (replace p g.paths)

/-- Takes out the path at index `i`: the last one moves into its place.
Source: entry.go PathGroup.remove -/
def takeOut (paths : List Path) (i : ℕ) : List Path :=
  match paths.getLast? with
  | none => paths
  | some last => (paths.set i last).dropLast

/-- The group without the path of this key, and whether there was one. Source: entry.go. -/
def remove (g : PathGroup) (k : PathKey) : PathGroup × Bool :=
  match g.paths.findIdx? (·.key = k) with
  | none => (g, false)
  | some i => (select (takeOut g.paths i), true)

/-- Every path judged again from its producer's values, and ranked again.
Source: core/rib/locrib/distance.go reselectShard (one prefix) -/
def rejudge (pub : Published) (fam : Family) (pfx : Prefix) (g : PathGroup) : PathGroup :=
  select (g.paths.map fun p =>
    let stored := admitted pub.snapshot fam pfx (producerPath p)
    { stored with adminDistance := resolvedDistance pub stored })

/-! ## The selected index -/

def Selected (g : PathGroup) : Prop :=
  g.bestIdx = selectBest g.paths

lemma selected_select (paths : List Path) : (select paths).Selected := rfl

lemma selected_upsert (pub : Published) (g : PathGroup) (p : Path) :
    (g.upsert pub p).Selected := rfl

lemma selected_rejudge (pub : Published) (fam : Family) (pfx : Prefix) (g : PathGroup) :
    (g.rejudge pub fam pfx).Selected := rfl

lemma selected_remove {g : PathGroup} (h : g.Selected) (k : PathKey) : (g.remove k).1.Selected := by
  unfold remove
  split
  · exact h
  · exact selected_select _

end PathGroup

lemma keepBest_cases (i : ℕ) (best : Option (ℕ × Path)) (p : Path) :
    keepBest i best p = best ∧ (best = none → p.selectable = false) ∨
      keepBest i best p = some (i, p) ∧ p.selectable := by
  unfold keepBest Path.selectable
  cases hvalid : p.valid with
  | false => simp
  | true =>
    cases hhidden : p.hidden with
    | true => simp
    | false =>
      cases best with
      | none => simp
      | some b =>
        dsimp only
        split_ifs <;> simp_all

lemma selectFrom_spec (pre ps : List Path) (best : Option (ℕ × Path))
    (hbest : ∀ (i : ℕ) (b : Path), best = some (i, b) → pre[i]? = some b ∧ b.selectable) :
    (∀ i : ℕ, selectFrom pre.length best ps = some i →
        ∃ p, (pre ++ ps)[i]? = some p ∧ p.selectable) ∧
      (selectFrom pre.length best ps = none → best = none ∧ ∀ p ∈ ps, p.selectable = false) := by
  induction ps generalizing pre best with
  | nil =>
    unfold selectFrom
    rw [append_nil]
    cases best with
    | none => simp
    | some b =>
      obtain ⟨i, b⟩ := b
      refine ⟨fun j hj => ?_, by simp⟩
      cases hj
      exact ⟨b, hbest i b rfl⟩
  | cons p ps ih =>
    unfold selectFrom
    have hlen : (pre ++ [p]).length = pre.length + 1 := by simp
    have happ : pre ++ p :: ps = pre ++ [p] ++ ps := by simp
    rw [happ, ← hlen]
    rcases keepBest_cases pre.length best p with ⟨hkeep, hp⟩ | ⟨hkeep, hp⟩
    · have hbest' : ∀ (i : ℕ) (b : Path), best = some (i, b) →
          (pre ++ [p])[i]? = some b ∧ b.selectable := by
        intro i b hib
        obtain ⟨hget, hsel⟩ := hbest i b hib
        refine ⟨?_, hsel⟩
        rw [getElem?_append_left (List.getElem?_eq_some_iff.mp hget).1, hget]
      obtain ⟨h₁, h₂⟩ := ih (pre ++ [p]) best hbest'
      rw [hkeep]
      refine ⟨h₁, fun h => ?_⟩
      obtain ⟨hnone, hps⟩ := h₂ h
      refine ⟨hnone, fun q hq => ?_⟩
      rcases mem_cons.1 hq with rfl | hq
      · exact hp hnone
      · exact hps q hq
    · obtain ⟨h₁, h₂⟩ := ih (pre ++ [p]) (some (pre.length, p)) (by
        intro i b hib
        cases hib
        exact ⟨by simp, hp⟩)
      rw [hkeep]
      exact ⟨h₁, fun h => absurd (h₂ h).1 (Option.some_ne_none _)⟩

namespace PathGroup

variable {g : PathGroup}

lemma Selected.best_selectable (h : g.Selected) {p : Path} (hp : g.best = some p) :
    p ∈ g.paths ∧ p.selectable := by
  obtain ⟨hsome, -⟩ := selectFrom_spec [] g.paths none (by simp)
  unfold best at hp
  rw [h] at hp
  cases hi : selectBest g.paths with
  | none => simp [hi] at hp
  | some i =>
    obtain ⟨q, hq, hsel⟩ := hsome i hi
    rw [nil_append] at hq
    have hvalid : q.valid := (Bool.and_eq_true _ _ ▸ hsel).1
    rw [hi, Option.bind_some, hq] at hp
    simp only [hvalid, if_true] at hp
    cases hp
    exact ⟨mem_of_getElem? hq, hsel⟩

lemma Selected.best_eq_none_iff (h : g.Selected) :
    g.best = none ↔ ∀ p ∈ g.paths, p.selectable = false := by
  obtain ⟨hsome, hnone⟩ := selectFrom_spec [] g.paths none (by simp)
  constructor
  · intro hbest
    cases hi : selectBest g.paths with
    | none => exact (hnone hi).2
    | some i =>
      obtain ⟨q, hq, hsel⟩ := hsome i hi
      rw [nil_append] at hq
      have hvalid : q.valid := (Bool.and_eq_true _ _ ▸ hsel).1
      unfold best at hbest
      rw [h, hi, Option.bind_some, hq] at hbest
      simp [hvalid] at hbest
  · intro hall
    rw [Option.eq_none_iff_forall_ne_some]
    intro p hp
    obtain ⟨hmem, hsel⟩ := h.best_selectable hp
    rw [hall p hmem] at hsel
    exact absurd hsel Bool.false_ne_true

end PathGroup

end Ze.LocRib
