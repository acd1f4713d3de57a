import Mathlib.Algebra.Order.Ring.Int
import Ze.LocRib.Group
import Ze.Lib.FirstLeast

/-!
# Ties between paths

Among paths of the same administrative distance and metric the one seen first is selected, where
first is a place in the slice of the group. A removal moves the last path into the place that became
free. So the removal of another path can move the selection.
-/

namespace Ze.LocRib

open Ze.Lib List

/-! ## The selection -/

/-- Distance, then metric, as one number. Source: core/rib/locrib/entry.go selectBest. -/
def Path.rank (p : Path) : ℕ :=
  p.adminDistance.toNat * 2 ^ 32 + p.metric.toNat

lemma Path.rank_eq_iff {p q : Path} :
    p.rank = q.rank ↔ p.adminDistance = q.adminDistance ∧ p.metric = q.metric := by
  have hp := p.metric.toNat_lt
  have hq := q.metric.toNat_lt
  rw [← UInt8.toNat_inj, ← UInt32.toNat_inj, rank, rank]
  omega

lemma keepBest_some (i b : ℕ) (p q : Path) :
    keepBest i (some (b, q)) p =
      if p.selectable = true ∧ p.rank < q.rank then some (i, p) else some (b, q) := by
  have hp := p.metric.toNat_lt
  have hq := q.metric.toNat_lt
  unfold keepBest Path.selectable Path.rank
  simp only [UInt8.lt_iff_toNat_lt, UInt32.lt_iff_toNat_lt]
  rcases hvalid : p.valid with _ | _
  · simp
  · rcases hhidden : p.hidden with _ | _
    · simp only [Bool.not_true, Bool.not_false, Bool.and_self, Bool.false_eq_true, if_false,
        true_and]
      split_ifs <;> first | rfl | omega
    · simp

lemma keepBest_none (i : ℕ) (p : Path) :
    keepBest i none p = if p.selectable = true then some (i, p) else none := by
  unfold keepBest Path.selectable
  rcases hvalid : p.valid with _ | _
  · simp
  · rcases hhidden : p.hidden with _ | _ <;> simp

/-- What the selection has after the paths it has seen. -/
def Seen (pre : List Path) : Option (ℕ × Path) → Prop
  | none => ∀ p ∈ pre, ¬ p.selectable = true
  | some (b, p) => FirstLeast (fun q : Path => q.selectable = true) Path.rank pre b p

lemma seen_keepBest {pre : List Path} {best : Option (ℕ × Path)} (h : Seen pre best) (p : Path) :
    Seen (pre ++ [p]) (keepBest pre.length best p) := by
  have hget : ∀ (j : ℕ) (x : Path), (pre ++ [p])[j]? = some x →
      pre[j]? = some x ∨ (j = pre.length ∧ x = p) := by
    intro j x hx
    rw [getElem?_append] at hx
    split_ifs at hx with hlt
    · exact .inl hx
    · obtain ⟨hj, rfl⟩ := List.getElem?_eq_some_iff.mp hx
      rw [length_singleton] at hj
      exact .inr ⟨by omega, by simp⟩
  rcases best with _ | ⟨b, q⟩
  · rw [keepBest_none]
    split_ifs with hsel
    · refine ⟨by simp, hsel, fun j x hx hokx => ?_, fun j x hx hokx hj => ?_⟩
      · rcases hget j x hx with hx | ⟨-, rfl⟩
        · exact absurd hokx (h x (mem_of_getElem? hx))
        · exact Nat.le_refl _
      · rcases hget j x hx with hx | ⟨rfl, -⟩
        · exact absurd hokx (h x (mem_of_getElem? hx))
        · omega
    · intro x hx
      rcases mem_append.1 hx with hx | hx
      · exact h x hx
      · rwa [mem_singleton.1 hx]
  · have hb : b < pre.length := (List.getElem?_eq_some_iff.mp h.get).1
    rw [keepBest_some]
    split_ifs with hbetter
    · refine ⟨by simp, hbetter.1, fun j x hx hokx => ?_, fun j x hx hokx hj => ?_⟩
      · rcases hget j x hx with hx | ⟨-, rfl⟩
        · exact Nat.le_of_lt (Nat.lt_of_lt_of_le hbetter.2 (h.least j x hx hokx))
        · exact Nat.le_refl _
      · rcases hget j x hx with hx | ⟨rfl, -⟩
        · exact Nat.lt_of_lt_of_le hbetter.2 (h.least j x hx hokx)
        · omega
    · refine ⟨?_, h.eligible, fun j x hx hokx => ?_, fun j x hx hokx hj => ?_⟩
      · rw [getElem?_append_left hb, h.get]
      · rcases hget j x hx with hx | ⟨-, rfl⟩
        · exact h.least j x hx hokx
        · exact Nat.not_lt.1 fun hlt => hbetter ⟨hokx, hlt⟩
      · rcases hget j x hx with hx | ⟨rfl, -⟩
        · exact h.first j x hx hokx hj
        · omega

lemma seen_selectFrom (ps pre : List Path) (best : Option (ℕ × Path)) (h : Seen pre best) :
    ∃ best', selectFrom pre.length best ps = best'.map Prod.fst ∧ Seen (pre ++ ps) best' := by
  induction ps generalizing pre best with
  | nil =>
    refine ⟨best, rfl, ?_⟩
    rwa [append_nil]
  | cons p ps ih =>
    obtain ⟨best', hsel, hseen⟩ := ih (pre ++ [p]) _ (seen_keepBest h p)
    rw [length_append, length_singleton] at hsel
    refine ⟨best', hsel, ?_⟩
    rwa [append_assoc, singleton_append] at hseen

/-- The selected path is the first of the least ranked selectable ones; there is none if no path is
selectable. -/
lemma seen_selectBest (paths : List Path) :
    ∃ best, selectBest paths = best.map Prod.fst ∧ Seen paths best :=
  seen_selectFrom paths [] none fun p hp => by cases hp

/-! ## Groups -/

namespace PathGroup

variable {g : PathGroup} {k : PathKey} {i b : ℕ} {p : Path}

/-- What upserts and removals keep: the stored index is the selected one, and the paths have
different keys. -/
structure Grouped (g : PathGroup) : Prop where
  selected : g.Selected
  keys : (g.paths.map Path.key).Nodup

lemma Selected.best_eq_some_iff (h : g.Selected) : g.best = some p ↔
    ∃ b, FirstLeast (fun q : Path => q.selectable = true) Path.rank g.paths b p := by
  have hbest : ∀ b q, FirstLeast (fun q : Path => q.selectable = true) Path.rank g.paths b q →
      g.best = some q := by
    intro b q hq
    obtain ⟨best, hsel, hseen⟩ := seen_selectBest g.paths
    rcases best with _ | ⟨b', q'⟩
    · exact absurd hq.eligible (hseen q (mem_of_getElem? hq.get))
    · obtain ⟨rfl, rfl⟩ := hq.unique hseen
      have hvalid : q.valid := (Bool.and_eq_true _ _ ▸ hq.eligible).1
      rw [best, h, hsel, Option.map_some, Option.bind_some, hq.get]
      exact if_pos hvalid
  constructor
  · intro hp
    obtain ⟨hmem, hsel⟩ := h.best_selectable hp
    obtain ⟨best, -, hseen⟩ := seen_selectBest g.paths
    rcases best with _ | ⟨b', q'⟩
    · exact absurd hsel (hseen p hmem)
    · obtain rfl := Option.some.inj ((hbest b' q' hseen).symm.trans hp)
      exact ⟨b', hseen⟩
  · rintro ⟨b, hb⟩
    exact hbest b p hb

lemma swapRemoved_takeOut {paths : List Path} (hi : i < paths.length) :
    SwapRemoved paths i (takeOut paths i) := by
  intro j
  have hget := getElem?_eq_getElem (l := paths) (i := paths.length - 1) (by omega)
  rw [takeOut, getLast?_eq_getElem?, hget]
  simp only
  rw [getElem?_dropLast, length_set, getElem?_set]
  split_ifs <;> first | rfl | omega

lemma map_key_replace (p : Path) (paths : List Path) :
    (replace p paths).map Path.key =
      if p.key ∈ paths.map Path.key then paths.map Path.key else paths.map Path.key ++ [p.key] := by
  induction paths with
  | nil => rfl
  | cons q qs ih =>
    rw [replace]
    by_cases hkey : q.key = p.key
    · rw [if_pos hkey, map_cons, map_cons, hkey, if_pos mem_cons_self]
    · rw [if_neg hkey, map_cons, map_cons, ih]
      by_cases hmem : p.key ∈ qs.map Path.key
      · rw [if_pos hmem, if_pos (mem_cons_of_mem _ hmem)]
      · rw [if_neg hmem, if_neg, cons_append]
        rw [mem_cons]
        rintro (heq | hin)
        · exact hkey heq.symm
        · exact hmem hin

lemma Grouped.upsert (h : g.Grouped) (pub : Published) (p : Path) : (g.upsert pub p).Grouped := by
  refine ⟨selected_upsert pub g p, ?_⟩
  simp only [PathGroup.upsert, select, map_key_replace]
  split_ifs with hmem
  · exact h.keys
  · rw [nodup_append]
    refine ⟨h.keys, nodup_singleton _, fun x hx y hy heq => hmem ?_⟩
    rw [mem_singleton.1 hy] at heq
    rwa [heq] at hx

lemma Grouped.remove (h : g.Grouped) (k : PathKey) : (g.remove k).1.Grouped := by
  refine ⟨selected_remove h.selected k, ?_⟩
  unfold PathGroup.remove
  split
  · exact h.keys
  · rename_i i hi
    obtain ⟨hlt, -⟩ := findIdx?_eq_some_iff_getElem.1 hi
    exact ((swapRemoved_takeOut hlt).map Path.key).nodup h.keys

/-! ## Removals -/

/-- The path of this key stands before the best one, and the last path of the slice, behind the best
one, is selectable and of the same distance and metric. -/
def Overtaken (g : PathGroup) (k : PathKey) : Prop :=
  ∃ i b p z, g.paths.findIdx? (·.key = k) = some i ∧ g.bestIdx = some b ∧ g.paths[b]? = some p ∧
    g.paths.getLast? = some z ∧ i < b ∧ b + 1 < g.paths.length ∧ z.selectable = true ∧
    z.adminDistance = p.adminDistance ∧ z.metric = p.metric

/-- The removal of another path leaves the selection exactly when the best path is not overtaken. -/
lemma Grouped.best_remove_iff (h : g.Grouped) (hne : ∀ p, g.best = some p → p.key ≠ k) :
    (g.remove k).1.best = g.best ↔ ¬ g.Overtaken k := by
  rcases hfind : g.paths.findIdx? (fun p => decide (p.key = k)) with _ | i
  · refine ⟨fun _ => ?_, fun _ => ?_⟩
    · rintro ⟨i, b, p, z, hi, -⟩
      rw [hfind] at hi
      cases hi
    · rw [PathGroup.remove, hfind]
  obtain ⟨hilt, hikey, -⟩ := findIdx?_eq_some_iff_getElem.1 hfind
  have hremove : (g.remove k).1 = select (takeOut g.paths i) := by rw [PathGroup.remove, hfind]
  have hswap := swapRemoved_takeOut hilt
  have hlast : g.paths.getLast? = g.paths[g.paths.length - 1]? := getLast?_eq_getElem?
  obtain ⟨best, hsel, hseen⟩ := seen_selectBest g.paths
  rw [hremove]
  rcases best with _ | ⟨b, p⟩
  · -- Nothing is selectable, before and after.
    have hnone : g.best = none :=
      h.selected.best_eq_none_iff.2 fun q hq => Bool.not_eq_true _ ▸ hseen q hq
    have hnone' : (select (takeOut g.paths i)).best = none := by
      rw [(selected_select _).best_eq_none_iff]
      intro q hq
      obtain ⟨j, hj⟩ := mem_iff_getElem?.1 hq
      rw [← Bool.not_eq_true]
      rcases hswap.mem hj with ⟨-, hx, -⟩ | ⟨-, hx, -⟩ <;> exact hseen q (mem_of_getElem? hx)
    refine ⟨fun _ => ?_, fun _ => hnone'.trans hnone.symm⟩
    rintro ⟨i', b', p', z, -, hb', -⟩
    rw [h.selected, hsel] at hb'
    cases hb'
  · have hbest : g.best = some p := h.selected.best_eq_some_iff.2 ⟨b, hseen⟩
    have hib : i ≠ b := by
      rintro rfl
      apply hne p hbest
      obtain ⟨-, rfl⟩ := List.getElem?_eq_some_iff.mp hseen.get
      exact of_decide_eq_true hikey
    rw [hbest]
    constructor
    · rintro hsame ⟨i', b', p', z, hi', hb', hp', hz, hlt, hbl, hzsel, hdist, hmetric⟩
      obtain rfl := Option.some.inj (hfind.symm.trans hi')
      rw [h.selected, hsel] at hb'
      cases hb'
      obtain rfl := Option.some.inj (hseen.get.symm.trans hp')
      rw [hlast] at hz
      have hrank : z.rank = p.rank := Path.rank_eq_iff.2 ⟨hdist, hmetric⟩
      have hmoved := hseen.displaced hswap hlt hbl hz hzsel hrank
      have hz' := (selected_select (takeOut g.paths i)).best_eq_some_iff.2 ⟨i, hmoved⟩
      obtain rfl := Option.some.inj (hz'.symm.trans hsame)
      -- The last path is not the best one: their keys differ.
      have hkeys := nodup_iff_getElem?_ne_getElem?.1 h.keys b (g.paths.length - 1) (by omega)
        (by rw [length_map]; omega)
      apply hkeys
      rw [getElem?_map, getElem?_map, hseen.get, hz]
    · intro hkeep
      rw [(selected_select _).best_eq_some_iff]
      refine hseen.swapRemoved hswap hilt hib fun z hlt hbl hz hzsel hrank => hkeep ?_
      obtain ⟨hdist, hmetric⟩ := Path.rank_eq_iff.1 hrank
      refine ⟨i, b, p, z, hfind, ?_, hseen.get, ?_, hlt, hbl, hzsel, hdist, hmetric⟩
      · rw [h.selected, hsel]
        rfl
      · rw [hlast, hz]

/-! ## Runs -/

/-- What is done to a group. Source: entry.go PathGroup.upsert, remove. -/
inductive Edit where
  | upsert (pub : Published) (p : Path)
  | remove (k : PathKey)

/-- Source: entry.go PathGroup.upsert, remove. -/
def edit (g : PathGroup) : Edit → PathGroup
  | .upsert pub p => g.upsert pub p
  | .remove k => (g.remove k).1

/-- The group that edits make. Source: core/rib/locrib/manager.go insert, Remove. -/
def ofEdits (edits : List Edit) : PathGroup :=
  edits.foldl edit empty

lemma grouped_ofEdits (edits : List Edit) : (ofEdits edits).Grouped := by
  induction edits using reverseRecOn with
  | nil => exact ⟨rfl, nodup_nil⟩
  | append_singleton edits e ih =>
    rw [ofEdits, foldl_append]
    rcases e with ⟨pub, p⟩ | k
    · exact Grouped.upsert ih pub p
    · exact Grouped.remove ih k

/-- **Removing another path.** In every group that upserts and removals make, the removal of a path
that is not the best one leaves the best path as it is if and only if it does not let the last path
overtake it: the removed path stood before the best one, and the last one, behind it, is selectable
and of the same distance and metric. -/
theorem removal_keeps_best_iff (edits : List Edit) (k : PathKey)
    (hne : ∀ p, (ofEdits edits).best = some p → p.key ≠ k) :
    ((ofEdits edits).remove k).1.best = (ofEdits edits).best ↔ ¬ (ofEdits edits).Overtaken k :=
  (grouped_ofEdits edits).best_remove_iff hne

/-- No policy and no declared distance; the protocols 1, 2 and 3. -/
def examplePublished : Published where
  snapshot := none
  declared := fun _ => none
  protocolName := fun id => if id = 1 then "ospf" else if id = 2 then "static" else "dhcp"

/-- A path of a protocol, of distance 10 unless it is of OSPF. -/
def examplePath (id : ProtocolID) : Path :=
  { source := id, hasDistanceOverride := id ≠ 1, distanceOverride := 10 }

/-- An OSPF path, then two paths of one distance and metric. -/
def exampleEdits : List Edit :=
  [.upsert examplePublished (examplePath 1), .upsert examplePublished (examplePath 2),
    .upsert examplePublished (examplePath 3)]

/-- The removal of the last path leaves the best one. -/
theorem removal_of_last_keeps_best :
    ((ofEdits exampleEdits).remove (3, 0)).1.best = (ofEdits exampleEdits).best := by
  rw [removal_keeps_best_iff _ _ (by decide +kernel)]
  rintro ⟨i, b, p, z, hi, hb, -, -, hlt, -⟩
  have hfind : (ofEdits exampleEdits).paths.findIdx? (fun p => decide (p.key = (3, 0))) =
      some 2 := by
    decide +kernel
  have hidx : (ofEdits exampleEdits).bestIdx = some 1 := by decide +kernel
  obtain rfl := Option.some.inj (hfind.symm.trans hi)
  obtain rfl := Option.some.inj (hidx.symm.trans hb)
  omega

/-- Of the two paths of one distance and metric the first is selected. The removal of the OSPF path
moves the selection to the other. -/
theorem removal_moves_best :
    (ofEdits exampleEdits).best.map Path.key = some (2, 0) ∧
      ((ofEdits exampleEdits).remove (1, 0)).1.best.map Path.key = some (3, 0) := by
  decide +kernel

end PathGroup

end Ze.LocRib
