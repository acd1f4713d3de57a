import Mathlib.Data.List.Nodup
import Mathlib.Data.List.Perm.Subperm
import Ze.Lib.Delta
import Ze.LocRib.Rib

/-!
# The change events of the Loc-RIB

What the Loc-RIB tells its subscribers: for every prefix whose best path or equal-cost set moved, a
`Delta` of the view `(best path, ECMP next-hops)`. A change is suppressed when the best paths are
`Path.equal` and `equalNextHopSets` holds, which on a list without repetitions is equality of sets
(`equalNextHopSets_iff`).
-/

namespace Ze.LocRib

open List

open Ze.Net (Prefix)
open Ze.Lib (Delta)
open Function (update update_of_ne update_self)
open Option (bind_none bind_some getD_some some_ne_none)

/-- Source: core/rib/locrib/candidate.go. -/
def Path.equal (p q : Path) : Bool :=
  decide (p.source = q.source ∧
    p.inst = q.inst ∧
    p.nextHop = q.nextHop ∧
    p.interface = q.interface ∧
    p.onLink = q.onLink ∧
    p.weight = q.weight ∧
    p.adminDistance = q.adminDistance ∧
    p.distanceOverride = q.distanceOverride ∧
    p.hasDistanceOverride = q.hasDistanceOverride ∧
    p.metric = q.metric ∧
    p.isBGP = q.isBGP ∧
    p.aigp = q.aigp ∧
    p.aigpPresent = q.aigpPresent ∧
    p.metricRecursive = q.metricRecursive ∧
    p.srv6SID = q.srv6SID ∧
    p.backupNextHop = q.backupNextHop ∧
    p.backupInterface = q.backupInterface ∧
    p.backupOnLink = q.backupOnLink ∧
    p.routeType = q.routeType ∧
    p.tag = q.tag ∧
    p.hasTag = q.hasTag ∧
    p.level = q.level ∧
    p.ospfRouteType = q.ospfRouteType ∧
    p.hidden = q.hidden ∧
    p.hiddenBy = q.hiddenBy ∧
    p.labels = q.labels ∧
    p.backupRepairLabels = q.backupRepairLabels)

/-- The next-hop of a path in an equal-cost set. Source: core/rib/locrib/manager.go siblingNextHops.
-/
def Path.asNextHop (p : Path) : NextHop :=
  ⟨p.nextHop, p.interface, p.onLink, p.weight⟩

/-- One path of the group, seen by the loop that collects the siblings of `best`.
Source: manager.go siblingNextHops (loop body) -/
def addSibling (best : Path) (out : List NextHop) (p : Path) : List NextHop :=
  if p.source ≠ best.source then out
  else if p.hidden then out
  else if !p.nextHop.isValid && decide (p.interface = "") then out
  else if p.nextHop = best.nextHop ∧ p.interface = best.interface then out
  else if p.adminDistance ≠ best.adminDistance ∨ p.metric ≠ best.metric then out
  else if p.asNextHop ∈ out then out
  else out ++ [p.asNextHop]

/-- Source: manager.go. -/
def siblingNextHops (g : PathGroup) (best : Path) : List NextHop :=
  if !best.valid then []
  else if best.ecmp ≠ [] then best.ecmp
  else if g.paths.length ≤ 1 then []
  else g.paths.foldl (addSibling best) []

/-- Source: manager.go. -/
def equalNextHopSets (a b : List NextHop) : Bool :=
  if a.length ≠ b.length then false else a.all (· ∈ b)

/-- What a subscriber knows about a prefix: the best path and its equal-cost next-hops.
Source: core/rib/locrib/change.go Change -/
abbrev View := Path × List NextHop

/-- A change event. Insert attaches a forward handle to some of them, which nothing here reads.
Source: change.go. -/
abbrev Change := Delta (Family × Prefix) View

/-- The view of a group. Source: manager.go insert. -/
def PathGroup.view (g : PathGroup) : Option View :=
  g.best.map fun b => (b, siblingNextHops g b)

/-- The event for a prefix whose view went from `prev` to `new`.
Source: manager.go insert (the switch) -/
def changeOf (k : Family × Prefix) (prev new : Option View) : Option Change :=
  match prev, new with
  | none, none => none
  | some _, none => some (.remove k)
  | none, some v => some (.add k v)
  | some u, some v =>
    if !u.1.equal v.1 then some (.update k v)
    else if !equalNextHopSets u.2 v.2 then some (.update k v)
    else none

/-- The event of an insert. Source: manager.go insert. -/
def insertChange (pub : Published) (fam : Family) (pfx : Prefix) (p : Path)
    (s : Store PathGroup) : Option Change :=
  let g := (s.lookup pfx).getD PathGroup.empty
  changeOf (fam, pfx) ((s.lookup pfx).bind PathGroup.view)
    (g.upsert pub (admitted pub.snapshot fam pfx p)).view

/-- The event of a removal. Its own switch compares with the zero path when there was no best.
Source: manager.go Remove -/
def removeChange (fam : Family) (pfx : Prefix) (key : PathKey) (s : Store PathGroup) :
    Option Change :=
  match s.lookup pfx with
  | none => none
  | some g =>
    let (g', removed) := g.remove key
    if !removed then none
    else
      match g'.view with
      | none => if g.view.isSome then some (.remove (fam, pfx)) else none
      | some v =>
        let prev := g.view.getD ({}, [])
        if !prev.1.equal v.1 || !equalNextHopSets prev.2 v.2 then some (.update (fam, pfx) v)
        else none

/-- The event for one prefix of a Reselect pass.
Source: core/rib/locrib/distance.go reselectShard, dispatchReselected -/
def reselectChange (pub : Published) (fam : Family) (pfx : Prefix) (s : Store PathGroup) :
    Option Change :=
  changeOf (fam, pfx) ((s pfx).bind PathGroup.view)
    ((s pfx).bind fun g => (g.rejudge pub fam pfx).view)

/-! ## The events of a call -/

/-- Source: core/rib/locrib/shard.go. -/
def shardFor (hash : Prefix → UInt64) (shards : List (Store PathGroup)) (pfx : Prefix) :
    Store PathGroup :=
  shards[shardIndex hash pfx shards.length]?.getD Store.empty

/-- A Reselect pass visits every stored prefix of every shard once, in some order.
Source: distance.go Reselect, reselectShard -/
def Rib.Visits (r : Rib) (order : List (Family × ℕ × Prefix)) : Prop :=
  order.Nodup ∧ ∀ (fam : Family) (i : ℕ) (pfx : Prefix), (fam, i, pfx) ∈ order ↔
    ∃ sh : Store PathGroup, (r.families fam).bind (·[i]?) = some sh ∧ sh pfx ≠ none

def Rib.reselectAt (r : Rib) (pub : Published) (at_ : Family × ℕ × Prefix) : Option Change :=
  ((r.families at_.1).bind (·[at_.2.1]?)).bind (reselectChange pub at_.1 at_.2.2)

/-- The events a call dispatches.
Source: manager.go insert, Remove, distance.go Reselect -/
def Rib.Dispatches (r : Rib) (pub : Published) : Op → List Change → Prop
  | .insert fam pfx p, cs =>
    cs = if !p.valid || !pfx.isValid then []
      else (insertChange pub fam pfx p (shardFor r.hash (r.familyShardsFor fam) pfx)).toList
  | .remove fam pfx source inst, cs =>
    cs = if !pfx.isValid then []
      else
        match r.families fam with
        | none => []
        | some shards => (removeChange fam pfx (source, inst) (shardFor r.hash shards pfx)).toList
  | .reselect, cs =>
    ∃ order, r.Visits order ∧ cs = order.filterMap (r.reselectAt pub)

/-- The Loc-RIB after a run, with the events it dispatched to a subscriber that was there from the
start. -/
inductive Log (n : ℕ) (hash : Prefix → UInt64) : Calls → Rib → List Change → Prop
  | new : Log n hash [] (Rib.new n hash) []
  | call {calls : Calls} {r : Rib} {cs ds : List Change} (pub : Published) (op : Op) :
      Log n hash calls r cs → r.Dispatches pub op ds →
        Log n hash (calls ++ [(pub, op)]) (r.step pub op) (cs ++ ds)

/-- The current view of a prefix. Source: manager.go Lookup, Best. -/
def Rib.current (r : Rib) (fam : Family) (pfx : Prefix) : Option View :=
  ((r.families fam).bind fun shards => (shardFor r.hash shards pfx).lookup pfx).bind
    PathGroup.view

/-- Two views agree: equal best paths, and the same set of next-hops. -/
def Agree (u v : View) : Prop :=
  u.1.equal v.1 = true ∧ ∀ nh, nh ∈ u.2 ↔ nh ∈ v.2

/-! ## Equality of views -/

/-- The part of a path that consumers see. Source: candidate.go Path.Equal. -/
def Path.shown (p : Path) : Path :=
  { p with isEBGP := false, ecmp := [], original := {} }

lemma Path.equal_iff (p q : Path) : p.equal q ↔ p.shown = q.shown := by
  unfold Path.equal Path.shown
  rw [decide_eq_true_iff, Path.mk.injEq]
  constructor
  · rintro ⟨h₁, h₂, h₃, h₄, h₅, h₆, h₇, h₈, h₉, h₁₀, h₁₁, h₁₂, h₁₃, h₁₄, h₁₅, h₁₆, h₁₇, h₁₈, h₁₉,
      h₂₀, h₂₁, h₂₂, h₂₃, h₂₄, h₂₅, h₂₆, h₂₇⟩
    simp only [*, and_self]
  · intro h
    simp only [h, and_self]

lemma Agree.refl (v : View) : Agree v v :=
  ⟨(Path.equal_iff _ _).2 rfl, fun _ => Iff.rfl⟩

lemma Agree.trans (u v w : View) (huv : Agree u v) (hvw : Agree v w) : Agree u w := by
  refine ⟨?_, fun nh => (huv.2 nh).trans (hvw.2 nh)⟩
  rw [Path.equal_iff]
  exact ((Path.equal_iff _ _).1 huv.1).trans ((Path.equal_iff _ _).1 hvw.1)

lemma mem_iff_of_equalNextHopSets {a b : List NextHop} (ha : a.Nodup)
    (h : equalNextHopSets a b) (nh : NextHop) : nh ∈ a ↔ nh ∈ b := by
  unfold equalNextHopSets at h
  split_ifs at h with hlen
  rw [ne_eq, not_not] at hlen
  have hsub : a ⊆ b := by
    intro x hx
    simpa using all_eq_true.1 h x hx
  have hperm : a.Perm b := (subperm_of_subset ha hsub).perm_of_length_le hlen.ge
  exact hperm.mem_iff

variable {best p q : Path} {ps : List Path} {i : ℕ} {hash : Prefix → UInt64} {s : Store PathGroup}
  {f : Store PathGroup → Store PathGroup} {order : List (Family × ℕ × Prefix)}

lemma nodup_addSibling {out : List NextHop} (h : out.Nodup) (p : Path) :
    (addSibling best out p).Nodup := by
  unfold addSibling
  split_ifs with _ _ _ _ _ hmem
  · exact h
  · exact h
  · exact h
  · exact h
  · exact h
  · exact h
  · rw [nodup_append]
    refine ⟨h, by simp, fun x hx y hy heq => hmem ?_⟩
    rw [← mem_singleton.1 hy, ← heq]
    exact hx

lemma nodup_siblingNextHops {g : PathGroup} (h : best.ecmp.Nodup) :
    (siblingNextHops g best).Nodup := by
  unfold siblingNextHops
  split_ifs
  · exact nodup_nil
  · exact h
  · exact nodup_nil
  · exact foldlRecOn g.paths (addSibling best) nodup_nil
      fun out hout p _ => nodup_addSibling hout p

/-! ## The events of one group -/

lemma changeOf_emits (k : Family × Prefix) {prev new : Option View}
    (hnodup : ∀ u, prev = some u → u.2.Nodup) :
    Delta.Emits Agree k prev new (changeOf k prev new) := by
  unfold changeOf
  rcases prev with _ | u <;> rcases new with _ | v
  · exact .none
  · exact ⟨rfl, rfl, rfl⟩
  · exact ⟨rfl, some_ne_none u, rfl⟩
  · dsimp only
    split_ifs with hbest hset
    · exact ⟨rfl, some_ne_none u, rfl⟩
    · exact ⟨rfl, some_ne_none u, rfl⟩
    · refine .some ⟨by simpa using hbest, ?_⟩
      exact mem_iff_of_equalNextHopSets (hnodup u rfl) (by simpa using hset)

/-- The paths of a group carry equal-cost lists without repetitions. -/
def PathGroup.NoRepeats (g : PathGroup) : Prop :=
  ∀ p ∈ g.paths, p.ecmp.Nodup

lemma PathGroup.NoRepeats.view_nodup {g : PathGroup} (hg : g.NoRepeats) {u : View}
    (hu : g.view = some u) : u.2.Nodup := by
  obtain ⟨b, hb, rfl⟩ := Option.map_eq_some_iff.mp hu
  apply nodup_siblingNextHops
  apply hg
  unfold PathGroup.best at hb
  cases hget : g.bestIdx.bind (g.paths[·]?) with
  | none =>
    rw [hget] at hb
    cases hb
  | some p =>
    rw [hget] at hb
    obtain ⟨i, -, hi⟩ := Option.bind_eq_some_iff.mp hget
    simp only [Option.ite_none_right_eq_some, Option.some.injEq] at hb
    rw [← hb.2]
    exact mem_of_getElem? hi

@[simp]
lemma ecmp_admitted (snap : Option Snapshot) (fam : Family) (pfx : Prefix) (p : Path) :
    (admitted snap fam pfx p).ecmp = p.ecmp := by
  unfold admitted
  cases snap with
  | none => rfl
  | some snap =>
    dsimp only
    split_ifs <;> rfl

lemma PathGroup.mem_replace (h : q ∈ PathGroup.replace p ps) : q = p ∨ q ∈ ps := by
  induction ps with
  | nil => exact .inl (mem_singleton.1 h)
  | cons r rs ih =>
    unfold PathGroup.replace at h
    split_ifs at h
    · exact (mem_cons.1 h).imp_right (mem_cons_of_mem _)
    · rcases mem_cons.1 h with rfl | h
      · exact .inr mem_cons_self
      · exact (ih h).imp_right (mem_cons_of_mem _)

lemma PathGroup.mem_takeOut
    (h : q ∈ PathGroup.takeOut ps i) : q ∈ ps := by
  unfold PathGroup.takeOut at h
  cases hlast : ps.getLast? with
  | none =>
    rw [hlast] at h
    exact h
  | some last =>
    rw [hlast] at h
    have hmem : q ∈ ps.set i last := dropLast_subset _ h
    rcases mem_or_eq_of_mem_set hmem with h | rfl
    · exact h
    · exact mem_of_getLast? hlast

section

variable {g : PathGroup}

lemma PathGroup.NoRepeats.upsert (hg : g.NoRepeats) (pub : Published) {p : Path}
    (hp : p.ecmp.Nodup) : (g.upsert pub p).NoRepeats := by
  intro q hq
  rcases PathGroup.mem_replace hq with rfl | hq
  · exact hp
  · exact hg q hq

variable {k : PathKey}

lemma PathGroup.mem_remove {q : Path} (h : q ∈ (g.remove k).1.paths) : q ∈ g.paths := by
  unfold PathGroup.remove at h
  split at h
  · exact h
  · exact PathGroup.mem_takeOut h

lemma PathGroup.NoRepeats.rejudge (hg : g.NoRepeats) (pub : Published) (fam : Family)
    (pfx : Prefix) : (g.rejudge pub fam pfx).NoRepeats := by
  intro q hq
  obtain ⟨p, hp, rfl⟩ := mem_map.1 hq
  dsimp only
  rw [ecmp_admitted]
  exact hg p hp

lemma PathGroup.remove_of_not_removed (h : (g.remove k).2 = false) : (g.remove k).1 = g := by
  unfold PathGroup.remove at h ⊢
  split at h
  · rfl
  · cases h

lemma rel_refl (v : Option View) : Option.Rel Agree v v := by
  cases v with
  | none => exact .none
  | some v => exact .some (Agree.refl v)

lemma PathGroup.view_remove_eq_none (hg : g.Selected) (h : g.view = none) :
    (g.remove k).1.view = none := by
  unfold PathGroup.view at h ⊢
  rw [Option.map_eq_none_iff] at h ⊢
  rw [(PathGroup.selected_remove hg k).best_eq_none_iff]
  intro p hp
  exact hg.best_eq_none_iff.1 h p (PathGroup.mem_remove hp)

lemma removeChange_emits {fam : Family} {pfx : Prefix} {s : Store PathGroup}
    (hg : ∀ g, s.lookup pfx = some g → g.Selected ∧ g.NoRepeats) :
    Delta.Emits Agree (fam, pfx) ((s.lookup pfx).bind PathGroup.view)
      ((s.lookup pfx).bind fun g => (g.remove k).1.view) (removeChange fam pfx k s) := by
  cases hl : s.lookup pfx with
  | none =>
    simp only [removeChange, hl, bind_none]
    exact .none
  | some g =>
    obtain ⟨hselected, hrepeats⟩ := hg g hl
    simp only [removeChange, hl, bind_some]
    cases hremoved : (g.remove k).2 with
    | false =>
      rw [PathGroup.remove_of_not_removed hremoved]
      simp only [Bool.not_false, if_true]
      exact rel_refl g.view
    | true =>
      simp only [Bool.not_true, Bool.false_eq_true, if_false]
      cases hnew : (g.remove k).1.view with
      | none =>
        cases hprev : g.view with
        | none => exact .none
        | some u => exact ⟨rfl, some_ne_none u, rfl⟩
      | some v =>
        cases hprev : g.view with
        | none =>
          rw [PathGroup.view_remove_eq_none hselected hprev] at hnew
          cases hnew
        | some u =>
          simp only [getD_some]
          split_ifs with hchanged
          · exact ⟨rfl, some_ne_none u, rfl⟩
          · rw [Bool.or_eq_true, not_or] at hchanged
            refine .some ⟨by simpa using hchanged.1, ?_⟩
            exact mem_iff_of_equalNextHopSets (hrepeats.view_nodup hprev)
              (by simpa using hchanged.2)

end

/-! ## The events of one call -/

def Table.view (t : Table) (k : Family × Prefix) : Option View :=
  (t k.1 k.2).bind PathGroup.view

/-- A call that hands over a masked prefix and an equal-cost list without repetitions. -/
def Op.Clean : Op → Prop
  | .insert _ pfx p => pfx.masked = pfx ∧ p.ecmp.Nodup
  | .remove _ pfx _ _ => pfx.masked = pfx
  | .reselect => True

/-- The groups of a table carry equal-cost lists without repetitions. -/
def Table.NoRepeats (t : Table) : Prop :=
  ∀ fam pfx g, t fam pfx = some g → g.NoRepeats

variable {r : Rib} {t : Table} {pub : Published} {op : Op} {fam : Family} {pfx : Prefix}
  {m : Family × Prefix → Option View} {cs : List Change}

lemma Store.lookup_of_masked {T : Type} (s : Store T) (hvalid : pfx.isValid)
    (hmasked : pfx.masked = pfx) : s.lookup pfx = s pfx := by
  unfold Store.lookup
  rw [if_pos hvalid, hmasked]

lemma Distributes.shardFor_apply {shards : List (Store PathGroup)} (h : Distributes hash shards s)
    (hlen : 1 ≤ shards.length) : shardFor hash shards pfx pfx = s pfx := by
  have hlt := shardIndex_lt hash pfx hlen
  unfold shardFor
  rw [getElem?_eq_getElem hlt, getD_some, h _ _ (getElem?_eq_getElem hlt) pfx, if_pos rfl]

lemma Refines.familyShardsFor_apply (h : Refines r t) :
    shardFor r.hash (r.familyShardsFor fam) pfx pfx = t fam pfx := by
  have hfam := h fam
  unfold Rib.familyShardsFor
  cases hshards : r.families fam with
  | none =>
    rw [hshards] at hfam
    rw [Option.getD_none, show t fam = Store.empty from hfam]
    refine (distributes_new r.hash r.nShards).shardFor_apply ?_
    rw [newFamilyShards, length_replicate]
    omega
  | some shards =>
    rw [hshards] at hfam
    rw [getD_some]
    exact hfam.2.shardFor_apply (by omega)

lemma view_update_of_ne (hf : Local pfx f)
    (hmasked : pfx.masked = pfx) {k : Family × Prefix} (hk : k ≠ (fam, pfx)) :
    Table.view (update t fam (f (t fam))) k = t.view k := by
  obtain ⟨fam', q⟩ := k
  unfold Table.view
  by_cases hfam : fam' = fam
  · subst hfam
    have hq : q ≠ pfx.masked := by
      rw [hmasked]
      rintro rfl
      exact hk rfl
    dsimp only
    rw [update_self, hf.other _ q hq]
  · dsimp only
    rw [update_of_ne hfam]

lemma replay_update (hf : Local pfx f)
    (hmasked : pfx.masked = pfx) {d : Option Change} (hm : ∀ k, Option.Rel Agree (m k) (t.view k))
    (hd : Delta.Emits Agree (fam, pfx) (t.view (fam, pfx))
      ((f (t fam) pfx).bind PathGroup.view) d) :
    ∃ m', Delta.replay m d.toList = some m' ∧
      ∀ k, Option.Rel Agree (m' k) (Table.view (update t fam (f (t fam))) k) := by
  obtain ⟨m', hreplay, hself, hother⟩ :=
    Delta.apply_emits Agree.refl Agree.trans (hm (fam, pfx)) hd
  refine ⟨m', hreplay, fun k => ?_⟩
  by_cases hk : k = (fam, pfx)
  · subst hk
    unfold Table.view
    dsimp only
    rw [update_self]
    exact hself
  · rw [hother k hk, view_update_of_ne hf hmasked hk]
    exact hm k

lemma replay_insert (hr : Refines r t) (hrepeats : t.NoRepeats)
    (hm : ∀ k, Option.Rel Agree (m k) (t.view k)) (hmasked : pfx.masked = pfx)
    (hd : r.Dispatches pub (.insert fam pfx p) cs) :
    ∃ m', Delta.replay m cs = some m' ∧
      ∀ k, Option.Rel Agree (m' k) ((t.step pub (.insert fam pfx p)).view k) := by
  simp only [Rib.Dispatches, Table.step] at hd ⊢
  split_ifs at hd ⊢ with hinvalid
  · subst hd
    exact ⟨m, rfl, hm⟩
  · subst hd
    rw [Bool.or_eq_true, not_or, Bool.not_eq_true', Bool.not_eq_true',
      Bool.not_eq_false, Bool.not_eq_false] at hinvalid
    have hvalid : pfx.isValid := hinvalid.2
    apply replay_update (local_insertPath pub fam pfx p) hmasked hm
    unfold insertChange insertPath
    rw [Store.insert_apply, if_pos ⟨hvalid, hmasked.symm⟩, bind_some,
      Store.lookup_of_masked _ hvalid hmasked, Store.lookup_of_masked _ hvalid hmasked,
      hr.familyShardsFor_apply]
    apply changeOf_emits
    intro u hu
    obtain ⟨g, hg, hview⟩ := Option.bind_eq_some_iff.1 hu
    exact (hrepeats fam pfx g hg).view_nodup hview

lemma view_removePath {k : PathKey} (hvalid : pfx.isValid)
    (hmasked : pfx.masked = pfx) : (removePath pfx k s pfx).bind PathGroup.view =
      (s.lookup pfx).bind fun g => (g.remove k).1.view := by
  cases hl : s.lookup pfx with
  | none =>
    rw [Store.lookup_of_masked s hvalid hmasked] at hl
    simp only [removePath, Store.lookup_of_masked s hvalid hmasked, hl, bind_none]
  | some g =>
    simp only [removePath, hl, bind_some]
    split_ifs with hempty
    · rw [Bool.and_eq_true, List.isEmpty_iff] at hempty
      rw [Store.delete_apply, if_pos ⟨hvalid, hmasked.symm⟩]
      simp [PathGroup.view, PathGroup.best, hempty.2]
    · rw [Store.insert_apply, if_pos ⟨hvalid, hmasked.symm⟩, bind_some]

lemma replay_remove (hr : Refines r t) (hwf : t.WellFormed) (hrepeats : t.NoRepeats)
    (hm : ∀ k, Option.Rel Agree (m k) (t.view k)) {source : ProtocolID} {inst : UInt32}
    (hmasked : pfx.masked = pfx) (hd : r.Dispatches pub (.remove fam pfx source inst) cs) :
    ∃ m', Delta.replay m cs = some m' ∧
      ∀ k, Option.Rel Agree (m' k) ((t.step pub (.remove fam pfx source inst)).view k) := by
  simp only [Rib.Dispatches, Table.step] at hd ⊢
  split_ifs at hd ⊢ with hinvalid
  · subst hd
    exact ⟨m, rfl, hm⟩
  · have hvalid : pfx.isValid := by simpa using hinvalid
    have hfam := hr fam
    cases hshards : r.families fam with
    | none =>
      rw [hshards] at hfam hd
      have hsame : removePath pfx (source, inst) (t fam) = t fam := by
        rw [show t fam = Store.empty from hfam]
        simp [removePath, Store.lookup, Store.empty]
      subst hd
      rw [hsame, Function.update_eq_self]
      exact ⟨m, rfl, hm⟩
    | some shards =>
      rw [hshards] at hfam hd
      subst hd
      apply replay_update (local_removePath pfx (source, inst)) hmasked hm
      have hlookup : (shardFor r.hash shards pfx).lookup pfx = (t fam).lookup pfx := by
        rw [Store.lookup_of_masked _ hvalid hmasked, Store.lookup_of_masked _ hvalid hmasked]
        exact hfam.2.shardFor_apply (by omega)
      have hsame : removeChange fam pfx (source, inst) (shardFor r.hash shards pfx) =
          removeChange fam pfx (source, inst) (t fam) := by
        unfold removeChange
        rw [hlookup]
      rw [hsame, view_removePath hvalid hmasked]
      unfold Table.view
      rw [← Store.lookup_of_masked (t fam) hvalid hmasked]
      apply removeChange_emits
      intro g hg
      rw [Store.lookup_of_masked _ hvalid hmasked] at hg
      exact ⟨(hwf fam pfx g hg).2.2, hrepeats fam pfx g hg⟩

lemma Refines.visit (hr : Refines r t) (hvisits : r.Visits order) (h : (fam, i, pfx) ∈ order) :
    i = shardIndex r.hash pfx (max r.nShards 1) ∧ ∀ pub,
      r.reselectAt pub (fam, i, pfx) = reselectChange pub fam pfx (t fam) := by
  obtain ⟨sh, hsh, hstored⟩ := (hvisits.2 fam i pfx).1 h
  have hfam := hr fam
  obtain ⟨shards, hshards, hi⟩ := Option.bind_eq_some_iff.1 hsh
  rw [hshards] at hfam
  have hself := hfam.2 i sh hi pfx
  have hown : shardIndex r.hash pfx shards.length = i := by
    by_contra hne
    rw [if_neg hne] at hself
    exact hstored hself
  rw [if_pos hown] at hself
  refine ⟨hfam.1 ▸ hown.symm, fun pub => ?_⟩
  unfold Rib.reselectAt reselectChange
  dsimp only
  rw [hsh, bind_some, hself]

lemma Refines.exists_visit (hr : Refines r t)
    (hvisits : r.Visits order) (h : t fam pfx ≠ none) : ∃ i, (fam, i, pfx) ∈ order := by
  have hfam := hr fam
  cases hshards : r.families fam with
  | none =>
    rw [hshards] at hfam
    rw [show t fam = Store.empty from hfam] at h
    exact absurd rfl h
  | some shards =>
    rw [hshards] at hfam
    have hlt := shardIndex_lt r.hash pfx (show 1 ≤ shards.length by omega)
    refine ⟨shardIndex r.hash pfx shards.length, (hvisits.2 _ _ _).2
      ⟨shards[shardIndex r.hash pfx shards.length], ?_, ?_⟩⟩
    · rw [hshards, bind_some, getElem?_eq_getElem hlt]
    · rw [hfam.2 _ _ (getElem?_eq_getElem hlt) pfx, if_pos rfl]
      exact h

lemma replay_reselect (hr : Refines r t) (hrepeats : t.NoRepeats)
    (hm : ∀ k, Option.Rel Agree (m k) (t.view k)) (hd : r.Dispatches pub .reselect cs) :
    ∃ m', Delta.replay m cs = some m' ∧
      ∀ k, Option.Rel Agree (m' k) ((t.step pub .reselect).view k) := by
  obtain ⟨order, hvisits, rfl⟩ := hd
  -- the visited prefixes, without the shard each was found in
  let ks := order.map fun at_ => (at_.1, at_.2.2)
  have hnodup : ks.Nodup := by
    refine List.Nodup.map_on ?_ hvisits.1
    rintro ⟨fam₁, i₁, pfx₁⟩ h₁ ⟨fam₂, i₂, pfx₂⟩ h₂ heq
    cases heq
    rw [(hr.visit hvisits h₁).1, (hr.visit hvisits h₂).1]
  have hchanges : order.filterMap (r.reselectAt pub) =
      ks.filterMap fun k => reselectChange pub k.1 k.2 (t k.1) := by
    rw [filterMap_map]
    apply filterMap_congr
    rintro ⟨fam, i, pfx⟩ h
    exact (hr.visit hvisits h).2 pub
  have hemits : ∀ k ∈ ks, Delta.Emits Agree k (t.view k) ((t.step pub .reselect).view k)
      (reselectChange pub k.1 k.2 (t k.1)) := by
    intro k _
    have hnew : (t.step pub .reselect).view k =
        (t k.1 k.2).bind fun g => (g.rejudge pub k.1 k.2).view := by
      unfold Table.view
      simp only [Table.step, reselectStore]
      cases t k.1 k.2 <;> rfl
    rw [hnew]
    apply changeOf_emits
    intro u hu
    obtain ⟨g, hg, hview⟩ := Option.bind_eq_some_iff.1 hu
    exact (hrepeats k.1 k.2 g hg).view_nodup hview
  obtain ⟨m', hreplay, hks, hother⟩ :=
    Delta.replay_keys Agree.refl Agree.trans ks hnodup m (fun k _ => hm k) hemits
  refine ⟨m', by rw [hchanges, hreplay], fun k => ?_⟩
  by_cases hk : k ∈ ks
  · exact hks k hk
  · -- a prefix that was not visited is not stored
    have hnone : t k.1 k.2 = none := by
      by_contra hstored
      obtain ⟨i, hi⟩ := hr.exists_visit hvisits hstored
      exact hk (mem_map.2 ⟨_, hi, rfl⟩)
    have hview := hm k
    rw [hother k hk]
    unfold Table.view at hview ⊢
    simp only [Table.step, reselectStore]
    rw [hnone] at hview ⊢
    exact hview

lemma Table.NoRepeats.step (h : t.NoRepeats) (pub : Published) (hop : op.Clean) :
    (t.step pub op).NoRepeats := by
  have hinsert : ∀ {s : Store PathGroup} {pfx : Prefix} {g : PathGroup}, g.NoRepeats →
      (∀ q g, s q = some g → g.NoRepeats) → ∀ q g', s.insert pfx g q = some g' → g'.NoRepeats := by
    intro s pfx g hg hs q g' hq
    rw [Store.insert_apply] at hq
    split_ifs at hq
    · rw [Option.some.injEq] at hq
      exact hq ▸ hg
    · exact hs q g' hq
  have hupdate : ∀ {fam : Family} {s : Store PathGroup}, (∀ q g, s q = some g → g.NoRepeats) →
      Table.NoRepeats (update t fam s) := by
    intro fam s hs fam' q g hg
    by_cases hfam : fam' = fam
    · subst hfam
      rw [update_self] at hg
      exact hs q g hg
    · rw [update_of_ne hfam] at hg
      exact h fam' q g hg
  cases op with
  | insert fam pfx p =>
    simp only [Table.step]
    split_ifs
    · exact h
    · refine hupdate (hinsert (PathGroup.NoRepeats.upsert ?_ pub ?_) (h fam))
      · cases hl : (t fam).lookup pfx with
        | none => exact fun p hp => absurd hp not_mem_nil
        | some g =>
          unfold Store.lookup at hl
          split_ifs at hl
          exact h fam _ g hl
      · rw [ecmp_admitted]
        exact hop.2
  | remove fam pfx source inst =>
    simp only [Table.step]
    split_ifs
    · exact h
    · apply hupdate
      cases hl : (t fam).lookup pfx with
      | none =>
        simp only [removePath, hl]
        exact h fam
      | some g =>
        have hg : g.NoRepeats := by
          unfold Store.lookup at hl
          split_ifs at hl
          exact h fam _ g hl
        simp only [removePath, hl]
        split_ifs
        · intro q g' hq
          rw [Store.delete_apply] at hq
          split_ifs at hq
          exact h fam q g' hq
        · exact hinsert (fun p hp => hg p (PathGroup.mem_remove hp)) (h fam)
  | reselect =>
    intro fam q g hg
    simp only [Table.step, reselectStore, Option.map_eq_some_iff] at hg
    obtain ⟨g₀, hg₀, rfl⟩ := hg
    exact (h fam q g₀ hg₀).rejudge pub fam q

/-! ## The events of a run -/

def Calls.Clean (calls : Calls) : Prop :=
  ∀ call ∈ calls, call.2.Clean

lemma Log.invariant {n : ℕ} {calls : Calls} (h : Log n hash calls r cs) (hclean : calls.Clean) :
    ∃ t : Table, Refines r t ∧ t.WellFormed ∧ t.NoRepeats ∧
      ∃ m, Delta.replay (fun _ => none) cs = some m ∧
        ∀ k, Option.Rel Agree (m k) (t.view k) := by
  induction h with
  | new =>
    refine ⟨Table.empty, refines_new n hash, ?_, ?_, fun _ => none, rfl, fun _ => .none⟩
    · intro fam pfx g hg
      cases hg
    · intro fam pfx g hg
      cases hg
  | @call calls r cs ds pub op _ hd ih =>
    obtain ⟨t, hr, hwf, hrepeats, m, hreplay, hm⟩ :=
      ih fun call hcall => hclean call (mem_append_left _ hcall)
    have hop : op.Clean := hclean (pub, op) (by simp)
    have hconsistent : ∀ pfx, op.pfx? = some pfx → HashConsistent r.hash (max r.nShards 1) pfx := by
      intro pfx hpfx
      cases op with
      | insert fam q p =>
        cases hpfx
        exact hashConsistent_of_masked hop.1 _ _
      | remove fam q source inst =>
        cases hpfx
        exact hashConsistent_of_masked hop _ _
      | reselect => cases hpfx
    have hstep : ∃ m', Delta.replay m ds = some m' ∧
        ∀ k, Option.Rel Agree (m' k) ((t.step pub op).view k) := by
      cases op with
      | insert fam pfx p => exact replay_insert hr hrepeats hm hop.1 hd
      | remove fam pfx source inst => exact replay_remove hr hwf hrepeats hm hop hd
      | reselect => exact replay_reselect hr hrepeats hm hd
    obtain ⟨m', hreplay', hm'⟩ := hstep
    refine ⟨t.step pub op, hr.step pub op hconsistent, hwf.step pub op, hrepeats.step pub hop,
      m', ?_, hm'⟩
    rw [Delta.replay_append, hreplay, bind_some, hreplay']

/-- **Theorem.** When producers hand over masked prefixes and equal-cost lists without repetitions,
the events of every run can be replayed, and the replay agrees with the current best path and
equal-cost set of every prefix. -/
theorem replay_log_agrees {n : ℕ} {hash : Prefix → UInt64} {calls : Calls}
    (h : Log n hash calls r cs) (hclean : calls.Clean) :
    ∃ m, Delta.replay (fun _ => none) cs = some m ∧
      ∀ fam pfx, pfx.masked = pfx → Option.Rel Agree (m (fam, pfx)) (r.current fam pfx) := by
  obtain ⟨t, hr, hwf, -, m, hreplay, hm⟩ := h.invariant hclean
  refine ⟨m, hreplay, fun fam pfx hmasked => ?_⟩
  have hview := hm (fam, pfx)
  have hcurrent : r.current fam pfx = t.view (fam, pfx) := by
    have hfam := hr fam
    unfold Rib.current Table.view
    dsimp only
    cases hshards : r.families fam with
    | none =>
      rw [hshards] at hfam
      rw [bind_none, show t fam = Store.empty from hfam]
      rfl
    | some shards =>
      rw [hshards] at hfam
      rw [bind_some]
      by_cases hvalid : pfx.isValid
      · rw [Store.lookup_of_masked _ hvalid hmasked, hfam.2.shardFor_apply (by omega)]
      · -- nothing is stored under an invalid prefix
        have hnone : t fam pfx = none := by
          rw [Option.eq_none_iff_forall_ne_some]
          intro g hg
          exact hvalid (hwf fam pfx g hg).2.1
        unfold Store.lookup
        rw [if_neg hvalid, hnone]
  rw [hcurrent]
  exact hview

/-! ## A repeated next-hop -/

def unpublished : Published := ⟨none, fun _ => none, fun _ => "static"⟩

/-- A static route to 10.0.0.0/8 with these equal-cost next-hops. -/
def staticRoute (ecmp : List NextHop) : Op :=
  .insert ⟨1, 1⟩ ⟨.v4 0x0a000000#32, 8⟩ { source := 1, ecmp := ecmp }

def twoCalls (first second : Op) : Calls :=
  [(unpublished, first), (unpublished, second)]

def anyHash : Prefix → UInt64 := fun _ => 0

lemma log_twoCalls {first second : Op} {cs ds : List Change}
    (hfirst : (Rib.new 1 anyHash).Dispatches unpublished first cs)
    (hsecond : ((Rib.new 1 anyHash).step unpublished first).Dispatches unpublished second ds) :
    Log 1 anyHash (twoCalls first second) ((Rib.new 1 anyHash).run (twoCalls first second))
      (cs ++ ds) :=
  .call unpublished second (.call unpublished first .new hfirst) hsecond

def gateway (n : BitVec 32) : NextHop :=
  { addr := .v4 (0xc0000200#32 + n) }

/-- An equal-cost set that grows. -/
theorem replay_log_agrees_grow :
    (twoCalls (staticRoute [gateway 1]) (staticRoute [gateway 1, gateway 2])).Clean ∧
      ∃ r cs, Log 1 anyHash (twoCalls (staticRoute [gateway 1])
          (staticRoute [gateway 1, gateway 2])) r cs ∧
        ∃ m, Delta.replay (fun _ => none) cs = some m ∧
          ∀ fam pfx, pfx.masked = pfx → Option.Rel Agree (m (fam, pfx)) (r.current fam pfx) := by
  have hclean : (twoCalls (staticRoute [gateway 1])
      (staticRoute [gateway 1, gateway 2])).Clean := by
    intro call hcall
    simp only [twoCalls, mem_cons, not_mem_nil, or_false] at hcall
    rcases hcall with rfl | rfl <;> exact ⟨by decide, by decide⟩
  exact ⟨hclean, _, _, log_twoCalls rfl rfl, replay_log_agrees (log_twoCalls rfl rfl) hclean⟩

def staticView (ecmp : List NextHop) : View :=
  ({ source := 1, adminDistance := 10, ecmp := ecmp }, ecmp)

/-- The old list names one next-hop twice, the new one adds another: same length, and every old
next-hop is among the new ones, so no event is dispatched and the consumer keeps the old set. -/
theorem replay_log_repeated :
    let k : Family × Prefix := (⟨1, 1⟩, ⟨.v4 0x0a000000#32, 8⟩)
    let cs : List Change := [.add k (staticView [gateway 1, gateway 1])]
    ∃ r, Log 1 anyHash (twoCalls (staticRoute [gateway 1, gateway 1])
        (staticRoute [gateway 1, gateway 2])) r cs ∧
      ∀ m, Delta.replay (fun _ => none) cs = some m →
        ¬ Option.Rel Agree (m k) (r.current k.1 k.2) := by
  intro k cs
  have hfirst : (Rib.new 1 anyHash).Dispatches unpublished
      (staticRoute [gateway 1, gateway 1]) cs := by
    show cs = _
    decide +kernel
  have hsecond : ((Rib.new 1 anyHash).step unpublished
      (staticRoute [gateway 1, gateway 1])).Dispatches unpublished
        (staticRoute [gateway 1, gateway 2]) [] := by
    show [] = _
    decide +kernel
  refine ⟨_, log_twoCalls hfirst hsecond, fun m hm hrel => ?_⟩
  have hheld : m k = some (staticView [gateway 1, gateway 1]) := by
    cases hm
    rfl
  have hcurrent : ((Rib.new 1 anyHash).run (twoCalls (staticRoute [gateway 1, gateway 1])
      (staticRoute [gateway 1, gateway 2]))).current k.1 k.2 =
        some (staticView [gateway 1, gateway 2]) := by
    decide +kernel
  rw [hheld, hcurrent] at hrel
  cases hrel with
  | some h => exact absurd ((h.2 (gateway 2)).2 (by decide)) (by decide)

end Ze.LocRib
