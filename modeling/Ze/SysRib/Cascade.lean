import Ze.SysRib.Tracking
import Ze.SysRib.UnderWay

/-!
# The cascade keeps the FIB in step with the Loc-RIB

When a route of the Loc-RIB changes, the worker re-evaluates the prefixes whose next-hops resolve
through it. It finds them by the table of tracked next-hops, in the unicast family of their
address. Every step keeps that a prefix is settled or due to be evaluated (`CascadeInv.steps`); once
nothing is due all are settled, which is `installs_of_drained`.
-/

namespace Ze.SysRib

open List

open Ze.Lib (RangeOrder SetIndex lookup_insert_eq)
open Ze.LocRib (Family View Change)
open Ze.Net (Addr Prefix)
open Option (getD_none getD_some map_none)
open Prod (ext snd)

/-! ## What the turns keep -/

def Followed (st : Setup) (key : PrefixKey) (v : View) : Prop :=
  Unzoned v ∧ (key.1 = familyForPrefix key.2 ∨ (locRoute st v).trackedAddrs = [])

instance (st : Setup) (key : PrefixKey) (v : View) : Decidable (Followed st key v) :=
  inferInstanceAs (Decidable (_ ∧ _))

namespace SysRIB

variable {st : Setup} {s s' : SysRIB} {env : Env} {lpm : Lpm} {key k : PrefixKey}

/-- The prefix holds a view of the Loc-RIB, as its one route and its best, or nothing. -/
def Holds (st : Setup) (s : SysRIB) (key : PrefixKey) (u : Option View) : Prop :=
  s.routes.lookup key = u.map (stored st) ∧ s.best.lookup key = u.map (locRoute st) ∧
    ∀ v ∈ u, Followed st key v

structure KeptAt (st : Setup) (s : SysRIB) (key : PrefixKey) : Prop where
  holds : ∃ u, s.Holds st key u
  ascending : Ascending (s.groupOf key)
  tracked : ∀ best, s.best.lookup key = some best → s.Programs best →
    ∀ nh ∈ best.trackedAddrs, key.2 ∈ SetIndex.at_ s.tracking nh
  waits : ∀ best, s.best.lookup key = some best → s.Programs best → s.Waits key best

structure Kept (st : Setup) (s : SysRIB) : Prop where
  inv : s.Inv st.os
  at_ : ∀ key, s.KeptAt st key

structure SameAt (s s' : SysRIB) (key : PrefixKey) : Prop where
  routes : s'.routes.lookup key = s.routes.lookup key
  fibPermit : s'.fibPermit = s.fibPermit
  best : s'.best.lookup key = s.best.lookup key
  lastECMP : s'.lastECMP.lookup key = s.lastECMP.lookup key
  installed : s'.installed.lookup key = s.installed.lookup key

lemma SameAt.groupOf (h : SameAt s s' key) : s'.groupOf key = s.groupOf key := by
  unfold SysRIB.groupOf
  rw [h.lastECMP]

lemma SameAt.programs (h : SameAt s s' key) {route : ProtocolRoute} :
    s'.Programs route ↔ s.Programs route := by
  unfold Programs fibPermitted
  rw [h.fibPermit]

variable {best : ProtocolRoute} {u : Option View} {v : View} {nh : Addr}

lemma SameAt.fibEntry (h : SameAt s s' key) :
    s'.fibEntry env key best = s.fibEntry env key best := by
  unfold SysRIB.fibEntry ecmpCollect ecmpCollectResolved fibPermitted protocols
  rw [h.routes, h.fibPermit]

lemma SameAt.settled (h : SameAt s s' key)
    (hsettled : s.Settled lpm key best) : s'.Settled lpm key best := by
  intro env henv
  have hinstalls := hsettled env henv
  unfold Installs at hinstalls ⊢
  rw [h.fibEntry, h.installed, h.groupOf]
  exact hinstalls

lemma KeptAt.congr (hkept : s.KeptAt st key) (h : SameAt s s' key)
    (htracked : ∀ best, s.best.lookup key = some best → ∀ nh ∈ best.trackedAddrs,
      key.2 ∈ SetIndex.at_ s.tracking nh → key.2 ∈ SetIndex.at_ s'.tracking nh) :
    s'.KeptAt st key where
  holds := by
    obtain ⟨u, hu⟩ := hkept.holds
    refine ⟨u, ?_⟩
    unfold Holds
    rw [h.routes, h.best]
    exact hu
  ascending := h.groupOf ▸ hkept.ascending
  tracked := by
    intro best hbest hprograms nh hnh
    rw [h.best] at hbest
    exact htracked best hbest nh hnh (hkept.tracked best hbest (h.programs.1 hprograms) nh hnh)
  waits := by
    intro best hbest hprograms
    rw [h.best] at hbest
    unfold Waits
    rw [h.installed]
    exact hkept.waits best hbest (h.programs.1 hprograms)

lemma Turn.sameAt {change : Option OutgoingChange} (h : Turn key s s' change) (hk : k ≠ key) :
    SameAt s s' k :=
  ⟨by rw [h.routes], h.fibPermit, (h.others k hk).1, (h.others k hk).2.1, (h.others k hk).2.2⟩

structure Settles (st : Setup) (lpm : Lpm) (key : PrefixKey) (s s' : SysRIB) : Prop where
  kept : s'.Kept st
  same : ∀ k, k ≠ key → SameAt s s' k
  fibPermit : s'.fibPermit = s.fibPermit
  settled : ∀ best, s'.best.lookup key = some best → s'.Programs best → s'.Settled lpm key best

lemma cascadeRecompute_frame (s : SysRIB) (env : Env) (key : PrefixKey) :
    (s.cascadeRecompute env key).1.best = s.best ∧
      (s.cascadeRecompute env key).1.tracking = s.tracking := by
  unfold cascadeRecompute
  split
  · exact ⟨rfl, rfl⟩
  · dsimp only
    split_ifs
    · exact ⟨rfl, rfl⟩
    · exact ⟨rfl, rfl⟩
    · exact ⟨rfl, rfl⟩
    · unfold fibInstall
      split_ifs <;> exact ⟨rfl, rfl⟩

lemma cascadeRecompute_of_not_programs
    (h : ∀ best, s.best.lookup key = some best → ¬s.Programs best) :
    (s.cascadeRecompute env key).1 = s := by
  unfold cascadeRecompute
  cases hbest : s.best.lookup key with
  | none => rfl
  | some best =>
    dsimp only
    have hguard : (best.osInstalled || !s.fibPermitted best.protocol || env.lpm.isNone) := by
      have hnot := h best hbest
      unfold Programs at hnot
      by_contra hguard
      simp only [Bool.or_eq_true, Bool.not_eq_true', not_or, Bool.not_eq_true,
        Bool.not_eq_false] at hguard
      exact hnot hguard.1
    rw [if_pos hguard]

lemma Holds.exists_view (h : s.Holds st key u) (hbest : s.best.lookup key = some best) :
    ∃ v, best = locRoute st v ∧ s.protocols key = stored st v ∧ Followed st key v := by
  obtain ⟨hroutes, hb, hfollowed⟩ := h
  cases u with
  | none =>
    rw [hb] at hbest
    cases hbest
  | some v =>
    rw [hb, Option.map_some, Option.some.injEq] at hbest
    refine ⟨v, hbest.symm, ?_, hfollowed v rfl⟩
    unfold protocols
    rw [hroutes, Option.map_some, getD_some]

lemma Kept.cascadeRecompute (h : s.Kept st) (henv : env.lpm = some lpm) (key : PrefixKey) :
    Settles st lpm key s (s.cascadeRecompute env key).1 := by
  have hturn : Turn key s (s.cascadeRecompute env key).1 (s.cascadeRecompute env key).2 :=
    turn_cascadeRecompute (h.inv.programmable key)
  obtain ⟨hbest, htracking⟩ := s.cascadeRecompute_frame env key
  have hleaves : ∀ best, s.best.lookup key = some best → s.Programs best →
      Leaves env key best (s.cascadeRecompute env key).1 := fun best hb hp =>
    leaves_cascadeRecompute henv hb hp ((h.at_ key).waits best hb hp) (h.at_ key).ascending
  have hprograms : ∀ route, (s.cascadeRecompute env key).1.Programs route ↔ s.Programs route := by
    intro route
    unfold Programs fibPermitted
    rw [hturn.fibPermit]
  have hholds : ∃ u, (s.cascadeRecompute env key).1.Holds st key u := by
    obtain ⟨u, hu⟩ := (h.at_ key).holds
    refine ⟨u, ?_⟩
    unfold Holds
    rw [hbest, hturn.routes]
    exact hu
  refine ⟨⟨h.inv.turn hturn, fun k => ?_⟩, fun k hk => hturn.sameAt hk, hturn.fibPermit, ?_⟩
  · by_cases hk : k = key
    · subst hk
      refine ⟨hholds, ?_, ?_, ?_⟩
      · by_cases hp : ∃ best, s.best.lookup k = some best ∧ s.Programs best
        · obtain ⟨best, hb, hp⟩ := hp
          exact (hleaves best hb hp).ascending
        · rw [cascadeRecompute_of_not_programs fun best hb hp' => hp ⟨best, hb, hp'⟩]
          exact (h.at_ k).ascending
      · intro best hb hp nh hnh
        rw [hbest] at hb
        rw [htracking]
        exact (h.at_ k).tracked best hb ((hprograms best).1 hp) nh hnh
      · intro best hb hp
        rw [hbest] at hb
        exact (hleaves best hb ((hprograms best).1 hp)).waits
    · exact (h.at_ k).congr (hturn.sameAt hk) fun best _ nh _ ht => htracking ▸ ht
  · intro best hb hp
    rw [hbest] at hb
    obtain ⟨u, hu⟩ := hholds
    obtain ⟨v, rfl, hprotocols, -⟩ := hu.exists_view (by rw [hbest]; exact hb)
    exact settled_of_installs hprotocols henv (hleaves _ hb ((hprograms _).1 hp)).installs

/-! ## The turn of an event -/

lemma Inv.load {t : Tracking} (h : s.Inv st.os) (u : Option View) :
    ((s.retrack t).load st key u).Inv st.os := by
  have hroutes : ∀ k proto route,
      ((((s.retrack t).load st key u).routes.lookup k).getD ∅).lookup proto = some route →
      (s.protocols k).lookup proto = some route ∨ route.osInstalled = st.os route.protocol := by
    intro k proto route hroute
    rw [lookup_load] at hroute
    by_cases hk : k = key
    · rw [if_pos hk] at hroute
      cases u with
      | none =>
        rw [map_none, getD_none, Finmap.lookup_empty] at hroute
        cases hroute
      | some v =>
        rw [Option.map_some, getD_some] at hroute
        unfold SysRib.stored at hroute
        rw [lookup_insert_eq] at hroute
        split_ifs at hroute
        · rw [Option.some.injEq] at hroute
          exact .inr (hroute ▸ rfl)
        · rw [Finmap.lookup_empty] at hroute
          cases hroute
    · rw [if_neg hk] at hroute
      exact .inl hroute
  cases u with
  | none | some v => exact h.restore hroutes

lemma foreign_of_followed {v' : View} (hk : k ≠ key)
    (hv : Followed st k v) (hnh : nh ∈ (locRoute st v).trackedAddrs) (hv' : Followed st key v') :
    Foreign nh k.2 key.2 (locRoute st v') := by
  rintro ⟨hnh', hpfx⟩
  apply hk
  have hfam : k.1 = familyForPrefix k.2 := by
    rcases hv.2 with hfam | hnone
    · exact hfam
    · rw [hnone] at hnh
      cases hnh
  have hfam' : key.1 = familyForPrefix key.2 := by
    rcases hv'.2 with hfam | hnone
    · exact hfam
    · rw [hnone] at hnh'
      cases hnh'
  refine ext ?_ hpfx
  rw [hfam, hfam', hpfx]

lemma exists_of_mem_protocols {proto : String} {r : ProtocolRoute}
    (hroutes : s.routes.lookup key = u.map (stored st))
    (hr : (s.protocols key).lookup proto = some r) : ∃ v ∈ u, r = locRoute st v := by
  unfold protocols at hr
  rw [hroutes] at hr
  cases u with
  | none =>
    rw [map_none, getD_none, Finmap.lookup_empty] at hr
    cases hr
  | some v =>
    rw [Option.map_some, getD_some] at hr
    unfold stored at hr
    rw [lookup_insert_eq] at hr
    split_ifs at hr
    · rw [Option.some.injEq] at hr
      exact ⟨v, rfl, hr.symm⟩
    · rw [Finmap.lookup_empty] at hr
      cases hr

lemma Holds.foreignAt (h : s.Holds st key u)
    (hk : k ≠ key) (hv : Followed st k v) (hnh : nh ∈ (locRoute st v).trackedAddrs) :
    s.ForeignAt key nh k.2 := by
  constructor
  · intro b hb
    obtain ⟨v', rfl, -, hv'⟩ := h.exists_view hb
    exact foreign_of_followed hk hv hnh hv'
  · intro proto r hr
    obtain ⟨hroutes, -, hfollowed⟩ := h
    obtain ⟨v', hv', rfl⟩ := exists_of_mem_protocols hroutes hr
    exact foreign_of_followed hk hv hnh (hfollowed v' hv')

lemma recomputeBest_eq (s : SysRIB) (env : Env) (key : PrefixKey) :
    ∃ t t', (s.recomputeBest env key).1 = ((s.retrack t).selectBest env key).1.retrack t' := by
  unfold recomputeBest
  obtain ⟨t, ht⟩ := s.untrackNextHopGroup_eq env key
  rw [ht]
  obtain ⟨t', ht'⟩ := ((s.retrack t).selectBest env key).1.trackNextHopGroup_eq env key
  exact ⟨t, t', ht'⟩

/-- A state in which the routes of a prefix were replaced, and its best is not selected yet. -/
structure Loaded (st : Setup) (key : PrefixKey) (u : Option View) (s : SysRIB) : Prop where
  inv : s.Inv st.os
  routes : s.routes.lookup key = u.map (stored st)
  followed : ∀ v ∈ u, Followed st key v
  prev : ∀ best, s.best.lookup key = some best → ∃ v, best = locRoute st v ∧ Followed st key v
  ascending : Ascending (s.groupOf key)
  waits : ∀ best, s.best.lookup key = some best → s.Programs best → s.Waits key best
  others : ∀ k, k ≠ key → s.KeptAt st k

lemma Loaded.foreignAt (h : Loaded st key u s)
    (hk : k ≠ key) (hv : Followed st k v) (hnh : nh ∈ (locRoute st v).trackedAddrs) :
    s.ForeignAt key nh k.2 := by
  refine ⟨fun b hb => ?_, fun proto r hr => ?_⟩
  · obtain ⟨v', rfl, hv'⟩ := h.prev b hb
    exact foreign_of_followed hk hv hnh hv'
  · obtain ⟨v', hv', rfl⟩ := exists_of_mem_protocols h.routes hr
    exact foreign_of_followed hk hv hnh (h.followed v' hv')

lemma Loaded.recomputeBest (h : Loaded st key u s) (henv : env.lpm = some lpm) :
    Settles st lpm key s (s.recomputeBest env key).1 := by
  have howns : s.Owns key := (h.inv.programmable key).owns
  have hturn : Turn key s (s.recomputeBest env key).1 (s.recomputeBest env key).2 :=
    turn_recomputeBest howns
  have hprograms : ∀ route, (s.recomputeBest env key).1.Programs route ↔ s.Programs route := by
    intro route
    unfold Programs fibPermitted
    rw [hturn.fibPermit]
  obtain ⟨t, t', heq⟩ := s.recomputeBest_eq env key
  have hbest : (s.recomputeBest env key).1.best.lookup key = u.map (locRoute st) := by
    rw [heq]
    exact best_selectBest (s := s.retrack t) h.routes
  have hleaves : ∀ v ∈ u, s.Programs (locRoute st v) →
      Leaves env key (locRoute st v) (s.recomputeBest env key).1 := by
    intro v hv hp
    rw [Option.mem_def] at hv
    subst hv
    rw [heq]
    have hselect : Leaves env key (locRoute st v) ((s.retrack t).selectBest env key).1 := by
      refine leaves_selectBest henv h.routes hp howns h.ascending h.waits ?_
      intro prev hprev
      exact h.inv.best key prev hprev
    exact ⟨hselect.installs, hselect.waits, hselect.ascending⟩
  have hascending : Ascending ((s.recomputeBest env key).1.groupOf key) := by
    rw [heq]
    exact ascending_selectBest (s := s.retrack t) h.ascending
  have hroutes : (s.recomputeBest env key).1.routes.lookup key = u.map (stored st) := by
    rw [hturn.routes]
    exact h.routes
  have hholds : (s.recomputeBest env key).1.Holds st key u := ⟨hroutes, hbest, h.followed⟩
  have hview : ∀ best, (s.recomputeBest env key).1.best.lookup key = some best →
      ∃ v ∈ u, best = locRoute st v := by
    intro best hb
    rw [hbest] at hb
    obtain ⟨v, hv, rfl⟩ := Option.map_eq_some_iff.1 hb
    exact ⟨v, hv, rfl⟩
  refine ⟨⟨(h.inv.recomputeBest env key).1, fun k => ?_⟩, fun k hk => hturn.sameAt hk,
    hturn.fibPermit, ?_⟩
  · by_cases hk : k = key
    · subst hk
      refine ⟨⟨u, hholds⟩, hascending, ?_, ?_⟩
      · intro best hb hp nh hnh
        exact tracked_recomputeBest (by rw [henv]; rfl) hb hp.1 hp.2 hnh
      · intro best hb hp
        obtain ⟨v, hv, rfl⟩ := hview best hb
        exact (hleaves v hv ((hprograms _).1 hp)).waits
    · refine (h.others k hk).congr (hturn.sameAt hk) ?_
      intro best hb nh hnh htracked
      obtain ⟨u', hu'⟩ := (h.others k hk).holds
      obtain ⟨v', rfl, -, hv'⟩ := hu'.exists_view hb
      exact (mem_recomputeBest howns (h.foreignAt hk hv' hnh)).2 htracked
  · intro best hb hp
    obtain ⟨v, hv, rfl⟩ := hview best hb
    obtain ⟨v', heqv, hprotocols, -⟩ := hholds.exists_view hb
    rw [heqv] at hb hp ⊢
    refine settled_of_installs hprotocols henv ?_
    rw [← heqv]
    exact (hleaves v hv ((hprograms _).1 (heqv ▸ hp))).installs

def afterEvent (st : Setup) (s : SysRIB) (env : Env) (key : PrefixKey) (u : Option View) : SysRIB :=
  (((s.untrackNextHopGroup env key).load st key u).recomputeBest env key).1

lemma SameAt.trans {s₁ s₂ s₃ : SysRIB} (h : SameAt s₁ s₂ key) (h' : SameAt s₂ s₃ key) :
    SameAt s₁ s₃ key :=
  ⟨h'.routes.trans h.routes, h'.fibPermit.trans h.fibPermit, h'.best.trans h.best,
    h'.lastECMP.trans h.lastECMP, h'.installed.trans h.installed⟩

lemma sameAt_load (s : SysRIB) (t : Tracking) (u : Option View) (hk : k ≠ key) :
    SameAt s ((s.retrack t).load st key u) k := by
  refine ⟨?_, ?_, ?_, ?_, ?_⟩
  · rw [lookup_load, if_neg hk]
    rfl
  all_goals cases u <;> rfl

/-- What the event of a change leaves: its view stored and selected, and the other prefixes as they
were. -/
structure Stores (st : Setup) (key : PrefixKey) (u : Option View) (s s' : SysRIB) : Prop where
  inv : s'.Inv st.os
  fibPermit : s'.fibPermit = s.fibPermit
  routes : s'.routes.lookup key = u.map (stored st)
  best : s'.best.lookup key = u.map (locRoute st)
  same : ∀ k, k ≠ key → SameAt s s' k

lemma Inv.event (h : s.Inv st.os) (env : Env) (key : PrefixKey) (u : Option View) :
    Stores st key u s (s.afterEvent st env key u) := by
  unfold afterEvent
  obtain ⟨t, ht⟩ := s.untrackNextHopGroup_eq env key
  rw [ht]
  have hloaded : ((s.retrack t).load st key u).Inv st.os := h.load u
  have hturn : Turn key ((s.retrack t).load st key u)
      (((s.retrack t).load st key u).recomputeBest env key).1 _ :=
    turn_recomputeBest (hloaded.programmable key).owns
  have hroutes : ((s.retrack t).load st key u).routes.lookup key = u.map (SysRib.stored st) := by
    rw [lookup_load, if_pos rfl]
  obtain ⟨t₁, t₂, heq⟩ := ((s.retrack t).load st key u).recomputeBest_eq env key
  refine ⟨(hloaded.recomputeBest env key).1, ?_, ?_, ?_, ?_⟩
  · rw [hturn.fibPermit]
    cases u <;> rfl
  · rw [hturn.routes]
    exact hroutes
  · rw [heq]
    exact best_selectBest (s := ((s.retrack t).load st key u).retrack t₁) hroutes
  · exact fun k hk => (sameAt_load s t u hk).trans (hturn.sameAt hk)

lemma Kept.event (h : s.Kept st) (henv : env.lpm = some lpm) (u : Option View)
    (hu : ∀ v ∈ u, Followed st key v) :
    Settles st lpm key s (s.afterEvent st env key u) := by
  unfold afterEvent
  obtain ⟨t, ht⟩ := s.untrackNextHopGroup_eq env key
  obtain ⟨u₀, hu₀⟩ := (h.at_ key).holds
  rw [ht]
  have hloaded : Loaded st key u ((s.retrack t).load st key u) := by
    refine ⟨h.inv.load u, ?_, hu, ?_, ?_, ?_, ?_⟩
    · rw [lookup_load, if_pos rfl]
    · intro best hbest
      have hbest : s.best.lookup key = some best := by
        cases u <;> exact hbest
      obtain ⟨v, hv, -, hfollowed⟩ := hu₀.exists_view hbest
      exact ⟨v, hv, hfollowed⟩
    · cases u <;> exact (h.at_ key).ascending
    · intro best hbest hprograms
      cases u <;> exact (h.at_ key).waits best hbest hprograms
    · intro k hk
      refine (h.at_ k).congr (sameAt_load s t u hk) ?_
      intro best hbest nh hnh htracked
      obtain ⟨u', hu'⟩ := (h.at_ k).holds
      obtain ⟨v', rfl, -, hv'⟩ := hu'.exists_view hbest
      have hmem : k.2 ∈ SetIndex.at_ (s.untrackNextHopGroup env key).tracking nh :=
        (mem_untrackNextHopGroup (hu₀.foreignAt hk hv' hnh)).2 htracked
      rw [ht] at hmem
      cases u <;> exact hmem
  have hsettles := hloaded.recomputeBest henv
  refine ⟨hsettles.kept, fun k hk => (sameAt_load s t u hk).trans (hsettles.same k hk), ?_,
    hsettles.settled⟩
  rw [hsettles.fibPermit]
  cases u <;> rfl

end SysRIB

/-! ## What is due -/

/-- The prefixes whose cover the worker is going to ask for. -/
def Phase.due : Phase → List Prefix
  | .seed _ => []
  | .idle => []
  | .event c rest => c.key.2 :: rest.toRead.map snd
  | .cover pfx rest => pfx :: rest.toRead.map snd
  | .cascade _ _ rest => rest.toRead.map snd
  | .resume rest => rest.toRead.map snd

def Phase.worklist : Phase → List PrefixKey
  | .cascade work _ _ => work
  | _ => []

namespace World

variable {st : Setup} {w w' : World} {k key : PrefixKey} {pfx : Prefix}

/-- A change of a prefix is on its way to the worker. -/
def Pending (w : World) (pfx : Prefix) : Prop :=
  (∃ c ∈ w.ch, c.key.2 = pfx) ∨ (∃ k : PrefixKey, k.2 = pfx ∧
    (w.offering.lookup k = some .full ∨ k ∈ w.overflow)) ∨ pfx ∈ w.worker.due

/-- A prefix is settled, or it is going to be evaluated again. -/
def Due (w : World) (key : PrefixKey) (best : ProtocolRoute) : Prop :=
  w.rib.Settled w.loc.lpm key best ∨
    (∃ nh ∈ best.trackedAddrs, ∃ pfx, Pending w pfx ∧ chainCovered w.loc.lpm nh pfx = true) ∨
    key ∈ w.worker.worklist

def followForm (st : Setup) : Form st where
  ok := fun k new => WellFormed st k new ∧ ∀ v ∈ new, Followed st k v
  wellFormed := fun h => h.1
  keyOnly := fun h => ⟨⟨h.1.1, h.1.2.1, by simp⟩, by simp⟩

/-- What holds in every state of a run that can be followed. -/
structure CascadeInv (st : Setup) (w : World) : Prop where
  formed : Formed (followForm st) w
  longest : LongestMatch w.loc
  kept : w.rib.Kept st
  due : ∀ key best, w.rib.best.lookup key = some best → w.rib.Programs best → Due w key best

/-- A step of the Loc-RIB can be followed: the view is, its lookups answer with the longest match of
what it reports, and nothing moves without a report. -/
def Follows (st : Setup) (w : World) : Act → Prop
  | .report key new lpm => (∀ v ∈ new, Followed st key v) ∧
      LongestMatch ⟨Function.update w.loc.current key new, lpm⟩
  | .handoff key new lpm => (∀ v ∈ new, Followed st key v) ∧
      LongestMatch ⟨Function.update w.loc.current key new, lpm⟩
  | .silent _ _ lpm => lpm = w.loc.lpm
  | _ => True

lemma Due.mono {best : ProtocolRoute} (h : Due w key best) (hloc : w'.loc = w.loc)
    (hsettled : w.rib.Settled w.loc.lpm key best → w'.rib.Settled w.loc.lpm key best)
    (hpending : ∀ pfx, Pending w pfx → Pending w' pfx)
    (hwork : key ∈ w.worker.worklist → key ∈ w'.worker.worklist) : Due w' key best := by
  unfold Due
  rw [hloc]
  rcases h with h | ⟨nh, hnh, pfx, hp, hcovered⟩ | h
  · exact .inl (hsettled h)
  · exact .inr (.inl ⟨nh, hnh, pfx, hpending pfx hp, hcovered⟩)
  · exact .inr (.inr (hwork h))

variable {new : Option View} {ks : List PrefixKey}

/-- A change of the Loc-RIB that is on its way leaves every prefix due. -/
lemma CascadeInv.due_change {lpm : Lpm} {best : ProtocolRoute}
    (h : CascadeInv st w) (hkey : key.2.isValid) (hnew : ∀ v ∈ new, Followed st key v)
    (hlongest : LongestMatch ⟨Function.update w.loc.current key new, lpm⟩)
    (hloc : w'.loc = ⟨Function.update w.loc.current key new, lpm⟩) (hrib : w'.rib = w.rib)
    (hpending : ∀ pfx, Pending w pfx → Pending w' pfx) (hreported : Pending w' key.2)
    (hwork : k ∈ w.worker.worklist → k ∈ w'.worker.worklist)
    (hbest : w.rib.best.lookup k = some best) (hprograms : w.rib.Programs best) :
    Due w' k best := by
  obtain ⟨u, hu⟩ := (h.kept.at_ k).holds
  obtain ⟨v, rfl, hprotocols, hv⟩ := hu.exists_view hbest
  have hviews : ∀ k v, Function.update w.loc.current key new k = some v → Unzoned v := by
    intro k v hkv
    by_cases hk : k = key
    · subst hk
      rw [Function.update_self] at hkv
      exact (hnew v hkv).1
    · rw [Function.update_of_ne hk] at hkv
      exact ((h.formed.current k v hkv).2 v rfl).1
  have hplain : ∀ nh ∈ (locRoute st v).trackedAddrs, Plain nh := fun nh => plain_of_tracked hv.1
  unfold Due
  rw [hloc, hrib]
  by_cases hmet : ∃ nh ∈ (locRoute st v).trackedAddrs, chainCovered lpm nh key.2
  · obtain ⟨nh, hnh, hcovered⟩ := hmet
    exact .inr (.inl ⟨nh, hnh, key.2, hreported, hcovered⟩)
  · have hmissed : ∀ nh ∈ (locRoute st v).trackedAddrs, ¬chainCovered lpm nh key.2 :=
      fun nh hnh hcovered => hmet ⟨nh, hnh, hcovered⟩
    rcases h.due k _ hbest hprograms with hsettled | ⟨nh, hnh, pfx, hp, hcovered⟩ | hlist
    · refine .inl ?_
      intro env henv
      have hold := hsettled ⟨some w.loc.lpm, env.range, env.sort⟩ rfl
      rw [SysRIB.fibEntry_congr hprotocols hprotocols rfl rfl henv fun nh hnh =>
        (resolve_eq_or h.longest hlongest hviews hkey (hplain nh hnh)).resolve_right
          (hmissed nh hnh)] at hold
      exact hold
    · refine .inr (.inl ⟨nh, hnh, pfx, hpending pfx hp, ?_⟩)
      exact (chainCovered_or h.longest hlongest hviews hkey (hplain nh hnh) hcovered).resolve_right
        (hmissed nh hnh)
    · exact .inr (.inr (hwork hlist))

/-! ## Every step -/

lemma CascadeInv.quiet (h : CascadeInv st w) (hformed : Formed (followForm st) w')
    (hloc : w'.loc = w.loc) (hrib : w'.rib = w.rib)
    (hpending : ∀ pfx, Pending w pfx → Pending w' pfx)
    (hwork : ∀ k ∈ w.worker.worklist, k ∈ w'.worker.worklist) : CascadeInv st w' where
  formed := hformed
  longest := hloc ▸ h.longest
  kept := hrib ▸ h.kept
  due := by
    intro key best hbest hprograms
    rw [hrib] at hbest hprograms
    exact (h.due key best hbest hprograms).mono hloc (fun hsettled => hrib ▸ hsettled) hpending
      (hwork key)

lemma CascadeInv.turn (h : CascadeInv st w) (hformed : Formed (followForm st) w')
    (hloc : w'.loc = w.loc) (hturn : SysRIB.Settles st w.loc.lpm key w.rib w'.rib)
    (hpending : ∀ pfx, Pending w pfx → Pending w' pfx)
    (hwork : ∀ k ∈ w.worker.worklist, k ≠ key → k ∈ w'.worker.worklist) : CascadeInv st w' where
  formed := hformed
  longest := hloc ▸ h.longest
  kept := hturn.kept
  due := by
    intro k best hbest hprograms
    by_cases hk : k = key
    · subst hk
      refine .inl ?_
      rw [hloc]
      exact hturn.settled best hbest hprograms
    · have hsame := hturn.same k hk
      rw [hsame.best] at hbest
      exact (h.due k best hbest (hsame.programs.1 hprograms)).mono hloc hsame.settled hpending
        fun hmem => hwork k hmem hk

lemma CascadeInv.changed {lpm : Lpm} (h : CascadeInv st w)
    (hformed : Formed (followForm st) w') (hkey : key.2.isValid)
    (hnew : ∀ v ∈ new, Followed st key v)
    (hlongest : LongestMatch ⟨Function.update w.loc.current key new, lpm⟩)
    (hloc : w'.loc = ⟨Function.update w.loc.current key new, lpm⟩) (hrib : w'.rib = w.rib)
    (hpending : ∀ pfx, Pending w pfx → Pending w' pfx) (hreported : Pending w' key.2)
    (hwork : ∀ k ∈ w.worker.worklist, k ∈ w'.worker.worklist) : CascadeInv st w' where
  formed := hformed
  longest := hloc ▸ hlongest
  kept := hrib ▸ h.kept
  due := by
    intro k best hbest hprograms
    rw [hrib] at hbest hprograms
    exact h.due_change hkey hnew hlongest hloc hrib hpending hreported (hwork k) hbest hprograms

lemma Pending.mono (h : Pending w pfx) (hch : ∀ c ∈ w.ch, c ∈ w'.ch ∨ c.key.2 ∈ w'.worker.due)
    (hfull : ∀ k, w.offering.lookup k = some .full → w'.offering.lookup k = some .full ∨
      k ∈ w'.overflow) (hoverflow : ∀ k ∈ w.overflow, k ∈ w'.overflow ∨ k.2 ∈ w'.worker.due)
    (hdue : ∀ p ∈ w.worker.due, p ∈ w'.worker.due) : Pending w' pfx := by
  rcases h with ⟨c, hc, rfl⟩ | ⟨k, rfl, hk | hk⟩ | h
  · rcases hch c hc with hc | hc
    · exact .inl ⟨c, hc, rfl⟩
    · exact .inr (.inr hc)
  · exact .inr (.inl ⟨k, rfl, hfull k hk⟩)
  · rcases hoverflow k hk with hk | hk
    · exact .inr (.inl ⟨k, rfl, .inr hk⟩)
    · exact .inr (.inr hk)
  · exact .inr (.inr (hdue pfx h))

lemma Pending.onward (h : Pending w pfx) (hch : w'.ch = w.ch) (hoffer : w'.offering = w.offering)
    (hover : w'.overflow = w.overflow) (hdue : ∀ p ∈ w.worker.due, p ∈ w'.worker.due) :
    Pending w' pfx := by
  refine h.mono ?_ ?_ ?_ hdue
  · rw [hch]
    exact fun _ => .inl
  · rw [hoffer]
    exact fun _ => .inl
  · rw [hover]
    exact fun _ => .inl

lemma mem_dependentKeys {lpm : Lpm} {t : SysRib.Tracking} {nh : Addr}
    (hfam : key.1 = familyForPrefix key.2) (htracked : key.2 ∈ SetIndex.at_ t nh)
    (hcovered : chainCovered lpm nh pfx) : key ∈ dependentKeys t (coveredNHs lpm t pfx) := by
  have hkeys : nh ∈ t.keys := by
    rw [Finmap.mem_keys]
    by_contra hnot
    unfold SetIndex.at_ at htracked
    rw [Finmap.lookup_eq_none.2 hnot, getD_none] at htracked
    exact absurd htracked (Finset.notMem_empty _)
  unfold dependentKeys coveredNHs
  rw [Finset.mem_image]
  refine ⟨key.2, ?_, ext hfam.symm rfl⟩
  rw [Finset.mem_biUnion]
  exact ⟨nh, Finset.mem_filter.2 ⟨hkeys, hcovered⟩, htracked⟩

variable {choice : Choice} {rest : Rest}

lemma CascadeInv.cover (h : CascadeInv st w) {w' : World} {seen : Finset PrefixKey}
    (hworker : w.worker = .cover pfx rest)
    (hw : w' = { w with worker := .cascade (choice.ord.keys (dependentKeys w.rib.tracking
      (coveredNHs w.loc.lpm w.rib.tracking pfx))) seen rest })
    (hformed : Formed (followForm st) w') : CascadeInv st w' := by
  subst hw
  refine ⟨hformed, h.longest, h.kept, ?_⟩
  intro key best hbest hprograms
  obtain ⟨u, hu⟩ := (h.kept.at_ key).holds
  obtain ⟨v, rfl, -, hv⟩ := hu.exists_view hbest
  rcases h.due key _ hbest hprograms with hsettled | ⟨nh, hnh, p, hp, hcovered⟩ | hlist
  · exact .inl hsettled
  · by_cases hpfx : p = pfx
    · subst hpfx
      refine .inr (.inr ?_)
      have hfam : key.1 = familyForPrefix key.2 := by
        rcases hv.2 with hfam | hnone
        · exact hfam
        · rw [hnone] at hnh
          cases hnh
      exact (choice.ord.mem_keys _ _).2 (mem_dependentKeys hfam
        ((h.kept.at_ key).tracked _ hbest hprograms nh hnh) hcovered)
    · refine .inr (.inl ⟨nh, hnh, p, ?_, hcovered⟩)
      rcases hp with hp | hp | hp
      · exact .inl hp
      · exact .inr (.inl hp)
      · simp only [hworker, Phase.due, mem_cons, hpfx, false_or] at hp
        exact .inr (.inr hp)
  · simp [hworker, Phase.worklist] at hlist

lemma CascadeInv.settles_processed (h : CascadeInv st w) (choice : Choice) {c : Change}
    (hc : (followForm st).ok c.key (value c)) :
    SysRIB.Settles st w.loc.lpm c.key w.rib (w.processed st choice c) := by
  rw [processed_eq w choice hc.1]
  exact h.kept.event rfl (value c) hc.2

lemma CascadeInv.works (h : CascadeInv st w) (hworks : Works st choice w w') :
    CascadeInv st w' := by
  have hformed := h.formed.works hworks
  cases hworks with
  | walked hworker | skip hworker | spent hworker | untaken hworker | done hworker
  | read hworker =>
    refine h.quiet hformed rfl rfl (fun pfx hp => ?_) (by simp [hworker, Phase.worklist])
    exact hp.onward rfl rfl rfl (by simp [hworker, Phase.due, Rest.toRead])
  | @store key _ v hworker _ hcurrent =>
    refine h.turn hformed rfl (h.settles_processed choice (h.formed.current key v hcurrent))
      (fun pfx hp => ?_) (by simp [hworker, Phase.worklist])
    exact hp.onward rfl rfl rfl (by simp [hworker, Phase.due])
  | @event c _ hworker =>
    have hc : (followForm st).ok c.key (value c) := h.formed.inHand c (by simp [hand, hworker])
    refine h.turn hformed rfl (h.settles_processed choice hc) (fun pfx hp => ?_)
      (by simp [hworker, Phase.worklist])
    exact hp.onward rfl rfl rfl (by simp [hworker, Phase.due])
  | cover hworker hfirst =>
    subst hfirst
    exact h.cover hworker rfl hformed
  | still hworker =>
    refine h.turn hformed rfl (h.kept.cascadeRecompute rfl _) (fun pfx hp => ?_) fun k hk hne => ?_
    · exact hp.onward rfl rfl rfl (by simp [hworker, Phase.due])
    · simpa [hworker, Phase.worklist, hne] using hk
  | spread hworker hrib =>
    subst hrib
    refine h.turn hformed rfl (h.kept.cascadeRecompute rfl _) (fun pfx hp => ?_) fun k hk hne => ?_
    · exact hp.onward rfl rfl rfl (by simp [hworker, Phase.due])
    · simp only [hworker, Phase.worklist, mem_cons, hne, false_or] at hk
      exact mem_append_left _ hk
  | take hworker =>
    refine h.quiet hformed rfl rfl (fun pfx hp => ?_) (by simp [hworker, Phase.worklist])
    refine hp.mono (fun _ => .inl) (fun _ => .inl) (fun k hk => .inr ?_)
      (by simp [hworker, Phase.due, Rest.toRead])
    exact mem_map_of_mem ((choice.ord.mem_keys _ _).2 hk)

lemma CascadeInv.steps {act : Act} (h : CascadeInv st w) (hact : Follows st w act)
    (hsteps : Steps st (· = ·) w act w') : CascadeInv st w' := by
  have hwf := brings_base hsteps
  by_cases hsilent : ∃ key v lpm, act = .silent key v lpm
  · obtain ⟨key, v, lpm, rfl⟩ := hsilent
    cases hsteps with
    | silent hu _ hsame =>
      have hstay : w.change key (some v) lpm = w := by
        unfold World.change
        rw [show lpm = w.loc.lpm from hact, ← hsame, ← hu, Function.update_eq_self]
      rwa [hstay]
  have hbrings : Brings (followForm st) act := by
    cases act with
    | report | handoff => exact ⟨hwf, hact.1⟩
    | silent key v lpm => exact absurd ⟨key, v, lpm, rfl⟩ hsilent
    | _ => trivial
  have hformed := h.formed.steps hbrings hsteps
  cases hsteps with
  | @queue key new =>
    refine h.changed hformed hwf.2.1 hact.1 hact.2 rfl rfl (fun pfx hp => ?_)
      (.inl ⟨changeFor key (w.loc.current key) new, ?_, ?_⟩) (fun _ => id)
    · exact hp.mono (fun c hc => .inl (mem_append_left _ hc)) (fun _ => .inl)
        (fun _ => .inl) (fun _ => id)
    · exact mem_append_right _ mem_cons_self
    · rw [key_changeFor]
  | @crowd key =>
    refine h.changed hformed hwf.2.1 hact.1 hact.2 rfl rfl (fun pfx hp => ?_)
      (.inr (.inl ⟨key, rfl, .inl (Finmap.lookup_insert _)⟩)) (fun _ => id)
    refine hp.mono (fun _ => .inl) (fun k hk => .inl ?_) (fun _ => .inl) (fun _ => id)
    by_cases heq : k = key
    · rw [heq]
      exact Finmap.lookup_insert _
    · exact (Finmap.lookup_insert_of_ne _ heq).trans hk
  | handoff hidle =>
    refine h.changed hformed hwf.2.1 hact.1 hact.2 rfl rfl (fun pfx hp => ?_)
      (.inr (.inr ?_)) (by simp [hidle, Phase.worklist])
    · exact hp.onward rfl rfl rfl (by simp [hidle, Phase.due])
    · simp [Phase.due]
  | silent => exact absurd ⟨_, _, _, rfl⟩ hsilent
  | @record key =>
    refine h.quiet hformed rfl rfl (fun pfx hp => ?_) (fun _ => id)
    refine hp.mono (fun _ => .inl) (fun k hk => ?_)
      (fun k hk => .inl (Finset.mem_insert_of_mem hk)) (fun _ => id)
    by_cases heq : k = key
    · exact .inr (heq ▸ Finset.mem_insert_self _ _)
    · exact .inl ((Finmap.lookup_insert_of_ne _ heq).trans hk)
  | wake hrecorded =>
    refine h.quiet hformed rfl rfl (fun pfx hp => ?_) (fun _ => id)
    refine hp.mono (fun _ => .inl) (fun k hk => .inl ?_) (fun _ => .inl) (fun _ => id)
    refine (Finmap.lookup_erase_ne ?_).trans hk
    rintro rfl
    rw [hrecorded] at hk
    cases hk
  | receive hidle hch =>
    refine h.quiet hformed rfl rfl (fun pfx hp => ?_) (by simp [hidle, Phase.worklist])
    refine hp.mono (fun c' hc' => ?_) (fun _ => .inl) (fun _ => .inl) (by simp [hidle, Phase.due])
    rw [hch] at hc'
    rcases mem_cons.1 hc' with rfl | hc'
    · exact .inr (by simp [Phase.due])
    · exact .inl hc'
  | woken hidle =>
    refine h.quiet hformed rfl rfl (fun pfx hp => ?_) (by simp [hidle, Phase.worklist])
    exact hp.onward rfl rfl rfl (by simp [hidle, Phase.due])
  | work hworks => exact h.works hworks

/-! ## Runs -/

/-- A system RIB that holds nothing yet, under some distances and permissions. -/
def emptyRIB (dist : String → Option ℤ) (permit : String → Option Bool) : SysRIB :=
  { SysRIB.new with adminDist := dist, fibPermit := permit }

lemma kept_empty (dist : String → Option ℤ) (permit : String → Option Bool) :
    (emptyRIB dist permit).Kept st where
  inv := by
    refine ⟨?_, ?_, ?_⟩
    · simp [emptyRIB, SysRIB.new, SysRIB.protocols]
    · simp [emptyRIB, SysRIB.new]
    · simp [emptyRIB, SysRIB.new, SysRIB.Programmable]
  at_ := by
    intro key
    refine ⟨⟨none, rfl, rfl, by simp⟩, List.Pairwise.nil, ?_, ?_⟩
    · simp [emptyRIB, SysRIB.new]
    · simp [emptyRIB, SysRIB.new]

lemma CascadeInv.start {dist : String → Option ℤ} {permit : String → Option Bool} {loc : Loc}
    (hks : Walks st loc ks) (hlongest : LongestMatch loc)
    (hviews : ∀ k v, loc.current k = some v → Followed st k v) :
    CascadeInv st (start loc (emptyRIB dist permit) ks) where
  formed := by
    constructor
    · intro k v hv
      refine ⟨hks.current k v hv, ?_⟩
      intro v' hv'
      rw [Option.mem_some_iff] at hv'
      exact hv' ▸ hviews k v hv
    · simp [World.start]
    · simp [World.start, hand]
    · exact fun k hk => ⟨hks.keys k hk, by simp⟩
    · simp [World.start]
    · simp [World.start]
    · intro ks' hks'
      obtain rfl : ks = ks' := by simpa [World.start] using hks'
      exact ⟨hks.nodup, fun k _ => rfl⟩
  longest := hlongest
  kept := kept_empty dist permit
  due := by
    intro key best hbest
    have hnone : (emptyRIB dist permit).best.lookup key = none := rfl
    rw [show (World.start loc (emptyRIB dist permit) ks).rib = emptyRIB dist permit from rfl,
      hnone] at hbest
    cases hbest

/-- **Theorem.** In every run whose changes can be followed, once no change is on its way and the
worker is idle: for every prefix whose winner is permitted in the FIB and is not installed by the
operating system, if `fibEntry` proves a path the installed path matches its entry and the group is
the entry's, and if it forbids the write nothing is installed. Changes that can be followed are of
the unicast family of their prefix, or need no resolution; no next-hop carries a zone; the lookups
of the Loc-RIB give the longest match of what it reported. -/
theorem installs_of_drained (st : Setup) (dist : String → Option ℤ) (permit : String → Option Bool)
    (loc : Loc) (ks : List PrefixKey) (hks : Walks st loc ks) (hlongest : LongestMatch loc)
    (hviews : ∀ k v, loc.current k = some v → Followed st k v) (acts : List Act) (w : World)
    (hmeets : Ze.Lib.Meets (World.step st (· = ·)) (Follows st)
      (World.start loc (emptyRIB dist permit) ks) acts)
    (hrun : Ze.Lib.run (World.step st (· = ·)) (World.start loc (emptyRIB dist permit) ks) acts =
      some w) (hdrained : w.ch = [] ∧ w.overflow = ∅ ∧ w.offering = ∅ ∧ w.worker = .idle)
    (key : PrefixKey) (best : ProtocolRoute) (hbest : w.rib.best.lookup key = some best)
    (hos : best.osInstalled = false) (hpermit : w.rib.fibPermitted best.protocol)
    (choice : Choice) : w.rib.Installs key (w.rib.fibEntry (w.env choice) key best) := by
  have hinv : CascadeInv st w := by
    refine Ze.Lib.run_keeps ?_ acts _ w (CascadeInv.start hks hlongest hviews) hmeets hrun
    exact fun s act s' h hact hstep => h.steps hact (steps_of_step hstep)
  obtain ⟨hch, hover, hoffer, hidle⟩ := hdrained
  have hpending : ∀ pfx, ¬Pending w pfx := by
    intro pfx hp
    rcases hp with ⟨c, hc, -⟩ | ⟨k, -, hk | hk⟩ | hp
    · rw [hch] at hc
      cases hc
    · rw [hoffer, Finmap.lookup_empty] at hk
      cases hk
    · rw [hover] at hk
      exact absurd hk (Finset.notMem_empty k)
    · rw [hidle] at hp
      cases hp
  rcases hinv.due key best hbest ⟨hos, hpermit⟩ with hsettled | ⟨nh, -, pfx, hp, -⟩ | hlist
  · exact hsettled (w.env choice) rfl
  · exact absurd hp (hpending pfx)
  · rw [hidle] at hlist
    cases hlist

/-! ### A gateway that becomes reachable -/

def gatewayKey (fam : Family) : PrefixKey := (fam, ⟨.v4 0x0a000000#32, 8⟩)

def gatewayView : View := ({ source := 1, nextHop := .v4 0xc0000201#32 }, [])

def gatewayRoute : ProtocolRoute := locRoute (staticSetup 1) gatewayView

def deviceKey : PrefixKey := (⟨1, 1⟩, ⟨.v4 0xc0000200#32, 24⟩)

def deviceView : View := ({ source := 1, interface := "eth0" }, [])

def gatewayOnly (fam : Family) : PrefixKey → Option View :=
  fun k => if k = gatewayKey fam then some gatewayView else none

/-- Ranges that meet the one protocol and the one prefix of the cascade. -/
noncomputable def coverChoice : Choice where
  range := RangeOrder.listing ["static"] (nodup_singleton _)
  sort := PathSort.insertion
  ord := RangeOrder.listing [gatewayKey ⟨1, 1⟩] (nodup_singleton _)

/-- The walk stores the route, and then the connected route that covers its gateway comes up. -/
noncomputable def coverRun (fam : Family) : List Act :=
  [.work coverChoice, .report deviceKey (some deviceView)
      (Loc.of (Function.update (gatewayOnly fam) deviceKey (some deviceView))).lpm,
    .work coverChoice, .receive, .work coverChoice, .work coverChoice, .work coverChoice,
    .work coverChoice, .work coverChoice]

def coverStart (fam : Family) : World :=
  World.start (Loc.of (gatewayOnly fam)) (emptyRIB (fun _ => none) fun _ => none) [gatewayKey fam]

/-- The feed is drained, the route is the best of its prefix, and its path is proved; the device it
is installed on is the given one. -/
noncomputable def provedOn (fam : Family) (iface : String) (w : World) : Bool :=
  w.ch.isEmpty && w.overflow == ∅ && w.offering == ∅ && w.worker.isIdle &&
    w.rib.best.lookup (gatewayKey fam) == some gatewayRoute &&
    w.rib.fibPermitted gatewayRoute.protocol &&
    (w.rib.fibEntry (w.env coverChoice) (gatewayKey fam) gatewayRoute).2 == .proved &&
    (w.rib.fibEntry (w.env coverChoice) (gatewayKey fam) gatewayRoute).1.interface == "eth0" &&
    (w.rib.installed.lookup (gatewayKey fam)).map (·.iface) == some iface

/-- In IPv4 unicast the route moves to the device of the connected route. -/
theorem installs_of_drained_cover :
    ∃ w path, Ze.Lib.run (World.step (staticSetup 1) (· = ·)) (coverStart ⟨1, 1⟩)
        (coverRun ⟨1, 1⟩) = some w ∧
      w.rib.installed.lookup (gatewayKey ⟨1, 1⟩) = some path ∧ path.iface = "eth0" := by
  have heval : ((Ze.Lib.run (World.step (staticSetup 1) (· = ·)) (coverStart ⟨1, 1⟩)
      (coverRun ⟨1, 1⟩)).any (provedOn ⟨1, 1⟩ "eth0")) := by
    decide +kernel
  obtain ⟨w, hrun, hw⟩ := (Option.any_eq_true _ _).mp heval
  simp only [provedOn, Bool.and_eq_true, List.isEmpty_iff, beq_iff_eq] at hw
  obtain ⟨⟨⟨⟨⟨⟨⟨⟨hch, hover⟩, hoffer⟩, hidle⟩, hbest⟩, hpermit⟩, hproved⟩, hiface⟩, -⟩ := hw
  have hfollowed : Followed (staticSetup 1) (gatewayKey ⟨1, 1⟩) gatewayView := by decide
  have hcurrent : ∀ k v, (Loc.of (gatewayOnly ⟨1, 1⟩)).current k = some v →
      k = gatewayKey ⟨1, 1⟩ ∧ v = gatewayView := by
    intro k v hv
    have hv : gatewayOnly ⟨1, 1⟩ k = some v := hv
    unfold gatewayOnly at hv
    split_ifs at hv with hk
    exact ⟨hk, (Option.some.inj hv).symm⟩
  have hwalks : Walks (staticSetup 1) (Loc.of (gatewayOnly ⟨1, 1⟩)) [gatewayKey ⟨1, 1⟩] := by
    refine ⟨nodup_singleton _, by decide, ?_, ?_⟩
    · intro k v hv
      obtain ⟨rfl, rfl⟩ := hcurrent k v hv
      decide
    · intro k hk
      obtain ⟨v, hv⟩ := Option.ne_none_iff_exists'.mp hk
      rw [mem_singleton]
      exact (hcurrent k v hv).1
  have hviews : ∀ k v, (Loc.of (gatewayOnly ⟨1, 1⟩)).current k = some v →
      Followed (staticSetup 1) k v := by
    intro k v hv
    obtain ⟨rfl, rfl⟩ := hcurrent k v hv
    exact hfollowed
  have hreport : ∀ w₁, World.step (staticSetup 1) (· = ·) (coverStart ⟨1, 1⟩) (.work coverChoice) =
      some w₁ → Follows (staticSetup 1) w₁ (.report deviceKey (some deviceView)
        (Loc.of (Function.update (gatewayOnly ⟨1, 1⟩) deviceKey (some deviceView))).lpm) := by
    intro w₁ hw₁
    have hwork : (coverStart ⟨1, 1⟩).work (staticSetup 1) coverChoice = some w₁ := hw₁
    have hloc : w₁.loc = Loc.of (gatewayOnly ⟨1, 1⟩) := loc_works (works_of_work hwork)
    refine ⟨by decide, ?_⟩
    rw [hloc]
    exact longestMatch_of _
  have hmeets : Ze.Lib.Meets (World.step (staticSetup 1) (· = ·)) (Follows (staticSetup 1))
      (coverStart ⟨1, 1⟩) (coverRun ⟨1, 1⟩) :=
    ⟨trivial, fun w₁ hw₁ => ⟨hreport w₁ hw₁, fun _ _ => ⟨trivial, fun _ _ => ⟨trivial, fun _ _ =>
      ⟨trivial, fun _ _ => ⟨trivial, fun _ _ => ⟨trivial, fun _ _ => ⟨trivial, fun _ _ =>
        ⟨trivial, fun _ _ => trivial⟩⟩⟩⟩⟩⟩⟩⟩⟩
  obtain ⟨path, hpath, hmatches, -⟩ := (installs_of_drained (staticSetup 1) (fun _ => none)
    (fun _ => none) (Loc.of (gatewayOnly ⟨1, 1⟩)) _ hwalks (longestMatch_of _) hviews
    (coverRun ⟨1, 1⟩) w hmeets hrun ⟨hch, hover, hoffer,
      Phase.eq_idle hidle⟩ _ gatewayRoute hbest rfl
    hpermit coverChoice).1 hproved
  refine ⟨w, path, hrun, hpath, ?_⟩
  simp only [InstalledPath.matches, Bool.and_eq_true, beq_iff_eq] at hmatches
  rw [hmatches.1.1.1.1.2, hiface]

/-- The same run with the route in labeled unicast: the cascade looks for the prefix in IPv4
unicast, and the path that `fibEntry` proves is never installed. -/
theorem labeled_not_installed :
    ∃ w, Ze.Lib.run (World.step (staticSetup 1) (· = ·)) (coverStart ⟨1, 4⟩) (coverRun ⟨1, 4⟩) =
        some w ∧
      (w.ch = [] ∧ w.overflow = ∅ ∧ w.offering = ∅ ∧ w.worker = .idle) ∧
      w.rib.best.lookup (gatewayKey ⟨1, 4⟩) = some gatewayRoute ∧
      gatewayRoute.osInstalled = false ∧ w.rib.fibPermitted gatewayRoute.protocol ∧
      (w.rib.fibEntry (w.env coverChoice) (gatewayKey ⟨1, 4⟩) gatewayRoute).2 = .proved ∧
      ¬w.rib.Installs (gatewayKey ⟨1, 4⟩)
        (w.rib.fibEntry (w.env coverChoice) (gatewayKey ⟨1, 4⟩) gatewayRoute) := by
  have heval : ((Ze.Lib.run (World.step (staticSetup 1) (· = ·)) (coverStart ⟨1, 4⟩)
      (coverRun ⟨1, 4⟩)).any (provedOn ⟨1, 4⟩ "")) := by
    decide +kernel
  obtain ⟨w, hrun, hw⟩ := (Option.any_eq_true _ _).mp heval
  simp only [provedOn, Bool.and_eq_true, List.isEmpty_iff, beq_iff_eq] at hw
  obtain ⟨⟨⟨⟨⟨⟨⟨⟨hch, hover⟩, hoffer⟩, hidle⟩, hbest⟩, hpermit⟩, hproved⟩, hiface⟩, hdevice⟩ := hw
  refine ⟨w, hrun, ⟨hch, hover, hoffer, Phase.eq_idle hidle⟩, hbest, rfl, hpermit, hproved, ?_⟩
  intro hinstalls
  obtain ⟨path, hpath, hmatches, -⟩ := hinstalls.1 hproved
  simp only [InstalledPath.matches, Bool.and_eq_true, beq_iff_eq] at hmatches
  rw [hpath, Option.map_some, Option.some.injEq, hmatches.1.1.1.1.2, hiface] at hdevice
  exact absurd hdevice (by decide)

end World

end Ze.SysRib
