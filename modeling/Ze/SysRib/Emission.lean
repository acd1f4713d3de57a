import Ze.SysRib.State

/-!
# What the system RIB publishes is what it records

The changes that the system RIB answers, replayed by prefix, rebuild the entries it has
outstanding. `SysRIB.view` reads the outstanding entry of a prefix off the state: the path of
`installed`, the group of `lastECMP`, and the protocol, metric, route type and backup of `best`.
-/

namespace Ze.SysRib

open List
open Finmap (lookup_erase_ne lookup_insert_of_ne)

open Ze.Lib (RangeOrder lookup_insert_eq lookup_erase_eq lookup_mapValues)
open Ze.Lib.Delta (Emits replay replay_append apply_emits eq_iff_rel_eq)
open Bool (and_eq_true not_eq_true)
open Option (getD_none getD_some map_some)

namespace SysRIB

variable {os : String → Bool} {s s' : SysRIB} {env : Env} {key : PrefixKey}

/-! ## The outstanding entries -/

/-- The entry outstanding for a prefix, as the state records it. -/
def view (s : SysRIB) (key : PrefixKey) : Option FibEntry :=
  (s.installed.lookup key).map fun path =>
    let best := (s.best.lookup key).getD {}
    { nextHop := path.nextHop
      interface := path.iface
      onLink := path.onLink
      weight := path.weight
      protocol := best.protocol
      labels := path.labels
      routeType := best.routeType
      metric := best.metric
      srv6SID := path.srv6SID
      ecmpPaths := (s.lastECMP.lookup key).getD []
      backup := backupPaths best }

lemma view_eq_none_iff : s.view key = none ↔ s.programmedByZe key = false := by
  unfold view programmedByZe
  cases s.installed.lookup key <;> simp

lemma view_eq_none_of_lookup (h : s.installed.lookup key = none) : s.view key = none := by
  unfold view
  rw [h]
  rfl

lemma view_congr (hbest : s'.best.lookup key = s.best.lookup key)
    (hecmp : s'.lastECMP.lookup key = s.lastECMP.lookup key)
    (hinstalled : s'.installed.lookup key = s.installed.lookup key) :
    s'.view key = s.view key := by
  unfold view
  rw [hbest, hecmp, hinstalled]

/-- The prefix owns the protocol, the route type, the metric and the backup of an entry, whichever
path carries the traffic.
Source: fibimport.go fibChange -/
def Owned (route : ProtocolRoute) (entry : FibEntry) : Prop :=
  entry.protocol = route.protocol ∧ entry.routeType = route.routeType ∧
    entry.metric = route.metric ∧ entry.backup = backupPaths route

lemma fibEntry_cases (s : SysRIB) (env : Env) (key : PrefixKey) (best : ProtocolRoute) :
    (s.fibEntry env key best).2 = .forbidden ∨
      ∃ path group, (s.fibEntry env key best).1 = fibChange best path group := by
  unfold fibEntry
  dsimp only
  split
  · exact .inr ⟨_, _, rfl⟩
  · split_ifs
    · exact .inl rfl
    · exact .inr ⟨_, _, rfl⟩
    · split
      · exact .inr ⟨_, _, rfl⟩
      · split
        · exact .inr ⟨_, _, rfl⟩
        · exact .inr ⟨_, _, rfl⟩

variable {best winner : ProtocolRoute} {entry : FibEntry} {change : Option OutgoingChange}

lemma owned_fibEntry (h : (s.fibEntry env key best).2 ≠ .forbidden) :
    Owned best (s.fibEntry env key best).1 := by
  rcases s.fibEntry_cases env key best with hforbidden | ⟨path, group, heq⟩
  · exact absurd hforbidden h
  · rw [heq]
    exact ⟨rfl, rfl, rfl, rfl⟩

variable {verdict : FibVerdict} {t : Tracking} {protocols : Protocols}

lemma view_record
    (hbest : s.best.lookup key = some winner) (h : Owned winner entry) :
    (s.record key entry verdict).view key = some entry := by
  obtain ⟨hprotocol, hrouteType, hmetric, hbackup⟩ := h
  unfold view record
  simp only [Finmap.lookup_insert, hbest, map_some, getD_some, installedEntry,
    ← hprotocol, ← hrouteType, ← hmetric, ← hbackup]

lemma view_erase : (s.erase key).view key = none := by
  apply view_eq_none_of_lookup
  exact Finmap.lookup_erase key s.installed

lemma emits_withdrawal (h : s'.view key = none) :
    Emits Eq key (s.view key) (s'.view key) (s.withdrawal key) := by
  unfold withdrawal
  split_ifs with hprog
  · refine ⟨rfl, ?_, h⟩
    rw [Ne, view_eq_none_iff, hprog]
    simp
  · rw [not_eq_true] at hprog
    rw [h, view_eq_none_iff.2 hprog]
    exact .none

lemma emits_announcement (h : s'.view key = some entry) :
    Emits Eq key (s.view key) (s'.view key) (some (s.announcement key entry)) := by
  unfold announcement
  split_ifs with hprog
  · refine ⟨rfl, ?_, h⟩
    rw [Ne, view_eq_none_iff, hprog]
    simp
  · rw [not_eq_true] at hprog
    exact ⟨rfl, view_eq_none_iff.2 hprog, h⟩

lemma emits_none (h : s'.view key = s.view key) : Emits Eq key (s.view key) (s'.view key) none := by
  exact eq_iff_rel_eq.2 h.symm

/-! ## One turn -/

/-- A prefix is programmed only for a best route that Ze may program. -/
def Programmable (s : SysRIB) (key : PrefixKey) : Prop :=
  ∀ path, s.installed.lookup key = some path →
    ∃ best, s.best.lookup key = some best ∧ best.osInstalled = false ∧
      s.fibPermitted best.protocol = true

/-- One turn of a loop: it writes the maps at its own prefix, keeps the best route among the ones
stored, and answers the change that leads from the entry outstanding before to the one after. -/
structure Turn (key : PrefixKey) (s s' : SysRIB) (change : Option OutgoingChange) : Prop where
  routes : s'.routes = s.routes
  adminDist : s'.adminDist = s.adminDist
  fibPermit : s'.fibPermit = s.fibPermit
  others : ∀ k, k ≠ key → s'.best.lookup k = s.best.lookup k ∧
    s'.lastECMP.lookup k = s.lastECMP.lookup k ∧ s'.installed.lookup k = s.installed.lookup k
  best : ∀ b, s'.best.lookup key = some b →
    s.best.lookup key = some b ∨ ∃ proto, (s.protocols key).lookup proto = some b
  programmable : s'.Programmable key
  emits : Emits Eq key (s.view key) (s'.view key) change

/-- The state with another table of tracked next-hops. -/
def retrack (s : SysRIB) (t : Tracking) : SysRIB := { s with tracking := t }

lemma untrackNextHopGroup_eq (s : SysRIB) (env : Env) (key : PrefixKey) :
    ∃ t, s.untrackNextHopGroup env key = s.retrack t := by
  unfold untrackNextHopGroup
  split_ifs
  · exact ⟨s.tracking, rfl⟩
  · exact ⟨_, rfl⟩

lemma trackNextHopGroup_eq (s : SysRIB) (env : Env) (key : PrefixKey) :
    ∃ t, s.trackNextHopGroup env key = s.retrack t := by
  unfold trackNextHopGroup
  split
  · exact ⟨s.tracking, rfl⟩
  · split_ifs
    · exact ⟨s.tracking, rfl⟩
    · exact ⟨_, rfl⟩

lemma untrack_eq (s : SysRIB) (env : Env) (pfx : Ze.Net.Prefix) (route : Option ProtocolRoute) :
    ∃ t, s.untrack env pfx route = s.retrack t := by
  unfold untrack
  split_ifs
  · exact ⟨s.tracking, rfl⟩
  · exact ⟨_, rfl⟩

lemma Turn.retrack {t' : Tracking}
    (h : Turn key (s.retrack t) s' change) : Turn key s (s'.retrack t') change :=
  ⟨h.routes, h.adminDist, h.fibPermit, h.others, h.best, h.programmable, h.emits⟩

lemma Turn.refl (h : s.Programmable key) : Turn key s s none :=
  ⟨rfl, rfl, rfl, fun _ _ => ⟨rfl, rfl, rfl⟩, fun _ hb => .inl hb, h, emits_none rfl⟩

lemma exists_of_selectWinner
    (h : selectWinner env protocols = some winner) :
    ∃ proto, protocols.lookup proto = some winner := by
  have hfold : ∀ (routes : List ProtocolRoute) (acc : Option ProtocolRoute),
      routes.foldl keepWinner acc = some winner → acc = some winner ∨ winner ∈ routes := by
    intro routes
    induction routes with
    | nil => exact fun acc h => .inl h
    | cons r routes ih =>
      intro acc h
      rcases ih _ h with h | h
      · unfold keepWinner at h
        split at h
        · exact .inr (Option.some.inj h ▸ mem_cons_self)
        · split_ifs at h
          · exact .inr (Option.some.inj h ▸ mem_cons_self)
          · exact .inl h
      · exact .inr (mem_cons_of_mem r h)
  rcases hfold _ _ h with h | h
  · cases h
  · exact RangeOrder.mem_values.1 h

/-! ## The turns of the entry points -/

lemma turn_recordDeclinedWinner {prev : Option ProtocolRoute}
    (hwinner : ∃ proto, (s.protocols key).lookup proto = some winner) :
    Turn key s (s.recordDeclinedWinner env key prev winner protocols).1
      (s.recordDeclinedWinner env key prev winner protocols).2 := by
  unfold recordDeclinedWinner
  dsimp only
  obtain ⟨t, ht⟩ := untrack_eq { s with
    best := s.best.insert key winner
    lastECMP := s.lastECMP.insert key (ecmpPaths (s.ecmpCollect env protocols winner)) }
    env key.2 prev
  rw [ht]
  split_ifs with hprog
  · have hgone : (s.installed.erase key).lookup key = none := Finmap.lookup_erase key _
    refine ⟨rfl, rfl, rfl, ?_, ?_, ?_, rfl, ?_, ?_⟩
    · exact fun k hk => ⟨lookup_insert_of_ne _ hk, lookup_insert_of_ne _ hk, lookup_erase_ne hk⟩
    · intro b hb
      simp only [retrack, Finmap.lookup_insert, Option.some.injEq] at hb
      exact .inr (hb ▸ hwinner)
    · intro path hpath
      simp only [retrack, hgone] at hpath
      cases hpath
    · rw [Ne, view_eq_none_iff, hprog]
      simp
    · exact view_eq_none_of_lookup hgone
  · rw [not_eq_true] at hprog
    have hnone : s.installed.lookup key = none := by
      simpa [programmedByZe] using hprog
    refine ⟨rfl, rfl, rfl, ?_, ?_, ?_, ?_⟩
    · exact fun k hk => ⟨lookup_insert_of_ne _ hk, lookup_insert_of_ne _ hk, rfl⟩
    · intro b hb
      simp only [retrack, Finmap.lookup_insert, Option.some.injEq] at hb
      exact .inr (hb ▸ hwinner)
    · intro path hpath
      simp only [retrack, hnone] at hpath
      cases hpath
    · apply emits_none
      rw [view_eq_none_of_lookup hnone]
      exact view_eq_none_of_lookup hnone

lemma view_of_sameProgram {prev : ProtocolRoute} (hprev : s.best.lookup key = some prev)
    (h : sameProgram prev winner) :
    ({ s with best := s.best.insert key winner } : SysRIB).view key = s.view key := by
  simp only [sameProgram, and_eq_true, beq_iff_eq] at h
  unfold view
  simp only [Finmap.lookup_insert, hprev, getD_some, backupPaths, h]

lemma turn_programWinner
    (hwinner : ∃ proto, (s.protocols key).lookup proto = some winner)
    (hos : winner.osInstalled = false) (hpermit : s.fibPermitted winner.protocol)
    (hprog : ∀ path, s.installed.lookup key = some path → s.best.lookup key ≠ none) :
    Turn key s (s.programWinner env key (s.best.lookup key) winner).1
      (s.programWinner env key (s.best.lookup key) winner).2 := by
  have hbest : ∀ k, k ≠ key → (s.best.insert key winner).lookup k = s.best.lookup k :=
    fun k hk => lookup_insert_of_ne _ hk
  have hstored : ∀ b, (s.best.insert key winner).lookup key = some b →
      s.best.lookup key = some b ∨ ∃ proto, (s.protocols key).lookup proto = some b := by
    intro b hb
    rw [Finmap.lookup_insert, Option.some.injEq] at hb
    exact .inr (hb ▸ hwinner)
  have hrecorded : ∀ t : SysRIB, t.best = s.best.insert key winner →
      t.fibPermit = s.fibPermit → t.Programmable key := by
    intro t hb hp path _
    refine ⟨winner, ?_, hos, ?_⟩
    · rw [hb, Finmap.lookup_insert]
    · unfold fibPermitted
      rw [hp]
      exact hpermit
  set s₁ : SysRIB := { s with best := s.best.insert key winner } with hs₁
  have howned : (s₁.fibEntry env key winner).2 ≠ .forbidden →
      Owned winner (s₁.fibEntry env key winner).1 := owned_fibEntry
  unfold programWinner
  rw [← hs₁]
  dsimp only
  generalize s₁.fibEntry env key winner = answer at howned
  obtain ⟨entry, verdict⟩ := answer
  have hview : verdict ≠ .forbidden → (s₁.record key entry verdict).view key = some entry :=
    fun hv => view_record (Finmap.lookup_insert _) (howned hv)
  cases hprev : s.best.lookup key with
  | none =>
    have hnone : s.installed.lookup key = none := by
      by_contra hne
      obtain ⟨path, hpath⟩ := Option.ne_none_iff_exists'.1 hne
      exact hprog path hpath hprev
    dsimp only
    split_ifs with hverdict
    · refine ⟨rfl, rfl, rfl, fun k hk => ⟨hbest k hk, rfl, rfl⟩, hstored, hrecorded _ rfl rfl, ?_⟩
      apply emits_none
      rw [view_eq_none_of_lookup hnone]
      exact view_eq_none_of_lookup hnone
    · refine ⟨rfl, rfl, rfl, fun k hk => ⟨hbest k hk, lookup_insert_of_ne _ hk,
        lookup_insert_of_ne _ hk⟩, hstored, hrecorded _ rfl rfl, rfl, ?_, hview hverdict⟩
      exact view_eq_none_of_lookup hnone
  | some prev =>
    dsimp only
    split_ifs with hverdict hsame
    · exact ⟨rfl, rfl, rfl, fun k hk => ⟨hbest k hk, lookup_erase_ne hk,
        lookup_erase_ne hk⟩, hstored, hrecorded _ rfl rfl, emits_withdrawal view_erase⟩
    · refine ⟨rfl, rfl, rfl, fun k hk => ⟨hbest k hk, rfl, rfl⟩, hstored, hrecorded _ rfl rfl, ?_⟩
      unfold unchanged at hsame
      rw [and_eq_true, and_eq_true] at hsame
      exact emits_none (view_of_sameProgram hprev hsame.1.1)
    · exact ⟨rfl, rfl, rfl, fun k hk => ⟨hbest k hk, lookup_insert_of_ne _ hk,
        lookup_insert_of_ne _ hk⟩, hstored, hrecorded _ rfl rfl,
        emits_announcement (hview hverdict)⟩

/-- A prefix that is programmed has a best route that the operating system does not install. A
change of the permission set leaves this much until the sweep. -/
def Owns (s : SysRIB) (key : PrefixKey) : Prop :=
  ∀ path, s.installed.lookup key = some path →
    ∃ best, s.best.lookup key = some best ∧ best.osInstalled = false

lemma Programmable.owns (h : s.Programmable key) : s.Owns key := by
  intro path hpath
  obtain ⟨best, hbest, hos, -⟩ := h path hpath
  exact ⟨best, hbest, hos⟩

lemma turn_selectBest (h : s.Owns key) :
    Turn key s (s.selectBest env key).1 (s.selectBest env key).2 := by
  unfold selectBest
  dsimp only
  split
  · split
    · next hprev =>
      apply Turn.refl
      intro path hpath
      obtain ⟨best, hbest, -⟩ := h path hpath
      rw [hprev] at hbest
      cases hbest
    · obtain ⟨t, ht⟩ := untrack_eq ({ s with best := s.best.erase key }.erase key) env key.2
        (some _)
      rw [ht]
      have hgone : (s.installed.erase key).lookup key = none := Finmap.lookup_erase key _
      refine ⟨rfl, rfl, rfl, ?_, ?_, ?_, ?_⟩
      · exact fun k hk => ⟨lookup_erase_ne hk, lookup_erase_ne hk, lookup_erase_ne hk⟩
      · intro b hb
        simp only [retrack, erase, Finmap.lookup_erase] at hb
        cases hb
      · intro path hpath
        simp only [retrack, erase, hgone] at hpath
        cases hpath
      · exact emits_withdrawal (view_eq_none_of_lookup hgone)
  · next winner hwinner =>
    have hstored := exists_of_selectWinner hwinner
    split_ifs with hos hpermit
    · exact turn_recordDeclinedWinner hstored
    · exact turn_recordDeclinedWinner hstored
    · refine turn_programWinner hstored (not_eq_true _ ▸ hos) ?_ ?_
      · simpa using hpermit
      · intro path hpath hnone
        obtain ⟨best, hbest, -⟩ := h path hpath
        rw [hnone] at hbest
        cases hbest

lemma turn_recomputeBest (h : s.Owns key) :
    Turn key s (s.recomputeBest env key).1 (s.recomputeBest env key).2 := by
  unfold recomputeBest
  obtain ⟨t, ht⟩ := s.untrackNextHopGroup_eq env key
  have hturn : Turn key (s.retrack t) ((s.retrack t).selectBest env key).1
      ((s.retrack t).selectBest env key).2 := turn_selectBest h
  obtain ⟨t', ht'⟩ := ((s.retrack t).selectBest env key).1.trackNextHopGroup_eq env key
  rw [ht]
  dsimp only
  rw [ht']
  exact hturn.retrack

lemma view_of_matches {path : InstalledPath}
    (hpath : s.installed.lookup key = some path) (h : path.matches entry) :
    ({ s with installed := s.installed.insert key (installedEntry entry verdict) } :
      SysRIB).view key = s.view key := by
  simp only [InstalledPath.matches, and_eq_true, beq_iff_eq] at h
  unfold view
  simp only [Finmap.lookup_insert, hpath, map_some, installedEntry, h]

lemma turn_fibInstall (hbest : s.best.lookup key = some best)
    (hos : best.osInstalled = false) (hpermit : s.fibPermitted best.protocol) :
    Turn key s (s.fibInstall key (s.fibEntry env key best).1 (s.fibEntry env key best).2).1
      (s.fibInstall key (s.fibEntry env key best).1 (s.fibEntry env key best).2).2 := by
  have howned : (s.fibEntry env key best).2 ≠ .forbidden →
      Owned best (s.fibEntry env key best).1 := owned_fibEntry
  generalize s.fibEntry env key best = answer at howned
  obtain ⟨entry, verdict⟩ := answer
  have hprogrammable : ∀ t : SysRIB, t.best = s.best → t.fibPermit = s.fibPermit →
      t.Programmable key := by
    intro t hb hp path _
    refine ⟨best, ?_, hos, ?_⟩
    · rw [hb, hbest]
    · unfold fibPermitted
      rw [hp]
      exact hpermit
  unfold fibInstall
  split_ifs with hverdict hsame
  · exact ⟨rfl, rfl, rfl, fun k hk => ⟨rfl, lookup_erase_ne hk, lookup_erase_ne hk⟩,
      fun b hb => .inl hb, hprogrammable _ rfl rfl, emits_withdrawal view_erase⟩
  · rw [and_eq_true, and_eq_true] at hsame
    obtain ⟨path, hpath⟩ := Option.isSome_iff_exists.1 hsame.1.1
    have hmatches : path.matches entry := by simpa [hpath] using hsame.1.2
    exact ⟨rfl, rfl, rfl, fun k hk => ⟨rfl, rfl, lookup_insert_of_ne _ hk⟩,
      fun b hb => .inl hb, hprogrammable _ rfl rfl, emits_none (view_of_matches hpath hmatches)⟩
  · exact ⟨rfl, rfl, rfl, fun k hk => ⟨rfl, lookup_insert_of_ne _ hk,
      lookup_insert_of_ne _ hk⟩, fun b hb => .inl hb, hprogrammable _ rfl rfl,
      emits_announcement (view_record hbest (howned hverdict))⟩

lemma turn_cascadeRecompute (h : s.Programmable key) :
    Turn key s (s.cascadeRecompute env key).1 (s.cascadeRecompute env key).2 := by
  unfold cascadeRecompute
  split
  · exact Turn.refl h
  · next best hbest =>
    dsimp only
    split_ifs with hguard hunproved hlost
    · exact Turn.refl h
    · exact Turn.refl h
    · refine ⟨rfl, rfl, rfl, ?_, fun b hb => .inl hb, ?_, rfl, ?_, view_erase⟩
      · exact fun k hk => ⟨rfl, lookup_erase_ne hk, lookup_erase_ne hk⟩
      · intro path hpath
        simp only [erase, Finmap.lookup_erase] at hpath
        cases hpath
      · rw [Ne, view_eq_none_iff]
        exact fun hprog => hunproved ⟨hlost.1, hprog⟩
    · simp only [Bool.or_eq_true, Bool.not_eq_true', not_or, not_eq_true,
        Bool.not_eq_false] at hguard
      exact turn_fibInstall hbest hguard.1.1 hguard.1.2

lemma turn_fibStateChange (h : s.Owns key)
    (hbest : s.best.lookup key = some best) (hpermit : s.fibPermitted best.protocol) :
    Turn key s (s.fibStateChange env key best).1 (s.fibStateChange env key best).2 := by
  unfold fibStateChange
  split_ifs with hos
  · apply Turn.refl
    intro path hpath
    obtain ⟨b, hb, hfalse⟩ := h path hpath
    rw [hbest, Option.some.injEq] at hb
    rw [← hb, hos] at hfalse
    cases hfalse
  · exact turn_fibInstall hbest (not_eq_true _ ▸ hos) hpermit

lemma turn_sweep {previous : String → Option Bool} (h : s.Owns key) :
    Turn key s (s.sweep env previous key).1 (s.sweep env previous key).2 := by
  unfold sweep
  split
  · next hnone =>
    apply Turn.refl
    intro path hpath
    obtain ⟨best, hbest, -⟩ := h path hpath
    rw [hnone] at hbest
    cases hbest
  · next route hroute =>
    obtain ⟨t, ht⟩ := s.untrackNextHopGroup_eq env key
    obtain ⟨t', ht'⟩ := (s.retrack t).trackNextHopGroup_eq env key
    have hs : (s.untrackNextHopGroup env key).trackNextHopGroup env key = s.retrack t' := by
      rw [ht, ht']
      rfl
    rw [hs]
    dsimp only
    split_ifs with hpermit hprevious hgroup hno
    · obtain ⟨t'', ht''⟩ := (s.retrack t').untrack_eq env key.2 (some route)
      rw [ht'']
      refine ⟨rfl, rfl, rfl, ?_, fun b hb => .inl hb, ?_, emits_withdrawal view_erase⟩
      · exact fun k hk => ⟨rfl, lookup_erase_ne hk, lookup_erase_ne hk⟩
      · intro path hpath
        simp only [erase, Finmap.lookup_erase] at hpath
        cases hpath
    all_goals rw [Bool.not_eq_true', Bool.not_eq_false] at hpermit
    all_goals
      have hturn : ∀ u, Turn key (s.retrack u) ((s.retrack u).fibStateChange env key route).1
          ((s.retrack u).fibStateChange env key route).2 :=
        fun u => turn_fibStateChange h hroute hpermit
    · exact (hturn t').retrack
    · have hstay : Turn key (s.retrack t') (s.retrack t') none := by
        apply Turn.refl
        intro path hpath
        obtain ⟨best, hbest, hos⟩ := h path hpath
        rw [hroute, Option.some.injEq] at hbest
        exact ⟨best, hbest ▸ hroute, hos, hbest ▸ hpermit⟩
      exact hstay.retrack
    · exact (hturn t').retrack
    · exact (hturn (trackNextHops t' key.2 route)).retrack

/-! ## Loops and runs -/

/-- Replaying the changes leads from the entries outstanding before to those outstanding after. -/
def Tells (s s' : SysRIB) (changes : List OutgoingChange) : Prop :=
  replay s.view changes = some s'.view

lemma Tells.trans {s₁ s₂ s₃ : SysRIB} {cs ds : List OutgoingChange} (h : Tells s₁ s₂ cs)
    (h' : Tells s₂ s₃ ds) : Tells s₁ s₃ (cs ++ ds) := by
  unfold Tells at h h' ⊢
  rw [replay_append, h, Option.bind_some, h']

lemma Turn.tells (h : Turn key s s' change) : Tells s s' change.toList := by
  obtain ⟨m, hm, hkey, hothers⟩ :=
    apply_emits (fun _ => rfl) (fun _ _ _ => Eq.trans) (eq_iff_rel_eq.mpr rfl) h.emits
  unfold Tells
  rw [hm, Option.some.injEq]
  funext k
  by_cases hk : k = key
  · rw [hk]
    exact eq_iff_rel_eq.mp hkey
  · obtain ⟨hbest, hecmp, hinstalled⟩ := h.others k hk
    rw [hothers k hk, view_congr hbest hecmp hinstalled]

lemma collect_tells {ω : Type} {body : SysRIB → ω → SysRIB × Option OutgoingChange}
    {P : SysRIB → Prop}
    (hbody : ∀ s o, P s → P (body s o).1 ∧ Tells s (body s o).1 (body s o).2.toList) :
    (os : List ω) → ∀ s, P s → P (collect body s os).1 ∧
      Tells s (collect body s os).1 (collect body s os).2
  | [], _, h => ⟨h, rfl⟩
  | o :: os, s, h => by
      obtain ⟨h₁, htells₁⟩ := hbody s o h
      obtain ⟨h₂, htells₂⟩ := collect_tells hbody os _ h₁
      exact ⟨h₂, htells₁.trans htells₂⟩

/-- Every stored route carries the declaration of its protocol, and so does every best route; a
prefix is programmed only for one that Ze may program. -/
structure Inv (os : String → Bool) (s : SysRIB) : Prop where
  stored : ∀ key proto route, (s.protocols key).lookup proto = some route →
    route.osInstalled = os route.protocol
  best : ∀ key route, s.best.lookup key = some route → route.osInstalled = os route.protocol
  programmable : ∀ key, s.Programmable key

lemma Turn.keeps {k : PrefixKey} (h : Turn key s s' change)
    (hk : s.Programmable k) : s'.Programmable k := by
  by_cases heq : k = key
  · exact heq ▸ h.programmable
  · obtain ⟨hbest, -, hinstalled⟩ := h.others k heq
    unfold Programmable fibPermitted at hk ⊢
    rw [hbest, hinstalled, h.fibPermit]
    exact hk

lemma Turn.stored (h : Turn key s s' change)
    (hstored : ∀ key proto route, (s.protocols key).lookup proto = some route →
      route.osInstalled = os route.protocol)
    (hbest : ∀ key route, s.best.lookup key = some route → route.osInstalled = os route.protocol) :
    (∀ key proto route, (s'.protocols key).lookup proto = some route →
      route.osInstalled = os route.protocol) ∧
    ∀ key route, s'.best.lookup key = some route → route.osInstalled = os route.protocol := by
  constructor
  · unfold protocols
    rw [h.routes]
    exact hstored
  · intro k route hroute
    by_cases hk : k = key
    · subst hk
      rcases h.best route hroute with hold | ⟨proto, hnew⟩
      · exact hbest k route hold
      · exact hstored k proto route hnew
    · rw [(h.others k hk).1] at hroute
      exact hbest k route hroute

lemma Inv.turn (hinv : s.Inv os) (h : Turn key s s' change) : s'.Inv os := by
  obtain ⟨hstored, hbest⟩ := h.stored hinv.stored hinv.best
  exact ⟨hstored, hbest, fun k => h.keeps (hinv.programmable k)⟩

lemma Inv.restore {routes : Finmap fun _ : PrefixKey => Protocols} (h : s.Inv os)
    (hroutes : ∀ k proto route, ((routes.lookup k).getD ∅).lookup proto = some route →
      (s.protocols k).lookup proto = some route ∨ route.osInstalled = os route.protocol) :
    ({ s.retrack t with routes := routes } : SysRIB).Inv os := by
  refine ⟨?_, h.best, h.programmable⟩
  intro k proto route hroute
  rcases hroutes k proto route hroute with hold | hnew
  · exact h.stored k proto route hold
  · exact hnew

lemma Inv.storeRoute (h : s.Inv os) (batch : IncomingBatch) (c : IncomingChange)
    (key : PrefixKey) (t : Tracking) :
    ((s.retrack t).storeRoute batch key ((s.retrack t).routeOf os batch c)).Inv os := by
  refine h.restore ?_
  intro k proto route hroute
  rw [lookup_insert_eq] at hroute
  by_cases hk : k = key
  · subst hk
    rw [if_pos rfl, getD_some, lookup_insert_eq] at hroute
    by_cases hproto : proto = batch.protocol
    · rw [if_pos hproto, Option.some.injEq] at hroute
      exact .inr (hroute ▸ rfl)
    · rw [if_neg hproto] at hroute
      split_ifs at hroute
      · rw [Finmap.lookup_empty] at hroute
        cases hroute
      · exact .inl hroute
  · rw [if_neg hk] at hroute
    exact .inl hroute

lemma Inv.deleteRoute (h : s.Inv os) (batch : IncomingBatch) (key : PrefixKey) (t : Tracking) :
    ((s.retrack t).deleteRoute batch key).Inv os := by
  have herase : ({ s.retrack t with routes := s.routes.erase key } : SysRIB).Inv os := by
    refine h.restore ?_
    intro k proto route hroute
    rw [lookup_erase_eq] at hroute
    split_ifs at hroute with hk
    · rw [getD_none, Finmap.lookup_empty] at hroute
      cases hroute
    · exact .inl hroute
  unfold SysRIB.deleteRoute
  split_ifs
  · exact herase
  · split
    · exact ⟨h.stored, h.best, h.programmable⟩
    · next slots hslots =>
      have hprotocols : s.protocols key = slots := by
        have hlookup : s.routes.lookup key = some slots := hslots
        unfold protocols
        rw [hlookup, getD_some]
      dsimp only
      split_ifs
      · exact herase
      · refine h.restore ?_
        intro k proto route hroute
        rw [lookup_insert_eq] at hroute
        by_cases hk : k = key
        · subst hk
          rw [if_pos rfl, getD_some, lookup_erase_eq] at hroute
          split_ifs at hroute
          rw [hprotocols]
          exact .inl hroute
        · rw [if_neg hk] at hroute
          exact .inl hroute

lemma view_deleteRoute (batch : IncomingBatch) (key : PrefixKey) (t : Tracking) :
    ((s.retrack t).deleteRoute batch key).view = s.view := by
  unfold SysRIB.deleteRoute
  split_ifs
  · rfl
  · split
    · rfl
    · dsimp only
      split_ifs <;> rfl

lemma Inv.recomputeBest (h : s.Inv os) (env : Env) (key : PrefixKey) :
    (s.recomputeBest env key).1.Inv os ∧
      Tells s (s.recomputeBest env key).1 (s.recomputeBest env key).2.toList := by
  have hturn : Turn key s (s.recomputeBest env key).1 (s.recomputeBest env key).2 :=
    turn_recomputeBest (h.programmable key).owns
  exact ⟨h.turn hturn, hturn.tells⟩

lemma Inv.processChange (h : s.Inv os) (env : Env) (batch : IncomingBatch) (c : IncomingChange) :
    (s.processChange os env batch c).1.Inv os ∧
      Tells s (s.processChange os env batch c).1 (s.processChange os env batch c).2.toList := by
  obtain ⟨t, ht⟩ := s.untrackNextHopGroup_eq env (batch.family, c.pfx)
  have hstay : s.Inv os ∧ Tells s s [] := ⟨h, rfl⟩
  have hstored := (h.storeRoute batch c (batch.family, c.pfx) t).recomputeBest env
    (batch.family, c.pfx)
  have hdeleted := (h.deleteRoute batch (batch.family, c.pfx) t).recomputeBest env
    (batch.family, c.pfx)
  unfold Tells at hdeleted
  rw [view_deleteRoute] at hdeleted
  unfold SysRIB.processChange
  dsimp only
  rw [ht]
  by_cases hvalid : (!c.pfx.isValid)
  · rw [if_pos hvalid]
    exact hstay
  · rw [if_neg hvalid]
    cases c.action with
    | unspecified | del => exact hstay
    | withdraw => exact hdeleted
    | add | update =>
      dsimp only
      split_ifs
      · exact hstay
      · exact hstored

/-! ### New distances -/

lemma rerank_eq (s : SysRIB) (route : ProtocolRoute) :
    ∃ priority, s.rerank route = { route with priority := priority } := by
  unfold rerank
  split_ifs
  · exact ⟨route.priority, rfl⟩
  · exact ⟨_, rfl⟩

lemma view_ranked : s.ranked.view = s.view := by
  funext key
  unfold view ranked
  dsimp only
  rw [lookup_mapValues]
  cases s.best.lookup key with
  | none => rfl
  | some best =>
    obtain ⟨priority, hpriority⟩ := s.rerank_eq best
    rw [map_some, hpriority]
    rfl

lemma Inv.ranked (h : s.Inv os) : s.ranked.Inv os := by
  have hdeclared : ∀ route : ProtocolRoute, route.osInstalled = os route.protocol →
      (s.rerank route).osInstalled = os (s.rerank route).protocol := by
    intro route hroute
    obtain ⟨priority, hpriority⟩ := s.rerank_eq route
    rw [hpriority]
    exact hroute
  refine ⟨?_, ?_, ?_⟩
  · intro key proto route hroute
    unfold protocols SysRIB.ranked at hroute
    rw [lookup_mapValues] at hroute
    cases hlookup : s.routes.lookup key with
    | none =>
      rw [hlookup, Option.map_none, getD_none, Finmap.lookup_empty] at hroute
      cases hroute
    | some slots =>
      rw [hlookup, map_some, getD_some, lookup_mapValues] at hroute
      obtain ⟨old, hold, rfl⟩ := Option.map_eq_some_iff.1 hroute
      apply hdeclared
      apply h.stored key proto old
      unfold protocols
      rw [hlookup]
      exact hold
  · intro key route hroute
    unfold SysRIB.ranked at hroute
    rw [lookup_mapValues] at hroute
    obtain ⟨old, hold, rfl⟩ := Option.map_eq_some_iff.1 hroute
    exact hdeclared old (h.best key old hold)
  · intro key path hpath
    obtain ⟨best, hbest, hos, hpermit⟩ := h.programmable key path hpath
    obtain ⟨priority, hpriority⟩ := s.rerank_eq best
    refine ⟨s.rerank best, ?_, ?_, ?_⟩
    · unfold SysRIB.ranked
      rw [lookup_mapValues, hbest, map_some]
    · rw [hpriority]
      exact hos
    · rw [hpriority]
      exact hpermit

/-! ### A new permission set -/

/-- What a change of the permission set leaves until the sweep reaches a prefix. -/
structure Unswept (os : String → Bool) (s : SysRIB) : Prop where
  stored : ∀ key proto route, (s.protocols key).lookup proto = some route →
    route.osInstalled = os route.protocol
  best : ∀ key route, s.best.lookup key = some route → route.osInstalled = os route.protocol
  owns : ∀ key, s.Owns key

lemma Unswept.turn (h : s.Unswept os) (hturn : Turn key s s' change) : s'.Unswept os := by
  obtain ⟨hstored, hbest⟩ := hturn.stored h.stored h.best
  refine ⟨hstored, hbest, ?_⟩
  intro k
  by_cases hk : k = key
  · exact hk ▸ hturn.programmable.owns
  · obtain ⟨hb, -, hi⟩ := hturn.others k hk
    unfold Owns
    rw [hb, hi]
    exact h.owns k

lemma Unswept.collect (h : s.Unswept os) (env : Env) (previous : String → Option Bool)
    (keys : List PrefixKey) :
    let r := collect (fun t key => t.sweep env previous key) s keys
    r.1.Unswept os ∧ Tells s r.1 r.2 ∧ ∀ k, k ∈ keys ∨ s.Programmable k → r.1.Programmable k := by
  induction keys generalizing s with
  | nil => exact ⟨h, rfl, fun k hk => hk.resolve_left not_mem_nil⟩
  | cons key keys ih =>
    have hturn : Turn key s (s.sweep env previous key).1 (s.sweep env previous key).2 :=
      turn_sweep (h.owns key)
    obtain ⟨hunswept, htells, hkeys⟩ := ih (h.turn hturn)
    refine ⟨hunswept, hturn.tells.trans htells, ?_⟩
    intro k hk
    apply hkeys
    rcases hk with hk | hk
    · rcases mem_cons.1 hk with rfl | hk
      · exact .inr hturn.programmable
      · exact .inl hk
    · exact .inr (hturn.keeps hk)

lemma Inv.applyFIBImport (h : s.Inv os) (env : Env) (permit : String → Option Bool)
    (ord : RangeOrder PrefixKey) :
    (s.applyFIBImport env permit ord).1.Inv os ∧
      Tells s (s.applyFIBImport env permit ord).1 (s.applyFIBImport env permit ord).2 := by
  have hunswept : ({ s with fibPermit := permit } : SysRIB).Unswept os :=
    ⟨h.stored, h.best, fun key => (h.programmable key).owns⟩
  obtain ⟨hswept, htells, hkeys⟩ := hunswept.collect env s.fibPermit (ord.keys s.best.keys)
  refine ⟨⟨hswept.stored, hswept.best, ?_⟩, htells⟩
  intro key
  apply hkeys
  -- a prefix outside the range has no best route, so nothing is outstanding for it
  by_cases hmem : key ∈ ord.keys s.best.keys
  · exact .inl hmem
  · refine .inr ?_
    intro path hpath
    obtain ⟨best, hbest, -⟩ := h.programmable key path hpath
    rw [ord.mem_keys, Finmap.mem_keys] at hmem
    exact absurd (Finmap.mem_of_lookup_eq_some hbest) hmem

/-! ### Every run -/

lemma Inv.step (h : s.Inv os) (call : Env × Op) :
    (s.step os call).1.Inv os ∧ Tells s (s.step os call).1 (s.step os call).2 := by
  obtain ⟨env, op⟩ := call
  cases op with
  | processEvent batch =>
    unfold SysRIB.step processEvent
    dsimp only
    split_ifs
    · exact ⟨h, rfl⟩
    · exact collect_tells (fun s c hs => hs.processChange env batch c) batch.changes s h
  | cascade keys =>
    refine collect_tells (fun s key hs => ?_) keys s h
    have hturn : Turn key s (s.cascadeRecompute env key).1 (s.cascadeRecompute env key).2 :=
      turn_cascadeRecompute (hs.programmable key)
    exact ⟨hs.turn hturn, hturn.tells⟩
  | declareDistances dist => exact ⟨⟨h.stored, h.best, h.programmable⟩, rfl⟩
  | reapplyAdminDistances ord =>
    have hloop := collect_tells (fun s key hs => hs.recomputeBest env key)
      (ord.keys s.ranked.routes.keys) s.ranked h.ranked
    refine ⟨hloop.1, ?_⟩
    have htells := hloop.2
    unfold Tells at htells ⊢
    rw [view_ranked] at htells
    exact htells
  | applyFIBImport permit ord => exact h.applyFIBImport env permit ord

lemma inv_new (os : String → Bool) : new.Inv os := by
  refine ⟨?_, ?_, ?_⟩
  · simp [new, protocols]
  · simp [new]
  · simp [new, Programmable]

lemma Inv.run (h : s.Inv os) (calls : List (Env × Op)) :
    (run os s calls).1.Inv os ∧ Tells s (run os s calls).1 (run os s calls).2 := by
  induction calls generalizing s with
  | nil => exact ⟨h, rfl⟩
  | cons call calls ih =>
    obtain ⟨hstep, htells⟩ := h.step call
    obtain ⟨hrun, hrest⟩ := ih hstep
    exact ⟨hrun, htells.trans hrest⟩

/-- **Theorem.** In every run of the entry points, each with a Loc-RIB of its own, replaying the
answered changes from an empty table meets no add of a present prefix and no update or withdrawal of
an absent one; the table it ends in holds, for every prefix, the entry that `installed`, `lastECMP`
and `best` record, and nothing for the others; and the best route of a present prefix is neither of
a protocol that the operating system installs nor withheld. -/
theorem run_publishes_installed (os : String → Bool) (calls : List (Env × Op)) :
    replay (fun _ => none) (run os new calls).2 = some (run os new calls).1.view ∧
      ∀ key path, (run os new calls).1.installed.lookup key = some path →
        ∃ best, (run os new calls).1.best.lookup key = some best ∧ os best.protocol = false ∧
          fibPermits (run os new calls).1.fibPermit best.protocol := by
  obtain ⟨hinv, htells⟩ := (inv_new os).run calls
  refine ⟨htells, ?_⟩
  intro key path hpath
  obtain ⟨best, hbest, hos, hpermit⟩ := hinv.programmable key path hpath
  refine ⟨best, hbest, ?_, hpermit⟩
  rw [← hinv.best key best hbest]
  exact hos

end SysRIB

end Ze.SysRib
