import Ze.SysRib.Emission
import Ze.SysRib.Resolution

/-!
# Tracked next-hops and settled prefixes

What one turn of the worker leaves for its own prefix and for the others, as far as the cascade
depends on it.
-/

namespace Ze.SysRib

open List

open Ze.Lib (RangeOrder SetIndex)
open Ze.LocRib (View)
open Ze.Net (Addr Prefix)
open Bool (and_eq_true)
open Option (getD_none getD_some map_none map_some mem_toList)

/-! ## The table of dependents -/

section

variable {t : Tracking} {pfx q : Prefix} {nh : Addr} {route : ProtocolRoute}

lemma mem_trackNextHops : q ∈ SetIndex.at_ (trackNextHops t pfx route) nh ↔
    (nh ∈ route.trackedAddrs ∧ q = pfx) ∨ q ∈ SetIndex.at_ t nh := by
  have hfold : ∀ (addrs : List Addr) (t : Tracking),
      q ∈ SetIndex.at_ (addrs.foldl (fun t nh => SetIndex.put t nh pfx) t) nh ↔
        (nh ∈ addrs ∧ q = pfx) ∨ q ∈ SetIndex.at_ t nh := by
    intro addrs
    induction addrs with
    | nil => simp
    | cons a addrs ih =>
      intro t
      rw [foldl_cons, ih, SetIndex.mem_at_put, mem_cons]
      tauto
  exact hfold route.trackedAddrs t

lemma mem_untrackNextHops : q ∈ SetIndex.at_ (untrackNextHops t pfx route) nh ↔
    ¬(nh ∈ route.trackedAddrs ∧ q = pfx) ∧ q ∈ SetIndex.at_ t nh := by
  have hfold : ∀ (addrs : List Addr) (t : Tracking),
      q ∈ SetIndex.at_ (addrs.foldl (fun t nh => SetIndex.drop t nh pfx) t) nh ↔
        ¬(nh ∈ addrs ∧ q = pfx) ∧ q ∈ SetIndex.at_ t nh := by
    intro addrs
    induction addrs with
    | nil => simp
    | cons a addrs ih =>
      intro t
      rw [foldl_cons, ih, SetIndex.mem_at_drop, mem_cons]
      tauto
  exact hfold route.trackedAddrs t

/-- A route of a prefix has no say in whether another prefix depends on a next-hop, nor in whether
its own depends on a next-hop that it does not use. -/
def Foreign (nh : Addr) (q pfx : Prefix) (route : ProtocolRoute) : Prop :=
  ¬(nh ∈ route.trackedAddrs ∧ q = pfx)

lemma mem_foldl_untrack (routes : List ProtocolRoute) (h : ∀ r ∈ routes, Foreign nh q pfx r)
    (t : Tracking) :
    q ∈ SetIndex.at_ (routes.foldl (fun t r => untrackNextHops t pfx r) t) nh ↔
      q ∈ SetIndex.at_ t nh := by
  induction routes generalizing t with
  | nil => rfl
  | cons r routes ih =>
    rw [foldl_cons, ih (fun r' hr' => h r' (mem_cons_of_mem r hr')), mem_untrackNextHops]
    exact and_iff_right (h r mem_cons_self)

lemma mem_foldl_track (routes : List ProtocolRoute) (t : Tracking) :
    q ∈ SetIndex.at_ (routes.foldl (fun t r => trackNextHops t pfx r) t) nh ↔
      (∃ r ∈ routes, nh ∈ r.trackedAddrs ∧ q = pfx) ∨ q ∈ SetIndex.at_ t nh := by
  induction routes generalizing t with
  | nil => simp
  | cons r routes ih =>
    rw [foldl_cons, ih, mem_trackNextHops]
    simp only [mem_cons, exists_eq_or_imp]
    exact or_left_comm.trans or_assoc.symm

end

namespace SysRIB

variable {s : SysRIB} {env : Env} {key : PrefixKey} {nh : Addr} {q : Prefix}

/-- Every route that a turn reads of its prefix is foreign to the pair. -/
def ForeignAt (s : SysRIB) (key : PrefixKey) (nh : Addr) (q : Prefix) : Prop :=
  (∀ b, s.best.lookup key = some b → Foreign nh q key.2 b) ∧
    ∀ proto r, (s.protocols key).lookup proto = some r → Foreign nh q key.2 r

lemma mem_untrackNextHopGroup (h : s.ForeignAt key nh q) :
    q ∈ SetIndex.at_ (s.untrackNextHopGroup env key).tracking nh ↔
      q ∈ SetIndex.at_ s.tracking nh := by
  unfold untrackNextHopGroup
  split_ifs
  · rfl
  · apply mem_foldl_untrack
    intro r hr
    rcases mem_append.1 hr with hr | hr
    · exact h.1 r (mem_toList.1 hr)
    · obtain ⟨proto, hproto⟩ := RangeOrder.mem_values.1 hr
      exact h.2 proto r hproto

lemma mem_untrack {route : Option ProtocolRoute} (h : ∀ b, route = some b → Foreign nh q key.2 b) :
    q ∈ SetIndex.at_ (s.untrack env key.2 route).tracking nh ↔ q ∈ SetIndex.at_ s.tracking nh := by
  unfold untrack
  split_ifs
  · rfl
  · apply mem_foldl_untrack
    intro r hr
    exact h r (mem_toList.1 hr)

lemma mem_selectBest (h : ∀ b, s.best.lookup key = some b → Foreign nh q key.2 b) :
    q ∈ SetIndex.at_ (s.selectBest env key).1.tracking nh ↔ q ∈ SetIndex.at_ s.tracking nh := by
  have hdeclined : ∀ winner protocols, q ∈ SetIndex.at_
          (s.recordDeclinedWinner env key (s.best.lookup key) winner protocols).1.tracking nh ↔
        q ∈ SetIndex.at_ s.tracking nh := by
    intro winner protocols
    unfold recordDeclinedWinner
    dsimp only
    split_ifs <;> exact mem_untrack h
  unfold selectBest
  dsimp only
  split
  · split
    · rfl
    · next route hroute =>
      refine mem_untrack ?_
      intro b hb
      exact h b (hroute.trans hb)
  · split_ifs
    · exact hdeclined _ _
    · exact hdeclined _ _
    · unfold programWinner
      dsimp only
      split
      · split_ifs <;> rfl
      · split_ifs <;> rfl

lemma mem_trackNextHopGroup (h : s.ForeignAt key nh q) :
    q ∈ SetIndex.at_ (s.trackNextHopGroup env key).tracking nh ↔
      q ∈ SetIndex.at_ s.tracking nh := by
  unfold trackNextHopGroup
  split
  · rfl
  · next winner hwinner =>
    split_ifs
    · rfl
    · dsimp only
      rw [mem_foldl_track]
      refine or_iff_right ?_
      rintro ⟨r, hr, hpair⟩
      rcases mem_cons.1 hr with rfl | hr
      · exact h.1 r hwinner hpair
      · obtain ⟨proto, hproto⟩ := RangeOrder.mem_values.1 (mem_filter.1 hr).1
        exact h.2 proto r hproto hpair

lemma mem_recomputeBest (howns : s.Owns key) (h : s.ForeignAt key nh q) :
    q ∈ SetIndex.at_ (s.recomputeBest env key).1.tracking nh ↔ q ∈ SetIndex.at_ s.tracking nh := by
  unfold recomputeBest
  dsimp only
  obtain ⟨t, ht⟩ := s.untrackNextHopGroup_eq env key
  have hturn : Turn key (s.retrack t) ((s.retrack t).selectBest env key).1
      ((s.retrack t).selectBest env key).2 := turn_selectBest howns
  have hforeign : ((s.retrack t).selectBest env key).1.ForeignAt key nh q := by
    constructor
    · intro b hb
      rcases hturn.best b hb with hold | ⟨proto, hnew⟩
      · exact h.1 b hold
      · exact h.2 proto b hnew
    · intro proto r hr
      unfold protocols at hr
      rw [hturn.routes] at hr
      exact h.2 proto r hr
  have hreleased : q ∈ SetIndex.at_ (s.untrackNextHopGroup env key).tracking nh ↔
      q ∈ SetIndex.at_ s.tracking nh := mem_untrackNextHopGroup h
  rw [ht] at hreleased ⊢
  rw [mem_trackNextHopGroup hforeign, ← hreleased]
  exact mem_selectBest h.1

lemma tracked_recomputeBest {best : ProtocolRoute} (henv : env.lpm.isNone = false)
    (hbest : (s.recomputeBest env key).1.best.lookup key = some best)
    (hos : best.osInstalled = false)
    (hpermit : (s.recomputeBest env key).1.fibPermitted best.protocol)
    (hnh : nh ∈ best.trackedAddrs) :
    key.2 ∈ SetIndex.at_ (s.recomputeBest env key).1.tracking nh := by
  unfold recomputeBest at hbest hpermit ⊢
  dsimp only at hbest hpermit ⊢
  generalize ((s.untrackNextHopGroup env key).selectBest env key).1 = s₁ at hbest hpermit ⊢
  obtain ⟨t, ht⟩ := s₁.trackNextHopGroup_eq env key
  rw [ht] at hbest hpermit
  have hbest : s₁.best.lookup key = some best := hbest
  have hpermit : s₁.fibPermitted best.protocol := hpermit
  unfold trackNextHopGroup
  simp only [hbest]
  rw [if_neg (by simp [hos, hpermit, henv])]
  dsimp only
  rw [mem_foldl_track]
  exact .inl ⟨best, mem_cons_self, hnh, rfl⟩

/-! ## Settled prefixes -/

variable {lpm : Lpm} {st : Setup} {s' : SysRIB} {best : ProtocolRoute}

def Programs (s : SysRIB) (route : ProtocolRoute) : Prop :=
  route.osInstalled = false ∧ s.fibPermitted route.protocol = true

/-- The group last emitted for a prefix; an absent entry is the empty group. -/
def groupOf (s : SysRIB) (key : PrefixKey) : List ECMPPath := (s.lastECMP.lookup key).getD []

/-- What is outstanding for a prefix is what an answer of `fibEntry` says: the path that it proves,
with its group, and nothing where it forbids the write. -/
def Installs (s : SysRIB) (key : PrefixKey) (answer : FibEntry × FibVerdict) : Prop :=
  (answer.2 = .proved → ∃ path, s.installed.lookup key = some path ∧
    path.matches answer.1 = true ∧ s.groupOf key = answer.1.ecmpPaths) ∧
  (answer.2 = .forbidden → s.installed.lookup key = none)

/-- The prefix has the answer of `fibEntry` installed, in whatever order a range or a sort goes. -/
def Settled (s : SysRIB) (lpm : Lpm) (key : PrefixKey) (best : ProtocolRoute) : Prop :=
  ∀ env : Env, env.lpm = some lpm → s.Installs key (s.fibEntry env key best)

/-- A prefix that is not programmed needs a resolution to be. -/
def Waits (s : SysRIB) (key : PrefixKey) (best : ProtocolRoute) : Prop :=
  s.installed.lookup key = none → best.nextHop.isValid = true ∨ best.srv6SID.isValid = true

lemma matches_installedEntry (entry : FibEntry) (verdict : FibVerdict) :
    (installedEntry entry verdict).matches entry := by
  simp [installedEntry, InstalledPath.matches]

variable {entry : FibEntry} {verdict : FibVerdict} {v : View} {u : Option View}

lemma installs_record (h : verdict ≠ .forbidden) :
    (s.record key entry verdict).Installs key (entry, verdict) := by
  refine ⟨fun _ => ⟨installedEntry entry verdict, Finmap.lookup_insert _,
    matches_installedEntry entry verdict, ?_⟩, fun hforbidden => absurd hforbidden h⟩
  unfold groupOf record
  rw [Finmap.lookup_insert, getD_some]

lemma installs_erase (h : verdict ≠ .proved) : (s.erase key).Installs key (entry, verdict) :=
  ⟨fun hproved => absurd hproved h, fun _ => Finmap.lookup_erase _ _⟩

lemma installs_unproved {answer : FibEntry × FibVerdict} (h : answer.2 = .unproved) :
    s.Installs key answer := by
  unfold Installs
  rw [h]
  exact ⟨nofun, nofun⟩

lemma settled_of_installs (hs : s.protocols key = stored st v)
    (henv : env.lpm = some lpm) (h : s.Installs key (s.fibEntry env key (locRoute st v))) :
    s.Settled lpm key (locRoute st v) := by
  intro env' henv'
  rw [fibEntry_congr hs hs rfl henv' henv fun _ _ => rfl]
  exact h

/-! ### The verdicts -/

lemma fibEntry_verdicts (s : SysRIB) (key : PrefixKey) (best : ProtocolRoute)
    (henv : env.lpm = some lpm) :
    ((s.fibEntry env key best).2 = .forbidden ∧ best.srv6SID.isValid) ∨
    ((s.fibEntry env key best).2 = .proved ∧ best.nextHop.isValid = false ∧
      (s.fibEntry env key best).1.srv6SID = best.srv6SID) ∨
    ((s.fibEntry env key best).2 = .proved ∧ best.nextHop.isValid ∧
      ∃ p q, resolveMember lpm p = some q ∧ (s.fibEntry env key best).1.nextHop = q.nextHop ∧
        (s.fibEntry env key best).1.interface = q.interface) ∨
    (s.fibEntry env key best).2 = .unproved ∧ best.nextHop.isValid := by
  unfold fibEntry
  rw [henv]
  dsimp only
  split_ifs with hsid hvalid
  · rw [and_eq_true] at hsid
    exact .inl ⟨rfl, hsid.1⟩
  · exact .inr (.inl ⟨rfl, by simpa using hvalid, rfl⟩)
  · have hvalid : best.nextHop.isValid := by simpa using hvalid
    cases hown : resolveMember lpm (routePath best best.nextHop) with
    | some path => exact .inr (.inr (.inl ⟨rfl, hvalid, _, path, hown, rfl, rfl⟩))
    | none =>
      cases hgroup : s.ecmpCollectResolved env lpm (s.protocols key) best with
      | nil => exact .inr (.inr (.inr ⟨rfl, hvalid⟩))
      | cons promoted rest =>
        have hmem : promoted ∈ s.ecmpCollectResolved env lpm (s.protocols key) best := by
          rw [hgroup]
          exact mem_cons_self
        unfold ecmpCollectResolved finishECMP at hmem
        have hmember := (env.sort.perm _).mem_iff.1
          ((dedupECMP_sublist _).mem (mem_of_mem_take hmem))
        obtain ⟨p, -, hp⟩ := mem_filterMap.1 hmember
        exact .inr (.inr (.inl ⟨rfl, hvalid, p, promoted, hp, rfl, rfl⟩))

lemma isValid_directNH (lpm : Lpm) : (n : ℕ) → ∀ (metric : UInt32) (a : Addr),
    a.isValid → (resolveLoop lpm n metric a).resolved →
    (resolveLoop lpm n metric a).directNH.isValid
  | 0, _, _, _, h => by simp [resolveLoop] at h
  | n + 1, metric, a, ha, h => by
      unfold resolveLoop at h ⊢
      cases hlookup : lpm (familyForAddr a) a with
      | none => simp [hlookup] at h
      | some path =>
        simp only [hlookup] at h ⊢
        split_ifs at h ⊢ with hdiscards hvalid hlink hself
        · exact ha
        · simpa using hvalid
        · exact isValid_directNH lpm n _ _ (by simpa using hvalid) h

lemma names_of_resolveMember {p q : ForwardingPath} (h : resolveMember lpm p = some q) :
    q.nextHop.isValid ∨ q.interface ≠ "" := by
  unfold resolveMember at h
  dsimp only at h
  split_ifs at h with hinvalid hiface hlink hresolved
  · rw [Option.some.injEq] at h
    exact .inr (h ▸ hiface)
  · cases h
    exact .inl (by simpa using hinvalid)
  all_goals
    cases h
    have hvalid : p.nextHop.isValid := by simpa using hinvalid
    refine .inl ?_
    simp only [resolve, hvalid, Bool.not_true, Bool.false_eq_true, if_false] at hresolved ⊢
    exact isValid_directNH lpm maxRecursionDepth 0 p.nextHop hvalid (by simpa using hresolved)

lemma matches_zero_eq_false (henv : env.lpm = some lpm)
    (hwaits : best.nextHop.isValid ∨ best.srv6SID.isValid)
    (hproved : (s.fibEntry env key best).2 = .proved) :
    ({} : InstalledPath).matches (s.fibEntry env key best).1 = false := by
  by_contra hmatches
  rw [Bool.not_eq_false] at hmatches
  simp only [InstalledPath.matches, and_eq_true, beq_iff_eq] at hmatches
  obtain ⟨⟨⟨⟨⟨hnext, hiface⟩, -⟩, -⟩, hsid⟩, -⟩ := hmatches
  rcases s.fibEntry_verdicts key best henv with
    ⟨hverdict, -⟩ | ⟨-, hinvalid, hentry⟩ | ⟨-, -, p, q, hpq, hq, hqi⟩ | ⟨hverdict, -⟩
  · rw [hverdict] at hproved
    cases hproved
  · rw [hinvalid] at hwaits
    rw [hentry] at hsid
    rw [← hsid] at hwaits
    simp [Addr.isValid] at hwaits
  · rcases names_of_resolveMember hpq with hvalid | hdevice
    · rw [← hq, ← hnext] at hvalid
      simp [Addr.isValid] at hvalid
    · exact hdevice (hqi ▸ hiface.symm)
  · rw [hverdict] at hproved
    cases hproved

/-! ### The turns -/

structure Leaves (env : Env) (key : PrefixKey) (best : ProtocolRoute) (s : SysRIB) : Prop where
  installs : s.Installs key (s.fibEntry env key best)
  waits : s.Waits key best
  ascending : Ascending (s.groupOf key)

lemma ascending_record (s t : SysRIB) (env : Env) (key : PrefixKey) (best : ProtocolRoute)
    (verdict : FibVerdict) :
    Ascending ((s.record key (t.fibEntry env key best).1 verdict).groupOf key) := by
  unfold groupOf record
  rw [Finmap.lookup_insert]
  exact ascending_fibEntry t env key best

lemma ascending_erase (s : SysRIB) (key : PrefixKey) : Ascending ((s.erase key).groupOf key) := by
  unfold groupOf erase
  rw [Finmap.lookup_erase]
  exact List.Pairwise.nil

lemma leaves_record (h : (s.fibEntry env key best).2 ≠ .forbidden) :
    Leaves env key best
      (s.record key (s.fibEntry env key best).1 (s.fibEntry env key best).2) where
  installs := installs_record h
  waits := by
    intro hnone
    unfold record at hnone
    rw [Finmap.lookup_insert] at hnone
    cases hnone
  ascending := ascending_record _ _ _ _ _ _

lemma leaves_erase (henv : env.lpm = some lpm) (h : (s.fibEntry env key best).2 ≠ .proved) :
    Leaves env key best (s.erase key) where
  installs := installs_erase h
  waits := by
    intro _
    rcases s.fibEntry_verdicts key best henv with
      ⟨-, hsid⟩ | ⟨hproved, -⟩ | ⟨hproved, -⟩ | ⟨-, hvalid⟩
    · exact .inr hsid
    · exact absurd hproved h
    · exact absurd hproved h
    · exact .inl hvalid
  ascending := ascending_erase _ _

lemma leaves_programWinner {winner : ProtocolRoute} (henv : env.lpm = some lpm)
    (howns : s.Owns key) (hascending : Ascending (s.groupOf key))
    (hwaits : ∀ prev, s.best.lookup key = some prev → sameProgram prev winner → s.Waits key prev) :
    Leaves env key winner (s.programWinner env key (s.best.lookup key) winner).1 := by
  set s₁ : SysRIB := { s with best := s.best.insert key winner } with hs₁
  have hrecord : (s₁.fibEntry env key winner).2 ≠ .forbidden → Leaves env key winner
      (s₁.record key (s₁.fibEntry env key winner).1 (s₁.fibEntry env key winner).2) :=
    leaves_record
  unfold programWinner
  rw [← hs₁]
  dsimp only
  cases hprev : s.best.lookup key with
  | none =>
    dsimp only
    split_ifs with hforbidden
    · have hnone : s₁.installed.lookup key = none := by
        by_contra hne
        obtain ⟨path, hpath⟩ := Option.ne_none_iff_exists'.1 hne
        obtain ⟨b, hb, -⟩ := howns path hpath
        rw [hprev] at hb
        cases hb
      refine ⟨⟨?_, fun _ => hnone⟩, ?_, hascending⟩
      · rw [hforbidden]
        exact nofun
      · intro _
        rcases s₁.fibEntry_verdicts key winner henv with
          ⟨-, hsid⟩ | ⟨hproved, -⟩ | ⟨hproved, -⟩ | ⟨hunproved, -⟩
        · exact .inr hsid
        · rw [hforbidden] at hproved
          cases hproved
        · rw [hforbidden] at hproved
          cases hproved
        · rw [hforbidden] at hunproved
          cases hunproved
    · exact hrecord hforbidden
  | some prev =>
    dsimp only
    split_ifs with hforbidden hunchanged
    · exact leaves_erase henv (by rw [hforbidden]; exact nofun)
    · unfold unchanged at hunchanged
      simp only [and_eq_true, Bool.or_eq_true, Bool.not_eq_true', bne_iff_ne] at hunchanged
      obtain ⟨⟨hsame, hgroup⟩, hmatches⟩ := hunchanged
      have hwinner : s₁.Waits key winner := by
        intro hnone
        simp only [sameProgram, and_eq_true, beq_iff_eq] at hsame
        have hwait := hwaits prev hprev (by simpa [sameProgram] using hsame) hnone
        simpa [hsame] using hwait
      refine ⟨⟨fun hproved => ?_, fun h => absurd h hforbidden⟩, hwinner, hascending⟩
      have hmatches := hmatches.resolve_left (not_not_intro hproved)
      cases hpath : s.installed.lookup key with
      | none =>
        rw [hpath, getD_none] at hmatches
        have hzero := matches_zero_eq_false henv (hwinner hpath) hproved
        rw [hmatches] at hzero
        cases hzero
      | some path =>
        rw [hpath, getD_some] at hmatches
        refine ⟨path, rfl, hmatches, ?_⟩
        exact eq_of_not_ecmpChanged hascending (ascending_fibEntry _ _ _ _) hgroup
    · exact hrecord hforbidden

lemma selectWinner_protocols (hroutes : s.routes.lookup key = u.map (stored st)) :
    selectWinner env (s.protocols key) = u.map (locRoute st) := by
  unfold selectWinner protocols
  rw [hroutes]
  cases u with
  | none =>
    rw [map_none, getD_none, env.range.values_empty]
    rfl
  | some v =>
    rw [map_some, getD_some, values_stored]
    rfl

lemma best_selectBest (hroutes : s.routes.lookup key = u.map (stored st)) :
    (s.selectBest env key).1.best.lookup key = u.map (locRoute st) := by
  unfold selectBest
  dsimp only
  rw [selectWinner_protocols hroutes]
  cases u with
  | none =>
    dsimp only [map_none]
    cases hprev : s.best.lookup key with
    | none => exact hprev
    | some prev =>
      obtain ⟨t, ht⟩ := untrack_eq ({ s with best := s.best.erase key }.erase key) env key.2
        (some prev)
      dsimp only
      rw [ht]
      exact Finmap.lookup_erase _ _
  | some v =>
    have hdeclined : (s.recordDeclinedWinner env key (s.best.lookup key) (locRoute st v)
        (s.protocols key)).1.best.lookup key = some (locRoute st v) := by
      unfold recordDeclinedWinner
      dsimp only
      obtain ⟨t, ht⟩ := untrack_eq { s with
        best := s.best.insert key (locRoute st v)
        lastECMP := s.lastECMP.insert key
          (ecmpPaths (s.ecmpCollect env (s.protocols key) (locRoute st v))) } env key.2
        (s.best.lookup key)
      rw [ht]
      split_ifs <;> exact Finmap.lookup_insert _
    dsimp only [map_some]
    split_ifs
    · exact hdeclined
    · exact hdeclined
    · unfold programWinner
      dsimp only
      split
      · split_ifs <;> exact Finmap.lookup_insert _
      · split_ifs <;> exact Finmap.lookup_insert _

lemma ascending_selectBest (hascending : Ascending (s.groupOf key)) :
    Ascending ((s.selectBest env key).1.groupOf key) := by
  have hdeclined : ∀ winner protocols, Ascending
      ((s.recordDeclinedWinner env key (s.best.lookup key) winner protocols).1.groupOf key) := by
    intro winner protocols
    unfold recordDeclinedWinner
    dsimp only
    obtain ⟨t, ht⟩ := untrack_eq { s with
      best := s.best.insert key winner
      lastECMP := s.lastECMP.insert key (ecmpPaths (s.ecmpCollect env protocols winner)) } env key.2
      (s.best.lookup key)
    rw [ht]
    have hgroup : Ascending (((s.lastECMP.insert key
        (ecmpPaths (s.ecmpCollect env protocols winner))).lookup key).getD []) := by
      rw [Finmap.lookup_insert, getD_some]
      exact s.ascending_ecmpCollect env protocols winner
    split_ifs <;> exact hgroup
  unfold selectBest
  dsimp only
  split
  · split
    · exact hascending
    · next prev hprev =>
      obtain ⟨t, ht⟩ := untrack_eq ({ s with best := s.best.erase key }.erase key) env key.2
        (some prev)
      rw [ht]
      exact ascending_erase { s with best := s.best.erase key } key
  · split_ifs
    · exact hdeclined _ _
    · exact hdeclined _ _
    · unfold programWinner
      dsimp only
      split
      · split_ifs
        · exact hascending
        · exact ascending_record _ _ _ _ _ _
      · split_ifs
        · exact ascending_erase _ _
        · exact hascending
        · exact ascending_record _ _ _ _ _ _

lemma leaves_selectBest (henv : env.lpm = some lpm)
    (hroutes : s.routes.lookup key = some (stored st v)) (hprograms : s.Programs (locRoute st v))
    (howns : s.Owns key) (hascending : Ascending (s.groupOf key))
    (hwaits : ∀ prev, s.best.lookup key = some prev → s.Programs prev → s.Waits key prev)
    (hprev : ∀ prev, s.best.lookup key = some prev → prev.osInstalled = st.os prev.protocol) :
    Leaves env key (locRoute st v) (s.selectBest env key).1 := by
  obtain ⟨hos, hpermit⟩ := hprograms
  have hwinner : selectWinner env (s.protocols key) = some (locRoute st v) :=
    selectWinner_protocols (u := some v) hroutes
  unfold selectBest
  dsimp only
  rw [hwinner]
  dsimp only
  rw [if_neg (by rw [hos]; exact Bool.false_ne_true), if_neg (by rw [hpermit]; exact nofun)]
  refine leaves_programWinner henv howns hascending ?_
  intro prev hlookup hsame
  refine hwaits prev hlookup ⟨?_, ?_⟩
  all_goals
    have hprotocol : prev.protocol = (locRoute st v).protocol := by
      simp only [sameProgram, and_eq_true, beq_iff_eq] at hsame
      simp only [hsame]
  · rw [hprev prev hlookup, hprotocol, ← hos]
    rfl
  · rw [hprotocol]
    exact hpermit

lemma leaves_cascadeRecompute (henv : env.lpm = some lpm)
    (hbest : s.best.lookup key = some best) (hprograms : s.Programs best)
    (hwaits : s.Waits key best) (hascending : Ascending (s.groupOf key)) :
    Leaves env key best (s.cascadeRecompute env key).1 := by
  obtain ⟨hos, hpermit⟩ := hprograms
  unfold cascadeRecompute
  simp only [hbest]
  rw [if_neg (by simp [hos, hpermit, henv])]
  split_ifs with hunproved hlost
  · exact ⟨installs_unproved hunproved.1, hwaits, hascending⟩
  · exact leaves_erase henv (by rw [hlost.1]; exact nofun)
  · unfold fibInstall
    split_ifs with hforbidden hmatches
    · exact leaves_erase henv (by rw [hforbidden]; exact nofun)
    · simp only [and_eq_true, Bool.not_eq_true'] at hmatches
      obtain ⟨⟨hprog, hmatches⟩, hgroup⟩ := hmatches
      refine ⟨⟨fun _ => ?_, fun h => absurd h hforbidden⟩, ?_, hascending⟩
      · refine ⟨_, Finmap.lookup_insert _, matches_installedEntry _ _, ?_⟩
        exact eq_of_not_ecmpChanged hascending (ascending_fibEntry _ _ _ _) hgroup
      · intro hnone
        rw [Finmap.lookup_insert] at hnone
        cases hnone
    · exact leaves_record hforbidden

end SysRIB

end Ze.SysRib
