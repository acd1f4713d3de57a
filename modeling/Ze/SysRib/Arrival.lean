import Ze.SysRib.Cascade
import Ze.SysRib.Drained

/-!
# A route whose SID becomes reachable after it arrived

A route with an SRv6 SID that resolves to nothing is not programmed. The event of a route programs
it when its SID resolves; a cascade, which re-evaluates the prefix when the route that covers its
SID comes up, programs it only with a proved path, unless it is programmed already. `Judged` reads
what is installed off the evaluations so far; `programmed_alike_iff` compares two runs by it.
-/

namespace Ze.SysRib

open List

open Ze.Lib (RangeOrder Delta lookup_erase_eq)
open Ze.LocRib (View Change)
open Option (getD_some toList_none)

/-! ## What the resolver finds -/

/-- The SID of a route resolves to nothing; it resolves, or the route has none, and no gateway of
the route does; or there is a path. -/
inductive Finding where
  | unreachable
  | nothing
  | path
  deriving DecidableEq, Repr

/-- The route needs no gateway, or its own or the one of a sibling resolves. -/
def hasPath (lpm : Lpm) (route : ProtocolRoute) : Bool :=
  !route.nextHop.isValid || (resolveMember lpm (routePath route route.nextHop)).isSome ||
    (siblingPaths route).any fun p => (resolveMember lpm p).isSome

def finding (lpm : Lpm) (route : ProtocolRoute) : Finding :=
  if route.srv6SID.isValid && !(resolve lpm route.srv6SID).resolved then .unreachable
  else if hasPath lpm route then .path
  else .nothing

def Finding.verdict : Finding → FibVerdict
  | .unreachable => .forbidden
  | .nothing => .unproved
  | .path => .proved

lemma finishECMP_eq_nil {sort : PathSort} {paths : List ForwardingPath} :
    finishECMP sort paths = [] ↔ paths = [] := by
  have hsort : sort.sort paths = [] ↔ paths = [] := by
    rw [← length_eq_zero_iff, (sort.perm paths).length_eq, length_eq_zero_iff]
  rw [← hsort]
  unfold finishECMP
  cases sort.sort paths with
  | nil => simp [dedupECMP]
  | cons p ps => simp [dedupECMP, maxECMPPaths]

/-! ## What was found -/

/-- An evaluation of a prefix: whether an event made it, and what the resolver found. -/
structure Look where
  event : Bool
  found : Finding
  deriving DecidableEq, Repr

def LastPath (seen : List Look) : Prop := seen.getLast?.map Look.found = some .path

def AllNothing (seen : List Look) : Prop := ∀ look ∈ seen, look.found = .nothing

/-- The findings leave the route programmed: the last evaluation found a path, or every one of them
found the SID and no path. -/
def Carries (seen : List Look) : Prop := LastPath seen ∨ AllNothing seen

/-- The change of the prefix was taken once; the rest are cascades. -/
def Once (seen : List Look) : Prop := ∀ look ∈ seen.tail, look.event = false

instance (seen : List Look) : Decidable (LastPath seen) := inferInstanceAs (Decidable (_ = _))

instance (seen : List Look) : Decidable (AllNothing seen) :=
  inferInstanceAs (Decidable (∀ _ ∈ _, _))

instance (seen : List Look) : Decidable (Carries seen) := inferInstanceAs (Decidable (_ ∨ _))

instance (seen : List Look) : Decidable (Once seen) := inferInstanceAs (Decidable (∀ _ ∈ _, _))

section

variable {seen : List Look} {look : Look}

@[simp] lemma lastPath_append : LastPath (seen ++ [look]) ↔ look.found = .path := by
  simp [LastPath]

@[simp] lemma allNothing_append :
    AllNothing (seen ++ [look]) ↔ AllNothing seen ∧ look.found = .nothing := by
  simp [AllNothing, or_imp, forall_and]

lemma once_append (hseen : seen ≠ []) : Once (seen ++ [look]) ↔ Once seen ∧ look.event = false := by
  unfold Once
  rw [tail_append_of_ne_nil hseen]
  simp [or_imp, forall_and]

end

namespace SysRIB

variable {st : Setup} {s s' : SysRIB} {env : Env} {lpm : Lpm} {key k : PrefixKey} {v : View}

lemma verdict_fibEntry (hs : s.protocols key = stored st v) (henv : env.lpm = some lpm) :
    (s.fibEntry env key (locRoute st v)).2 = (finding lpm (locRoute st v)).verdict := by
  have hgroup : s.ecmpCollectResolved env lpm (stored st v) (locRoute st v) = [] ↔
      (siblingPaths (locRoute st v)).any (fun p => (resolveMember lpm p).isSome) = false := by
    unfold ecmpCollectResolved
    rw [finishECMP_eq_nil, groupMembers_stored, filterMap_eq_nil_iff]
    simp
  unfold fibEntry finding hasPath
  rw [henv, hs]
  dsimp only
  split_ifs with hsid hvalid hpath hpath
  · rfl
  · rfl
  · rw [Bool.not_eq_true] at hpath
    simp [hvalid] at hpath
  · cases hown : resolveMember lpm (routePath (locRoute st v) (locRoute st v).nextHop) with
    | some path => rfl
    | none =>
      cases hmembers : s.ecmpCollectResolved env lpm (stored st v) (locRoute st v) with
      | cons promoted rest => rfl
      | nil =>
        have hnone := hgroup.1 hmembers
        rw [hown, hnone] at hpath
        simp [hvalid] at hpath
  · cases hown : resolveMember lpm (routePath (locRoute st v) (locRoute st v).nextHop) with
    | some path => simp [hown] at hpath
    | none =>
      cases hmembers : s.ecmpCollectResolved env lpm (stored st v) (locRoute st v) with
      | cons promoted rest =>
        have hnot : ¬s.ecmpCollectResolved env lpm (stored st v) (locRoute st v) = [] := by
          rw [hmembers]
          exact cons_ne_nil _ _
        rw [hgroup, Bool.not_eq_false] at hnot
        simp [hnot] at hpath
      | nil => rfl

/-! ## What an evaluation leaves installed -/

/-- What is installed for a prefix after its route was evaluated: nothing when the SID is out of
reach, else the route or, for a prefix that had a route, what was there. -/
def Programmed (s s' : SysRIB) (key : PrefixKey) (f : Finding) : Prop :=
  (f = .unreachable ∧ s'.installed.lookup key = none) ∨
  (f ≠ .unreachable ∧ ∃ entry, s'.installed.lookup key = some (installedEntry entry f.verdict)) ∨
  (f ≠ .unreachable ∧ s.best.lookup key ≠ none ∧
    s'.installed.lookup key = s.installed.lookup key ∧
    (f = .path → s.installed.lookup key ≠ none))

lemma programmed_programWinner (hs : s.protocols key = stored st v) (henv : env.lpm = some lpm)
    (hsid : (locRoute st v).srv6SID.isValid) (howns : s.Owns key) :
    s.Programmed (s.programWinner env key (s.best.lookup key) (locRoute st v)).1 key
      (finding lpm (locRoute st v)) := by
  set s₁ : SysRIB := { s with best := s.best.insert key (locRoute st v) } with hs₁
  have hverdict : (s₁.fibEntry env key (locRoute st v)).2 = (finding lpm (locRoute st v)).verdict :=
    verdict_fibEntry hs henv
  have hforbids : (s₁.fibEntry env key (locRoute st v)).2 = .forbidden ↔
      finding lpm (locRoute st v) = .unreachable := by
    rw [hverdict]
    cases finding lpm (locRoute st v) <;> simp [Finding.verdict]
  have hrecord : ∃ entry, (s₁.record key (s₁.fibEntry env key (locRoute st v)).1
      (s₁.fibEntry env key (locRoute st v)).2).installed.lookup key =
        some (installedEntry entry (finding lpm (locRoute st v)).verdict) := by
    refine ⟨(s₁.fibEntry env key (locRoute st v)).1, ?_⟩
    rw [← hverdict]
    exact Finmap.lookup_insert _
  unfold Programmed programWinner
  rw [← hs₁]
  dsimp only
  cases hprev : s.best.lookup key with
  | none =>
    dsimp only
    split_ifs with hforbidden
    · refine .inl ⟨hforbids.1 hforbidden, ?_⟩
      by_contra hne
      obtain ⟨path, hpath⟩ := Option.ne_none_iff_exists'.1 hne
      obtain ⟨b, hb, -⟩ := howns path hpath
      rw [hprev] at hb
      cases hb
    · exact .inr (.inl ⟨fun h => hforbidden (hforbids.2 h), hrecord⟩)
  | some prev =>
    dsimp only
    split_ifs with hforbidden hunchanged
    · exact .inl ⟨hforbids.1 hforbidden, Finmap.lookup_erase _ _⟩
    · refine .inr (.inr ⟨fun h => hforbidden (hforbids.2 h), by simp, rfl, ?_⟩)
      intro hpath hnone
      have hproved : (s₁.fibEntry env key (locRoute st v)).2 = .proved := by
        rw [hverdict, hpath]
        rfl
      have hzero := matches_zero_eq_false henv (.inr hsid) hproved
      unfold unchanged at hunchanged
      simp only [Bool.and_eq_true, Bool.or_eq_true, bne_iff_ne] at hunchanged
      have hmatches := hunchanged.2.resolve_left (not_not_intro hproved)
      rw [hnone, Option.getD_none, hzero] at hmatches
      cases hmatches
    · exact .inr (.inl ⟨fun h => hforbidden (hforbids.2 h), hrecord⟩)

lemma programmed_afterEvent (key : PrefixKey) (hinv : s.Inv st.os)
    (hprograms : s.Programs (locRoute st v))
    (henv : env.lpm = some lpm) (hsid : (locRoute st v).srv6SID.isValid) :
    s.Programmed (s.afterEvent st env key (some v)) key (finding lpm (locRoute st v)) := by
  unfold afterEvent
  obtain ⟨t, ht⟩ := s.untrackNextHopGroup_eq env key
  rw [ht]
  set s₀ : SysRIB := (s.retrack t).load st key (some v) with hs₀
  obtain ⟨t₁, t₂, heq⟩ := s₀.recomputeBest_eq env key
  have hroutes : (s₀.retrack t₁).routes.lookup key = some (stored st v) := Finmap.lookup_insert _
  have hprotocols : (s₀.retrack t₁).protocols key = stored st v := by
    unfold protocols
    rw [hroutes, getD_some]
  have hwinner : selectWinner env ((s₀.retrack t₁).protocols key) = some (locRoute st v) :=
    selectWinner_protocols (u := some v) hroutes
  have howns : (s₀.retrack t₁).Owns key := (hinv.programmable key).owns
  have hselect : ((s₀.retrack t₁).selectBest env key).1 = ((s₀.retrack t₁).programWinner env key
      ((s₀.retrack t₁).best.lookup key) (locRoute st v)).1 := by
    have hpermit : (s₀.retrack t₁).fibPermitted (locRoute st v).protocol := hprograms.2
    unfold selectBest
    dsimp only
    rw [hwinner]
    dsimp only
    rw [if_neg (by rw [hprograms.1]; exact Bool.false_ne_true),
      if_neg (by rw [hpermit]; exact nofun)]
  rw [heq, hselect]
  exact programmed_programWinner hprotocols henv hsid howns

lemma installed_cascadeRecompute (hs : s.protocols key = stored st v)
    (hbest : s.best.lookup key = some (locRoute st v)) (hprograms : s.Programs (locRoute st v))
    (henv : env.lpm = some lpm) :
    let s' := (s.cascadeRecompute env key).1
    let f := finding lpm (locRoute st v)
    (f = .unreachable ∧ s'.installed.lookup key = none) ∨
    (f = .path ∧ ∃ entry, s'.installed.lookup key = some (installedEntry entry .proved)) ∨
    (f = .nothing ∧ (∀ p, s.installed.lookup key = some p → p.proved) ∧
      s'.installed.lookup key = none) ∨
    (f = .nothing ∧ (∃ p, s.installed.lookup key = some p ∧ p.proved = false) ∧
      ∃ entry, s'.installed.lookup key = some (installedEntry entry .unproved)) := by
  have hverdict : (s.fibEntry env key (locRoute st v)).2 = (finding lpm (locRoute st v)).verdict :=
    verdict_fibEntry hs henv
  have hinstall : (finding lpm (locRoute st v)) ≠ .unreachable → ∃ entry,
      (s.fibInstall key (s.fibEntry env key (locRoute st v)).1
        (finding lpm (locRoute st v)).verdict).1.installed.lookup key =
          some (installedEntry entry (finding lpm (locRoute st v)).verdict) := by
    intro hreached
    have hnot : (finding lpm (locRoute st v)).verdict ≠ .forbidden := by
      cases hf : finding lpm (locRoute st v) <;> simp_all [Finding.verdict]
    refine ⟨(s.fibEntry env key (locRoute st v)).1, ?_⟩
    unfold fibInstall
    rw [if_neg hnot]
    split_ifs
    · exact Finmap.lookup_insert _
    · exact Finmap.lookup_insert _
  dsimp only
  unfold cascadeRecompute
  simp only [hbest]
  rw [if_neg (by simp [hprograms.1, hprograms.2, henv]), hverdict]
  cases hf : finding lpm (locRoute st v) with
  | unreachable =>
    refine .inl ⟨rfl, ?_⟩
    simp [Finding.verdict, fibInstall, erase]
  | path =>
    rw [hf] at hinstall
    obtain ⟨entry, hentry⟩ := hinstall (by simp)
    refine .inr (.inl ⟨rfl, entry, ?_⟩)
    simpa [Finding.verdict] using hentry
  | nothing =>
    rw [hf] at hinstall
    obtain ⟨entry, hentry⟩ := hinstall (by simp)
    refine .inr (.inr ?_)
    cases hpath : s.installed.lookup key with
    | none =>
      refine .inl ⟨rfl, by simp, ?_⟩
      rw [if_pos ⟨rfl, by simp [programmedByZe, hpath]⟩]
      exact hpath
    | some path =>
      have hprogrammed : ¬(Finding.nothing.verdict = .unproved ∧ s.programmedByZe key = false) := by
        simp [programmedByZe, hpath]
      rw [if_neg hprogrammed]
      cases hproved : path.proved with
      | true =>
        refine .inl ⟨rfl, ?_, ?_⟩
        · intro p hp
          cases hp
          exact hproved
        · rw [if_pos ⟨rfl, by simp [hproved]⟩]
          exact Finmap.lookup_erase _ _
      | false =>
        refine .inr ⟨rfl, ⟨path, rfl, hproved⟩, entry, ?_⟩
        rw [if_neg (by simp [hproved])]
        exact hentry

/-! ## What the evaluations leave -/

/-- What the evaluations of a prefix have left for its one route. -/
structure Judged (st : Setup) (key : PrefixKey) (v : View) (s : SysRIB) (seen : List Look) :
    Prop where
  unseen : seen = [] → s.routes.lookup key = none ∧ s.best.lookup key = none
  routes : seen ≠ [] → s.routes.lookup key = some (stored st v)
  best : seen ≠ [] → s.best.lookup key = some (locRoute st v)
  steady : s.Programs (locRoute st v) → seen ≠ [] → AllNothing seen →
    ∃ path, s.installed.lookup key = some path ∧ path.proved = false
  path : s.Programs (locRoute st v) → LastPath seen → s.installed.lookup key ≠ none
  once : s.Programs (locRoute st v) → Once seen → ∀ path, s.installed.lookup key = some path →
    Carries seen ∧ (path.proved = true ↔ LastPath seen)

lemma Judged.congr {seen : List Look} (h : Judged st key v s seen) (hsame : SameAt s s' key) :
    Judged st key v s' seen where
  unseen := fun hseen => by
    rw [hsame.routes, hsame.best]
    exact h.unseen hseen
  routes := fun hseen => hsame.routes.trans (h.routes hseen)
  best := fun hseen => hsame.best.trans (h.best hseen)
  steady := fun hp hseen hall => by
    rw [hsame.installed]
    exact h.steady (hsame.programs.1 hp) hseen hall
  path := fun hp hpath => by
    rw [hsame.installed]
    exact h.path (hsame.programs.1 hp) hpath
  once := fun hp honce path hpath => by
    rw [hsame.installed] at hpath
    exact h.once (hsame.programs.1 hp) honce path hpath

lemma Judged.protocols {seen : List Look} (h : Judged st key v s seen) (hseen : seen ≠ []) :
    s.protocols key = stored st v := by
  unfold SysRIB.protocols
  rw [h.routes hseen, getD_some]

lemma proved_installedEntry (entry : FibEntry) (f : Finding) :
    (installedEntry entry f.verdict).proved ↔ f = .path := by
  cases f <;> simp [installedEntry, Finding.verdict]

lemma Judged.event {seen : List Look} (h : Judged st key v s seen) (hinv : s.Inv st.os)
    (henv : env.lpm = some lpm) (hsid : (locRoute st v).srv6SID.isValid) :
    Judged st key v (s.afterEvent st env key (some v))
      (seen ++ [⟨true, finding lpm (locRoute st v)⟩]) := by
  have hstores := hinv.event env key (some v)
  have hprograms : (s.afterEvent st env key (some v)).Programs (locRoute st v) →
      s.Programs (locRoute st v) := by
    unfold Programs fibPermitted
    rw [hstores.fibPermit]
    exact id
  have hspec := fun hp => programmed_afterEvent key hinv hp henv hsid
  refine ⟨by simp, fun _ => hstores.routes, fun _ => hstores.best, ?_, ?_, ?_⟩
  · intro hp _ hall
    obtain ⟨hbefore, hf⟩ := allNothing_append.1 hall
    dsimp only at hf
    rcases hspec (hprograms hp) with ⟨hun, -⟩ | ⟨-, entry, hentry⟩ | ⟨-, hprev, hkeep, -⟩
    · rw [hun] at hf
      cases hf
    · refine ⟨_, hentry, ?_⟩
      rw [← Bool.not_eq_true, proved_installedEntry, hf]
      exact nofun
    · have hseen : seen ≠ [] := fun hnil => hprev (h.unseen hnil).2
      rw [hkeep]
      exact h.steady (hprograms hp) hseen hbefore
  · intro hp hlast
    have hf := lastPath_append.1 hlast
    dsimp only at hf
    rcases hspec (hprograms hp) with ⟨hun, -⟩ | ⟨-, entry, hentry⟩ | ⟨-, -, hkeep, hpath⟩
    · rw [hun] at hf
      cases hf
    · rw [hentry]
      exact nofun
    · rw [hkeep]
      exact hpath hf
  · intro hp honce path hpath
    -- An event is the first evaluation of a prefix whose change was taken once.
    have hseen : seen = [] := by
      by_contra hne
      have hevent := ((once_append hne).1 honce).2
      cases hevent
    subst hseen
    rcases hspec (hprograms hp) with ⟨-, hnone⟩ | ⟨hun, entry, hentry⟩ | ⟨-, hprev, -⟩
    · rw [hnone] at hpath
      cases hpath
    · rw [hentry] at hpath
      cases hpath
      rw [proved_installedEntry, lastPath_append]
      refine ⟨?_, Iff.rfl⟩
      cases hf : finding lpm (locRoute st v) with
      | unreachable => exact absurd hf hun
      | nothing => exact .inr (by simp [AllNothing])
      | path => exact .inl (by simp [LastPath])
    · exact absurd (h.unseen rfl).2 hprev

lemma Judged.cascade {seen : List Look} (h : Judged st key v s seen) (hinv : s.Inv st.os)
    (henv : env.lpm = some lpm) (hbest : s.best.lookup key ≠ none) :
    Judged st key v (s.cascadeRecompute env key).1
      (seen ++ [⟨false, finding lpm (locRoute st v)⟩]) := by
  have hturn : Turn key s (s.cascadeRecompute env key).1 (s.cascadeRecompute env key).2 :=
    turn_cascadeRecompute (hinv.programmable key)
  have hseen : seen ≠ [] := fun hnil => hbest (h.unseen hnil).2
  have hprograms : (s.cascadeRecompute env key).1.Programs (locRoute st v) →
      s.Programs (locRoute st v) := by
    unfold Programs fibPermitted
    rw [hturn.fibPermit]
    exact id
  have hspec := fun hp => installed_cascadeRecompute (h.protocols hseen) (h.best hseen) hp henv
  dsimp only at hspec
  refine ⟨by simp, fun _ => ?_, fun _ => ?_, ?_, ?_, ?_⟩
  · rw [hturn.routes]
    exact h.routes hseen
  · rw [(s.cascadeRecompute_frame env key).1]
    exact h.best hseen
  · intro hp _ hall
    obtain ⟨hbefore, hf⟩ := allNothing_append.1 hall
    dsimp only at hf
    obtain ⟨path, hpath, hunproved⟩ := h.steady (hprograms hp) hseen hbefore
    rcases hspec (hprograms hp) with ⟨hun, -⟩ | ⟨hpa, -⟩ | ⟨-, hproved, -⟩ | ⟨-, -, entry, hentry⟩
    · rw [hun] at hf
      cases hf
    · rw [hpa] at hf
      cases hf
    · rw [hproved path hpath] at hunproved
      cases hunproved
    · exact ⟨_, hentry, rfl⟩
  · intro hp hlast
    have hf := lastPath_append.1 hlast
    dsimp only at hf
    rcases hspec (hprograms hp) with ⟨hun, -⟩ | ⟨-, entry, hentry⟩ | ⟨hno, -⟩ | ⟨hno, -⟩
    · rw [hun] at hf
      cases hf
    · rw [hentry]
      exact nofun
    · rw [hno] at hf
      cases hf
    · rw [hno] at hf
      cases hf
  · intro hp honce path hpath
    have hbefore := ((once_append hseen).1 honce).1
    rcases hspec (hprograms hp) with ⟨-, hnone⟩ | ⟨hpa, entry, hentry⟩ | ⟨-, -, hnone⟩ |
      ⟨hno, ⟨old, hold, hunproved⟩, entry, hentry⟩
    · rw [hnone] at hpath
      cases hpath
    · rw [hentry] at hpath
      cases hpath
      rw [lastPath_append]
      exact ⟨.inl (lastPath_append.2 hpa), iff_of_true rfl hpa⟩
    · rw [hnone] at hpath
      cases hpath
    · rw [hentry] at hpath
      cases hpath
      obtain ⟨hcarries, hlast⟩ := h.once (hprograms hp) hbefore old hold
      have hnot : ¬LastPath seen := by
        rw [← hlast, hunproved]
        exact nofun
      have hall : AllNothing seen := hcarries.resolve_left hnot
      rw [lastPath_append]
      refine ⟨.inr (allNothing_append.2 ⟨hall, hno⟩), iff_of_false nofun ?_⟩
      rw [hno]
      exact nofun

end SysRIB

namespace World

/-! ## The evaluations of a run -/

variable (st : Setup) (same : View → View → Prop) [DecidableRel same] (key : PrefixKey) (v : View)

/-- The evaluation of the prefix in a step of the worker: the walk meets it, its change is
processed, or a cascade has it next and it has a best route.
Source: sysrib.go run, processLocRIBChange, processCascade -/
def look (w : World) : Act → Option Look
  | .work _ =>
    match w.worker with
    | .seed (k :: _) =>
      if k = key ∧ w.loc.current key ≠ none then
        some ⟨true, finding w.loc.lpm (locRoute st v)⟩
      else none
    | .event c _ =>
      if c.key = key then some ⟨true, finding w.loc.lpm (locRoute st v)⟩ else none
    | .cascade (k :: _) _ _ =>
      if k = key ∧ w.rib.best.lookup key ≠ none then
        some ⟨false, finding w.loc.lpm (locRoute st v)⟩
      else none
    | _ => none
  | _ => none

def looks (w : World) (acts : List Act) : List Look :=
  Ze.Lib.observed (World.step st same) (look st key v) w acts

/-- The one change of the prefix is the insertion of the view. -/
def Inserts (w : World) : Act → Prop
  | .report k new _ => k = key → new = some v ∧ w.loc.current key = none
  | .handoff k new _ => k = key → new = some v ∧ w.loc.current key = none
  | .silent k _ _ => k ≠ key
  | _ => True

instance (w : World) (act : Act) : Decidable (Inserts key v w act) :=
  match act with
  | .report k new _ => inferInstanceAs (Decidable (k = key → new = some v ∧ _))
  | .handoff k new _ => inferInstanceAs (Decidable (k = key → new = some v ∧ _))
  | .silent k _ _ => inferInstanceAs (Decidable (k ≠ key))
  | .record _ | .wake _ | .receive | .woken | .work _ => inferInstanceAs (Decidable True)

/-- What holds of the prefix in every state of such a run: nothing but its one view is under way,
and the evaluations so far have left it as `Judged` says. -/
structure Arrives (permit : String → Option Bool) (w : World) (seen : List Look) : Prop where
  formed : Formed (.base st) w
  inv : w.rib.Inv st.os
  permits : w.rib.fibPermit = permit
  current : ∀ u, w.loc.current key = some u → u = v
  queued : ∀ c ∈ w.ch, c.key = key → value c = some v
  inHand : ∀ c, w.hand = some c → c.key = key → value c = some v
  held : key ∈ w.overflow ∨ w.offering.lookup key ≠ none ∨ key ∈ w.waiting →
    w.loc.current key ≠ none
  judged : w.rib.Judged st key v seen

variable {st same key v} {permit : String → Option Bool} {w w' : World} {seen : List Look}
  {k : PrefixKey}

lemma Arrives.quiet (h : Arrives st key v permit w seen) (hformed : Formed (.base st) w')
    (hrib : w'.rib = w.rib) (hcurrent : ∀ u, w'.loc.current key = some u → u = v)
    (hch : ∀ c ∈ w'.ch, c ∈ w.ch ∨ (c.key = key → value c = some v))
    (hhand : ∀ c, w'.hand = some c → w.hand = some c ∨ (c.key = key → value c = some v))
    (hheld : key ∈ w'.overflow ∨ w'.offering.lookup key ≠ none ∨ key ∈ w'.waiting →
      w'.loc.current key ≠ none) :
    Arrives st key v permit w' seen where
  formed := hformed
  inv := hrib ▸ h.inv
  permits := hrib ▸ h.permits
  current := hcurrent
  queued := fun c hc => (hch c hc).elim (h.queued c) id
  inHand := fun c hc => (hhand c hc).elim (h.inHand c) id
  held := hheld
  judged := hrib ▸ h.judged

lemma Arrives.changed (new : Option View) (lpm : Lpm) (h : Arrives st key v permit w seen)
    (hnew : k = key → new = some v) :
    (∀ u, (w.change k new lpm).loc.current key = some u → u = v) ∧
      (w.loc.current key ≠ none ∨ k = key → (w.change k new lpm).loc.current key ≠ none) := by
  by_cases hk : k = key
  · subst hk
    have hself : (w.change k new lpm).loc.current k = some v := by
      rw [hnew rfl]
      exact Function.update_self _ _ _
    rw [hself]
    exact ⟨fun u hu => (Option.some.inj hu).symm, fun _ => by simp⟩
  · have hother : (w.change k new lpm).loc.current key = w.loc.current key :=
      Function.update_of_ne (Ne.symm hk) _ _
    rw [hother]
    exact ⟨h.current, fun hor => hor.resolve_right hk⟩

variable {new : Option View} {act : Act} {choice : Choice} {ks : List PrefixKey}

section

variable (h : Arrives st key v permit w seen)
include h

lemma Arrives.processed (hsid : (locRoute st v).srv6SID.isValid) {c : Change}
    (hc : WellFormed st c.key (value c)) (hview : c.key = key → value c = some v)
    (choice : Choice) :
    (w.processed st choice c).Inv st.os ∧ (w.processed st choice c).fibPermit = permit ∧
      (w.processed st choice c).Judged st key v
        (seen ++ (if c.key = key then some ⟨true, finding w.loc.lpm (locRoute st v)⟩
          else none).toList) := by
  have hevent : w.processed st choice c = w.rib.afterEvent st (w.env choice) c.key (value c) :=
    processed_eq w choice hc
  have hstores := h.inv.event (w.env choice) c.key (value c)
  rw [hevent]
  refine ⟨hstores.inv, hstores.fibPermit.trans h.permits, ?_⟩
  by_cases hk : c.key = key
  · have henv : (w.env choice).lpm = some w.loc.lpm := rfl
    rw [if_pos hk, hk, hview hk]
    exact h.judged.event h.inv henv hsid
  · rw [if_neg hk, toList_none, append_nil]
    exact h.judged.congr (hstores.same key (Ne.symm hk))

lemma Arrives.onward (hformed : Formed (.base st) w') (hrib : w'.rib = w.rib)
    (hloc : w'.loc = w.loc) (hch : w'.ch = w.ch) (hoverflow : w'.overflow = w.overflow)
    (hoffer : w'.offering = w.offering) (hhand : w'.hand = none)
    (hwaiting : w'.waiting = w.waiting) : Arrives st key v permit w' seen := by
  refine h.quiet hformed hrib (by rw [hloc]; exact h.current) ?_ ?_ ?_
  · rw [hch]
    exact fun _ => .inl
  · intro c hc
    rw [hhand] at hc
    cases hc
  · rw [hoverflow, hoffer, hwaiting, hloc]
    exact h.held

lemma Arrives.recomputed (k : PrefixKey) (choice : Choice) :
    (w.rib.cascadeRecompute (w.env choice) k).1.Inv st.os ∧
      (w.rib.cascadeRecompute (w.env choice) k).1.fibPermit = permit ∧
      (w.rib.cascadeRecompute (w.env choice) k).1.Judged st key v
        (seen ++ (if k = key ∧ w.rib.best.lookup key ≠ none then
          some ⟨false, finding w.loc.lpm (locRoute st v)⟩ else none).toList) := by
  have hturn : SysRIB.Turn k w.rib (w.rib.cascadeRecompute (w.env choice) k).1 _ :=
    SysRIB.turn_cascadeRecompute (h.inv.programmable k)
  have henv : (w.env choice).lpm = some w.loc.lpm := rfl
  refine ⟨h.inv.turn hturn, hturn.fibPermit.trans h.permits, ?_⟩
  by_cases hk : k = key
  · subst hk
    by_cases hbest : w.rib.best.lookup k = none
    · have hskip : (w.rib.cascadeRecompute (w.env choice) k).1 = w.rib := by
        unfold SysRIB.cascadeRecompute
        rw [hbest]
      rw [if_neg (by simp [hbest]), hskip, toList_none, append_nil]
      exact h.judged
    · rw [if_pos ⟨rfl, hbest⟩]
      exact h.judged.cascade h.inv henv hbest
  · rw [if_neg fun hand => hk hand.1, toList_none, append_nil]
    exact h.judged.congr (hturn.sameAt (Ne.symm hk))

lemma Arrives.works (hsid : (locRoute st v).srv6SID.isValid) (hworks : Works st choice w w') :
    Arrives st key v permit w' (seen ++ (look st key v w (.work choice)).toList) := by
  have hformed : Formed (.base st) w' := h.formed.works hworks
  have hnone : look st key v w (.work choice) = none → Arrives st key v permit w' seen →
      Arrives st key v permit w' (seen ++ (look st key v w (.work choice)).toList) := by
    intro hlook harrives
    rw [hlook, toList_none, append_nil]
    exact harrives
  cases hworks with
  | walked hworker | cover hworker | spent hworker | untaken hworker | done hworker =>
    refine hnone (by simp [look, hworker]) (h.onward hformed rfl rfl rfl rfl rfl ?_ ?_)
    · simp [hand]
    · simp [waiting, hworker, Phase.rest, Rest.toRead]
  | skip hworker _ hcurrent =>
    refine hnone ?_ (h.onward hformed rfl rfl rfl rfl rfl (by simp [hand])
      (by simp [waiting, hworker, Phase.rest]))
    simp only [look, hworker]
    exact if_neg fun hand => hand.2 (hand.1 ▸ hcurrent)
  | @store k _ u hworker _ hcurrent =>
    have hview : Delta.key (.add k u) = key → value (.add k u) = some v := by
      rintro rfl
      exact congrArg some (h.current u hcurrent)
    obtain ⟨hinv, hpermit, hjudged⟩ :=
      h.processed hsid (c := .add k u) (h.formed.current k u hcurrent) hview choice
    have hlook : look st key v w (.work choice) = if Delta.key (.add k u) = key then
        some ⟨true, finding w.loc.lpm (locRoute st v)⟩ else none := by
      simp only [look, hworker, Delta.key]
      refine if_congr (and_iff_left_of_imp ?_) rfl rfl
      rintro rfl
      simp [hcurrent]
    rw [hlook]
    refine ⟨hformed, hinv, hpermit, h.current, h.queued, by simp [hand], ?_, hjudged⟩
    simpa [waiting, hworker, Phase.rest] using h.held
  | @event c _ hworker =>
    have hc : w.hand = some c := by simp [hand, hworker]
    obtain ⟨hinv, hpermit, hjudged⟩ :=
      h.processed hsid (h.formed.inHand c hc) (h.inHand c hc) choice
    have hlook : look st key v w (.work choice) =
        if c.key = key then some ⟨true, finding w.loc.lpm (locRoute st v)⟩ else none := by
      simp [look, hworker]
    rw [hlook]
    refine ⟨hformed, hinv, hpermit, h.current, h.queued, by simp [hand], ?_, hjudged⟩
    simpa [waiting, hworker, Phase.rest] using h.held
  | @still k _ _ _ hworker | @spread k _ _ _ _ _ hworker hrib =>
    obtain ⟨hinv, hpermit, hjudged⟩ := h.recomputed k choice
    try subst hrib
    have hlook : look st key v w (.work choice) =
        if k = key ∧ w.rib.best.lookup key ≠ none then
          some ⟨false, finding w.loc.lpm (locRoute st v)⟩ else none := by
      simp only [look, hworker]
    rw [hlook]
    refine ⟨hformed, hinv, hpermit, h.current, h.queued, by simp [hand], ?_, hjudged⟩
    simpa [waiting, hworker, Phase.rest] using h.held
  | take hworker =>
    refine hnone (by simp [look, hworker]) (h.quiet hformed rfl h.current (fun _ => .inl)
      (by simp [hand]) ?_)
    rintro (hover | hoffer | hwaits)
    · exact absurd hover (Finset.notMem_empty key)
    · exact h.held (.inr (.inl hoffer))
    · exact h.held (.inl ((choice.ord.mem_keys _ _).1 hwaits))
  | @read k ks hworker =>
    have hbefore : w.waiting = k :: ks := by
      simp [waiting, hworker, Phase.rest, Rest.toRead]
    refine hnone (by simp [look, hworker]) (h.quiet hformed rfl h.current (fun _ => .inl) ?_ ?_)
    · intro c hc
      obtain rfl : reread k (w.loc.current k) = c := by simpa [hand] using hc
      refine .inr ?_
      rw [key_reread, value_reread]
      rintro rfl
      have hheld : w.loc.current k ≠ none := h.held (.inr (.inr (hbefore ▸ mem_cons_self)))
      obtain ⟨u, hu⟩ := Option.ne_none_iff_exists'.1 hheld
      rw [hu, h.current u hu]
    · rintro (hover | hoffer | hwaits)
      · exact h.held (.inl hover)
      · exact h.held (.inr (.inl hoffer))
      · exact h.held (.inr (.inr (hbefore ▸ mem_cons_of_mem _ hwaits)))

end

omit [DecidableRel same] in
lemma Arrives.offer (h : Arrives st key v permit w seen) (hins : Inserts key v w act)
    (hsteps : Steps st same w act w') (hact : ∀ choice, act ≠ .work choice) :
    Arrives st key v permit w' seen := by
  have hformed := h.formed.steps (brings_base hsteps) hsteps
  cases hsteps with
  | @queue k new lpm =>
    obtain ⟨hcurrent, hkeeps⟩ := h.changed new lpm fun hk => (hins hk).1
    refine h.quiet hformed rfl hcurrent ?_ (fun _ => .inl) fun hheld => hkeeps (.inl (h.held hheld))
    intro c hc
    rcases mem_append.1 hc with hc | hc
    · exact .inl hc
    · rw [mem_singleton] at hc
      subst hc
      rw [key_changeFor, value_changeFor]
      exact .inr fun hk => (hins hk).1
  | @crowd k new lpm =>
    obtain ⟨hcurrent, hkeeps⟩ := h.changed new lpm fun hk => (hins hk).1
    refine h.quiet hformed rfl hcurrent (fun _ => .inl) (fun _ => .inl) ?_
    rintro (hover | hoffer | hwaits)
    · exact hkeeps (.inl (h.held (.inl hover)))
    · by_cases hk : key = k
      · exact hkeeps (.inr hk.symm)
      · rw [Finmap.lookup_insert_of_ne _ hk] at hoffer
        exact hkeeps (.inl (h.held (.inr (.inl hoffer))))
    · exact hkeeps (.inl (h.held (.inr (.inr hwaits))))
  | @handoff k new lpm =>
    obtain ⟨hcurrent, hkeeps⟩ := h.changed new lpm fun hk => (hins hk).1
    refine h.quiet hformed rfl hcurrent (fun _ => .inl) ?_ ?_
    · intro c hc
      obtain rfl : changeFor k (w.loc.current k) new = c := by simpa [hand] using hc
      rw [key_changeFor, value_changeFor]
      exact .inr fun hk => (hins hk).1
    · rintro (hover | hoffer | hwaits)
      · exact hkeeps (.inl (h.held (.inl hover)))
      · exact hkeeps (.inl (h.held (.inr (.inl hoffer))))
      · simp [waiting, Phase.rest, Rest.toRead] at hwaits
  | @silent k _ u lpm =>
    obtain ⟨hcurrent, hkeeps⟩ := h.changed (some u) lpm fun hk => absurd hk hins
    exact h.quiet hformed rfl hcurrent (fun _ => .inl) (fun _ => .inl)
      fun hheld => hkeeps (.inl (h.held hheld))
  | @record k hfull =>
    have hoffers : w.offering.lookup k ≠ none := by simp [hfull]
    refine h.quiet hformed rfl h.current (fun _ => .inl) (fun _ => .inl) ?_
    rintro (hover | hoffer | hwaits)
    · rcases Finset.mem_insert.1 hover with rfl | hover
      · exact h.held (.inr (.inl hoffers))
      · exact h.held (.inl hover)
    · by_cases hk : key = k
      · subst hk
        exact h.held (.inr (.inl hoffers))
      · rw [Finmap.lookup_insert_of_ne _ hk] at hoffer
        exact h.held (.inr (.inl hoffer))
    · exact h.held (.inr (.inr hwaits))
  | wake =>
    refine h.quiet hformed rfl h.current (fun _ => .inl) (fun _ => .inl) ?_
    rintro (hover | hoffer | hwaits)
    · exact h.held (.inl hover)
    · rw [lookup_erase_eq] at hoffer
      split_ifs at hoffer
      · exact absurd rfl hoffer
      · exact h.held (.inr (.inl hoffer))
    · exact h.held (.inr (.inr hwaits))
  | @receive c ch hidle hch =>
    refine h.quiet hformed rfl h.current ?_ ?_ ?_
    · intro d hd
      rw [hch]
      exact .inl (mem_cons_of_mem _ hd)
    · intro d hd
      obtain rfl : c = d := by simpa [hand] using hd
      exact .inr (h.queued c (hch ▸ mem_cons_self))
    · rintro (hover | hoffer | hwaits)
      · exact h.held (.inl hover)
      · exact h.held (.inr (.inl hoffer))
      · simp [waiting, Phase.rest, Rest.toRead] at hwaits
  | woken =>
    refine h.quiet hformed rfl h.current (fun _ => .inl) (by simp [hand]) ?_
    rintro (hover | hoffer | hwaits)
    · exact h.held (.inl hover)
    · exact h.held (.inr (.inl hoffer))
    · simp [waiting, Phase.rest, Rest.toRead] at hwaits
  | work => exact absurd rfl (hact _)

omit [DecidableRel same] in
lemma Arrives.steps (h : Arrives st key v permit w seen)
    (hsid : (locRoute st v).srv6SID.isValid) (hins : Inserts key v w act)
    (hsteps : Steps st same w act w') :
    Arrives st key v permit w' (seen ++ (look st key v w act).toList) := by
  cases act with
  | work choice =>
    cases hsteps with
    | work hworks => exact h.works hsid hworks
  | _ =>
    rw [show look st key v w _ = none from rfl, toList_none, append_nil]
    exact h.offer hins hsteps (by simp)

lemma arrives_start {dist : String → Option ℤ} {loc : Loc}
    (hks : Walks st loc ks) (hcurrent : ∀ u, loc.current key = some u → u = v) :
    Arrives st key v permit (start loc (emptyRIB dist permit) ks) [] where
  formed := (@FeedInv.start st (fun _ _ => True) _ _ _ hks rfl).formed
  inv := (kept_empty dist permit).inv
  permits := rfl
  current := hcurrent
  queued := by simp [start]
  inHand := by simp [start, hand]
  held := by simp [start, waiting, Phase.rest]
  judged := by
    refine ⟨fun _ => ⟨rfl, rfl⟩, fun h => absurd rfl h, fun h => absurd rfl h, fun _ h =>
      absurd rfl h, fun _ h => ?_, fun _ _ path hpath => ?_⟩
    · simp [LastPath] at h
    · have hnone : (emptyRIB dist permit).installed.lookup key = none := rfl
      rw [show (start loc (emptyRIB dist permit) ks).rib = emptyRIB dist permit from rfl, hnone]
        at hpath
      cases hpath

/-! ## Two runs -/

/-- A run in which the prefix changes once, to the view, and after which nothing is on its way. The
prefix was not programmed before: the system RIB starts empty. -/
structure Arrival (st : Setup) (same : View → View → Prop) [DecidableRel same] (key : PrefixKey)
    (v : View) (start : World) (permit : String → Option Bool) (acts : List Act) (w : World) :
    Prop where
  starts : ∃ loc dist ks, Walks st loc ks ∧ (∀ u, loc.current key = some u → u = v) ∧
    start = World.start loc (emptyRIB dist permit) ks
  inserts : Ze.Lib.Meets (World.step st same) (Inserts key v) start acts
  run : Ze.Lib.run (World.step st same) start acts = some w
  drained : w.ch = [] ∧ w.overflow = ∅ ∧ w.offering = ∅ ∧ w.worker = .idle
  current : w.loc.current key = some v

/-- The protocol of a view is neither installed by the operating system nor withheld. -/
def Means (st : Setup) (permit : String → Option Bool) (v : View) : Prop :=
  st.os (st.reg.name v.1.source) = false ∧ fibPermits permit (st.reg.name v.1.source) = true

instance (st : Setup) (permit : String → Option Bool) (v : View) : Decidable (Means st permit v) :=
  inferInstanceAs (Decidable (_ ∧ _))

section

variable {acts : List Act} {w₀ : World}

variable (h : Arrival st same key v w₀ permit acts w)
include h

lemma Arrival.arrives (hsid : (locRoute st v).srv6SID.isValid) :
    Arrives st key v permit w (looks st same key v w₀ acts) := by
  obtain ⟨loc, dist, ks, hks, hcurrent, rfl⟩ := h.starts
  have hstart : Arrives st key v permit (World.start loc (emptyRIB dist permit) ks) [] :=
    arrives_start hks hcurrent
  exact Ze.Lib.run_observed (J := Arrives st key v permit)
    (fun _ _ _ _ harrives hact hstep => harrives.steps hsid hact (steps_of_step hstep))
    acts _ w [] hstart h.inserts
    h.run

lemma Arrival.looks_ne_nil (hrefl : ∀ v, same v v)
    (htrans : ∀ u v t, same u v → same v t → same u t) (hsid : (locRoute st v).srv6SID.isValid) :
    looks st same key v w₀ acts ≠ [] := by
  intro hnil
  have hroutes := ((h.arrives hsid).judged.unseen hnil).1
  obtain ⟨loc, dist, ks, hks, -, hstart⟩ := h.starts
  have hinv : FeedInv st same w := by
    refine Ze.Lib.run_inv ?_ acts _ w ?_ h.run
    · exact fun s act s' hs hstep => hs.steps hrefl htrans (steps_of_step hstep)
    · rw [hstart]
      exact FeedInv.start hks rfl
  obtain ⟨hch, hover, hoffer, hidle⟩ := h.drained
  rcases hinv.settles key with (hfull | hmem) | ⟨c, hc, -⟩ | ⟨-, hread | ⟨c, hc, -⟩ | ⟨-, u, hrel,
    hu⟩⟩
  · rw [hoffer, Finmap.lookup_empty] at hfull
    cases hfull
  · rw [hover] at hmem
    exact absurd hmem (Finset.notMem_empty key)
  · rw [hch, lastFor_nil] at hc
    cases hc
  · simp [toRead, hidle] at hread
  · simp [handFor, hand, hidle] at hc
  · rw [h.current] at hrel
    rw [hroutes] at hu
    cases hrel with
    | some hsame => cases hu

lemma Arrival.programmed (hrefl : ∀ v, same v v) (htrans : ∀ u v t, same u v → same v t → same u t)
    (hsid : (locRoute st v).srv6SID.isValid) :
    (Means st permit v → Carries (looks st same key v w₀ acts) → w.rib.programmedByZe key) ∧
    (w.rib.programmedByZe key → Means st permit v ∧
      (Once (looks st same key v w₀ acts) → Carries (looks st same key v w₀ acts))) := by
  have harrives := h.arrives hsid
  have hseen := h.looks_ne_nil hrefl htrans hsid
  have hmeans : w.rib.Programs (locRoute st v) ↔ Means st permit v := by
    unfold SysRIB.Programs SysRIB.fibPermitted Means
    rw [harrives.permits]
    exact Iff.rfl
  refine ⟨fun hm hcarries => ?_, fun hprogrammed => ?_⟩
  · rcases hcarries with hlast | hall
    · exact Option.isSome_iff_ne_none.2 (harrives.judged.path (hmeans.2 hm) hlast)
    · obtain ⟨path, hpath, -⟩ := harrives.judged.steady (hmeans.2 hm) hseen hall
      exact Option.isSome_iff_exists.2 ⟨path, hpath⟩
  · obtain ⟨path, hpath⟩ := Option.isSome_iff_exists.1 hprogrammed
    obtain ⟨b, hb, hos, hpermit⟩ := harrives.inv.programmable key path hpath
    rw [harrives.judged.best hseen] at hb
    cases hb
    have hprograms : w.rib.Programs (locRoute st v) := ⟨hos, hpermit⟩
    exact ⟨hmeans.1 hprograms, fun honce =>
      (harrives.judged.once hprograms honce path hpath).1⟩

end

/-- **Theorem.** For every route with an SRv6 SID, take two runs in which its prefix changes once,
to this route, and which end with every change processed; everything else may differ, the order of
the routes that cover its SID and its gateways among it. When in both runs the last evaluation of
the prefix found a path, or every evaluation found the SID reachable and no path, the prefix is
programmed at the end of both or of neither; and where the change of the prefix was taken once, only
then, unless Ze does not program the route's protocol or both runs fail the condition. -/
theorem programmed_alike_iff (st : Setup) (same : View → View → Prop) [DecidableRel same]
    (hrefl : ∀ v, same v v) (htrans : ∀ u v t, same u v → same v t → same u t)
    (key : PrefixKey) (v : View) (hsid : v.1.srv6SID.isValid)
    (permit : String → Option Bool) {start₁ start₂ : World} {acts₁ acts₂ : List Act} {w₁ w₂ : World}
    (h₁ : Arrival st same key v start₁ permit acts₁ w₁)
    (h₂ : Arrival st same key v start₂ permit acts₂ w₂) :
    (Carries (looks st same key v start₁ acts₁) → Carries (looks st same key v start₂ acts₂) →
      w₁.rib.programmedByZe key = w₂.rib.programmedByZe key) ∧
    (Once (looks st same key v start₁ acts₁) → Once (looks st same key v start₂ acts₂) →
      (w₁.rib.programmedByZe key = w₂.rib.programmedByZe key ↔
        ¬Means st permit v ∨ (Carries (looks st same key v start₁ acts₁) ↔
          Carries (looks st same key v start₂ acts₂)))) := by
  obtain ⟨hcarry₁, hback₁⟩ := h₁.programmed hrefl htrans hsid
  obtain ⟨hcarry₂, hback₂⟩ := h₂.programmed hrefl htrans hsid
  refine ⟨fun hc₁ hc₂ => ?_, fun honce₁ honce₂ => ?_⟩
  · rw [Bool.eq_iff_iff]
    exact ⟨fun hp => hcarry₂ (hback₁ hp).1 hc₂, fun hp => hcarry₁ (hback₂ hp).1 hc₁⟩
  · rw [Bool.eq_iff_iff]
    by_cases hmeans : Means st permit v
    · have hiff₁ : w₁.rib.programmedByZe key ↔ Carries (looks st same key v start₁ acts₁) :=
        ⟨fun hp => (hback₁ hp).2 honce₁, hcarry₁ hmeans⟩
      have hiff₂ : w₂.rib.programmedByZe key ↔ Carries (looks st same key v start₂ acts₂) :=
        ⟨fun hp => (hback₂ hp).2 honce₂, hcarry₂ hmeans⟩
      rw [hiff₁, hiff₂]
      exact ⟨.inr, fun hor => hor.resolve_left (not_not_intro hmeans)⟩
    · exact iff_of_true ⟨fun hp => absurd (hback₁ hp).1 hmeans, fun hp =>
        absurd (hback₂ hp).1 hmeans⟩
        (.inl hmeans)

/-! ### A gateway that nothing covers -/

def sidKey : PrefixKey := (⟨1, 1⟩, ⟨.v4 0x0a000000#32, 8⟩)

/-- A route over the gateway 192.0.2.1, with the SID 2001:db8::1. -/
def sidView : View :=
  ({ source := 1, nextHop := .v4 0xc0000201#32,
     srv6SID := .v6 0x20010db8000000000000000000000001#128 [] }, [])

/-- 2001:db8::/32 of IPv6 unicast, which covers the SID. -/
def coverKey : PrefixKey := (⟨2, 1⟩, ⟨.v6 0x20010db8000000000000000000000000#128 [], 32⟩)

/-- The Loc-RIB with the route, the cover, or both. -/
def sidLoc (route cover : Bool) : Loc :=
  Loc.of fun k => if k = sidKey ∧ route then some sidView
    else if k = coverKey ∧ cover then some deviceView else none

/-- Ranges that meet the one protocol and the two prefixes. -/
noncomputable def sidChoice : Choice where
  range := RangeOrder.listing ["static"] (nodup_singleton _)
  sort := PathSort.insertion
  ord := RangeOrder.listing [sidKey, coverKey] (by decide)

/-- The worker takes a change and processes it, with some prefixes to cascade. -/
noncomputable def taken (cascaded : ℕ) : List Act :=
  .receive :: replicate (cascaded + 4) (.work sidChoice)

/-- The cover is inserted and processed, and then the route. -/
noncomputable def coverFirst : List Act :=
  .work sidChoice :: .report coverKey (some deviceView) (sidLoc false true).lpm :: taken 0 ++
    .report sidKey (some sidView) (sidLoc true true).lpm :: taken 0

/-- The route is inserted and processed, and then the cover. -/
noncomputable def routeFirst : List Act :=
  .work sidChoice :: .report sidKey (some sidView) (sidLoc true false).lpm :: taken 0 ++
    .report coverKey (some deviceView) (sidLoc true true).lpm :: taken 1

/-- The route is inserted and then the cover, before the worker takes a change. -/
noncomputable def routeQueued : List Act :=
  .work sidChoice :: .report sidKey (some sidView) (sidLoc true false).lpm ::
    .report coverKey (some deviceView) (sidLoc true true).lpm :: taken 0 ++ taken 1

def sidStart : World := start (sidLoc false false) (emptyRIB (fun _ => none) fun _ => none) []

/-- Nothing is on its way, the Loc-RIB holds both routes, its lookups find the SID and not the
gateway, and the prefix is programmed or not. -/
def endsWith (programmed : Bool) (w : World) : Bool :=
  w.ch.isEmpty && w.overflow == ∅ && w.offering == ∅ && w.worker.isIdle &&
    w.loc.current sidKey == some sidView && w.loc.current coverKey == some deviceView &&
    (resolve w.loc.lpm sidView.1.srv6SID).resolved &&
      !(resolve w.loc.lpm sidView.1.nextHop).resolved &&
    w.rib.programmedByZe sidKey == programmed

lemma arrival_of_run (acts : List Act) (programmed : Bool)
    (hinserts : Ze.Lib.Meets (World.step (staticSetup locRIBFeedSize) (· = ·))
      (Inserts sidKey sidView) sidStart acts)
    (hrun : (Ze.Lib.run (World.step (staticSetup locRIBFeedSize) (· = ·)) sidStart acts).any
      (endsWith programmed)) :
    ∃ w, Arrival (staticSetup locRIBFeedSize) (· = ·) sidKey sidView sidStart (fun _ => none) acts
        w ∧ endsWith programmed w := by
  obtain ⟨w, hrun, hends⟩ := (Option.any_eq_true _ _).mp hrun
  have hnone : ∀ k u, (sidLoc false false).current k = some u → False := by
    intro k u hu
    simp [sidLoc, Loc.of] at hu
  have hwalks : Walks (staticSetup locRIBFeedSize) (sidLoc false false) [] := by
    refine ⟨nodup_nil, by simp, fun k u hu => (hnone k u hu).elim, fun k hk => ?_⟩
    obtain ⟨u, hu⟩ := Option.ne_none_iff_exists'.mp hk
    exact (hnone k u hu).elim
  have hw := hends
  simp only [endsWith, Bool.and_eq_true, List.isEmpty_iff, beq_iff_eq] at hw
  obtain ⟨⟨⟨⟨⟨⟨⟨⟨hch, hover⟩, hoffer⟩, hidle⟩, hcurrent⟩, -⟩, -⟩, -⟩, -⟩ := hw
  refine ⟨w, ⟨?_, hinserts, hrun, ⟨hch, hover, hoffer, Phase.eq_idle hidle⟩, hcurrent⟩, hends⟩
  exact ⟨_, fun _ => none, [], hwalks, fun u hu => (hnone _ u hu).elim, rfl⟩

/-- The route inserted before its cover, and taken after it, is programmed as it is when the cover
comes first. -/
theorem routeQueued_alike :
    ∃ w₁ w₂, Arrival (staticSetup locRIBFeedSize) (· = ·) sidKey sidView sidStart (fun _ => none)
        coverFirst w₁ ∧
      Arrival (staticSetup locRIBFeedSize) (· = ·) sidKey sidView sidStart (fun _ => none)
        routeQueued w₂ ∧
      w₁.rib.programmedByZe sidKey = w₂.rib.programmedByZe sidKey := by
  obtain ⟨w₁, h₁, -⟩ := arrival_of_run coverFirst true (by decide +kernel) (by decide +kernel)
  obtain ⟨w₂, h₂, -⟩ := arrival_of_run routeQueued true (by decide +kernel) (by decide +kernel)
  refine ⟨w₁, w₂, h₁, h₂, ?_⟩
  exact (programmed_alike_iff _ (· = ·) (fun _ => rfl) (fun _ _ _ => Eq.trans) sidKey sidView
    (by decide) _ h₁ h₂).1 (by decide +kernel) (by decide +kernel)

/-- The same two routes in the two orders: the gateway resolves in neither run, both Loc-RIBs end
with the cover of the SID, and the prefix is programmed only where the cover came first. -/
theorem cover_last_not_programmed :
    ∃ w₁ w₂, Arrival (staticSetup locRIBFeedSize) (· = ·) sidKey sidView sidStart (fun _ => none)
        coverFirst w₁ ∧ endsWith true w₁ ∧
      Arrival (staticSetup locRIBFeedSize) (· = ·) sidKey sidView sidStart (fun _ => none)
        routeFirst w₂ ∧ endsWith false w₂ ∧
      w₁.rib.programmedByZe sidKey ≠ w₂.rib.programmedByZe sidKey := by
  obtain ⟨w₁, h₁, hw₁⟩ := arrival_of_run coverFirst true (by decide +kernel) (by decide +kernel)
  obtain ⟨w₂, h₂, hw₂⟩ := arrival_of_run routeFirst false (by decide +kernel) (by decide +kernel)
  refine ⟨w₁, w₂, h₁, hw₁, h₂, hw₂, ?_⟩
  simp only [endsWith, Bool.and_eq_true, beq_iff_eq] at hw₁ hw₂
  rw [hw₁.2, hw₂.2]
  exact nofun

end World

end Ze.SysRib
