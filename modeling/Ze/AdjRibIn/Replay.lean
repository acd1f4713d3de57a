import Ze.AdjRibIn.Eligibility
import Mathlib.Data.PNat.Basic

/-!
# The replay and the selection

A replay to a peer that comes up looks at the flag `Ineligible` of each stored route;
`routeEligible` looks at the routes that wait and at the buffered decisions as well. The two agree
as long as the flag is set on every route that a decision about a later UPDATE keeps back
(`Slot.Fenced`).
-/

namespace Ze.AdjRibIn

open Ze.Net Ze.Lib List
open World (key24)

structure ReplayCut where
  maxMsgID : ℕ
  bounded : Bool
deriving DecidableEq, Repr

def unboundedReplay : ReplayCut := ⟨0, false⟩

def ReplayCut.excludes (c : ReplayCut) (msgID : ℕ) : Bool :=
  c.bounded && decide (msgID ≠ 0) && decide (c.maxMsgID < msgID)

namespace Manager

/-- The walk of a replay visits the route that is stored under `key` at the sequence `seq`.
Source: rib.go walkReplayRoutes, the body of its loops; seqmap.go Since -/
def walkVisits (r : Manager) (targetPeer : Addr) (fromIndex : ℕ) (cut : ReplayCut)
    (key : PendingKey) (seq : ℕ) (rt : RawRoute) : Bool :=
  if key.peerAddr = targetPeer then false
  else if seq < fromIndex then false
  else if isFlowSpec rt.family then false
  else if rt.ineligible then false
  else if r.sourcePolicyDenied key.peerAddr rt.sourcePolicyEpoch then false
  else if seq ≤ fromIndex then false
  else if cut.excludes rt.msgID then false
  else true

/-- A replay from the start and without a cut visits the route stored under `key`. The counter is
incremented before a route is put, so that sequences start at 1.
Source: rib.go walkReplayRoutes -/
def replays (r : Manager) (targetPeer : Addr) (key : PendingKey) (seq : ℕ+) : Bool :=
  (r.ribIn key).any fun rt => r.walkVisits targetPeer 0 unboundedReplay key seq rt

/-- One event, whatever its message id and its time.
Source: rib.go, rib_validation.go -/
def step (r : Manager) : Act → Option Manager
  | .update u now => some (r.handleReceived u now)
  | .decision key d now => some (r.applyDecision key d now).1
  | .sweep now => some (r.sweep now)

/-- The event is no decision without a message id that accepts a route held for its key although a
decision about a later UPDATE is buffered. -/
def Respects (r : Manager) : Act → Prop
  | .decision key d _ => d.msgID = 0 → d.Accepts → ∀ ed ∈ r.earlyDecisions key,
      (∀ pr ∈ r.pending key, ed.msgID ≤ pr.route.msgID) ∧
        ∀ rt ∈ r.ribIn key, ed.msgID ≤ rt.msgID
  | _ => True

instance (r : Manager) : (a : Act) → Decidable (r.Respects a)
  | .update _ _ => isTrue trivial
  | .decision key d _ => inferInstanceAs (Decidable (d.msgID = 0 → d.Accepts →
      ∀ ed ∈ r.earlyDecisions key, _ ∧ _))
  | .sweep _ => isTrue trivial

end Manager

/-! ## One route -/

namespace Slot

variable {s : Slot} {fam : LocRib.Family}

/-- A route that waits has no installed predecessor, and an installed route that a buffered decision
keeps back has its flag set. -/
structure Fenced (fam : LocRib.Family) (s : Slot) : Prop where
  apart : ∀ pr ∈ s.pending, s.installed = none ∧ pr.route.family = fam
  family : ∀ rt ∈ s.installed, rt.family = fam
  kept : ∀ rt ∈ s.installed, s.Blocked rt.msgID → rt.ineligible = true

lemma fenced_empty (ed : Option EarlyDecision) : Fenced fam ⟨none, ed, none⟩ where
  apart := by simp
  family := by simp
  kept := by simp

variable {pr : PendingRoute}

lemma fenced_waiting (ed : Option EarlyDecision)
    (hfam : pr.route.family = fam) : Fenced fam ⟨some pr, ed, none⟩ where
  apart := by
    rintro _ ⟨⟩
    exact ⟨rfl, hfam⟩
  family := by simp
  kept := by simp

lemma fenced_installed {rt : RawRoute} {ed : Option EarlyDecision} (hfam : rt.family = fam)
    (hkept : ∀ e ∈ ed, rt.msgID < e.msgID → rt.ineligible) :
    Fenced fam ⟨none, ed, some rt⟩ where
  apart := by simp
  family := by
    rintro _ ⟨⟩
    exact hfam
  kept := by
    rintro _ ⟨⟩ ⟨e, he, hlt⟩
    exact hkept e he hlt

lemma fenced_arrive (hfam : pr.route.family = fam) (s : Slot) : (s.arrive pr).Fenced fam := by
  rw [arrive]
  rcases s.early with _ | ed
  · exact fenced_waiting none hfam
  · dsimp only
    split_ifs
    · exact fenced_waiting _ hfam
    · exact fenced_waiting _ hfam
    · rcases ed.action with _ | _ | _
      · exact fenced_installed hfam (by simp)
      · exact fenced_empty none
      · exact fenced_installed hfam (by simp)

lemma Fenced.receive {d : ValidationDecision} (h : s.Fenced fam) (now : ℕ)
    (hd : d.msgID = 0 → d.Accepts → ∀ ed ∈ s.early, (∀ pr ∈ s.pending, ed.msgID ≤ pr.route.msgID) ∧
      ∀ rt ∈ s.installed, ed.msgID ≤ rt.msgID) :
    (s.receive d now).Fenced fam := by
  obtain ⟨pending, early, installed⟩ := s
  -- a decision that is not older than the buffered one and names the route held
  have hnewest : ∀ m, ¬ (d.msgID ≠ 0 ∧ d.msgID ≠ m) →
      ¬ (early.any fun newer => decide (d.msgID ≠ 0 ∧ d.msgID < newer.msgID)) →
      ∀ e ∈ early, m < e.msgID → d.msgID = 0 := by
    intro m hnames hold e he hlt
    by_contra hne
    refine hold ((Option.any_eq_true _ _).2 ⟨e, he, decide_eq_true ⟨hne, ?_⟩⟩)
    omega
  rw [Slot.receive]
  dsimp only
  by_cases hold : (early.any fun newer => decide (d.msgID ≠ 0 ∧ d.msgID < newer.msgID))
  · rw [if_pos hold]
    exact h
  · rw [if_neg hold]
    rcases pending with _ | pr
    · rcases installed with _ | rt
      · exact fenced_empty _
      · have hfam := h.family rt rfl
        dsimp only
        rw [receiveInstalled]
        by_cases hnames : d.msgID ≠ 0 ∧ d.msgID ≠ rt.msgID
        · rw [if_pos hnames]
          split_ifs
          · exact h
          · exact fenced_installed hfam fun _ _ _ => rfl
        · rw [if_neg hnames]
          split_ifs with hreject
          · exact fenced_empty early
          · refine fenced_installed hfam fun e he hlt => ?_
            by_contra hel
            have hzero := hnewest rt.msgID hnames hold e he hlt
            have hacc : d.Accepts := accepts_of_not_ineligible (by tauto) hel
            have hle := (hd hzero hacc e he).2 rt rfl
            exact absurd hlt (by simpa using hle)
    · have hfam := (h.apart pr rfl).2
      have hnone : installed = none := (h.apart pr rfl).1
      subst hnone
      dsimp only
      rw [receivePending]
      by_cases hnames : d.msgID ≠ 0 ∧ d.msgID ≠ pr.route.msgID
      · rw [if_pos hnames]
        split_ifs
        · exact h
        · exact fenced_waiting _ hfam
      · rw [if_neg hnames]
        split_ifs with haccept
        · refine fenced_installed hfam fun e he hlt => ?_
          by_contra hel
          have hzero := hnewest pr.route.msgID hnames hold e he hlt
          have hle := (hd hzero (accepts_of_not_ineligible haccept hel) e he).1 pr rfl
          exact absurd hlt (by simpa using hle)
        · exact fenced_empty early

end Slot

/-! ## The store -/

namespace Manager

variable {r : Manager} {key : PendingKey} {P : Slot → Prop}

lemma slot_foldl_installNLRI (u : Update) (a : Announcement) (now : ℕ)
    (hkey : isSimplePrefixFamily key.route.fam)
    (harrive : ∀ (s : Slot) (n : NLRI), key = ⟨u.peer, n.key a.fam⟩ → P s →
      P (s.arrive ⟨newRoute u a n, now⟩)) : (ns : List NLRI) → ∀ {r : Manager},
    r.validationEnabled → P (r.slot key) →
      P ((ns.foldl (installNLRI u a now) r).slot key)
  | [], _, _, h => h
  | n :: ns, r, hr, h => by
      rw [foldl_cons]
      have hr' : (installNLRI u a now r n).validationEnabled := by
        rw [(frame_installNLRI u a now r n).enabled, hr]
      apply slot_foldl_installNLRI u a now hkey harrive ns hr'
      rw [slot_installNLRI u a now hr hkey n]
      split_ifs with hk
      · exact harrive _ n hk h
      · exact h

lemma slot_handleReceived {u : Update} {now : ℕ} (hr : r.validationEnabled)
    (hkey : isSimplePrefixFamily key.route.fam) (hempty : P ⟨none, none, none⟩)
    (harrive : ∀ (a : Announcement) (s : Slot) (n : NLRI), key = ⟨u.peer, n.key a.fam⟩ → P s →
      P (s.arrive ⟨newRoute u a n, now⟩)) (h : P (r.slot key)) :
    P ((r.handleReceived u now).slot key) := by
  have hremove : ∀ (ks : List RouteKey) (r : Manager), P (r.slot key) →
      P ((ks.foldl (fun r k => r.removeNLRI ⟨u.peer, k⟩) r).slot key) := by
    intro ks r h
    rw [slot_foldl_removeNLRI]
    split_ifs
    · exact hempty
    · exact h
  have hinstall : ∀ (a : Announcement) {r : Manager}, r.validationEnabled →
      P (r.slot key) → P ((r.installNLRIs u a now).slot key) := by
    intro a r hr h
    rw [installNLRIs]
    split_ifs
    · exact h
    · exact slot_foldl_installNLRI u a now hkey (harrive a) a.nlris hr h
  rw [handleReceived]
  apply hinstall
  · rw [enabled_installNLRIs, validationEnabled_foldl_removeNLRI,
      validationEnabled_foldl_removeNLRI, hr]
  · apply hinstall
    · rw [validationEnabled_foldl_removeNLRI, validationEnabled_foldl_removeNLRI, hr]
    · exact hremove _ _ (hremove _ _ h)

lemma fenced_sweep (now : ℕ) (h : (r.slot key).Fenced key.route.fam) :
    ((r.sweep now).slot key).Fenced key.route.fam := by
  have hearly : ∀ ed ∈ (r.sweep now).earlyDecisions key, ed ∈ r.earlyDecisions key := by
    intro ed hed
    exact (Option.mem_filter_iff.1 hed).1
  rcases hexp : r.expired now key with _ | pr
  · have hslot : (r.sweep now).slot key =
        ⟨r.pending key, (r.sweep now).earlyDecisions key, r.ribIn key⟩ := by
      simp [slot, sweep, sweepExpiredEarlyDecisions, sweepExpiredPending, hexp]
    rw [hslot]
    refine ⟨h.apart, h.family, ?_⟩
    rintro rt hrt ⟨ed, hed, hlt⟩
    exact h.kept rt hrt ⟨ed, hearly ed hed, hlt⟩
  · have hslot : (r.sweep now).slot key = ⟨none, (r.sweep now).earlyDecisions key,
        some { pr.route with validationState := validationNotValidated }⟩ := by
      simp [slot, sweep, sweepExpiredEarlyDecisions, sweepExpiredPending, hexp]
    rw [expired, Option.filter_eq_some_iff, decide_eq_true_eq] at hexp
    obtain ⟨hpr, -, hfree⟩ := hexp
    rw [hslot]
    refine Slot.fenced_installed (h.apart pr hpr).2 fun ed hed hlt => ?_
    have hle := hfree ed (hearly ed hed)
    exact absurd hlt (by simpa using hle)

/-! ### The store does not fail -/

lemma terminal_removeNLRIs (peer : Addr) (ks : List RouteKey) (r : Manager) :
    (ks.foldl (fun r k => r.removeNLRI ⟨peer, k⟩) r).terminal = r.terminal := by
  induction ks generalizing r with
  | nil => rfl
  | cons k ks ih =>
    rw [foldl_cons, ih]
    rfl

lemma terminal_installNLRIs (u : Update) (a : Announcement) (now : ℕ) (r : Manager) :
    (r.installNLRIs u a now).terminal = r.terminal := by
  rw [installNLRIs]
  split_ifs
  · rfl
  · generalize a.nlris = ns
    induction ns generalizing r with
    | nil => rfl
    | cons n ns ih => rw [foldl_cons, ih, (frame_installNLRI u a now r n).terminal]

variable {r' : Manager} {a : Act}

lemma terminal_step (h : r.step a = some r') : r'.terminal = r.terminal := by
  rcases a with ⟨u, now⟩ | ⟨key, d, now⟩ | now
  · cases h
    rw [handleReceived]
    rw [terminal_installNLRIs, terminal_installNLRIs, terminal_removeNLRIs, terminal_removeNLRIs]
  · cases h
    exact (frame_applyDecision r key d now).terminal
  · cases h
    rfl

/-! ## Runs -/

/-- Validation is enabled, the store has not failed, and every unicast and multicast route is
fenced. -/
structure Fenced (r : Manager) : Prop where
  enabled : r.validationEnabled = true
  running : r.terminal = false
  slots : ∀ key, isSimplePrefixFamily key.route.fam = true → (r.slot key).Fenced key.route.fam

lemma Fenced.step (h : r.Fenced) (hc : r.Respects a) (hs : r.step a = some r') : r'.Fenced := by
  have hrunning : r'.terminal = false := (terminal_step hs).trans h.running
  rcases a with ⟨u, now⟩ | ⟨k, d, now⟩ | now
  · cases hs
    refine ⟨(enabled_handleReceived r u now).trans h.enabled, hrunning, fun key hkey => ?_⟩
    apply slot_handleReceived h.enabled hkey (Slot.fenced_empty none) _ (h.slots key hkey)
    intro a s n hk _
    apply Slot.fenced_arrive
    rw [hk]
    rfl
  · cases hs
    have hframe := frame_applyDecision r k d now
    refine ⟨hframe.enabled.trans h.enabled, hrunning, fun key hkey => ?_⟩
    by_cases hk : key = k
    · subst hk
      rw [slot_applyDecision hkey h.enabled]
      exact (h.slots key hkey).receive now hc
    · rw [hframe.other key hk]
      exact h.slots key hkey
  · cases hs
    exact ⟨h.enabled, hrunning, fun key hkey => fenced_sweep now (h.slots key hkey)⟩

lemma Fenced.replays_eq (h : r.Fenced) (hkey : isSimplePrefixFamily key.route.fam)
    {targetPeer : Addr} (hother : key.peerAddr ≠ targetPeer) (seq : ℕ+) :
    r.replays targetPeer key seq = r.routeEligible key 0 := by
  have hslot := h.slots key hkey
  rw [routeEligible, h.running, World.isFlowSpec_of_simple hkey, h.enabled, replays]
  rcases hrt : r.ribIn key with _ | rt
  · simp
  · have hpend : r.pending key = none := by
      rcases hp : r.pending key with _ | pr
      · rfl
      · have hnone : r.ribIn key = none := (hslot.apart pr hp).1
        rw [hrt] at hnone
        cases hnone
    have hflow : isFlowSpec rt.family = false := by
      rw [hslot.family rt hrt, World.isFlowSpec_of_simple hkey]
    have hseq : ¬ (seq : ℕ) ≤ 0 := Nat.not_le.2 seq.pos
    simp only [Option.any_some, walkVisits, if_neg hother, hflow, hpend, unboundedReplay,
      ReplayCut.excludes, if_neg hseq]
    by_cases hblocked : (r.slot key).Blocked rt.msgID
    · -- kept back: the flag is set
      rw [hslot.kept rt hrt hblocked]
      simp
    · have hfree : ((r.earlyDecisions key).any fun newer => decide (rt.msgID < newer.msgID)) =
          false := by
        rw [Bool.eq_false_iff]
        intro hany
        obtain ⟨ed, hed, hlt⟩ := (Option.any_eq_true _ _).1 hany
        exact hblocked ⟨ed, hed, of_decide_eq_true hlt⟩
      rw [hfree]
      rcases rt.ineligible with _ | _ <;> simp

/-- **The replay and the selection agree.** In every run of UPDATEs, decisions and sweeps, with any
message ids and at any times, in which no decision without a message id accepts a route that a
buffered decision about a later UPDATE keeps back: an unbounded replay to another peer visits a
unicast or multicast route if and only if `routeEligible` answers true for its key and the message
id zero. -/
theorem replay_eq_selection {validationTimeout : ℕ} {policyDenied : Addr → Option ℕ}
    {acts : List Act}
    (hresp : Meets step Respects (World.init validationTimeout policyDenied false).r acts)
    (hrun : run step (World.init validationTimeout policyDenied false).r acts = some r)
    (hkey : isSimplePrefixFamily key.route.fam) {targetPeer : Addr}
    (hother : key.peerAddr ≠ targetPeer) (seq : ℕ+) :
    r.replays targetPeer key seq ↔ r.routeEligible key 0 := by
  have hinit : (World.init validationTimeout policyDenied false).r.Fenced :=
    ⟨rfl, rfl, fun _ _ => Slot.fenced_empty none⟩
  have hinv : r.Fenced := run_keeps (fun _ _ _ h hc hs => h.step hc hs) acts _ r hinit hresp hrun
  rw [hinv.replays_eq hkey hother seq]

/-- UPDATE 1 and its decision, then the decision about the UPDATE 2 to come: the route is kept back
on both sides. -/
theorem replay_eq_selection_waiting :
    ∃ r, run step World.new.r [.update (World.update1 []) 0,
        .decision key24 ⟨true, false, 1, 1⟩ 1, .decision key24 ⟨true, false, 1, 2⟩ 2] =
          some r ∧
      r.replays (.v4 0x0A000002#32) key24 1 = false ∧
      (r.replays (.v4 0x0A000002#32) key24 1 ↔
        r.routeEligible key24 0) := by
  have hany : (run step World.new.r [.update (World.update1 []) 0,
      .decision key24 ⟨true, false, 1, 1⟩ 1, .decision key24 ⟨true, false, 1, 2⟩ 2]).any
        (fun r => !r.replays (.v4 0x0A000002#32) key24 1) := by
    decide +kernel
  obtain ⟨r, hrun, hr⟩ := (Option.any_eq_true _ _).1 hany
  refine ⟨r, hrun, by simpa using hr, ?_⟩
  exact replay_eq_selection (by decide +kernel) hrun (by decide) (by decide) 1

/-- UPDATE 1 is accepted, and the decision about the UPDATE 2 to come keeps its route back. Then a
decision without a message id accepts the route: its flag is cleared and the decision about UPDATE 2
stays buffered, so that a replay sends the route and the selection refuses it. -/
theorem replay_revives_predecessor :
    ∃ r, run step World.new.r [.update (World.update1 []) 0,
        .decision key24 ⟨true, false, 1, 1⟩ 1, .decision key24 ⟨true, false, 1, 2⟩ 2,
        .decision key24 ⟨true, false, 1, 0⟩ 3] = some r ∧
      isSimplePrefixFamily World.key24.route.fam ∧
      World.key24.peerAddr ≠ .v4 0x0A000002#32 ∧
      ¬ (r.replays (.v4 0x0A000002#32) key24 1 ↔
        r.routeEligible key24 0) := by
  have hany : (run step World.new.r [.update (World.update1 []) 0,
      .decision key24 ⟨true, false, 1, 1⟩ 1, .decision key24 ⟨true, false, 1, 2⟩ 2,
      .decision key24 ⟨true, false, 1, 0⟩ 3]).any
        (fun r => r.replays (.v4 0x0A000002#32) key24 1 &&
          !r.routeEligible key24 0) := by
    decide +kernel
  obtain ⟨r, hrun, hr⟩ := (Option.any_eq_true _ _).1 hany
  refine ⟨r, hrun, by decide, by decide, fun hiff => ?_⟩
  simp only [Bool.and_eq_true, Bool.not_eq_true'] at hr
  rw [hiff.1 hr.1] at hr
  cases hr.2

end Manager

end Ze.AdjRibIn
