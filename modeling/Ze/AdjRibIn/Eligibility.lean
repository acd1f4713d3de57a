import Ze.AdjRibIn.Validation
import Ze.Lib.Run

/-!
# Which routes become eligible

For one route key, `Slot.Inv` says what the three maps hold: a buffered decision is the last one
received about its UPDATE and newer than the route held; a decision about an UPDATE still to come is
buffered, or one about a later UPDATE is; a route that waits although it was decided is kept back by
a later one.
-/

namespace Ze.AdjRibIn

open Ze.Net Ze.Lib List

namespace Manager.Update

/-- The routes an UPDATE withdraws. Source: rib.go handleReceivedStructured. -/
def withdraws (u : Update) : List RouteKey := u.withdrawn ++ u.mpUnreach

/-- The routes of one section, none when there is no attribute or no next hop.
Source: rib.go installStructuredNLRIs, its first test -/
def announcesIn (u : Update) (a : Announcement) : List RouteKey :=
  if u.attrHex = "" ∨ a.nhopHex = "" then [] else a.nlris.map (NLRI.key a.fam)

/-- The routes an UPDATE announces. Source: rib.go handleReceivedStructured. -/
def announces (u : Update) : List RouteKey := u.announcesIn u.nlri ++ u.announcesIn u.mpReach

end Manager.Update

open Manager
open Option (any_eq_true mem_def mem_some_iff mem_unique some.inj)
open Function (update update_of_ne update_self)

/-! ## Histories -/

/-- A decision that was received, about a route, at a time. -/
structure Received where
  key : PendingKey
  decision : ValidationDecision
  at_ : ℕ
deriving DecidableEq, Repr

/-- The store, the last UPDATE of each peer, the decisions received so far, newest first, and the
routes that sweeps have installed. -/
structure World where
  r : Manager
  lastID : Addr → ℕ
  received : List Received
  promoted : PendingKey → ℕ → Bool

inductive Act
  | update (u : Update) (now : ℕ)
  | decision (key : PendingKey) (d : ValidationDecision) (now : ℕ)
  | sweep (now : ℕ)

namespace World

def init (validationTimeout : ℕ) (policyDenied : Addr → Option ℕ) (terminal : Bool) : World where
  r := {
    ribIn := fun _ => none
    pending := fun _ => none
    earlyDecisions := fun _ => none
    validationEnabled := true
    validationTimeout := validationTimeout
    policyDenied := policyDenied
    terminal := terminal }
  lastID := fun _ => 0
  received := []
  promoted := fun _ _ => false

/-- The last decision received that names the UPDATE, with its time. -/
def lastDecision (w : World) (key : PendingKey) (msgID : ℕ) : Option (ValidationDecision × ℕ) :=
  (w.received.find? fun e => decide (e.key = key ∧ e.decision.msgID = msgID)).map
    fun e => (e.decision, e.at_)

/-- Every UPDATE is handled before the decision about it is older than a buffered one may get. -/
def Timely (w : World) (now : ℕ) : Prop :=
  ∀ e ∈ w.received, w.lastID e.key.peerAddr < e.decision.msgID →
    now ≤ e.at_ + earlyDecisionTimeout

instance (w : World) (now : ℕ) : Decidable (w.Timely now) :=
  inferInstanceAs (Decidable (∀ e ∈ w.received, _))

/-- One event. The identifiers of a peer's UPDATEs increase, decisions name an UPDATE, and UPDATEs
are handled in time.
Source: rib.go, rib_validation.go -/
def step (w : World) : Act → Option World
  | .update u now =>
    if w.lastID u.peer < u.msgID then
      some { w with
        r := w.r.handleReceived u now
        lastID := update w.lastID u.peer u.msgID }
    else none
  | .decision key d now =>
    if d.msgID ≠ 0 then
      some { w with
        r := (w.r.applyDecision key d now).1
        received := ⟨key, d, now⟩ :: w.received }
    else none
  | .sweep now =>
    if w.Timely now then
      some { w with
        r := w.r.sweep now
        promoted := fun key m => w.promoted key m ||
          (w.r.expired now key).any fun pr => decide (pr.route.msgID = m) }
    else none

/-- The UPDATE makes the store drop no decision that is still needed: for a route it names with a
buffered decision, the decision is not about a later UPDATE if the route is withdrawn, and if it is
about this UPDATE and does not accept, the route is announced once at most and not withdrawn and
announced at once. -/
def Undropped (w : World) : Act → Prop
  | .update u _ => ∀ key ∈ u.withdraws ++ u.announces, ∀ ed ∈ w.r.earlyDecisions ⟨u.peer, key⟩,
      (u.msgID < ed.msgID → key ∉ u.withdraws) ∧
      (ed.msgID = u.msgID → ed.action ≠ .accept →
        u.announces.count key ≤ 1 ∧ (key ∈ u.announces → key ∉ u.withdraws))
  | _ => True

instance (w : World) : (a : Act) → Decidable (w.Undropped a)
  | .update u _ => inferInstanceAs (Decidable (∀ key ∈ u.withdraws ++ u.announces,
      ∀ ed ∈ w.r.earlyDecisions ⟨u.peer, key⟩, _))
  | .decision _ _ _ => isTrue trivial
  | .sweep _ => isTrue trivial

end World

/-! ## One route -/

structure Slot where
  pending : Option PendingRoute
  early : Option EarlyDecision
  installed : Option RawRoute

/-- Source: rib.go AdjRIBInManager, its maps at one key. -/
def Manager.slot (r : Manager) (key : PendingKey) : Slot :=
  ⟨r.pending key, r.earlyDecisions key, r.ribIn key⟩

/-- The action that a decision is buffered with. Source: rib_validation.go storeEarlyDecision.
-/
def ValidationDecision.action (d : ValidationDecision) : EarlyAction :=
  if d.ineligible then .ineligible else if d.accept then .accept else .reject

lemma ValidationDecision.action_eq_accept (d : ValidationDecision) :
    d.action = .accept ↔ d.Accepts := by
  rw [action, Accepts]
  cases d.ineligible <;> cases d.accept <;> simp

namespace Slot

/-- A decision about a later UPDATE than `m` is buffered. -/
def Blocked (s : Slot) (m : ℕ) : Prop := ∃ ed ∈ s.early, m < ed.msgID

section

variable (last : ℕ) (hist : ℕ → Option (ValidationDecision × ℕ)) (promoted : ℕ → Prop)

/-- The last decision about the UPDATE accepts the route. -/
def Accepted (m : ℕ) : Prop := ∃ d t, hist m = some (d, t) ∧ d.Accepts

/-- What the maps hold for one route, after the UPDATEs up to `last` and the decisions `hist`. -/
structure Inv (s : Slot) : Prop where
  one : s.pending ≠ none → s.installed = none
  pending_le : ∀ pr ∈ s.pending, pr.route.msgID ≤ last
  eligible : ∀ pr ∈ s.pending, pr.route.ineligible = false
  installed_le : ∀ route ∈ s.installed, route.msgID ≤ last
  early : ∀ ed ∈ s.early, ed.msgID ≠ 0 ∧ ∃ d, hist ed.msgID = some (d, ed.receivedAt) ∧
    d.action = ed.action
  early_pending : ∀ pr ∈ s.pending, ∀ ed ∈ s.early, pr.route.msgID < ed.msgID
  early_installed : ∀ route ∈ s.installed, ∀ ed ∈ s.early, route.msgID < ed.msgID
  future : ∀ n, last < n → hist n ≠ none → ∃ ed ∈ s.early, n ≤ ed.msgID
  waits : ∀ pr ∈ s.pending, s.Blocked pr.route.msgID ∨ hist pr.route.msgID = none ∨
    Accepted hist pr.route.msgID
  decided : ∀ route ∈ s.installed, route.ineligible = true ∨ s.Blocked route.msgID ∨
    Accepted hist route.msgID ∨ hist route.msgID = none ∧ promoted route.msgID

end

variable {last : ℕ} {hist : ℕ → Option (ValidationDecision × ℕ)} {promoted : ℕ → Prop} {s : Slot}

variable {m n : ℕ} {pr : PendingRoute} {d : ValidationDecision}

lemma Inv.later (h : s.Inv last hist promoted) (hm : last < m) :
    s.Inv m hist promoted where
  one := h.one
  pending_le := fun pr hpr => (h.pending_le pr hpr).trans hm.le
  eligible := h.eligible
  installed_le := fun route hr => (h.installed_le route hr).trans hm.le
  early := h.early
  early_pending := h.early_pending
  early_installed := h.early_installed
  future := fun n hn => h.future n (hm.trans hn)
  waits := h.waits
  decided := h.decided

lemma Inv.withdrawn (h : s.Inv last hist promoted) (hm : last < m)
    (hnone : ∀ ed ∈ s.early, ed.msgID ≤ m) : (⟨none, none, none⟩ : Slot).Inv m hist promoted where
  one := by simp
  pending_le := by simp
  eligible := by simp
  installed_le := by simp
  early := by simp
  early_pending := by simp
  early_installed := by simp
  future := by
    intro n hn hsome
    obtain ⟨ed, hed, hle⟩ := h.future n (hm.trans hn) hsome
    exact absurd (hnone ed hed) (by omega)
  waits := by simp
  decided := by simp

/-! ### Arrival -/

/-- A route that arrives: the buffered decision is applied, dropped, or keeps waiting.
Source: rib.go installStructuredNLRIs, rib_validation.go applyEarlyDecision -/
def arrive (s : Slot) (pr : PendingRoute) : Slot :=
  match s.early with
  | none => ⟨some pr, none, none⟩
  | some ed =>
    if ed.msgID ≠ 0 ∧ ed.msgID ≠ pr.route.msgID then
      ⟨some pr, if ed.msgID < pr.route.msgID then none else some ed, none⟩
    else match ed.action with
      | .accept => ⟨none, none, some { pr.route with validationState := ed.state }⟩
      | .ineligible =>
        ⟨none, none, some { pr.route with ineligible := true, validationState := ed.state }⟩
      | .reject => ⟨none, none, none⟩

/-- A decision about the UPDATE that does not accept the route is still in force: a later one is
buffered, or it is itself buffered and the route is announced once more at most, or the route is not
announced again. `left` counts the announcements to come. -/
def InForce (hist : ℕ → Option (ValidationDecision × ℕ)) (m left : ℕ) (s : Slot) : Prop :=
  ∀ d t, hist m = some (d, t) → ¬ d.Accepts →
    s.Blocked m ∨ (∃ ed ∈ s.early, ed.msgID = m ∧ left ≤ 1) ∨ left = 0

lemma inv_waiting (hm : pr.route.msgID = m)
    (hel : pr.route.ineligible = false) (hfuture : ∀ n, m < n → hist n = none)
    (hwaits : hist m = none ∨ Accepted hist m) :
    (⟨some pr, none, none⟩ : Slot).Inv m hist promoted where
  one := by simp
  pending_le := by simp [hm]
  eligible := by simpa using hel
  installed_le := by simp
  early := by simp
  early_pending := by simp
  early_installed := by simp
  future := fun n hn hsome => absurd (hfuture n hn) hsome
  waits := by
    intro pr' hpr
    obtain rfl : pr = pr' := by simpa using hpr
    rw [hm]
    exact .inr hwaits
  decided := by simp

variable {route : RawRoute} {e : ValidationDecision × ℕ}

lemma inv_installed (hle : route.msgID ≤ last) (hfuture : ∀ n, last < n → hist n = none)
    (hdecided : route.ineligible ∨ Accepted hist route.msgID ∨
      hist route.msgID = none ∧ promoted route.msgID) :
    (⟨none, none, some route⟩ : Slot).Inv last hist promoted where
  one := by simp
  pending_le := by simp
  eligible := by simp
  installed_le := by simpa using hle
  early := by simp
  early_pending := by simp
  early_installed := by simp
  future := fun n hn hsome => absurd (hfuture n hn) hsome
  waits := by simp
  decided := by
    intro route' hr
    obtain rfl : route = route' := by simpa using hr
    rcases hdecided with h | h
    · exact .inl h
    · exact .inr (.inr h)

lemma inv_empty (hfuture : ∀ n, last < n → hist n = none) :
    (⟨none, none, none⟩ : Slot).Inv last hist promoted where
  one := by simp
  pending_le := by simp
  eligible := by simp
  installed_le := by simp
  early := by simp
  early_pending := by simp
  early_installed := by simp
  future := fun n hn hsome => absurd (hfuture n hn) hsome
  waits := by simp
  decided := by simp

lemma Inv.no_future (h : s.Inv m hist promoted) (hnone : ∀ ed ∈ s.early, ed.msgID ≤ m) :
    ∀ n, m < n → hist n = none := by
  intro n hn
  by_contra hsome
  obtain ⟨ed, hed, hle⟩ := h.future n hn hsome
  have := hnone ed hed
  omega

lemma Inv.arrive {left : ℕ} (h : s.Inv m hist promoted)
    (hforce : s.InForce hist m (left + 1)) (hm : pr.route.msgID = m)
    (hel : pr.route.ineligible = false) :
    (s.arrive pr).Inv m hist promoted ∧ (s.arrive pr).InForce hist m left := by
  -- without a buffered decision about this or a later UPDATE, none about this one is against it
  have hopen : (∀ ed ∈ s.early, ed.msgID < m) → hist m = none ∨ Accepted hist m := by
    intro hlt
    rcases hhist : hist m with _ | ⟨d, t⟩
    · exact .inl rfl
    · refine .inr ⟨d, t, hhist, ?_⟩
      by_contra hacc
      rcases hforce d t hhist hacc with ⟨ed, hed, hgt⟩ | ⟨ed, hed, heq, -⟩ | hleft
      · exact absurd (hlt ed hed) (by omega)
      · exact absurd (hlt ed hed) (by omega)
      · exact absurd hleft (by omega)
  -- and then nothing is left to be in force
  have hfree : (hist m = none ∨ Accepted hist m) → ∀ s' : Slot, s'.InForce hist m left := by
    rintro (hnone | ⟨d', t', hhist', hacc'⟩) s' d t hhist hacc
    · rw [hnone] at hhist
      cases hhist
    · rw [hhist'] at hhist
      obtain ⟨rfl, -⟩ := Prod.mk.inj (some.inj hhist)
      exact absurd hacc' hacc
  rw [Slot.arrive]
  cases hearly : s.early with
  | none =>
    have hlt : ∀ ed ∈ s.early, ed.msgID < m := by simp [hearly]
    exact ⟨inv_waiting hm hel (h.no_future fun ed hed => (hlt ed hed).le) (hopen hlt),
      hfree (hopen hlt) _⟩
  | some ed =>
    have hed : ed ∈ s.early := hearly
    obtain ⟨hne, d, hhist, haction⟩ := h.early ed hed
    dsimp only
    by_cases heq : ed.msgID = m
    · -- the decision about this UPDATE
      have hle : ∀ ed' ∈ s.early, ed'.msgID ≤ m := by
        intro ed' hed'
        rw [hearly, mem_some_iff] at hed'
        exact (hed' ▸ heq).le
      rw [if_neg (by rw [hm]; exact fun hc => hc.2 heq)]
      rw [heq] at hhist
      have hleft : ¬ d.Accepts → left = 0 := by
        intro hacc
        rcases hforce d _ hhist hacc with ⟨ed', hed', hgt⟩ | ⟨-, -, -, hone⟩ | hzero
        · exact absurd (hle ed' hed') (by omega)
        · omega
        · omega
      cases hact : ed.action with
      | accept =>
        have hacc : d.Accepts := (d.action_eq_accept).1 (haction.trans hact)
        have hok : Accepted hist m := ⟨d, _, hhist, hacc⟩
        refine ⟨inv_installed hm.le (h.no_future hle) (.inr (.inl ?_)), hfree (.inr hok) _⟩
        rw [show ({ pr.route with validationState := ed.state } : RawRoute).msgID = m from hm]
        exact hok
      | ineligible =>
        have hacc : ¬ d.Accepts := by
          rw [← d.action_eq_accept, haction, hact]
          exact fun hc => by cases hc
        refine ⟨inv_installed hm.le (h.no_future hle) (.inl rfl), ?_⟩
        exact fun _ _ _ _ => .inr (.inr (hleft hacc))
      | reject =>
        have hacc : ¬ d.Accepts := by
          rw [← d.action_eq_accept, haction, hact]
          exact fun hc => by cases hc
        refine ⟨inv_empty (h.no_future hle), ?_⟩
        exact fun _ _ _ _ => .inr (.inr (hleft hacc))
    · rw [if_pos (by rw [hm]; exact ⟨hne, heq⟩), hm]
      by_cases hlt : ed.msgID < m
      · -- a decision about an earlier UPDATE is dropped
        rw [if_pos hlt]
        have hall : ∀ ed' ∈ s.early, ed'.msgID < m := by
          intro ed' hed'
          rw [hearly, mem_some_iff] at hed'
          exact hed' ▸ hlt
        exact ⟨inv_waiting hm hel (h.no_future fun e he => (hall e he).le) (hopen hall),
          hfree (hopen hall) _⟩
      · -- a decision about a later UPDATE keeps the route back
        rw [if_neg hlt]
        have hgt : m < ed.msgID := by omega
        have hblocked : ∀ p i, (⟨p, some ed, i⟩ : Slot).Blocked m :=
          fun _ _ => ⟨ed, rfl, hgt⟩
        refine ⟨⟨by simp, by simp [hm], by simpa using hel, by simp, ?_, ?_, by simp, ?_, ?_,
          by simp⟩, fun _ _ _ _ => .inl (hblocked _ _)⟩
        · intro ed' hed'
          exact h.early ed' (hearly ▸ hed')
        · intro pr' hpr ed' hed'
          obtain rfl : pr = pr' := by simpa using hpr
          obtain rfl : ed = ed' := by simpa using hed'
          omega
        · intro n hn hsome
          obtain ⟨ed', hed', hle⟩ := h.future n hn hsome
          exact ⟨ed', hearly ▸ hed', hle⟩
        · intro pr' hpr
          obtain rfl : pr = pr' := by simpa using hpr
          rw [hm]
          exact .inl (hblocked _ _)

/-! ### A decision -/

/-- A decision for a route that waits. Source: rib_validation.go applyDecision. -/
def receivePending (s : Slot) (d : ValidationDecision) (now : ℕ) (pr : PendingRoute) : Slot :=
  if d.msgID ≠ 0 ∧ d.msgID ≠ pr.route.msgID then
    if d.msgID < pr.route.msgID then s
    else { s with early := some ⟨d.action, d.valState, d.msgID, now⟩ }
  else if d.accept ∨ d.ineligible then
    ⟨none, s.early,
      some { pr.route with ineligible := d.ineligible, validationState := d.valState }⟩
  else ⟨none, s.early, none⟩

/-- A decision for an installed route. Source: rib_validation.go applyToInstalled. -/
def receiveInstalled (s : Slot) (d : ValidationDecision) (now : ℕ) (route : RawRoute) : Slot :=
  if d.msgID ≠ 0 ∧ d.msgID ≠ route.msgID then
    if d.msgID < route.msgID then s
    else ⟨s.pending, some ⟨d.action, d.valState, d.msgID, now⟩,
      some { route with ineligible := true }⟩
  else if ¬ d.accept ∧ ¬ d.ineligible then ⟨s.pending, s.early, none⟩
  else ⟨s.pending, s.early,
    some { route with validationState := d.valState, ineligible := d.ineligible }⟩

/-- A decision for the route: ignored, applied to the route held, or buffered.
Source: rib_validation.go applyDecision -/
def receive (s : Slot) (d : ValidationDecision) (now : ℕ) : Slot :=
  if s.early.any fun newer => decide (d.msgID ≠ 0 ∧ d.msgID < newer.msgID) then s
  else match s.pending, s.installed with
    | some pr, _ => s.receivePending d now pr
    | none, some route => s.receiveInstalled d now route
    | none, none => { s with early := some ⟨d.action, d.valState, d.msgID, now⟩ }

lemma accepts_of_not_ineligible (h : d.accept ∨ d.ineligible)
    (hel : d.ineligible ≠ true) : d.Accepts :=
  ⟨h.resolve_right hel, Bool.eq_false_iff.2 hel⟩

lemma Inv.record (h : s.Inv last hist promoted)
    (hearly : ∀ ed ∈ s.early, ed.msgID ≠ n) (hfuture : last < n → ∃ ed ∈ s.early, n ≤ ed.msgID)
    (hpending : ∀ pr ∈ s.pending, pr.route.msgID = n → s.Blocked n)
    (hinstalled : ∀ route ∈ s.installed, route.msgID = n → s.Blocked n) :
    s.Inv last (update hist n (some e)) promoted where
  one := h.one
  pending_le := h.pending_le
  eligible := h.eligible
  installed_le := h.installed_le
  early := by
    intro ed hed
    obtain ⟨hne, d, hd, hact⟩ := h.early ed hed
    exact ⟨hne, d, by rw [update_of_ne (hearly ed hed), hd], hact⟩
  early_pending := h.early_pending
  early_installed := h.early_installed
  future := by
    intro m hm hsome
    by_cases heq : m = n
    · exact heq ▸ hfuture (heq ▸ hm)
    · rw [update_of_ne heq] at hsome
      exact h.future m hm hsome
  waits := by
    intro pr hpr
    by_cases heq : pr.route.msgID = n
    · exact .inl (heq ▸ hpending pr hpr heq)
    · have := h.waits pr hpr
      simpa only [Accepted, update_of_ne heq] using this
  decided := by
    intro route hr
    by_cases heq : route.msgID = n
    · exact .inr (.inl (heq ▸ hinstalled route hr heq))
    · have := h.decided route hr
      simpa only [Accepted, update_of_ne heq] using this

lemma Inv.buffer (now : ℕ) (i : Option RawRoute)
    (h : s.Inv last hist promoted) (hne : d.msgID ≠ 0) (hearly : ∀ ed ∈ s.early, ed.msgID ≤ d.msgID)
    (hpending : ∀ pr ∈ s.pending, pr.route.msgID < d.msgID) (hone : s.pending ≠ none → i = none)
    (hinstalled : ∀ route ∈ i, route.msgID ≤ last ∧ route.msgID < d.msgID) :
    (⟨s.pending, some ⟨d.action, d.valState, d.msgID, now⟩, i⟩ : Slot).Inv last
      (update hist d.msgID (some (d, now))) promoted where
  one := hone
  pending_le := h.pending_le
  eligible := h.eligible
  installed_le := fun route hr => (hinstalled route hr).1
  early := by
    intro ed hed
    obtain rfl := mem_some_iff.1 hed
    exact ⟨hne, d, update_self _ _ _, rfl⟩
  early_pending := by
    intro pr hpr ed hed
    obtain rfl := mem_some_iff.1 hed
    exact hpending pr hpr
  early_installed := by
    intro route hr ed hed
    obtain rfl := mem_some_iff.1 hed
    exact (hinstalled route hr).2
  future := by
    intro m hm hsome
    refine ⟨_, rfl, ?_⟩
    by_cases heq : m = d.msgID
    · exact heq.le
    · rw [update_of_ne heq] at hsome
      obtain ⟨ed, hed, hle⟩ := h.future m hm hsome
      exact hle.trans (hearly ed hed)
  waits := fun pr hpr => .inl ⟨_, rfl, hpending pr hpr⟩
  decided := fun route hr => .inr (.inl ⟨_, rfl, (hinstalled route hr).2⟩)

lemma early_eq_none (hearly : ∀ ed ∈ s.early, ed.msgID ≤ n)
    (hlt : ∀ ed ∈ s.early, m < ed.msgID) (hle : n ≤ m) : s.early = none := by
  rw [Option.eq_none_iff_forall_not_mem]
  intro ed hed
  have := hearly ed hed
  have := hlt ed hed
  omega

lemma Inv.no_future_update (h : s.Inv last hist promoted)
    (hnone : s.early = none) (hle : n ≤ last) :
    ∀ m, last < m → update hist n (some e) m = none := by
  intro m hm
  rw [update_of_ne (by omega)]
  refine h.no_future ?_ m hm
  simp [hnone]

lemma Inv.receivePending (now : ℕ) (h : s.Inv last hist promoted) (hne : d.msgID ≠ 0)
    (hearly : ∀ ed ∈ s.early, ed.msgID ≤ d.msgID) (hpr : pr ∈ s.pending) :
    (s.receivePending d now pr).Inv last (update hist d.msgID (some (d, now))) promoted := by
  have hnone : s.installed = none := h.one (by rw [mem_def.1 hpr]; simp)
  have hle := h.pending_le pr hpr
  have honly : ∀ pr' ∈ s.pending, pr' = pr := fun pr' hpr' => mem_unique hpr' hpr
  rw [Slot.receivePending]
  by_cases hother : d.msgID ≠ 0 ∧ d.msgID ≠ pr.route.msgID
  · rw [if_pos hother]
    by_cases hless : d.msgID < pr.route.msgID
    · -- about an earlier UPDATE
      rw [if_pos hless]
      have hfree := early_eq_none hearly (h.early_pending pr hpr) hless.le
      refine h.record (by simp [hfree]) (by omega) ?_ (by simp [hnone])
      intro pr' hpr' heq
      exact absurd (honly pr' hpr' ▸ heq) (Ne.symm hother.2)
    · -- about a later one
      rw [if_neg hless]
      refine h.buffer now s.installed hne hearly ?_ h.one (by simp [hnone])
      intro pr' hpr'
      rw [honly pr' hpr']
      omega
  · rw [if_neg hother]
    have heq : d.msgID = pr.route.msgID := not_not.1 fun hc => hother ⟨hne, hc⟩
    have hfree := early_eq_none hearly (h.early_pending pr hpr) heq.le
    have hfuture := h.no_future_update (e := (d, now)) hfree (heq ▸ hle)
    rw [hfree]
    split_ifs with hfor
    · refine inv_installed hle hfuture ?_
      by_cases hel : d.ineligible
      · exact .inl hel
      · refine .inr (.inl ⟨d, now, ?_, accepts_of_not_ineligible hfor hel⟩)
        rw [← heq, update_self]
    · exact inv_empty hfuture

lemma Inv.receiveInstalled (now : ℕ) (h : s.Inv last hist promoted) (hne : d.msgID ≠ 0)
    (hearly : ∀ ed ∈ s.early, ed.msgID ≤ d.msgID) (hpend : s.pending = none)
    (hr : route ∈ s.installed) :
    (s.receiveInstalled d now route).Inv last (update hist d.msgID (some (d, now))) promoted := by
  have hle := h.installed_le route hr
  have honly : ∀ r' ∈ s.installed, r' = route := fun r' hr' => mem_unique hr' hr
  rw [Slot.receiveInstalled]
  by_cases hother : d.msgID ≠ 0 ∧ d.msgID ≠ route.msgID
  · rw [if_pos hother]
    by_cases hless : d.msgID < route.msgID
    · rw [if_pos hless]
      have hfree := early_eq_none hearly (h.early_installed route hr) hless.le
      refine h.record (by simp [hfree]) (by omega) (by simp [hpend]) ?_
      intro r' hr' heq
      exact absurd (honly r' hr' ▸ heq) (Ne.symm hother.2)
    · rw [if_neg hless]
      refine h.buffer now _ hne hearly (by simp [hpend]) (by simp [hpend]) ?_
      intro r' hr'
      obtain rfl := mem_some_iff.1 hr'
      exact ⟨hle, by dsimp only; omega⟩
  · rw [if_neg hother]
    have heq : d.msgID = route.msgID := not_not.1 fun hc => hother ⟨hne, hc⟩
    have hfree := early_eq_none hearly (h.early_installed route hr) heq.le
    have hfuture := h.no_future_update (e := (d, now)) hfree (heq ▸ hle)
    rw [hfree, hpend]
    split_ifs with hreject
    · exact inv_empty hfuture
    · refine inv_installed hle hfuture ?_
      by_cases hel : d.ineligible
      · exact .inl hel
      · have hacc : d.accept := not_not.1 fun hc => hreject ⟨hc, hel⟩
        refine .inr (.inl ⟨d, now, ?_, accepts_of_not_ineligible (.inl hacc) hel⟩)
        rw [← heq, update_self]

lemma Inv.receive (now : ℕ) (h : s.Inv last hist promoted) (hne : d.msgID ≠ 0) :
    (s.receive d now).Inv last (update hist d.msgID (some (d, now))) promoted := by
  rw [Slot.receive]
  by_cases hnewer : (s.early.any fun newer => decide (d.msgID ≠ 0 ∧ d.msgID < newer.msgID))
  · -- a decision about a later UPDATE is buffered, so this one is ignored
    rw [if_pos hnewer]
    obtain ⟨ed, hed, hlt⟩ := (any_eq_true _ _).1 hnewer
    have hlt := (of_decide_eq_true hlt).2
    refine h.record ?_ ?_ ?_ ?_
    · intro ed' hed'
      obtain rfl := mem_unique hed hed'
      omega
    · exact fun _ => ⟨ed, hed, hlt.le⟩
    · exact fun _ _ _ => ⟨ed, hed, hlt⟩
    · exact fun _ _ _ => ⟨ed, hed, hlt⟩
  · rw [if_neg hnewer]
    have hearly : ∀ ed ∈ s.early, ed.msgID ≤ d.msgID := by
      intro ed hed
      by_contra hgt
      exact hnewer ((any_eq_true _ _).2 ⟨ed, hed, decide_eq_true ⟨hne, by omega⟩⟩)
    split
    · rename_i hpr
      exact h.receivePending now hne hearly hpr
    · rename_i hpend hr
      exact h.receiveInstalled now hne hearly hpend hr
    · rename_i hpend hinst
      exact h.buffer now _ hne hearly (by simp [hpend]) h.one (by simp [hinst])

lemma Inv.mono {promoted' : ℕ → Prop} (h : s.Inv last hist promoted)
    (himp : ∀ m, promoted m → promoted' m) : s.Inv last hist promoted' where
  one := h.one
  pending_le := h.pending_le
  eligible := h.eligible
  installed_le := h.installed_le
  early := h.early
  early_pending := h.early_pending
  early_installed := h.early_installed
  future := h.future
  waits := h.waits
  decided := fun route hr => (h.decided route hr).imp_right fun hd =>
    hd.imp_right fun hd => hd.imp_right fun ⟨hnone, hp⟩ => ⟨hnone, himp _ hp⟩

end Slot

/-! ## The store -/

namespace Manager

variable {r : Manager} {key k : PendingKey} {last : ℕ}
  {hist : ℕ → Option (ValidationDecision × ℕ)} {promoted : ℕ → Prop}

lemma inv_sweep {now : ℕ} (h : (r.slot key).Inv last hist promoted)
    (htimely : ∀ ed ∈ r.earlyDecisions key, last < ed.msgID →
      now ≤ ed.receivedAt + earlyDecisionTimeout) :
    ((r.sweep now).slot key).Inv last hist
      fun m => promoted m ∨ ∃ pr ∈ r.expired now key, pr.route.msgID = m := by
  cases hexp : r.expired now key with
  | some pr =>
    -- the route is installed; no decision is buffered then
    rw [expired, Option.filter_eq_some_iff, decide_eq_true_eq] at hexp
    obtain ⟨hpr, hexpires⟩ := hexp
    have hfree : r.earlyDecisions key = none :=
      Slot.early_eq_none (s := r.slot key) (n := pr.route.msgID) hexpires.2
        (h.early_pending pr hpr) le_rfl
    have hexp : r.expired now key = some pr := by
      rw [expired, Option.filter_eq_some_iff, decide_eq_true_eq]
      exact ⟨hpr, hexpires⟩
    have hslot : (r.sweep now).slot key = ⟨none, none,
        some { pr.route with validationState := validationNotValidated }⟩ := by
      simp [slot, sweep, sweepExpiredEarlyDecisions, sweepExpiredPending, hexp, hfree]
    rw [hslot]
    refine Slot.inv_installed (h.pending_le pr hpr) (h.no_future (by simp [slot, hfree])) (.inr ?_)
    rcases h.waits pr hpr with ⟨ed, hed, -⟩ | hnone | hacc
    · rw [show (r.slot key).early = none from hfree] at hed
      cases hed
    · exact .inr ⟨hnone, .inr ⟨pr, rfl, rfl⟩⟩
    · exact .inl hacc
  | none =>
    have hmono : (r.slot key).Inv last hist fun m => promoted m ∨
        ∃ pr ∈ (none : Option PendingRoute), pr.route.msgID = m := h.mono fun m hm => .inl hm
    have hslot : (r.sweep now).slot key = ⟨r.pending key,
        (r.earlyDecisions key).filter fun ed => decide (now - ed.receivedAt ≤
          earlyDecisionTimeout ∨ (r.sweepExpiredPending now).HasPredecessor key ed),
        r.ribIn key⟩ := by
      simp [slot, sweep, sweepExpiredEarlyDecisions, sweepExpiredPending, hexp]
    rw [hslot]
    cases hearly : r.earlyDecisions key with
    | none =>
      rw [Option.filter_none, ← hearly]
      exact hmono
    | some ed =>
      rw [Option.filter_some]
      split_ifs with hkeep
      · rw [← hearly]
        exact hmono
      · -- dropped: there is no route for it to keep back, and its UPDATE is past
        rw [decide_eq_true_eq, not_or, HasPredecessor, not_or] at hkeep
        obtain ⟨hold, hpend, hinst⟩ := hkeep
        have hpend' : r.pending key = none := Option.eq_none_iff_forall_not_mem.2
          fun pr hpr => hpend ⟨pr, by simp [sweepExpiredPending, hexp, mem_def.1 hpr],
            h.early_pending pr hpr ed hearly⟩
        have hinst' : r.ribIn key = none := Option.eq_none_iff_forall_not_mem.2
          fun route hr => hinst ⟨route, by simp [sweepExpiredPending, hexp, mem_def.1 hr],
            h.early_installed route hr ed hearly⟩
        have hpast : ed.msgID ≤ last := by
          by_contra hlt
          have := htimely ed hearly (by omega)
          omega
        rw [hpend', hinst']
        refine Slot.inv_empty fun n hn => ?_
        by_contra hsome
        obtain ⟨ed', hed', hle⟩ := h.future n hn hsome
        obtain rfl := mem_unique hearly hed'
        omega

/-! ### Frames -/

structure Frame (k : PendingKey) (r r' : Manager) : Prop where
  other : ∀ key, key ≠ k → r'.slot key = r.slot key
  enabled : r'.validationEnabled = r.validationEnabled
  terminal : r'.terminal = r.terminal

lemma Frame.refl (k : PendingKey) (r : Manager) : Frame k r r := ⟨fun _ _ => rfl, rfl, rfl⟩

lemma Frame.trans {r₁ r₂ r₃ : Manager} (h : Frame k r₁ r₂) (h' : Frame k r₂ r₃) : Frame k r₁ r₃ :=
  ⟨fun key hk => (h'.other key hk).trans (h.other key hk), h'.enabled.trans h.enabled,
    h'.terminal.trans h.terminal⟩

lemma frame_ribIn (k : PendingKey) (r : Manager) (route : Option RawRoute) :
    Frame k r { r with ribIn := update r.ribIn k route } :=
  ⟨fun key hk => by simp [slot, hk], rfl, rfl⟩

lemma frame_pending (k : PendingKey) (r : Manager) (pr : Option PendingRoute) :
    Frame k r { r with pending := update r.pending k pr } :=
  ⟨fun key hk => by simp [slot, hk], rfl, rfl⟩

lemma frame_early (k : PendingKey) (r : Manager) (ed : Option EarlyDecision) :
    Frame k r { r with earlyDecisions := update r.earlyDecisions k ed } :=
  ⟨fun key hk => by simp [slot, hk], rfl, rfl⟩

lemma slot_removeNLRI (r : Manager) (k key : PendingKey) :
    (r.removeNLRI k).slot key = if key = k then ⟨none, none, none⟩ else r.slot key := by
  by_cases h : key = k
  · subst h
    simp [slot, removeNLRI, removePending, removeInstalled]
  · simp [slot, removeNLRI, removePending, removeInstalled, h]

lemma slot_foldl_removeNLRI (peer : Addr) (key : PendingKey) : (ks : List RouteKey) → ∀ r :
    Manager,
    (ks.foldl (fun r k => r.removeNLRI ⟨peer, k⟩) r).slot key =
      if key.peerAddr = peer ∧ key.route ∈ ks then ⟨none, none, none⟩ else r.slot key
  | [], r => by simp
  | k :: ks, r => by
      rw [foldl_cons, slot_foldl_removeNLRI peer key ks, slot_removeNLRI]
      obtain ⟨p, k'⟩ := key
      simp only [PendingKey.mk.injEq, mem_cons]
      by_cases hp : p = peer <;> by_cases hk : k' = k <;> by_cases hks : k' ∈ ks <;>
        simp [hp, hk, hks]

lemma validationEnabled_foldl_removeNLRI (peer : Addr) (ks : List RouteKey) (r : Manager) :
    (ks.foldl (fun r k => r.removeNLRI ⟨peer, k⟩) r).validationEnabled = r.validationEnabled := by
  induction ks generalizing r with
  | nil => rfl
  | cons k ks ih =>
    rw [foldl_cons, ih]
    rfl

lemma applyEarlyDecision_self (r : Manager) (key : PendingKey) (pr : PendingRoute) :
    (match (r.removeInstalled key).applyEarlyDecision key pr with
      | (r, true) => r
      | (r, false) => { r with pending := update r.pending key (some pr) }).slot key =
      (r.slot key).arrive pr := by
  cases hearly : r.earlyDecisions key with
  | none => simp [applyEarlyDecision, removeInstalled, Slot.arrive, slot, hearly]
  | some ed =>
    by_cases hother : ed.msgID ≠ 0 ∧ ed.msgID ≠ pr.route.msgID
    · by_cases hless : ed.msgID < pr.route.msgID
      · simp [applyEarlyDecision, removeInstalled, Slot.arrive, slot, hearly, hother, hless]
      · simp [applyEarlyDecision, removeInstalled, Slot.arrive, slot, hearly, hother, hless]
    · cases hact : ed.action <;>
        simp [applyEarlyDecision, removeInstalled, promoteToInstalled, Slot.arrive, slot, hearly,
          hother, hact]

lemma frame_applyEarlyDecision (r : Manager) (k : PendingKey) (pr : PendingRoute) :
    Frame k r (r.applyEarlyDecision k pr).1 := by
  have hpend := frame_pending k r none
  rw [applyEarlyDecision]
  dsimp only
  split
  · exact hpend
  · have hdrop := hpend.trans (frame_early k _ none)
    split_ifs
    · exact hdrop
    · exact hpend
    · split
      · exact hdrop.trans (frame_ribIn k _ _)
      · exact hdrop.trans (frame_ribIn k _ _)
      · exact hdrop.trans (frame_ribIn k _ _)

lemma frame_arrive (r : Manager) (k : PendingKey) (pr : PendingRoute) :
    Frame k r (match (r.removeInstalled k).applyEarlyDecision k pr with
      | (r, true) => r
      | (r, false) => { r with pending := update r.pending k (some pr) }) := by
  have hrem := frame_ribIn k r none
  have happ := hrem.trans (frame_applyEarlyDecision (r.removeInstalled k) k pr)
  split
  · rename_i heq
    rw [heq] at happ
    exact happ
  · rename_i heq
    rw [heq] at happ
    exact happ.trans (frame_pending k _ _)

section

variable (u : Update) (a : Announcement) (now : ℕ)

lemma frame_installNLRI (r : Manager) (n : NLRI) :
    Frame ⟨u.peer, n.key a.fam⟩ r (installNLRI u a now r n) := by
  rw [installNLRI]
  dsimp only
  split_ifs
  · exact frame_arrive r _ _
  · exact frame_ribIn _ r _

lemma slot_installNLRI {r : Manager} (hr : r.validationEnabled)
    (hkey : isSimplePrefixFamily key.route.fam) (n : NLRI) :
    (installNLRI u a now r n).slot key =
      if key = ⟨u.peer, n.key a.fam⟩ then (r.slot key).arrive ⟨newRoute u a n, now⟩
      else r.slot key := by
  by_cases hk : key = ⟨u.peer, n.key a.fam⟩
  · have hfam : isSimplePrefixFamily a.fam := by
      rw [hk] at hkey
      exact hkey
    rw [installNLRI]
    dsimp only
    rw [if_pos hk, if_pos ⟨hr, hfam⟩, ← hk]
    exact applyEarlyDecision_self r key _
  · rw [if_neg hk]
    exact (frame_installNLRI u a now r n).other key hk

variable {left : ℕ}

lemma inv_installNLRIs_loop (hkey : isSimplePrefixFamily key.route.fam)
    (hpeer : key.peerAddr = u.peer) : (ns : List NLRI) → ∀ {r : Manager},
    r.validationEnabled → (r.slot key).Inv u.msgID hist promoted →
    (r.slot key).InForce hist u.msgID ((ns.map (NLRI.key a.fam)).count key.route + left) →
    ((ns.foldl (installNLRI u a now) r).slot key).Inv u.msgID hist promoted ∧
      ((ns.foldl (installNLRI u a now) r).slot key).InForce hist u.msgID left
  | [], r, hr, hinv, hforce => by
      rw [map_nil, count_nil, Nat.zero_add] at hforce
      exact ⟨hinv, hforce⟩
  | n :: ns, r, hr, hinv, hforce => by
      rw [foldl_cons]
      have hr' : (installNLRI u a now r n).validationEnabled := by
        rw [(frame_installNLRI u a now r n).enabled, hr]
      have hslot := slot_installNLRI u a now hr hkey n
      rw [map_cons] at hforce
      by_cases hk : key = ⟨u.peer, n.key a.fam⟩
      · have hroute : n.key a.fam = key.route := by rw [hk]
        rw [if_pos hk] at hslot
        rw [hroute, count_cons_self, Nat.add_right_comm] at hforce
        have hmsg : (⟨newRoute u a n, now⟩ : PendingRoute).route.msgID = u.msgID := rfl
        obtain ⟨hinv', hforce'⟩ := hinv.arrive hforce hmsg rfl
        rw [← hslot] at hinv' hforce'
        exact inv_installNLRIs_loop hkey hpeer ns hr' hinv' hforce'
      · have hroute : n.key a.fam ≠ key.route := by
          rintro heq
          apply hk
          rw [heq, ← hpeer]
        rw [if_neg hk] at hslot
        rw [count_cons_of_ne hroute] at hforce
        rw [← hslot] at hinv hforce
        exact inv_installNLRIs_loop hkey hpeer ns hr' hinv hforce

lemma slot_foldl_installNLRI_other (hkey : isSimplePrefixFamily key.route.fam)
    (hpeer : key.peerAddr ≠ u.peer) : (ns : List NLRI) → ∀ {r : Manager},
    r.validationEnabled → (ns.foldl (installNLRI u a now) r).slot key = r.slot key
  | [], _, _ => rfl
  | n :: ns, r, hr => by
      rw [foldl_cons]
      have hr' : (installNLRI u a now r n).validationEnabled := by
        rw [(frame_installNLRI u a now r n).enabled, hr]
      have hslot := slot_installNLRI u a now hr hkey n
      rw [if_neg (fun hk => hpeer (by rw [hk]))] at hslot
      rw [← hslot]
      exact slot_foldl_installNLRI_other hkey hpeer ns hr'

lemma enabled_installNLRIs (r : Manager) :
    (r.installNLRIs u a now).validationEnabled = r.validationEnabled := by
  rw [installNLRIs]
  split_ifs
  · rfl
  · generalize a.nlris = ns
    induction ns generalizing r with
    | nil => rfl
    | cons n ns ih =>
      rw [foldl_cons, ih]
      exact (frame_installNLRI u a now r n).enabled

lemma inv_installNLRIs {r : Manager} (hkey : isSimplePrefixFamily key.route.fam)
    (hpeer : key.peerAddr = u.peer) (hr : r.validationEnabled)
    (hinv : (r.slot key).Inv u.msgID hist promoted)
    (hforce : (r.slot key).InForce hist u.msgID ((u.announcesIn a).count key.route + left)) :
    ((r.installNLRIs u a now).slot key).Inv u.msgID hist promoted ∧
      ((r.installNLRIs u a now).slot key).InForce hist u.msgID left := by
  rw [installNLRIs]
  rw [Update.announcesIn] at hforce
  by_cases hempty : u.attrHex = "" ∨ a.nhopHex = ""
  · rw [if_pos hempty, count_nil, Nat.zero_add] at hforce
    rw [if_pos hempty]
    exact ⟨hinv, hforce⟩
  · rw [if_neg hempty] at hforce ⊢
    exact inv_installNLRIs_loop u a now hkey hpeer a.nlris hr hinv hforce

end

lemma enabled_handleReceived (r : Manager) (u : Update) (now : ℕ) :
    (r.handleReceived u now).validationEnabled = r.validationEnabled := by
  rw [handleReceived]
  rw [enabled_installNLRIs, enabled_installNLRIs, validationEnabled_foldl_removeNLRI,
    validationEnabled_foldl_removeNLRI]

lemma slot_handleReceived_other {u : Update} {now : ℕ}
    (hkey : isSimplePrefixFamily key.route.fam) (hpeer : key.peerAddr ≠ u.peer)
    (hr : r.validationEnabled) : (r.handleReceived u now).slot key = r.slot key := by
  have hsection : ∀ (a : Announcement) {r : Manager}, r.validationEnabled →
      (r.installNLRIs u a now).slot key = r.slot key := by
    intro a r hr
    rw [installNLRIs]
    split_ifs
    · rfl
    · exact slot_foldl_installNLRI_other u a now hkey hpeer a.nlris hr
  rw [handleReceived]
  set r₂ := u.mpUnreach.foldl (fun r k => r.removeNLRI ⟨u.peer, k⟩)
    (u.withdrawn.foldl (fun r k => r.removeNLRI ⟨u.peer, k⟩) r) with hr₂
  have hen : r₂.validationEnabled := by
    rw [hr₂, validationEnabled_foldl_removeNLRI, validationEnabled_foldl_removeNLRI, hr]
  have hslot : r₂.slot key = r.slot key := by
    rw [hr₂, slot_foldl_removeNLRI, if_neg (fun h => hpeer h.1), slot_foldl_removeNLRI,
      if_neg (fun h => hpeer h.1)]
  have hen₁ : (r₂.installNLRIs u u.nlri now).validationEnabled := by
    rw [enabled_installNLRIs, hen]
  rw [hsection u.mpReach hen₁, hsection u.nlri hen, hslot]

lemma inv_handleReceived {u : Update} {now : ℕ}
    (hkey : isSimplePrefixFamily key.route.fam) (hpeer : key.peerAddr = u.peer)
    (hr : r.validationEnabled) (hlast : last < u.msgID)
    (hinv : (r.slot key).Inv last hist promoted)
    (hkeep : key.route ∈ u.withdraws ++ u.announces → ∀ ed ∈ r.earlyDecisions key,
      (u.msgID < ed.msgID → key.route ∉ u.withdraws) ∧
      (ed.msgID = u.msgID → ed.action ≠ .accept →
        u.announces.count key.route ≤ 1 ∧ (key.route ∈ u.announces → key.route ∉ u.withdraws))) :
    ((r.handleReceived u now).slot key).Inv u.msgID hist promoted := by
  rw [handleReceived]
  set r₂ := u.mpUnreach.foldl (fun r k => r.removeNLRI ⟨u.peer, k⟩)
    (u.withdrawn.foldl (fun r k => r.removeNLRI ⟨u.peer, k⟩) r) with hr₂
  have hen : r₂.validationEnabled := by
    rw [hr₂, validationEnabled_foldl_removeNLRI, validationEnabled_foldl_removeNLRI, hr]
  have hslot : r₂.slot key =
      if key.route ∈ u.withdraws then ⟨none, none, none⟩ else r.slot key := by
    rw [hr₂, slot_foldl_removeNLRI, slot_foldl_removeNLRI, Update.withdraws]
    by_cases hw : key.route ∈ u.withdrawn <;> by_cases hm : key.route ∈ u.mpUnreach <;>
      simp [hpeer, hw, hm]
  -- a decision about this UPDATE that does not accept is buffered, or a later one is
  have hbuffered : ∀ d t, hist u.msgID = some (d, t) → ∃ ed ∈ r.earlyDecisions key,
      u.msgID ≤ ed.msgID ∧ (ed.msgID = u.msgID → d.action = ed.action) := by
    intro d t hhist
    obtain ⟨ed, hed, hle⟩ := hinv.future u.msgID hlast (by rw [hhist]; simp)
    refine ⟨ed, hed, hle, fun heq => ?_⟩
    obtain ⟨-, d', hd', hact⟩ := hinv.early ed hed
    rw [heq, hhist] at hd'
    obtain ⟨rfl, -⟩ := Prod.mk.inj (some.inj hd')
    exact hact
  -- the state between the withdrawals and the announcements
  have hmid : (r₂.slot key).Inv u.msgID hist promoted ∧
      (r₂.slot key).InForce hist u.msgID (u.announces.count key.route) := by
    rw [hslot]
    by_cases hw : key.route ∈ u.withdraws
    · rw [if_pos hw]
      have hkeep' := hkeep (mem_append_left _ hw)
      refine ⟨hinv.withdrawn hlast ?_, ?_⟩
      · intro ed hed
        by_contra hlt
        exact (hkeep' ed hed).1 (by omega) hw
      · intro d t hhist hacc
        obtain ⟨ed, hed, hle, hact⟩ := hbuffered d t hhist
        have heq : ed.msgID = u.msgID := by
          by_contra hne
          exact (hkeep' ed hed).1 (by omega) hw
        have hnot : ed.action ≠ .accept := by
          rw [← hact heq]
          exact mt d.action_eq_accept.1 hacc
        refine .inr (.inr (count_eq_zero.2 fun ha => ?_))
        exact ((hkeep' ed hed).2 heq hnot).2 ha hw
    · rw [if_neg hw]
      refine ⟨hinv.later hlast, ?_⟩
      intro d t hhist hacc
      obtain ⟨ed, hed, hle, hact⟩ := hbuffered d t hhist
      by_cases heq : ed.msgID = u.msgID
      · have hnot : ed.action ≠ .accept := by
          rw [← hact heq]
          exact mt d.action_eq_accept.1 hacc
        by_cases ha : key.route ∈ u.announces
        · have := ((hkeep (mem_append_right _ ha) ed hed).2 heq hnot).1
          exact .inr (.inl ⟨ed, hed, heq, this⟩)
        · exact .inr (.inr (count_eq_zero.2 ha))
      · exact .inl ⟨ed, hed, by omega⟩
  rw [Update.announces, count_append] at hmid
  obtain ⟨hinv₁, hforce₁⟩ := inv_installNLRIs u u.nlri now hkey hpeer hen hmid.1 hmid.2
  have hen₁ : (r₂.installNLRIs u u.nlri now).validationEnabled := by
    rw [enabled_installNLRIs, hen]
  rw [← Nat.add_zero (count _ _)] at hforce₁
  exact (inv_installNLRIs u u.mpReach now hkey hpeer hen₁ hinv₁ hforce₁).1

lemma slot_applyDecision {d : ValidationDecision} {now : ℕ}
    (hkey : isSimplePrefixFamily key.route.fam) (hr : r.validationEnabled) :
    (r.applyDecision key d now).1.slot key = (r.slot key).receive d now := by
  have hact : (if d.ineligible then EarlyAction.ineligible else if d.accept then .accept
      else .reject) = d.action := rfl
  rw [applyDecision, if_neg (by simp [hr, hkey]), Slot.receive,
    show (r.slot key).early = r.earlyDecisions key from rfl]
  by_cases hnewer : ((r.earlyDecisions key).any fun newer =>
      decide (d.msgID ≠ 0 ∧ d.msgID < newer.msgID))
  · rw [if_pos hnewer, if_pos hnewer]
  · rw [if_neg hnewer, if_neg hnewer]
    have hstore : ∀ r' : Manager, r'.earlyDecisions = r.earlyDecisions →
        (r'.storeEarlyDecision key d now).slot key =
          ⟨r'.pending key, some ⟨d.action, d.valState, d.msgID, now⟩, r'.ribIn key⟩ := by
      intro r' hr'
      rw [storeEarlyDecision, hr', if_neg hnewer]
      simp [slot, hact]
    cases hpend : r.pending key with
    | some pr =>
      rw [show (r.slot key).pending = some pr from hpend]
      dsimp only
      rw [Slot.receivePending]
      by_cases hother : d.msgID ≠ 0 ∧ d.msgID ≠ pr.route.msgID
      · rw [if_pos hother, if_pos hother]
        by_cases hless : d.msgID < pr.route.msgID
        · rw [if_pos hless, if_pos hless]
        · rw [if_neg hless, if_neg hless, hstore r rfl]
          rfl
      · rw [if_neg hother, if_neg hother]
        split_ifs <;> simp [slot, promoteToInstalled, removeInstalled]
    | none =>
      rw [show (r.slot key).pending = none from hpend]
      cases hinst : r.ribIn key with
      | none =>
        rw [show (r.slot key).installed = none from hinst]
        simp only [applyToInstalled, hinst]
        rw [hstore r rfl, hpend, hinst]
      | some route =>
        rw [show (r.slot key).installed = some route from hinst]
        dsimp only
        rw [Slot.receiveInstalled, applyToInstalled, hinst]
        dsimp only
        by_cases hother : d.msgID ≠ 0 ∧ d.msgID ≠ route.msgID
        · rw [if_pos hother, if_pos hother]
          by_cases hless : d.msgID < route.msgID
          · rw [if_pos hless, if_pos hless]
          · rw [if_neg hless, if_neg hless]
            refine (hstore { r with
              ribIn := update r.ribIn key
                (some { route with ineligible := true }) } rfl).trans ?_
            simp [slot]
        · rw [if_neg hother, if_neg hother]
          split_ifs <;> simp [slot, removeInstalled]

lemma frame_storeEarlyDecision (r : Manager) (k : PendingKey) (d : ValidationDecision) (now : ℕ) :
    Frame k r (r.storeEarlyDecision k d now) := by
  rw [storeEarlyDecision]
  split
  · exact Frame.refl k r
  · exact frame_early k r _

lemma frame_applyToInstalled (r : Manager) (k : PendingKey) (d : ValidationDecision) :
    Frame k r (r.applyToInstalled k d).1 := by
  rw [applyToInstalled]
  split
  · exact Frame.refl k r
  · split_ifs
    · exact Frame.refl k r
    · exact frame_ribIn k r _
    · exact frame_ribIn k r _
    · exact frame_ribIn k r _

lemma frame_applyDecision (r : Manager) (k : PendingKey) (d : ValidationDecision) (now : ℕ) :
    Frame k r (r.applyDecision k d now).1 := by
  have hpend : ∀ pr : PendingRoute, Frame k r (if d.msgID ≠ 0 ∧ d.msgID ≠ pr.route.msgID then
      if d.msgID < pr.route.msgID then (r, false) else (r.storeEarlyDecision k d now, true)
      else
        let r := { r with pending := update r.pending k none }
        if d.accept ∨ d.ineligible then
          (r.promoteToInstalled k { pr with route := { pr.route with ineligible := d.ineligible } }
            d.valState, false)
        else (r.removeInstalled k, false)).1 := by
    intro pr
    split_ifs
    · exact Frame.refl k r
    · exact frame_storeEarlyDecision r k d now
    · exact (frame_pending k r none).trans (frame_ribIn k _ _)
    · exact (frame_pending k r none).trans (frame_ribIn k _ _)
  have hinst := frame_applyToInstalled r k d
  rw [applyDecision]
  by_cases hoff : ¬ r.validationEnabled ∨ ¬ isSimplePrefixFamily k.route.fam
  · rw [if_pos hoff]
    exact Frame.refl k r
  · rw [if_neg hoff]
    by_cases hnewer : ((r.earlyDecisions k).any fun newer =>
        decide (d.msgID ≠ 0 ∧ d.msgID < newer.msgID))
    · rw [if_pos hnewer]
      exact Frame.refl k r
    · rw [if_neg hnewer]
      split
      · exact hpend _
      · split
        · rename_i heq
          rw [heq] at hinst
          exact hinst
        · rename_i heq
          rw [heq] at hinst
          exact hinst.trans (frame_storeEarlyDecision _ k d now)

end Manager

/-! ## Runs -/

namespace World

variable {w w' : World} {a : Act} {key : PendingKey}

/-- Validation is enabled, and every unicast and multicast route is in the state that the UPDATEs
and the decisions so far account for. -/
structure Inv (w : World) : Prop where
  enabled : w.r.validationEnabled = true
  slots : ∀ key, isSimplePrefixFamily key.route.fam = true →
    (w.r.slot key).Inv (w.lastID key.peerAddr) (w.lastDecision key) fun m => w.promoted key m = true

lemma inv_init (validationTimeout : ℕ) (policyDenied : Addr → Option ℕ) (terminal : Bool) :
    (init validationTimeout policyDenied terminal).Inv where
  enabled := rfl
  slots := fun _ _ => Slot.inv_empty fun _ _ => rfl

lemma lastDecision_cons (w : World) (r : Manager) (k key : PendingKey) (d : ValidationDecision)
    (now : ℕ) :
    lastDecision { w with r := r, received := ⟨k, d, now⟩ :: w.received } key =
      if key = k then update (w.lastDecision key) d.msgID (some (d, now))
      else w.lastDecision key := by
  funext n
  rw [lastDecision, find?_cons]
  by_cases hk : key = k
  · rw [if_pos hk]
    by_cases hn : n = d.msgID
    · subst hk hn
      simp
    · rw [update_of_ne hn]
      simp [hk, Ne.symm hn, lastDecision]
  · rw [if_neg hk]
    simp [Ne.symm hk, lastDecision]

lemma mem_received {d : ValidationDecision} {m t : ℕ} (h : w.lastDecision key m = some (d, t)) :
    ∃ e ∈ w.received, e.key = key ∧ e.decision.msgID = m ∧ e.at_ = t := by
  rw [lastDecision, Option.map_eq_some_iff] at h
  obtain ⟨e, hfind, heq⟩ := h
  have hp := find?_some hfind
  rw [decide_eq_true_eq] at hp
  exact ⟨e, mem_of_find?_eq_some hfind, hp.1, hp.2, (Prod.mk.inj heq).2⟩

lemma Inv.step (h : w.Inv) (hkeep : w.Undropped a) (hstep : w.step a = some w') : w'.Inv := by
  cases a with
  | update u now =>
    rw [World.step] at hstep
    split_ifs at hstep with hlast
    cases hstep
    have hen : (w.r.handleReceived u now).validationEnabled := by
      rw [enabled_handleReceived, h.enabled]
    refine ⟨hen, fun key hkey => ?_⟩
    by_cases hpeer : key.peerAddr = u.peer
    · have hinv := h.slots key hkey
      show (Manager.slot _ key).Inv (update w.lastID u.peer u.msgID key.peerAddr) _ _
      rw [hpeer] at hinv
      rw [hpeer, update_self]
      refine inv_handleReceived hkey hpeer h.enabled hlast hinv ?_
      intro hmem ed hed
      refine hkeep key.route hmem ed ?_
      rwa [← hpeer]
    · show (Manager.slot _ key).Inv (update w.lastID u.peer u.msgID key.peerAddr) _ _
      rw [update_of_ne hpeer, slot_handleReceived_other hkey hpeer h.enabled]
      exact h.slots key hkey
  | decision k d now =>
    rw [World.step] at hstep
    split_ifs at hstep with hne
    cases hstep
    have hframe := frame_applyDecision w.r k d now
    refine ⟨hframe.enabled.trans h.enabled, fun key hkey => ?_⟩
    have hinv := h.slots key hkey
    rw [lastDecision_cons]
    by_cases hk : key = k
    · subst hk
      rw [if_pos rfl, slot_applyDecision hkey h.enabled]
      exact hinv.receive now hne
    · rw [if_neg hk, hframe.other key hk]
      exact hinv
  | sweep now =>
    rw [World.step] at hstep
    split_ifs at hstep with htimely
    cases hstep
    refine ⟨h.enabled, fun key hkey => ?_⟩
    have hinv := h.slots key hkey
    have hyoung : ∀ ed ∈ w.r.earlyDecisions key, w.lastID key.peerAddr < ed.msgID →
        now ≤ ed.receivedAt + earlyDecisionTimeout := by
      intro ed hed hlt
      obtain ⟨-, d, hd, -⟩ := hinv.early ed hed
      obtain ⟨e, he, hkey', hmsg, hat⟩ := mem_received hd
      rw [← hat]
      refine htimely e he ?_
      rw [hkey', hmsg]
      exact hlt
    refine (inv_sweep hinv hyoung).mono fun m hm => ?_
    rcases hm with hm | ⟨pr, hpr, rfl⟩
    · simp [hm]
    · simp [mem_def.1 hpr]

lemma isFlowSpec_of_simple {fam : LocRib.Family} (h : isSimplePrefixFamily fam) :
    isFlowSpec fam = false := by
  rw [isSimplePrefixFamily, decide_eq_true_eq] at h
  simp only [mem_cons, not_mem_nil, or_false] at h
  rcases h with hf | hf | hf | hf <;> rw [hf] <;> decide

lemma of_routeEligible {route : RawRoute} {msgID : ℕ} (h : w.Inv)
    (hkey : isSimplePrefixFamily key.route.fam) (hr : w.r.ribIn key = some route)
    (he : w.r.routeEligible key msgID) :
    ¬ (w.r.slot key).Blocked route.msgID ∧ route.ineligible = false := by
  rw [routeEligible, isFlowSpec_of_simple hkey, hr] at he
  simp only [Bool.false_eq_true, if_false] at he
  split_ifs at he with h₁ h₂ h₃ h₄ h₅ h₆
  all_goals
    refine ⟨?_, ?_⟩
    · rintro ⟨ed, hed, hlt⟩
      exact h₄ ((any_eq_true _ _).2 ⟨ed, hed, decide_eq_true hlt⟩)
    · rw [h.enabled, Bool.true_and, Bool.not_eq_true] at h₅
      exact h₅

/-- **A route becomes eligible by the last decision about it, or by the timeout for want of one.**
In every run of UPDATEs with increasing identifiers, decisions that name an UPDATE and sweeps,
handled in time, in which no UPDATE makes the store drop a decision still needed: a route that an
UPDATE announced and that is installed is eligible only if the last decision received that names
this UPDATE accepts it, or no decision names it and a sweep has installed it. -/
theorem eligible_decided {validationTimeout : ℕ} {policyDenied : Addr → Option ℕ} {terminal : Bool}
    {acts : List Act} {route : RawRoute} {msgID : ℕ}
    (hkeep : Meets step Undropped (init validationTimeout policyDenied terminal) acts)
    (hrun : run step (init validationTimeout policyDenied terminal) acts = some w)
    (hkey : isSimplePrefixFamily key.route.fam) (hr : w.r.ribIn key = some route)
    (he : w.r.routeEligible key msgID) :
    (∃ d t, w.lastDecision key route.msgID = some (d, t) ∧ d.Accepts) ∨
      w.lastDecision key route.msgID = none ∧ w.promoted key route.msgID := by
  have hinv : w.Inv := run_keeps (fun _ _ _ h hc hs => h.step hc hs) acts _ w
    (inv_init validationTimeout policyDenied terminal) hkeep hrun
  obtain ⟨hfree, hel⟩ := of_routeEligible hinv hkey hr he
  rcases (hinv.slots key hkey).decided route hr with h | h | h
  · rw [hel] at h
    cases h
  · exact absurd h hfree
  · exact h

def key24 : PendingKey :=
  ⟨.v4 0x0A000001#32, ⟨ipv4Unicast, 0, ⟨.v4 0xC0000200#32, 24⟩, []⟩⟩

/-- The UPDATE 1 of the peer, which announces `192.0.2.0/24` and withdraws `withdrawn`. -/
def update1 (withdrawn : List RouteKey) : Update where
  peer := .v4 0x0A000001#32
  msgID := 1
  sourcePolicyEpoch := 0
  attrHex := "40010100"
  withdrawn := withdrawn
  mpUnreach := []
  nlri := ⟨ipv4Unicast, "0a000001", false, [⟨0, ⟨.v4 0xC0000200#32, 24⟩, [], "18c00002"⟩]⟩
  mpReach := ⟨ipv4Unicast, "", false, []⟩

/-- A store without a timeout of its own and without source policies. -/
def new : World := init 0 (fun _ => none) false

/-- A decision comes before its UPDATE: the route is eligible, and the decision accepts it. -/
theorem eligible_decided_early :
    ∃ w route, run step new [.decision key24 ⟨true, false, 1, 1⟩ 0, .update (update1 []) second,
        .sweep (40 * second)] = some w ∧
      w.r.ribIn key24 = some route ∧ w.r.routeEligible key24 1 ∧
      ((∃ d t, w.lastDecision key24 route.msgID = some (d, t) ∧ d.Accepts) ∨
        w.lastDecision key24 route.msgID = none ∧ w.promoted key24 route.msgID) := by
  have hany : (run step new [.decision key24 ⟨true, false, 1, 1⟩ 0, .update (update1 []) second,
      .sweep (40 * second)]).any (fun w => (w.r.ribIn key24).isSome && w.r.routeEligible key24 1) =
      true := by
    decide +kernel
  obtain ⟨w, hrun, hw⟩ := (any_eq_true _ _).1 hany
  rw [Bool.and_eq_true] at hw
  obtain ⟨route, hr⟩ := Option.isSome_iff_exists.mp hw.1
  have hkeep : Meets step Undropped new [.decision key24 ⟨true, false, 1, 1⟩ 0,
      .update (update1 []) second, .sweep (40 * second)] := by
    decide +kernel
  exact ⟨w, route, hrun, hr, hw.2, eligible_decided hkeep hrun (by decide) hr hw.2⟩

/-- A decision that rejects a route comes before its UPDATE, and the UPDATE names the prefix among
its withdrawn routes as well: the withdrawal drops the decision, the announcement waits, and the
sweep makes the rejected route eligible. -/
theorem eligible_rejected :
    ∃ w route t, run step new [.decision key24 ⟨false, false, 0, 1⟩ 0,
        .update (update1 [key24.route]) second, .sweep (40 * second)] = some w ∧
      w.r.ribIn key24 = some route ∧ w.r.routeEligible key24 0 ∧
      w.lastDecision key24 route.msgID = some (⟨false, false, 0, 1⟩, t) ∧
      ¬ ValidationDecision.Accepts ⟨false, false, 0, 1⟩ := by
  have hany : (run step new [.decision key24 ⟨false, false, 0, 1⟩ 0,
      .update (update1 [key24.route]) second, .sweep (40 * second)]).any (fun w =>
        (w.r.ribIn key24).any (fun route => decide (w.lastDecision key24 route.msgID =
          some (⟨false, false, 0, 1⟩, 0))) && w.r.routeEligible key24 0) = true := by
    decide +kernel
  obtain ⟨w, hrun, hw⟩ := (any_eq_true _ _).1 hany
  rw [Bool.and_eq_true] at hw
  obtain ⟨route, hr, hlast⟩ := (any_eq_true _ _).1 hw.1
  exact ⟨w, route, 0, hrun, hr, hw.2, of_decide_eq_true hlast, by decide⟩

end World

end Ze.AdjRibIn
