import Ze.Bfd.Holds
import Ze.Bfd.Schedule

/-!
# The detection deadline of a BFD session

The detection deadline is stored; the detection time follows from the receive interval in force and
what the peer sends (RFC 5880 Section 6.8.4). Only a received packet writes the deadline, so a step
that moves the detection time afterwards leaves the deadline behind.
-/

namespace Ze.Bfd

open Ze.Lib

namespace Machine

variable (m : Machine)

/-- An armed deadline is the time of the last accepted packet and the detection time of now.
Source: timers.go armDetectionLocked -/
def Timed : Prop :=
  ∀ deadline, m.schedule.nextDetectAt = some deadline →
    ∃ received, m.schedule.lastRxTime = some received ∧ deadline = received + m.detectionInterval

/-- No reduction of the receive interval that counts for the detection time is held.
Source: timers.go requiredMinRxInForceUs -/
def Unheld : Prop :=
  max m.requiredMinRxInForceUs m.remoteDesiredMinTx =
    max m.requiredMinRxInterval m.remoteDesiredMinTx

instance : Decidable m.Unheld := inferInstanceAs (Decidable (_ = _))

/-- A packet that takes the session out of Up leaves no reduction held that counts: without the
Final bit, a Poll in flight keeps what is held, and with no Poll in flight a change that waits is
made and held.
Source: fsm.go Receive -/
def DropsUnheld (c : Control) : Prop :=
  c.final = false →
    if m.pollOutstanding then
      max m.requiredMinRxInForceUs c.desiredMinTxInterval =
        max m.requiredMinRxInterval c.desiredMinTxInterval
    else m.timersPending = true →
      m.requiredMinRxInterval ≤ max m.operatingRequired c.desiredMinTxInterval

instance (c : Control) : Decidable (m.DropsUnheld c) :=
  inferInstanceAs (Decidable (_ → _))

/-- The step does not move the detection time of a deadline that is armed: a packet that takes the
session Up does not raise the receive interval over the peer's interval, one that takes it out of Up
leaves no reduction held, and so for every other way out of Up; a change of the timers does not
raise the interval in Up and does not change it outside; the slow-down does not raise it.
Source: fsm.go Receive; timers.go ApplyTimers, ApplyEchoSlowdown; session.go
Reconfigure -/
def KeepsDetection : Op → Prop
  | .receive c _ => ¬ m.Discards c →
      match transition m.sessionState c.state with
      | some (.up, _) =>
        m.configuredRequiredMinRxInterval ≤ max m.requiredMinRxInterval c.desiredMinTxInterval
      | some _ => m.sessionState = .up → m.DropsUnheld c
      | none => True
  | .applyTimers req => m.schedule.nextDetectAt ≠ none →
      if m.sessionState = .up then
        m.pollSequenceIdle = true →
          max m.slowdownFloor (requestInterval req.requiredMinRxInterval) ≤
            max m.requiredMinRxInterval m.remoteDesiredMinTx
      else
        max (requestInterval req.requiredMinRxInterval) m.remoteDesiredMinTx =
          max m.requiredMinRxInterval m.remoteDesiredMinTx
  | .revive req _ => m.schedule.nextDetectAt ≠ none → m.sessionState ≠ .up →
      max (requestInterval req.requiredMinRxInterval) m.remoteDesiredMinTx =
        max m.requiredMinRxInterval m.remoteDesiredMinTx
  | .echoTick expired _ => m.schedule.nextDetectAt ≠ none → m.sessionState = .up →
      m.echoEnabled = true →
      if expired then m.Unheld
      else m.echoSlowdownApplied = false → m.pollSequenceIdle = true →
        max echoSlowdownIntervalUs m.configuredRequiredMinRxInterval ≤
          max m.requiredMinRxInterval m.remoteDesiredMinTx
  | .adminDown _ _ | .defectDown _ => m.schedule.nextDetectAt ≠ none → m.Unheld
  | _ => True

/-- Whether a reception keeps the deadline right, by what its transition is. Source: fsm.go
Receive. -/
def decidableKeepsReception (c : Control) :
    Decidable (match transition m.sessionState c.state with
      | some (.up, _) =>
        m.configuredRequiredMinRxInterval ≤ max m.requiredMinRxInterval c.desiredMinTxInterval
      | some _ => m.sessionState = .up → m.DropsUnheld c
      | none => True) :=
  match transition m.sessionState c.state with
  | some (.up, _) => inferInstanceAs (Decidable (_ ≤ _))
  | some (.down, _) | some (.init, _) | some (.adminDown, _) =>
    inferInstanceAs (Decidable (m.sessionState = .up → m.DropsUnheld c))
  | none => isTrue trivial

instance : (op : Op) → Decidable (m.KeepsDetection op)
  | .receive c _ =>
    have := m.decidableKeepsReception c
    inferInstanceAs (Decidable (_ → _))
  | .applyTimers _ | .revive _ _ | .echoTick _ _ | .adminDown _ _ | .defectDown _ =>
    inferInstanceAs (Decidable (_ → _))
  | .applyRole _ _ | .applyEcho _ | .setAuth _ | .checkDetection _ | .adminEnable _
  | .advanceTx _ _ => isTrue trivial

/-! ## What leaves the deadline and the peer's values alone -/

/-- Two sessions agree on the deadline, the last reception and what the peer sends.
Source: timers.go DetectionInterval -/
structure RxAlike (m m' : Machine) : Prop where
  nextDetectAt : m'.schedule.nextDetectAt = m.schedule.nextDetectAt
  lastRxTime : m'.schedule.lastRxTime = m.schedule.lastRxTime
  remoteDesiredMinTx : m'.remoteDesiredMinTx = m.remoteDesiredMinTx
  remoteDetectMult : m'.remoteDetectMult = m.remoteDetectMult

section

variable {m} {m' m'' : Machine}

lemma RxAlike.refl : RxAlike m m := ⟨rfl, rfl, rfl, rfl⟩

lemma RxAlike.trans (h : RxAlike m m') (h' : RxAlike m' m'') : RxAlike m m'' :=
  ⟨h'.nextDetectAt.trans h.nextDetectAt, h'.lastRxTime.trans h.lastRxTime,
    h'.remoteDesiredMinTx.trans h.remoteDesiredMinTx, h'.remoteDetectMult.trans h.remoteDetectMult⟩

lemma rxAlike_rescheduleTx : RxAlike m m.rescheduleTx := by
  have hsame : m.rescheduledTx.nextDetectAt = m.schedule.nextDetectAt ∧
      m.rescheduledTx.lastRxTime = m.schedule.lastRxTime := by
    unfold rescheduledTx
    dsimp only
    split_ifs
    · exact ⟨rfl, rfl⟩
    · split
      · split_ifs <;> exact ⟨rfl, rfl⟩
      · exact ⟨rfl, rfl⟩
  exact ⟨hsame.1, hsame.2, rfl, rfl⟩

lemma rxAlike_rescheduleEcho : RxAlike m m.rescheduleEcho := by
  unfold rescheduleEcho rescheduledEcho
  split <;> exact ⟨rfl, rfl, rfl, rfl⟩

lemma rxAlike_changeIntervals (d r : ℕ) : RxAlike m (m.changeIntervals d r) := by
  rw [changeIntervals_eq]
  exact ⟨rfl, rfl, rfl, rfl⟩

lemma rxAlike_applyPendingTimers : RxAlike m m.applyPendingTimers := by
  have hset : RxAlike m { m with timersPending := false } := ⟨rfl, rfl, rfl, rfl⟩
  rw [applyPendingTimers_eq]
  split_ifs
  · exact RxAlike.refl
  · exact hset
  · exact (hset.trans (rxAlike_changeIntervals _ _)).trans rxAlike_rescheduleTx

lemma rxAlike_revertEchoSlowdown : RxAlike m m.revertEchoSlowdown := by
  unfold revertEchoSlowdown
  dsimp only
  by_cases hslow : m.echoSlowdownApplied = false
  · rw [if_pos hslow]
    exact RxAlike.refl
  · rw [if_neg hslow]
    by_cases hbusy : m.sessionState = .up ∧ m.pollSequenceIdle = false
    · rw [if_pos hbusy]
      exact RxAlike.refl
    · rw [if_neg hbusy, holdRequiredMinRx_eq]
      have hmoved : ∀ n : Machine, RxAlike m n → RxAlike m (if m.sessionState = .up then
          { n.rescheduleTx with pollOutstanding := true } else n.rescheduleTx) := by
        intro n hn
        have hre := hn.trans rxAlike_rescheduleTx
        split_ifs
        · exact ⟨hre.nextDetectAt, hre.lastRxTime, hre.remoteDesiredMinTx, hre.remoteDetectMult⟩
        · exact hre
      exact hmoved _ ⟨rfl, rfl, rfl, rfl⟩

lemma rxAlike_applyEchoSlowdown : RxAlike m m.applyEchoSlowdown := by
  unfold applyEchoSlowdown
  split_ifs
  · exact RxAlike.refl
  · dsimp only
    rw [holdDesiredMinTx_eq]
    exact ⟨rfl, rfl, rfl, rfl⟩

lemma rxAlike_enterUp : RxAlike m m.enterUp := by
  unfold enterUp
  split_ifs
  · exact rxAlike_changeIntervals _ _
  · exact RxAlike.refl

lemma rxAlike_moveTo (state : State) (diag : Diag) (now : ℕ) :
    RxAlike m (m.moveTo state diag now) := by
  have hmoved : RxAlike m (if state = .up then
      { m with sessionState := state, localDiag := diag }.enterUp
      else { m with sessionState := state, localDiag := diag }.leaveUp m.sessionState) := by
    split_ifs
    · have henter := @rxAlike_enterUp { m with sessionState := state, localDiag := diag }
      exact ⟨henter.nextDetectAt, henter.lastRxTime, henter.remoteDesiredMinTx,
        henter.remoteDetectMult⟩
    · exact ⟨rfl, rfl, rfl, rfl⟩
  exact ⟨hmoved.nextDetectAt, hmoved.lastRxTime, hmoved.remoteDesiredMinTx, hmoved.remoteDetectMult⟩

/-! ## The invariant -/

/-- What every run keeps beside the deadline: the invariant of the holds, that a held reduction has
a Poll in flight, and that an armed deadline has a multiplier of the peer.
Source: session.go Machine -/
structure Watching (m : Machine) : Prop where
  steady : m.Steady
  polls : m.rxRequiredHeld = true → m.pollOutstanding = true
  mult : m.schedule.nextDetectAt ≠ none → m.remoteDetectMult ≠ 0

lemma Watching.unheld_of_idle (hm : m.Watching) (hidle : m.pollSequenceIdle) :
    m.rxRequiredHeld = false := by
  rcases hheld : m.rxRequiredHeld with _ | _
  · rfl
  · rw [pollSequenceIdle, hm.polls hheld] at hidle
    cases hidle

lemma inForce_of_unheld (hheld : m.rxRequiredHeld = false) :
    m.requiredMinRxInForceUs = m.requiredMinRxInterval := by
  rw [requiredMinRxInForceUs, hheld, if_neg Bool.false_ne_true]

lemma Steady.inForce (hm : m.Steady) (hup : m.sessionState ≠ .up) :
    m.requiredMinRxInForceUs = m.requiredMinRxInterval :=
  inForce_of_unheld (hm.resting hup).rxHeld

lemma timed_iff_of_rxAlike (hm : m.Timed) (hpos : m.Positive) (hpos' : m'.Positive)
    (hmult : m.schedule.nextDetectAt ≠ none → m.remoteDetectMult ≠ 0) (h : RxAlike m m') :
    m'.Timed ↔ (m.schedule.nextDetectAt ≠ none →
      max m'.requiredMinRxInForceUs m.remoteDesiredMinTx =
        max m.requiredMinRxInForceUs m.remoteDesiredMinTx) := by
  unfold Timed
  rw [h.nextDetectAt, h.lastRxTime]
  rcases harmed : m.schedule.nextDetectAt with _ | deadline
  · simp
  · obtain ⟨received, hreceived, hdeadline⟩ := hm deadline harmed
    have hmult' : m.remoteDetectMult ≠ 0 := hmult (by rw [harmed]; exact Option.some_ne_none _)
    have hinterval : ∀ n : Machine, n.Positive → n.remoteDesiredMinTx = m.remoteDesiredMinTx →
        n.remoteDetectMult = m.remoteDetectMult → n.detectionInterval =
          m.remoteDetectMult * max n.requiredMinRxInForceUs m.remoteDesiredMinTx * microsecond := by
      intro n hn htx hn'
      have hfloor : max n.requiredMinRxInForceUs m.remoteDesiredMinTx ≠ 0 := by
        have := hn.requiredInForce
        omega
      rw [detectionInterval, detectionIntervalOf, htx, if_neg hfloor, detectionMult, hn',
        if_neg hmult']
    rw [hinterval m hpos rfl rfl] at hdeadline
    rw [hinterval m' hpos' h.remoteDesiredMinTx h.remoteDetectMult]
    have hmicro : 0 < microsecond := by decide
    constructor
    · intro htimed _
      obtain ⟨received', hreceived', heq⟩ := htimed deadline rfl
      rw [hreceived] at hreceived'
      cases hreceived'
      rw [hdeadline, Nat.add_right_inj] at heq
      have hmul := Nat.eq_of_mul_eq_mul_right hmicro heq
      exact (Nat.eq_of_mul_eq_mul_left (Nat.pos_of_ne_zero hmult') hmul).symm
    · intro hsame deadline' heq
      cases heq
      exact ⟨received, hreceived, by rw [hsame (Option.some_ne_none _), hdeadline]⟩

variable {state : State} {c : Control} {req : SessionRequest}

lemma inForce_moveTo (hstate : state ≠ .up) (diag : Diag) (now : ℕ) :
    (m.moveTo state diag now).requiredMinRxInForceUs = m.requiredMinRxInterval := by
  unfold moveTo onStateChange
  simp only [hstate, if_false]
  rfl

lemma timed_moveTo_iff (hm : m.Timed) (hpos : m.Positive)
    (hmult : m.schedule.nextDetectAt ≠ none → m.remoteDetectMult ≠ 0)
    (hstate : state ≠ .up) (diag : Diag) (now : ℕ) :
    (m.moveTo state diag now).Timed ↔ (m.schedule.nextDetectAt ≠ none → m.Unheld) := by
  rw [timed_iff_of_rxAlike hm hpos (steady_moveTo hpos hstate diag now).positive hmult
    (rxAlike_moveTo state diag now), inForce_moveTo hstate]
  exact ⟨fun h harmed => (h harmed).symm, fun h harmed => (h harmed).symm⟩

lemma inForce_changeIntervals (hup : m.sessionState = .up) (hheld : m.rxRequiredHeld = false)
    (d r : ℕ) :
    (m.changeIntervals d r).requiredMinRxInForceUs = max m.requiredMinRxInterval r := by
  rw [changeIntervals_eq]
  unfold requiredMinRxInForceUs holdRequiredMinRx
  by_cases hle : m.requiredMinRxInterval ≤ r
  · simp [hle, hheld]
  · simp only [hup, hle, hheld, ne_eq, not_true_eq_false, Bool.false_eq_true, or_self, if_false,
      if_true]
    omega

lemma inForce_enterUp (hup : m.sessionState = .up) (hheld : m.rxRequiredHeld = false) :
    m.enterUp.requiredMinRxInForceUs =
      max m.requiredMinRxInterval m.configuredRequiredMinRxInterval := by
  unfold enterUp
  by_cases hne : m.desiredMinTxInterval ≠ m.configuredDesiredMinTxInterval ∨
      m.requiredMinRxInterval ≠ m.configuredRequiredMinRxInterval
  · rw [if_pos hne]
    exact inForce_changeIntervals hup hheld _ _
  · rw [if_neg hne, inForce_of_unheld hheld]
    obtain ⟨-, hsame⟩ := not_or.1 hne
    rw [← not_not.1 hsame, Nat.max_self]

lemma applyPendingTimers_rx (hup : m.sessionState = .up)
    (hheld : m.pollSequenceIdle → m.rxRequiredHeld = false)
    (hpending : m.timersPending) (hidle : m.pollSequenceIdle) :
    m.applyPendingTimers.requiredMinRxInterval = m.operatingRequired ∧
      m.applyPendingTimers.requiredMinRxInForceUs =
        max m.requiredMinRxInterval m.operatingRequired := by
  have hgo : ¬ (m.timersPending = false ∨ m.pollSequenceIdle = false) := by simp [hpending, hidle]
  have hfree := hheld hidle
  rw [applyPendingTimers_eq, if_neg hgo]
  by_cases hsame : m.operatingDesired = m.desiredMinTxInterval ∧
      m.operatingRequired = m.requiredMinRxInterval
  · rw [if_pos hsame, hsame.2, Nat.max_self]
    exact ⟨rfl, inForce_of_unheld (m := { m with timersPending := false }) hfree⟩
  · rw [if_neg hsame]
    refine ⟨?_, inForce_changeIntervals (m := { m with timersPending := false }) hup hfree _ _⟩
    rw [changeIntervals_eq]
    rfl

lemma applyPendingTimers_of_not (h : ¬ (m.timersPending ∧ m.pollSequenceIdle)) :
    m.applyPendingTimers = m := by
  rw [applyPendingTimers_eq, if_pos]
  rcases hpending : m.timersPending with _ | _
  · exact .inl rfl
  · rcases hidle : m.pollSequenceIdle with _ | _
    · exact .inr rfl
    · exact absurd ⟨hpending, hidle⟩ h

/-! ## What a step does to the deadline -/

variable (m) in
lemma checkDetection_cases (now : ℕ) :
    m.checkDetection now = m ∨ (m.checkDetection now).schedule.nextDetectAt = none := by
  unfold checkDetection
  split
  · exact .inl rfl
  · split_ifs
    · exact .inl rfl
    · exact .inr (rxAlike_moveTo _ _ _).nextDetectAt
    all_goals exact .inr rfl

variable {op : Op} {now : ℕ}

lemma rxAlike_of_step (hop : ∀ c now, op ≠ .receive c now) (h : step m op = some m') :
    (∃ now, op = .checkDetection now) ∧ m'.schedule.nextDetectAt = none ∨ RxAlike m m' := by
  cases op with
  | receive c now => exact absurd rfl (hop c now)
  | applyTimers req =>
    cases h
    unfold applyTimers
    dsimp only
    split_ifs
    · obtain ⟨h₁, h₂, h₃, h₄⟩ := @rxAlike_applyPendingTimers { m with
        configuredDesiredMinTxInterval := requestInterval req.desiredMinTxInterval
        configuredRequiredMinRxInterval := requestInterval req.requiredMinRxInterval
        detectMult := requestDetectMult req.detectMult
        timersPending := true }
      exact .inr ⟨h₁, h₂, h₃, h₄⟩
    · exact .inr ⟨rfl, rfl, rfl, rfl⟩
  | applyRole | setAuth | advanceTx =>
    cases h
    exact .inr ⟨rfl, rfl, rfl, rfl⟩
  | applyEcho us =>
    cases h
    unfold applyEcho
    dsimp only
    split_ifs
    · obtain ⟨h₁, h₂, h₃, h₄⟩ := @rxAlike_rescheduleEcho { m with
        desiredMinEchoTxInterval := us, requiredMinEchoRxInterval := us }
      exact .inr ⟨h₁, h₂, h₃, h₄⟩
    · exact .inr ⟨rfl, rfl, rfl, rfl⟩
  | revive req now =>
    have henabled : RxAlike m (m.adminEnable now) := by
      unfold adminEnable
      split_ifs
      · exact rxAlike_moveTo _ _ _
      · exact RxAlike.refl
    rw [step, reconfigure] at h
    split_ifs at h
    cases h
    exact .inr ⟨henabled.nextDetectAt, henabled.lastRxTime, henabled.remoteDesiredMinTx,
      henabled.remoteDetectMult⟩
  | echoTick expired now =>
    cases h
    unfold echoTick
    split_ifs
    · obtain ⟨h₁, h₂, h₃, h₄⟩ := @rxAlike_revertEchoSlowdown { m with
        schedule := { m.schedule with nextEchoAt := none, lastEchoAt := none } }
      exact .inr ⟨h₁, h₂, h₃, h₄⟩
    · unfold echoFail
      split_ifs
      · obtain ⟨h₁, h₂, h₃, h₄⟩ := @rxAlike_moveTo { m with
          schedule := { m.schedule with nextEchoAt := none } } .down .echoFailed now
        exact .inr ⟨h₁, h₂, h₃, h₄⟩
      · exact .inr RxAlike.refl
    · obtain ⟨h₁, h₂, h₃, h₄⟩ := @rxAlike_applyEchoSlowdown m
      have hprimed : RxAlike m (m.applyEchoSlowdown.primeEcho now) := ⟨h₁, h₂, h₃, h₄⟩
      dsimp only
      split
      · exact .inr hprimed
      · split_ifs
        · exact .inr hprimed
        · refine .inr (hprimed.trans ?_)
          unfold advanceEcho
          split_ifs <;> exact ⟨rfl, rfl, rfl, rfl⟩
  | checkDetection now =>
    cases h
    rcases m.checkDetection_cases now with hsame | hnone
    · rw [hsame]
      exact .inr RxAlike.refl
    · exact .inl ⟨⟨now, rfl⟩, hnone⟩
  | adminDown diag now =>
    cases h
    unfold adminDown
    split_ifs
    · exact .inr RxAlike.refl
    · obtain ⟨h₁, h₂, h₃, h₄⟩ := @rxAlike_moveTo m .adminDown diag now
      exact .inr ⟨h₁, h₂, h₃, h₄⟩
  | adminEnable =>
    cases h
    unfold adminEnable
    split_ifs
    · exact .inr (rxAlike_moveTo _ _ _)
    · exact .inr RxAlike.refl
  | defectDown =>
    cases h
    unfold defectDown
    split_ifs
    · exact .inr (rxAlike_moveTo _ _ _)
    · exact .inr RxAlike.refl

lemma timed_accept (c : Control) (now : ℕ) : (m.accept c now).Timed := by
  intro deadline h
  unfold accept armDetection at h ⊢
  dsimp only at h ⊢
  exact ⟨now, rfl, (Option.some.inj h).symm⟩

lemma accept_remote (c : Control) (now : ℕ) :
    (m.accept c now).remoteDesiredMinTx = c.desiredMinTxInterval ∧
      (m.accept c now).remoteDetectMult = c.detectMult := by
  have htaken : ((m.learn c).takeFinal c.final).remoteDesiredMinTx = c.desiredMinTxInterval ∧
      ((m.learn c).takeFinal c.final).remoteDetectMult = c.detectMult := by
    rw [takeFinal_eq, learn_eq]
    exact ⟨rfl, rfl⟩
  unfold accept armDetection
  dsimp only
  split_ifs
  · rw [rxAlike_applyPendingTimers.remoteDesiredMinTx, rxAlike_applyPendingTimers.remoteDetectMult]
    exact htaken
  · exact htaken

/-! ## The invariant is kept -/

lemma polls_applyPendingTimers (h : m.rxRequiredHeld → m.pollOutstanding) :
    m.applyPendingTimers.rxRequiredHeld → m.applyPendingTimers.pollOutstanding := by
  rw [applyPendingTimers_eq]
  split_ifs
  · exact h
  · exact h
  · rw [changeIntervals_eq]
    exact fun _ => rfl

lemma UpStep.polls (hm : m.rxRequiredHeld → m.pollOutstanding)
    (h : m.UpStep op m') : m'.rxRequiredHeld → m'.pollOutstanding := by
  have htaken : ∀ {c : Control} (now : ℕ), ¬ m.Discards c →
      (m.takenIn (.receive c now)).rxRequiredHeld →
        (m.takenIn (.receive c now)).pollOutstanding := by
    intro c now hc
    have halike := takenIn_receive m now hc
    rw [halike.rxRequiredHeld, halike.pollOutstanding]
    dsimp only
    intro hheld
    obtain ⟨hheld, hnot⟩ := Bool.and_eq_true_iff.1 hheld
    rw [hm hheld] at hnot ⊢
    exact hnot
  rcases h with ⟨-, halike⟩ | ⟨hc, hup, halike⟩ | ⟨hc, henters, halike⟩ | ⟨hup, halike⟩ |
    ⟨hup, halike⟩ | ⟨hup, halike⟩
  · rw [halike.rxRequiredHeld, halike.pollOutstanding]
    exact hm
  · rw [halike.rxRequiredHeld, halike.pollOutstanding]
    exact polls_applyPendingTimers (htaken _ hc)
  · rw [halike.rxRequiredHeld, halike.pollOutstanding, enterUp]
    split_ifs
    · rw [changeIntervals_eq]
      exact fun _ => rfl
    · exact htaken _ hc
  · rw [halike.rxRequiredHeld, halike.pollOutstanding]
    exact polls_applyPendingTimers hm
  · rw [halike.rxRequiredHeld, halike.pollOutstanding]
    by_cases hgo : m.echoSlowdownApplied = false ∧ m.pollSequenceIdle
    · rw [applyEchoSlowdown_eq hgo.1 hgo.2]
      exact fun _ => rfl
    · rw [applyEchoSlowdown_of_not m hgo]
      exact hm
  · rw [halike.rxRequiredHeld, halike.pollOutstanding]
    by_cases hgo : m.echoSlowdownApplied ∧ m.pollSequenceIdle
    · rw [(revertEchoSlowdown_eq hup hgo.1 hgo.2).pollOutstanding]
      exact fun _ => rfl
    · rw [revertEchoSlowdown_of_not m hup hgo]
      exact hm

lemma mult_of_step (hm : m.schedule.nextDetectAt ≠ none → m.remoteDetectMult ≠ 0)
    (hoffered : m.Offered op) (h : step m op = some m') :
    m'.schedule.nextDetectAt ≠ none → m'.remoteDetectMult ≠ 0 := by
  by_cases hop : ∃ c now, op = .receive c now
  · obtain ⟨c, now, rfl⟩ := hop
    rw [step_receive] at h
    by_cases hc : m.Discards c
    · rw [if_pos hc, Option.some.injEq] at h
      exact h ▸ hm
    · rw [if_neg hc] at h
      have haccept := (m.accept_remote c now).2
      rcases ht : transition m.sessionState c.state with _ | ⟨state, diag⟩ <;> rw [ht] at h
      · cases h
        rw [haccept]
        exact fun _ => hoffered.2
      · cases h
        rw [(rxAlike_moveTo state diag now).remoteDetectMult, haccept]
        exact fun _ => hoffered.2
  · have hop' : ∀ c now, op ≠ .receive c now := fun c now heq => hop ⟨c, now, heq⟩
    rcases rxAlike_of_step hop' h with ⟨-, hnone⟩ | halike
    · exact fun harmed => absurd hnone harmed
    · rw [halike.nextDetectAt, halike.remoteDetectMult]
      exact hm

section

variable (hm : m.Watching)
include hm

lemma Watching.step (hoffered : m.Offered op) (h : step m op = some m') : m'.Watching := by
  have hsteady : m'.Steady := hm.steady.step h
  refine ⟨hsteady, ?_, mult_of_step hm.mult hoffered h⟩
  by_cases hup : m'.sessionState = .up
  · exact (upStep_of_step h hup).polls hm.polls
  · intro hheld
    rw [(hsteady.resting hup).rxHeld] at hheld
    cases hheld

/-! ## Which steps keep the deadline right -/

lemma Watching.timed_iff (htimed : m.Timed) (hm' : m'.Positive) (h : RxAlike m m') {us : ℕ}
    (hforce : m'.requiredMinRxInForceUs = us) :
    m'.Timed ↔ (m.schedule.nextDetectAt ≠ none →
      max us m.remoteDesiredMinTx = max m.requiredMinRxInForceUs m.remoteDesiredMinTx) := by
  rw [← hforce]
  exact timed_iff_of_rxAlike htimed hm.steady.positive hm' hm.mult h

lemma Watching.unheld (hup : m.sessionState ≠ .up) : m.Unheld := by
  rw [Unheld, hm.steady.inForce hup]

lemma Watching.unheld_accept_iff (hup : m.sessionState = .up) (hc : ¬ m.Discards c) :
    (m.accept c now).Unheld ↔ m.DropsUnheld c := by
  have halike := accept_of_up m now hc hup
  have htaken := takenIn_receive m now hc
  have hstate : (m.takenIn (.receive c now)).sessionState = .up := htaken.sessionState.trans hup
  have hidle : (m.takenIn (.receive c now)).pollSequenceIdle = (!(m.pollOutstanding && !c.final) &&
        !(if c.final then m.pollOutstanding || m.pollSettling else false)) := by
    rw [htaken.pollSequenceIdle]
    rfl
  have hheld : (m.takenIn (.receive c now)).rxRequiredHeld =
      (m.rxRequiredHeld && !(m.pollOutstanding && c.final)) := htaken.rxRequiredHeld
  have hpending : (m.takenIn (.receive c now)).timersPending = m.timersPending :=
    htaken.timersPending
  have hrequired : (m.takenIn (.receive c now)).requiredMinRxInterval = m.requiredMinRxInterval :=
    htaken.requiredMinRxInterval
  have hoperating : (m.takenIn (.receive c now)).operatingRequired = m.operatingRequired :=
    htaken.operatingRequired
  have hfree : m.pollOutstanding = false → m.rxRequiredHeld = false := by
    intro hpoll
    rcases hrx : m.rxRequiredHeld with _ | _
    · rfl
    · rw [hm.polls hrx] at hpoll
      cases hpoll
  rw [Unheld, halike.requiredMinRxInForceUs, halike.requiredMinRxInterval,
    (m.accept_remote c now).1]
  unfold DropsUnheld
  rcases hfinal : c.final with _ | _
  · rcases hpoll : m.pollOutstanding with _ | _
    · rw [hfinal, hpoll] at hidle
      have hnone : (m.takenIn (.receive c now)).rxRequiredHeld = false := by
        rw [hheld, hfree hpoll, Bool.false_and]
      by_cases hp : m.timersPending
      · obtain ⟨hreq, hforce⟩ := applyPendingTimers_rx hstate (fun _ => hnone)
          (hpending.trans hp) hidle
        rw [hreq, hforce, hoperating, hrequired]
        simp only [hp, Bool.false_eq_true, if_false, forall_const]
        omega
      · rw [applyPendingTimers_of_not (fun hgo => hp (hpending.symm.trans hgo.1)),
          inForce_of_unheld hnone]
        simp only [hp, Bool.false_eq_true, if_false, false_implies, implies_true]
    · have hbusy : (m.takenIn (.receive c now)).pollSequenceIdle = false := by
        rw [hidle, hfinal, hpoll]
        rfl
      have hsame : (m.takenIn (.receive c now)).requiredMinRxInForceUs =
          m.requiredMinRxInForceUs := by
        have hus : (m.takenIn (.receive c now)).rxRequiredHeldUs = m.rxRequiredHeldUs :=
          htaken.rxRequiredHeldUs
        rw [requiredMinRxInForceUs, requiredMinRxInForceUs, hheld, hus, hrequired, hfinal,
          Bool.and_false, Bool.not_false, Bool.and_true]
      rw [applyPendingTimers_of_not (fun hgo => by rw [hbusy] at hgo; cases hgo.2), hsame,
        hrequired]
      simp only [if_true, forall_const]
  · -- a Final bit ends the holds, and the wait after it lets no change through
    have hnone : (m.takenIn (.receive c now)).rxRequiredHeld = false := by
      rw [hheld, hfinal, Bool.and_true]
      rcases hpoll : m.pollOutstanding with _ | _
      · rw [hfree hpoll, Bool.false_and]
      · exact Bool.and_false _
    have hstay : ¬ ((m.takenIn (.receive c now)).timersPending ∧
        (m.takenIn (.receive c now)).pollSequenceIdle) := by
      rintro ⟨hp, hi⟩
      rw [hpending] at hp
      have hwaits := (hm.steady.operating hup).waits hp
      rw [hidle, hfinal] at hi
      unfold pollSequenceIdle at hwaits
      rcases m.pollOutstanding <;> rcases m.pollSettling <;> simp_all
    rw [applyPendingTimers_of_not hstay, inForce_of_unheld hnone]
    simp only [Bool.true_eq_false, false_implies]

lemma Watching.timed_receive_iff (htimed : m.Timed) (hoffered : m.Offered (.receive c now))
    (h : Bfd.step m (.receive c now) = some m') : m'.Timed ↔ m.KeepsDetection (.receive c now) := by
  rw [step_receive] at h
  by_cases hc : m.Discards c
  · rw [if_pos hc] at h
    cases h
    exact iff_of_true htimed fun hnot => absurd hc hnot
  · rw [if_neg hc] at h
    simp only [KeepsDetection, hc, not_false_eq_true, forall_const]
    obtain ⟨htx, hmult⟩ := m.accept_remote c now
    have hpos := hm.steady.positive.accept now hc
    have harmed : (m.accept c now).schedule.nextDetectAt ≠ none := Option.some_ne_none _
    have hmult' : (m.accept c now).schedule.nextDetectAt ≠ none →
        (m.accept c now).remoteDetectMult ≠ 0 := fun _ => by rw [hmult]; exact hoffered.2
    rcases ht : transition m.sessionState c.state with _ | ⟨state, diag⟩ <;> rw [ht] at h
    · cases h
      exact iff_of_true (timed_accept c now) trivial
    · cases h
      by_cases hstate : state = .up
      · subst hstate
        have hup : m.sessionState ≠ .up := by
          intro hup
          rw [hup] at ht
          rcases hcs : c.state <;> rw [hcs] at ht <;> cases ht
        have halike := accept_of_not_up m now hc hup
        have htaken := takenIn_receive m now hc
        have hheld : (m.accept c now).rxRequiredHeld = false := by
          rw [halike.rxRequiredHeld, htaken.rxRequiredHeld]
          show (m.rxRequiredHeld && _) = false
          rw [(hm.steady.resting hup).rxHeld, Bool.false_and]
        have hrequired : (m.accept c now).requiredMinRxInterval = m.requiredMinRxInterval :=
          halike.requiredMinRxInterval.trans htaken.requiredMinRxInterval
        have hconfigured : (m.accept c now).configuredRequiredMinRxInterval =
            m.configuredRequiredMinRxInterval :=
          halike.configuredRequired.trans htaken.configuredRequired
        have hmoved := (m.accept c now).moveTo_up diag now
        have hin : (m.accept c now).inUp.Positive := by
          obtain ⟨h₁, h₂, h₃, h₄, h₅, h₆⟩ := hpos
          exact ⟨h₁, h₂, h₃, h₄, h₅, h₆⟩
        have hforce : ((m.accept c now).moveTo .up diag now).requiredMinRxInForceUs =
            max m.requiredMinRxInterval m.configuredRequiredMinRxInterval := by
          rw [hmoved.requiredMinRxInForceUs, inForce_enterUp (m := (m.accept c now).inUp) rfl hheld,
            ← hrequired, ← hconfigured]
          rfl
        rw [timed_iff_of_rxAlike (timed_accept c now) hpos (hmoved.positive hin.enterUp) hmult'
          (rxAlike_moveTo .up diag now), hforce, htx, inForce_of_unheld hheld, hrequired]
        constructor
        · intro hsame
          have := hsame harmed
          show m.configuredRequiredMinRxInterval ≤
            max m.requiredMinRxInterval c.desiredMinTxInterval
          omega
        · intro hle _
          omega
      · rw [timed_moveTo_iff (timed_accept c now) hpos hmult' hstate]
        have hmatch : ∀ P Q : Prop, ((match (some (state, diag) : Option (State × Diag)) with
            | some (.up, _) => P
            | some _ => Q
            | none => True) ↔ Q) := by
          intro P Q
          rcases state <;> first | exact Iff.rfl | exact absurd rfl hstate
        rw [hmatch]
        by_cases hup : m.sessionState = .up
        · rw [hm.unheld_accept_iff hup hc]
          exact ⟨fun hdrop _ => hdrop harmed, fun hdrop _ => hdrop hup⟩
        · refine iff_of_true (fun _ => ?_) (fun hup' => absurd hup' hup)
          have halike := accept_of_not_up m now hc hup
          have hrest : (m.takenIn (.receive c now)).rxRequiredHeld = false := by
            rw [(takenIn_receive m now hc).rxRequiredHeld]
            show (m.rxRequiredHeld && _) = false
            rw [(hm.steady.resting hup).rxHeld, Bool.false_and]
          rw [Unheld, inForce_of_unheld (halike.rxRequiredHeld.trans hrest)]

lemma Watching.timed_applyTimers_iff (htimed : m.Timed) (hw' : (m.applyTimers req).Watching)
    (halike : RxAlike m (m.applyTimers req)) :
    (m.applyTimers req).Timed ↔ m.KeepsDetection (.applyTimers req) := by
  unfold KeepsDetection
  by_cases hup : m.sessionState = .up
  · have hmade : Alike (m.pend req).applyPendingTimers (m.applyTimers req) := by
      rw [applyTimers, if_pos hup]
      apply Alike.applyPendingTimers
      constructor <;> rfl
    by_cases hidle : m.pollSequenceIdle
    · have hfree := hm.unheld_of_idle hidle
      have hforce : (m.applyTimers req).requiredMinRxInForceUs = max m.requiredMinRxInterval
          (max m.slowdownFloor (requestInterval req.requiredMinRxInterval)) := by
        rw [hmade.requiredMinRxInForceUs]
        exact (applyPendingTimers_rx (m := m.pend req) hup (fun _ => hfree) rfl hidle).2
      rw [hm.timed_iff htimed hw'.steady.positive halike hforce, inForce_of_unheld hfree]
      refine forall_congr' fun _ => ?_
      simp only [hup, if_true, hidle, forall_const]
      omega
    · have hforce : (m.applyTimers req).requiredMinRxInForceUs = m.requiredMinRxInForceUs := by
        rw [hmade.requiredMinRxInForceUs,
          applyPendingTimers_of_not (m := m.pend req) (fun hgo => hidle hgo.2)]
        rfl
      rw [hm.timed_iff htimed hw'.steady.positive halike hforce]
      refine iff_of_true (fun _ => rfl) (fun _ => ?_)
      rw [if_pos hup]
      exact fun hidle' => absurd hidle' hidle
  · have hheld := (hm.steady.resting hup).rxHeld
    have hforce : (m.applyTimers req).requiredMinRxInForceUs =
        requestInterval req.requiredMinRxInterval := by
      rw [applyTimers, if_neg hup]
      exact inForce_of_unheld hheld
    rw [hm.timed_iff htimed hw'.steady.positive halike hforce, inForce_of_unheld hheld]
    refine forall_congr' fun _ => ?_
    simp only [hup, if_false]

lemma Watching.timed_revive_iff (htimed : m.Timed) (hw' : m'.Watching) (halike : RxAlike m m')
    (h : (m.adminEnable now).reconfigure req now = some m') :
    m'.Timed ↔ m.KeepsDetection (.revive req now) := by
  have hnot : m.sessionState ≠ .up := by
    intro hup
    rw [adminEnable, hup, if_neg (by decide), reconfigure, if_pos hup] at h
    cases h
  have hheld : (m.adminEnable now).rxRequiredHeld = false := by
    unfold adminEnable
    split_ifs
    · rfl
    · exact (hm.steady.resting hnot).rxHeld
  have hforce : m'.requiredMinRxInForceUs = requestInterval req.requiredMinRxInterval := by
    unfold reconfigure at h
    split_ifs at h
    cases h
    exact inForce_of_unheld hheld
  rw [hm.timed_iff htimed hw'.steady.positive halike hforce, hm.steady.inForce hnot]
  unfold KeepsDetection
  refine forall_congr' fun _ => ?_
  simp only [ne_eq, hnot, not_false_eq_true, forall_const]

lemma Watching.timed_echoTick_iff (htimed : m.Timed) {expired : Bool}
    (hw' : (m.echoTick expired now).Watching) (halike : RxAlike m (m.echoTick expired now)) :
    (m.echoTick expired now).Timed ↔ m.KeepsDetection (.echoTick expired now) := by
  unfold KeepsDetection
  by_cases hrun : m.sessionState ≠ .up ∨ m.echoEnabled = false
  · have hforce : max (m.echoTick expired now).requiredMinRxInForceUs m.remoteDesiredMinTx =
        max m.requiredMinRxInForceUs m.remoteDesiredMinTx := by
      rw [echoTick, if_pos hrun, m.clearEchoSchedule_alike.requiredMinRxInForceUs]
      by_cases hup : m.sessionState = .up
      · by_cases hgo : m.echoSlowdownApplied ∧ m.pollSequenceIdle
        · obtain ⟨-, -, hreq⟩ := (hm.steady.operating hup).settled hgo.2
          have hle : m.configuredRequiredMinRxInterval ≤ m.requiredMinRxInterval := by
            rw [hreq]
            exact Nat.le_max_right _ _
          have hfree := hm.unheld_of_idle hgo.2
          rw [(revertEchoSlowdown_eq hup hgo.1 hgo.2).requiredMinRxInForceUs,
            inForce_of_unheld hfree]
          congr 1
          unfold requiredMinRxInForceUs holdRequiredMinRx
          by_cases hsame : m.requiredMinRxInterval ≤ m.configuredRequiredMinRxInterval
          · simp only [hsame, true_or, or_true, if_true, hfree, Bool.false_eq_true, if_false]
            omega
          · simp only [hup, ne_eq, not_true_eq_false, hsame, hfree, Bool.false_eq_true, or_self,
              if_false, if_true]
        · rw [revertEchoSlowdown_of_not m hup hgo]
      · rw [revertEchoSlowdown, if_pos (hm.steady.resting hup).slowdown]
    rw [hm.timed_iff htimed hw'.steady.positive halike rfl]
    refine iff_of_true (fun _ => hforce) (fun _ hup hecho => ?_)
    rcases hrun with hne | hoff
    · exact absurd hup hne
    · rw [hoff] at hecho
      cases hecho
  · have hup : m.sessionState = .up := not_not.1 (not_or.1 hrun).1
    have hecho : m.echoEnabled := Bool.not_eq_false _ ▸ (not_or.1 hrun).2
    simp only [hup, hecho, forall_const]
    rcases expired with _ | _
    · have hmoved : Alike m.applyEchoSlowdown (m.echoTick false now) := m.echoTick_alike hup hecho
      simp only [Bool.false_eq_true, if_false]
      by_cases hgo : m.echoSlowdownApplied = false ∧ m.pollSequenceIdle
      · have hfree := hm.unheld_of_idle hgo.2
        obtain ⟨-, -, hreq⟩ := (hm.steady.operating hup).settled hgo.2
        have hle : m.requiredMinRxInterval = m.configuredRequiredMinRxInterval := by
          rw [hreq, operatingRequired, slowdownFloor, hgo.1, if_neg Bool.false_ne_true,
            Nat.zero_max]
        have hforce : (m.echoTick false now).requiredMinRxInForceUs =
            max echoSlowdownIntervalUs m.configuredRequiredMinRxInterval := by
          rw [hmoved.requiredMinRxInForceUs, applyEchoSlowdown_eq hgo.1 hgo.2]
          exact inForce_of_unheld hfree
        rw [hm.timed_iff htimed hw'.steady.positive halike hforce, inForce_of_unheld hfree]
        refine forall_congr' fun _ => ?_
        simp only [hgo.1, hgo.2, forall_const]
        omega
      · have hforce : (m.echoTick false now).requiredMinRxInForceUs = m.requiredMinRxInForceUs := by
          rw [hmoved.requiredMinRxInForceUs, applyEchoSlowdown_of_not m hgo]
        rw [hm.timed_iff htimed hw'.steady.positive halike hforce]
        exact iff_of_true (fun _ => rfl) (fun _ hslow hidle => absurd ⟨hslow, hidle⟩ hgo)
    · have hforce : (m.echoTick true now).requiredMinRxInForceUs = m.requiredMinRxInterval := by
        rw [echoTick, if_neg hrun, if_pos rfl, echoFail, if_pos (.inr hup)]
        exact inForce_moveTo (by decide) _ _
      rw [hm.timed_iff htimed hw'.steady.positive halike hforce]
      simp only [if_true]
      exact forall_congr' fun _ => eq_comm

lemma timed_step_iff (htimed : m.Timed) (hoffered : m.Offered op) (h : step m op = some m') :
    m'.Timed ↔ m.KeepsDetection op := by
  by_cases hop : ∃ c now, op = .receive c now
  · obtain ⟨c, now, rfl⟩ := hop
    exact hm.timed_receive_iff htimed hoffered h
  have hop' : ∀ c now, op ≠ .receive c now := fun c now heq => hop ⟨c, now, heq⟩
  have hw' := hm.step hoffered h
  rcases rxAlike_of_step hop' h with ⟨⟨now, rfl⟩, hnone⟩ | halike
  · refine iff_of_true (fun deadline harmed => ?_) trivial
    rw [hnone] at harmed
    cases harmed
  have hstill : m'.requiredMinRxInForceUs = m.requiredMinRxInForceUs → m'.Timed := by
    intro hforce
    rw [hm.timed_iff htimed hw'.steady.positive halike hforce]
    exact fun _ => rfl
  have hmoved : m'.requiredMinRxInForceUs = m.requiredMinRxInterval →
      (m'.Timed ↔ (m.schedule.nextDetectAt ≠ none → m.Unheld)) := by
    intro hforce
    rw [hm.timed_iff htimed hw'.steady.positive halike hforce]
    exact forall_congr' fun _ => eq_comm
  cases op
  case receive c now => exact absurd rfl (hop' c now)
  case applyTimers =>
    cases h
    exact hm.timed_applyTimers_iff htimed hw' halike
  case revive => exact hm.timed_revive_iff htimed hw' halike h
  case echoTick =>
    cases h
    exact hm.timed_echoTick_iff htimed hw' halike
  case adminDown diag now =>
    cases h
    by_cases hdown : m.sessionState = .adminDown
    · have hstay : m.adminDown diag now = m := by rw [adminDown, if_pos hdown]
      rw [hstay]
      exact iff_of_true htimed fun _ => hm.unheld (by rw [hdown]; decide)
    · apply hmoved
      rw [adminDown, if_neg hdown]
      exact inForce_moveTo (by decide : State.adminDown ≠ .up) diag now
  case adminEnable =>
    cases h
    refine iff_of_true ?_ trivial
    by_cases hdown : m.sessionState = .adminDown
    · apply hstill
      rw [adminEnable, if_pos hdown, inForce_moveTo (by decide),
        hm.steady.inForce (by rw [hdown]; decide)]
    · apply hstill
      rw [adminEnable, if_neg hdown]
  case defectDown now =>
    cases h
    by_cases hlive : m.sessionState = .init ∨ m.sessionState = .up
    · apply hmoved
      rw [defectDown, if_pos hlive]
      exact inForce_moveTo (by decide) _ _
    · have hstay : m.defectDown now = m := by rw [defectDown, if_neg hlive]
      rw [hstay]
      exact iff_of_true htimed fun _ => hm.unheld fun hup => hlive (.inr hup)
  case checkDetection now =>
    cases h
    refine iff_of_true ?_ trivial
    rcases m.checkDetection_cases now with hsame | hnone
    · rw [hsame]
      exact htimed
    · intro deadline harmed
      rw [hnone] at harmed
      cases harmed
  case applyEcho =>
    cases h
    refine iff_of_true (hstill ?_) trivial
    unfold applyEcho
    dsimp only
    split_ifs <;> rfl
  all_goals
    cases h
    exact iff_of_true (hstill rfl) trivial

end

/-! ## Every run -/

lemma watching_initial (req : SessionRequest) (localDiscr authType now : ℕ) :
    (initial req localDiscr authType now).Watching :=
  ⟨(Watched.owned_initial req localDiscr authType now).steady, fun hheld => (by cases hheld),
    fun harmed => absurd rfl harmed⟩

/-- Along a run, the deadline of every state that has one is the time of the last accepted packet
and the detection time of that state, iff no step moves the detection time of an armed
deadline. -/
theorem timed_iff_keepsDetection (req : SessionRequest) (localDiscr authType now : ℕ)
    (ops : List Op) (hoffered : Meets step Offered (initial req localDiscr authType now) ops) :
    (∀ pre post m, ops = pre ++ post →
        run step (initial req localDiscr authType now) pre = some m →
        ∀ deadline, m.schedule.nextDetectAt = some deadline →
          ∃ received, m.schedule.lastRxTime = some received ∧
            deadline = received + m.detectionInterval) ↔
      Meets step KeepsDetection (initial req localDiscr authType now) ops := by
  refine reached_iff_meets (I := Watching) (P := Timed) ?_ ?_ ?_ ops _
    (watching_initial req localDiscr authType now) (fun _ harmed => (by cases harmed)) hoffered
  · intro m op m' hm htimed hoff h
    exact timed_step_iff hm htimed hoff h
  · intro m op h
    rcases op with ⟨c, now⟩ | _ | _ | _ | _ | ⟨req, now⟩ | _ | _ | _ | _ | _ | _
    case receive =>
      rw [step_receive] at h
      split_ifs at h
      rcases ht : transition m.sessionState c.state with _ | _ <;> rw [ht] at h <;> cases h
    case revive =>
      intro _ hup
      have hstate : (m.adminEnable now).sessionState = .up := by
        by_contra hne
        rw [step, reconfigure, if_neg hne] at h
        cases h
      unfold adminEnable at hstate
      split_ifs at hstate
      · rw [sessionState_moveTo] at hstate
        cases hstate
      · exact absurd hstate hup
    all_goals cases h
  · exact fun _ _ _ hm hoff h => hm.step hoff h

/-- A session that comes Up, ends the Poll Sequence of its intervals, and is to take a receive
interval of its client.
Source: timers.go ApplyTimers -/
def retimedRun (requiredMinRxUs : ℕ) : List Op :=
  [.receive initPacket 5, .receive Watched.finalPacket 9,
    .receive { Watched.finalPacket with final := false } 10,
    .applyTimers ⟨300000, requiredMinRxUs, 3, 0, false⟩]

/-- A receive interval below the peer's transmit interval leaves the deadline right. -/
theorem timed_below_peer_interval :
    Meets step Offered (initial ⟨300000, 300000, 3, 0, false⟩ 1 0 0) (retimedRun 900000) ∧
      ∀ pre post m, retimedRun 900000 = pre ++ post →
        run step (initial ⟨300000, 300000, 3, 0, false⟩ 1 0 0) pre = some m →
        ∀ deadline, m.schedule.nextDetectAt = some deadline →
          ∃ received, m.schedule.lastRxTime = some received ∧
            deadline = received + m.detectionInterval :=
  ⟨by decide, (timed_iff_keepsDetection ⟨300000, 300000, 3, 0, false⟩ 1 0 0 (retimedRun 900000)
    (by decide)).2 (by decide)⟩

/-- A receive interval of two seconds on a session that is Up is in force at once, and the deadline
stays three seconds after the last packet instead of six. -/
theorem raised_interval_keeps_deadline :
    Meets step Offered (initial ⟨300000, 300000, 3, 0, false⟩ 1 0 0) (retimedRun 2000000) ∧
      ∃ m, run step (initial ⟨300000, 300000, 3, 0, false⟩ 1 0 0) (retimedRun 2000000) = some m ∧
        m.sessionState = .up ∧ m.schedule.lastRxTime = some 10 ∧
        m.schedule.nextDetectAt = some (10 + 3000000000) ∧ m.detectionInterval = 6000000000 :=
  ⟨by decide, _, rfl, rfl, rfl, rfl, rfl⟩

end

end Machine

end Ze.Bfd
