import Ze.Bfd.Polls

/-!
# Held intervals of a BFD session

Outside Up a session may not transmit faster than once a second, and in Up an increase of
`bfd.DesiredMinTxInterval` or a reduction of `bfd.RequiredMinRxInterval` is held until its Poll
Sequence terminates (RFC 5880 Section 6.8.3).
-/

namespace Ze.Bfd

open Ze.Lib

namespace Machine

variable (m : Machine)

/-! ## The invariant -/

/-- Every interval is positive. Source: session.go RequestTimers. -/
structure Positive : Prop where
  desired : 0 < m.desiredMinTxInterval
  required : 0 < m.requiredMinRxInterval
  configuredDesired : 0 < m.configuredDesiredMinTxInterval
  configuredRequired : 0 < m.configuredRequiredMinRxInterval
  txHeld : m.txDesiredHeld = true → 0 < m.txDesiredHeldUs
  rxHeld : m.rxRequiredHeld = true → 0 < m.rxRequiredHeldUs

/-- Outside Up: the slow-start interval, nothing held, nothing waiting, no slow-down. Source:
fsm.go onStateChange. -/
structure Resting : Prop where
  desired : m.desiredMinTxInterval = slowStartIntervalUs
  txHeld : m.txDesiredHeld = false
  rxHeld : m.rxRequiredHeld = false
  pending : m.timersPending = false
  slowdown : m.echoSlowdownApplied = false

/-- In Up: a change waits for a Poll only, and without one that waits the intervals are those of the
configuration. Source: timers.go applyPendingTimersLocked. -/
structure Operating : Prop where
  waits : m.timersPending = true → m.pollSequenceIdle = false
  desired : m.timersPending = false → m.desiredMinTxInterval = m.operatingDesired
  required : m.timersPending = false → m.requiredMinRxInterval = m.operatingRequired

/-- The invariant of a session. Source: session.go Machine. -/
structure Steady : Prop where
  positive : m.Positive
  resting : m.sessionState ≠ .up → m.Resting
  operating : m.sessionState = .up → m.Operating

section

variable {m} {m' : Machine}

lemma Alike.positive (h : Alike m m') (hm : m.Positive) : m'.Positive := by
  obtain ⟨h₁, h₂, h₃, h₄, h₅, h₆⟩ := hm
  constructor
  · rwa [h.desiredMinTxInterval]
  · rwa [h.requiredMinRxInterval]
  · rwa [h.configuredDesired]
  · rwa [h.configuredRequired]
  · rwa [h.txDesiredHeld, h.txDesiredHeldUs]
  · rwa [h.rxRequiredHeld, h.rxRequiredHeldUs]

lemma Alike.resting (h : Alike m m') (hm : m.Resting) : m'.Resting := by
  obtain ⟨h₁, h₂, h₃, h₄, h₅⟩ := hm
  constructor
  · rwa [h.desiredMinTxInterval]
  · rwa [h.txDesiredHeld]
  · rwa [h.rxRequiredHeld]
  · rwa [h.timersPending]
  · rwa [h.echoSlowdownApplied]

lemma Alike.operating (h : Alike m m') (hm : m.Operating) : m'.Operating := by
  obtain ⟨h₁, h₂, h₃⟩ := hm
  constructor
  · rwa [h.timersPending, h.pollSequenceIdle]
  · rwa [h.timersPending, h.desiredMinTxInterval, h.operatingDesired]
  · rwa [h.timersPending, h.requiredMinRxInterval, h.operatingRequired]

lemma Alike.steady (h : Alike m m') (hm : m.Steady) : m'.Steady := by
  refine ⟨h.positive hm.positive, ?_, ?_⟩
  · rw [h.sessionState]
    exact fun hs => h.resting (hm.resting hs)
  · rw [h.sessionState]
    exact fun hs => h.operating (hm.operating hs)

end

/-! ## Positive intervals -/

lemma requestInterval_pos (us : ℕ) : 0 < requestInterval us := by
  unfold requestInterval slowStartIntervalUs
  split_ifs <;> omega

variable {m}

variable {d r a b : ℕ} {c : Control}

section

variable (h : m.Positive)
include h

lemma Positive.changeIntervals (hd : 0 < d) (hr : 0 < r) : (m.changeIntervals d r).Positive := by
  obtain ⟨h₁, h₂, h₃, h₄, h₅, h₆⟩ := h
  rw [changeIntervals_eq]
  refine ⟨hd, hr, h₃, h₄, ?_, ?_⟩
  · unfold holdDesiredMinTx
    split_ifs
    · exact h₅
    · exact fun _ => h₁
  · unfold holdRequiredMinRx
    split_ifs
    · exact h₆
    · exact fun _ => h₂

lemma Positive.operatingDesired : 0 < m.operatingDesired :=
  Nat.lt_of_lt_of_le h.configuredDesired (Nat.le_max_right _ _)

lemma Positive.operatingRequired : 0 < m.operatingRequired :=
  Nat.lt_of_lt_of_le h.configuredRequired (Nat.le_max_right _ _)

lemma Positive.applyPendingTimers : m.applyPendingTimers.Positive := by
  have hset : { m with timersPending := false }.Positive := by
    obtain ⟨h₁, h₂, h₃, h₄, h₅, h₆⟩ := h
    exact ⟨h₁, h₂, h₃, h₄, h₅, h₆⟩
  rw [applyPendingTimers_eq]
  split_ifs
  · exact h
  · exact hset
  · have hchange := hset.changeIntervals h.operatingDesired h.operatingRequired
    obtain ⟨h₁, h₂, h₃, h₄, h₅, h₆⟩ := hchange
    exact ⟨h₁, h₂, h₃, h₄, h₅, h₆⟩

lemma Positive.enterUp : m.enterUp.Positive := by
  unfold Machine.enterUp
  split_ifs
  · exact h.changeIntervals h.configuredDesired h.configuredRequired
  · exact h

lemma Positive.takenIn (op : Op) : (m.takenIn op).Positive := by
  rcases takenIn_cases m op with heq | ⟨c, now, rfl, hc⟩
  · rwa [heq]
  · apply (takenIn_receive m now hc).positive
    obtain ⟨h₁, h₂, h₃, h₄, h₅, h₆⟩ := h
    refine ⟨h₁, h₂, h₃, h₄, fun hheld => h₅ ?_, fun hheld => h₆ ?_⟩
    · exact (Bool.and_eq_true_iff.1 hheld).1
    · exact (Bool.and_eq_true_iff.1 hheld).1

lemma Positive.accept (now : ℕ) (hc : ¬ m.Discards c) : (m.accept c now).Positive := by
  by_cases hup : m.sessionState = .up
  · exact (accept_of_up m now hc hup).positive (h.takenIn _).applyPendingTimers
  · exact (accept_of_not_up m now hc hup).positive (h.takenIn _)

lemma Positive.scheduled (s : Schedule) : { m with schedule := s }.Positive := by
  obtain ⟨h₁, h₂, h₃, h₄, h₅, h₆⟩ := h
  exact ⟨h₁, h₂, h₃, h₄, h₅, h₆⟩

end

/-! ## Each operation keeps the invariant -/

lemma ne_up_of_enters (h : transition m.sessionState c.state = some (.up, .none)) :
    m.sessionState ≠ .up := by
  intro hup
  rw [hup] at h
  rcases hc : c.state <;> rw [hc] at h <;> cases h

lemma steady_moveTo (h : m.Positive) {state : State} (hstate : state ≠ .up) (diag : Diag)
    (now : ℕ) :
    (m.moveTo state diag now).Steady := by
  have halike : Alike ({ m with sessionState := state, localDiag := diag }.leaveUp m.sessionState)
      (m.moveTo state diag now) := by
    unfold moveTo onStateChange
    simp only [hstate, if_false]
    constructor <;> rfl
  apply halike.steady
  refine ⟨?_, fun _ => ⟨rfl, rfl, rfl, rfl, rfl⟩, fun hup => absurd hup hstate⟩
  obtain ⟨h₁, h₂, h₃, h₄, h₅, h₆⟩ := h
  have hslow : 0 < slowStartIntervalUs := by decide
  refine ⟨hslow, h₂, h₃, h₄, fun hheld => ?_, fun hheld => ?_⟩
  · cases hheld
  · cases hheld

lemma sessionState_applyPendingTimers : m.applyPendingTimers.sessionState = m.sessionState := by
  rw [applyPendingTimers_eq]
  split_ifs
  · rfl
  · rfl
  · rw [changeIntervals_eq]
    rfl

lemma steady_applyPendingTimers (h : m.Positive) (hup : m.sessionState = .up)
    (hdesired : m.timersPending = false → m.desiredMinTxInterval = m.operatingDesired)
    (hrequired : m.timersPending = false → m.requiredMinRxInterval = m.operatingRequired) :
    m.applyPendingTimers.Steady := by
  have hstate : m.applyPendingTimers.sessionState = .up :=
    sessionState_applyPendingTimers.trans hup
  refine ⟨h.applyPendingTimers, fun hne => absurd hstate hne, fun _ => ?_⟩
  rw [applyPendingTimers_eq]
  split_ifs with hwait hsame
  · refine ⟨fun hp => ?_, hdesired, hrequired⟩
    rw [hp] at hwait
    exact hwait.resolve_left (by decide)
  · exact ⟨fun hp => (by cases hp), fun _ => hsame.1.symm, fun _ => hsame.2.symm⟩
  · rw [changeIntervals_eq]
    exact ⟨fun hp => (by cases hp), fun _ => rfl, fun _ => rfl⟩

lemma steady_enterUp (h : m.Positive) (hpending : m.timersPending = false)
    (hslow : m.echoSlowdownApplied = false) : m.inUp.enterUp.Steady := by
  have hfloor : m.slowdownFloor = 0 := by rw [slowdownFloor, hslow, if_neg Bool.false_ne_true]
  have hd : m.operatingDesired = m.configuredDesiredMinTxInterval := by
    rw [operatingDesired, hfloor, Nat.zero_max]
  have hr : m.operatingRequired = m.configuredRequiredMinRxInterval := by
    rw [operatingRequired, hfloor, Nat.zero_max]
  have hin : m.inUp.Positive := by
    obtain ⟨h₁, h₂, h₃, h₄, h₅, h₆⟩ := h
    exact ⟨h₁, h₂, h₃, h₄, h₅, h₆⟩
  have hstate : m.inUp.enterUp.sessionState = .up := by
    unfold enterUp
    split_ifs
    · rw [changeIntervals_eq]
      rfl
    · rfl
  refine ⟨hin.enterUp, fun hne => absurd hstate hne, fun _ => ?_⟩
  unfold enterUp
  split_ifs with hne
  · rw [changeIntervals_eq]
    refine ⟨fun hp => ?_, fun _ => hd.symm, fun _ => hr.symm⟩
    have hp' : m.timersPending := hp
    rw [hpending] at hp'
    cases hp'
  · obtain ⟨hd', hr'⟩ := not_or.1 hne
    refine ⟨fun hp => ?_, fun _ => (not_not.1 hd').trans hd.symm, fun _ =>
      (not_not.1 hr').trans hr.symm⟩
    have hp' : m.timersPending := hp
    rw [hpending] at hp'
    cases hp'

lemma Operating.settled (h : m.Operating) (hidle : m.pollSequenceIdle) :
    m.timersPending = false ∧ m.desiredMinTxInterval = m.operatingDesired ∧
      m.requiredMinRxInterval = m.operatingRequired := by
  rcases hp : m.timersPending with _ | _
  · exact ⟨rfl, h.desired hp, h.required hp⟩
  · rw [h.waits hp] at hidle
    cases hidle

lemma applyEchoSlowdown_eq (hslow : m.echoSlowdownApplied = false)
    (hidle : m.pollSequenceIdle) : m.applyEchoSlowdown = { m with
      echoSlowdownApplied := true
      txDesiredHeld :=
        (m.holdDesiredMinTx (max echoSlowdownIntervalUs
          m.configuredDesiredMinTxInterval)).txDesiredHeld
      txDesiredHeldUs :=
        (m.holdDesiredMinTx (max echoSlowdownIntervalUs
          m.configuredDesiredMinTxInterval)).txDesiredHeldUs
      desiredMinTxInterval := max echoSlowdownIntervalUs m.configuredDesiredMinTxInterval
      requiredMinRxInterval := max echoSlowdownIntervalUs m.configuredRequiredMinRxInterval
      pollOutstanding := true } := by
  rw [applyEchoSlowdown, hslow, hidle, if_neg (by decide)]
  simp only [holdDesiredMinTx]
  split_ifs <;> rfl

lemma revertEchoSlowdown_eq (hup : m.sessionState = .up) (hslow : m.echoSlowdownApplied)
    (hidle : m.pollSequenceIdle) : Alike { m with
      echoSlowdownApplied := false
      rxRequiredHeld := (m.holdRequiredMinRx m.configuredRequiredMinRxInterval).rxRequiredHeld
      rxRequiredHeldUs := (m.holdRequiredMinRx m.configuredRequiredMinRxInterval).rxRequiredHeldUs
      desiredMinTxInterval := m.configuredDesiredMinTxInterval
      requiredMinRxInterval := m.configuredRequiredMinRxInterval
      pollOutstanding := true } m.revertEchoSlowdown := by
  have hgo : ¬ (m.sessionState = .up ∧ m.pollSequenceIdle = false) := by simp [hidle]
  rw [revertEchoSlowdown, if_neg (by simp [hslow]), if_neg hgo]
  unfold holdRequiredMinRx
  split_ifs <;> constructor <;> rfl

lemma Steady.applyEchoSlowdown (h : m.Steady) (hup : m.sessionState = .up) :
    m.applyEchoSlowdown.Steady := by
  by_cases hgo : m.echoSlowdownApplied = false ∧ m.pollSequenceIdle
  · obtain ⟨hslow, hidle⟩ := hgo
    obtain ⟨hpending, -, -⟩ := (h.operating hup).settled hidle
    obtain ⟨h₁, h₂, h₃, h₄, h₅, h₆⟩ := h.positive
    rw [applyEchoSlowdown_eq hslow hidle]
    refine ⟨⟨?_, ?_, h₃, h₄, ?_, h₆⟩, fun hne => absurd hup hne, fun _ => ⟨fun hp => ?_, fun _ =>
      rfl, fun _ => rfl⟩⟩
    · exact Nat.lt_of_lt_of_le h₃ (Nat.le_max_right _ _)
    · exact Nat.lt_of_lt_of_le h₄ (Nat.le_max_right _ _)
    · unfold holdDesiredMinTx
      split_ifs
      · exact h₅
      · exact fun _ => h₁
    · have hp' : m.timersPending := hp
      rw [hpending] at hp'
      cases hp'
  · rw [applyEchoSlowdown_of_not m hgo]
    exact h

lemma Steady.revertEchoSlowdown (h : m.Steady) (hup : m.sessionState = .up) :
    m.revertEchoSlowdown.Steady := by
  by_cases hgo : m.echoSlowdownApplied ∧ m.pollSequenceIdle
  · obtain ⟨hslow, hidle⟩ := hgo
    obtain ⟨hpending, -, -⟩ := (h.operating hup).settled hidle
    obtain ⟨h₁, h₂, h₃, h₄, h₅, h₆⟩ := h.positive
    apply (revertEchoSlowdown_eq hup hslow hidle).steady
    refine ⟨⟨h₃, h₄, h₃, h₄, h₅, ?_⟩, fun hne => absurd hup hne, fun _ => ⟨fun hp => ?_, fun _ =>
      ?_, fun _ => ?_⟩⟩
    · unfold holdRequiredMinRx
      split_ifs
      · exact h₆
      · exact fun _ => h₂
    · have hp' : m.timersPending := hp
      rw [hpending] at hp'
      cases hp'
    · exact (Nat.zero_max _).symm
    · exact (Nat.zero_max _).symm
  · rw [revertEchoSlowdown_of_not m hup hgo]
    exact h

variable {m' : Machine} {op : Op}

lemma UpStep.steady (hm : m.Steady) (h : m.UpStep op m') : m'.Steady := by
  rcases h with ⟨-, halike⟩ | ⟨hc, hup, halike⟩ | ⟨hc, henters, halike⟩ | ⟨hup, halike⟩ |
    ⟨hup, halike⟩ | ⟨hup, halike⟩
  · exact halike.steady hm
  · have htaken := takenIn_receive m ‹_› hc
    have hoperating := hm.operating hup
    apply halike.steady
    apply steady_applyPendingTimers (hm.positive.takenIn _) (htaken.sessionState.trans hup)
    · intro hpending
      rw [htaken.timersPending] at hpending
      rw [htaken.desiredMinTxInterval, htaken.operatingDesired]
      exact hoperating.desired hpending
    · intro hpending
      rw [htaken.timersPending] at hpending
      rw [htaken.requiredMinRxInterval, htaken.operatingRequired]
      exact hoperating.required hpending
  · have htaken := takenIn_receive m ‹_› hc
    have hrest := hm.resting (ne_up_of_enters henters)
    apply halike.steady
    apply steady_enterUp (hm.positive.takenIn _)
    · rw [htaken.timersPending]
      exact hrest.pending
    · rw [htaken.echoSlowdownApplied]
      exact hrest.slowdown
  · obtain ⟨h₁, h₂, h₃, h₄, h₅, h₆⟩ := hm.positive
    apply halike.steady
    refine steady_applyPendingTimers (m := m.pend _) ?_ hup (fun hp => ?_) (fun hp => ?_)
    · exact ⟨h₁, h₂, requestInterval_pos _, requestInterval_pos _, h₅, h₆⟩
    · cases hp
    · cases hp
  · exact halike.steady (hm.applyEchoSlowdown hup)
  · exact halike.steady (hm.revertEchoSlowdown hup)

lemma Steady.configured (hm : m.Steady) (hup : m.sessionState ≠ .up) (d r : ℕ) (poll : Bool)
    (h : Alike { m with
      configuredDesiredMinTxInterval := requestInterval d
      configuredRequiredMinRxInterval := requestInterval r
      requiredMinRxInterval := requestInterval r
      pollOutstanding := poll } m') : m'.Steady := by
  obtain ⟨h₁, h₂, h₃, h₄, h₅, h₆⟩ := hm.positive
  obtain ⟨r₁, r₂, r₃, r₄, r₅⟩ := hm.resting hup
  apply h.steady
  exact ⟨⟨h₁, requestInterval_pos _, requestInterval_pos _, requestInterval_pos _, h₅, h₆⟩,
    fun _ => ⟨r₁, r₂, r₃, r₄, r₅⟩, fun hup' => absurd hup' hup⟩

lemma Steady.receive (hm : m.Steady) {now : ℕ}
    (h : step m (.receive c now) = some m') : m'.Steady := by
  by_cases hup : m'.sessionState = .up
  · exact (upStep_receive h hup).steady hm
  rw [step_receive] at h
  by_cases hc : m.Discards c
  · rw [if_pos hc, Option.some.injEq] at h
    exact h ▸ hm
  rw [if_neg hc] at h
  rcases ht : transition m.sessionState c.state with _ | ⟨state, diag⟩ <;> rw [ht] at h
  · cases h
    have htaken := takenIn_receive m now hc
    have hm' : m.sessionState ≠ .up := by
      intro hup'
      rw [(accept_of_up m now hc hup').sessionState, sessionState_applyPendingTimers,
        htaken.sessionState] at hup
      exact hup hup'
    have halike := accept_of_not_up m now hc hm'
    apply halike.steady
    have hrest := hm.resting hm'
    refine ⟨hm.positive.takenIn _, fun _ => htaken.resting ?_, fun hup' => ?_⟩
    · obtain ⟨h₁, h₂, h₃, h₄, h₅⟩ := hrest
      refine ⟨h₁, ?_, ?_, h₄, h₅⟩
      · simp only [h₂, Bool.false_and]
      · simp only [h₃, Bool.false_and]
    · rw [htaken.sessionState] at hup'
      exact absurd hup' hm'
  · cases h
    rw [sessionState_moveTo] at hup
    exact steady_moveTo (hm.positive.accept now hc) hup _ _

lemma Steady.step (hm : m.Steady) (h : step m op = some m') : m'.Steady := by
  by_cases hup : m'.sessionState = .up
  · exact (upStep_of_step h hup).steady hm
  cases op
  case receive => exact hm.receive h
  case applyTimers req =>
    cases h
    by_cases hm' : m.sessionState = .up
    · rw [applyTimers, if_pos hm', sessionState_applyPendingTimers] at hup
      exact absurd hm' hup
    · rw [applyTimers, if_neg hm']
      exact hm.configured hm' req.desiredMinTxInterval req.requiredMinRxInterval _
        (by constructor <;> rfl)
  case revive req now =>
    have henabled : (m.adminEnable now).Steady := by
      unfold adminEnable
      split_ifs
      · exact steady_moveTo hm.positive (by decide) _ _
      · exact hm
    rw [Bfd.step, reconfigure] at h
    split_ifs at h with hm'
    cases h
    exact henabled.configured hm' req.desiredMinTxInterval req.requiredMinRxInterval _
      (by constructor <;> rfl)
  case echoTick expired now =>
    cases h
    by_cases hcond : m.sessionState ≠ .up ∨ m.echoEnabled = false
    · rw [echoTick, if_pos hcond] at hup ⊢
      apply m.clearEchoSchedule_alike.steady
      by_cases hm' : m.sessionState = .up
      · exact hm.revertEchoSlowdown hm'
      · rw [Machine.revertEchoSlowdown, if_pos (hm.resting hm').slowdown]
        exact hm
    · obtain ⟨hm', hecho⟩ := not_or.1 hcond
      rw [not_not] at hm'
      rw [Bool.not_eq_false] at hecho
      rcases expired with _ | _
      · exact (m.echoTick_alike hm' hecho).steady (hm.applyEchoSlowdown hm')
      · rw [echoTick, if_neg hcond, if_pos rfl, echoFail, if_pos (.inr hm')]
        exact steady_moveTo (hm.positive.scheduled _) (by decide) _ _
  case checkDetection =>
    cases h
    unfold checkDetection
    rcases m.schedule.nextDetectAt with _ | deadline
    · exact hm
    · simp only
      split_ifs
      · exact hm
      · exact steady_moveTo (hm.positive.scheduled _) (by decide) _ _
      all_goals
        refine Alike.steady ?_ hm
        constructor <;> rfl
  case adminDown diag now =>
    cases h
    unfold adminDown
    split_ifs
    · exact hm
    · refine Alike.steady ?_ (steady_moveTo hm.positive
        (by decide : State.adminDown ≠ .up) diag now)
      constructor <;> rfl
  case adminEnable =>
    cases h
    unfold adminEnable
    split_ifs
    · exact steady_moveTo hm.positive (by decide) _ _
    · exact hm
  case defectDown =>
    cases h
    unfold defectDown
    split_ifs
    · exact steady_moveTo hm.positive (by decide) _ _
    · exact hm
  case applyEcho =>
    cases h
    refine Alike.steady ?_ hm
    unfold applyEcho
    simp only
    split_ifs <;> constructor <;> rfl
  all_goals
    cases h
    refine Alike.steady ?_ hm
    constructor <;> rfl

/-! ## Intervals in force -/

/-- Neither interval in force moves the way that needs a Poll. Source: timers.go
desiredMinTxInForceUs, requiredMinRxInForceUs. -/
structure Prompt (m m' : Machine) : Prop where
  desired : m'.desiredMinTxInForceUs ≤ m.desiredMinTxInForceUs
  required : m.requiredMinRxInForceUs ≤ m'.requiredMinRxInForceUs

lemma Alike.desiredMinTxInForceUs (h : Alike m m') :
    m'.desiredMinTxInForceUs = m.desiredMinTxInForceUs := by
  rw [Machine.desiredMinTxInForceUs, Machine.desiredMinTxInForceUs, h.txDesiredHeld,
    h.txDesiredHeldUs, h.desiredMinTxInterval]

lemma Alike.requiredMinRxInForceUs (h : Alike m m') :
    m'.requiredMinRxInForceUs = m.requiredMinRxInForceUs := by
  rw [Machine.requiredMinRxInForceUs, Machine.requiredMinRxInForceUs, h.rxRequiredHeld,
    h.rxRequiredHeldUs, h.requiredMinRxInterval]

lemma Alike.prompt {n : Machine} (h : Alike m m') (hn : Prompt n m) : Prompt n m' :=
  ⟨h.desiredMinTxInForceUs ▸ hn.desired, h.requiredMinRxInForceUs ▸ hn.required⟩

lemma holdDesiredMinTx_inForce (hup : m.sessionState = .up) (us : ℕ) :
    (if (m.holdDesiredMinTx us).txDesiredHeld then (m.holdDesiredMinTx us).txDesiredHeldUs
      else us) ≤
      m.desiredMinTxInForceUs := by
  unfold holdDesiredMinTx desiredMinTxInForceUs
  rcases hh : m.txDesiredHeld with _ | _
  · by_cases hle : us ≤ m.desiredMinTxInterval
    · simp [hup, hle, hh]
    · simp [hup, hle]
  · simp [hh]

lemma holdRequiredMinRx_inForce (hup : m.sessionState = .up) (us : ℕ) :
    m.requiredMinRxInForceUs ≤ if (m.holdRequiredMinRx us).rxRequiredHeld then
      (m.holdRequiredMinRx us).rxRequiredHeldUs else us := by
  unfold holdRequiredMinRx requiredMinRxInForceUs
  rcases hh : m.rxRequiredHeld with _ | _
  · by_cases hle : m.requiredMinRxInterval ≤ us
    · simp [hup, hle, hh]
    · simp [hup, hle]
  · simp [hh]

lemma prompt_changeIntervals (hup : m.sessionState = .up) (d r : ℕ) :
    Prompt m (m.changeIntervals d r) := by
  rw [changeIntervals_eq]
  exact ⟨holdDesiredMinTx_inForce hup d, holdRequiredMinRx_inForce hup r⟩

lemma prompt_applyPendingTimers (hup : m.sessionState = .up) : Prompt m m.applyPendingTimers := by
  rw [applyPendingTimers_eq]
  split_ifs
  · exact ⟨Nat.le_refl _, Nat.le_refl _⟩
  · exact ⟨Nat.le_refl _, Nat.le_refl _⟩
  · obtain ⟨hd, hr⟩ := prompt_changeIntervals (m := { m with timersPending := false }) hup
      m.operatingDesired m.operatingRequired
    exact ⟨hd, hr⟩

lemma prompt_applyEchoSlowdown (hm : m.Steady) (hup : m.sessionState = .up) :
    Prompt m m.applyEchoSlowdown := by
  by_cases hgo : m.echoSlowdownApplied = false ∧ m.pollSequenceIdle
  · obtain ⟨hslow, hidle⟩ := hgo
    obtain ⟨-, -, hrequired⟩ := (hm.operating hup).settled hidle
    have hgrows : m.requiredMinRxInterval ≤
        max echoSlowdownIntervalUs m.configuredRequiredMinRxInterval := by
      rw [hrequired, operatingRequired, slowdownFloor, hslow, if_neg Bool.false_ne_true,
        Nat.zero_max]
      exact Nat.le_max_right _ _
    rw [applyEchoSlowdown_eq hslow hidle]
    refine ⟨holdDesiredMinTx_inForce hup _, ?_⟩
    simp only [requiredMinRxInForceUs]
    split_ifs
    · exact Nat.le_refl _
    · exact hgrows
  · rw [applyEchoSlowdown_of_not m hgo]
    exact ⟨Nat.le_refl _, Nat.le_refl _⟩

lemma prompt_revertEchoSlowdown (hm : m.Steady) (hup : m.sessionState = .up) :
    Prompt m m.revertEchoSlowdown := by
  by_cases hgo : m.echoSlowdownApplied ∧ m.pollSequenceIdle
  · obtain ⟨hslow, hidle⟩ := hgo
    obtain ⟨-, hdesired, -⟩ := (hm.operating hup).settled hidle
    have hshrinks : m.configuredDesiredMinTxInterval ≤ m.desiredMinTxInterval := by
      rw [hdesired, operatingDesired]
      exact Nat.le_max_right _ _
    apply (revertEchoSlowdown_eq hup hslow hidle).prompt
    refine ⟨?_, holdRequiredMinRx_inForce hup _⟩
    simp only [desiredMinTxInForceUs]
    split_ifs
    · exact Nat.le_refl _
    · exact hshrinks
  · rw [revertEchoSlowdown_of_not m hup hgo]
    exact ⟨Nat.le_refl _, Nat.le_refl _⟩

lemma UpStep.prompt (hm : m.Steady) (h : m.UpStep op m') : Prompt (m.takenIn op) m' := by
  rcases h with ⟨htaken, halike⟩ | ⟨hc, hup, halike⟩ | ⟨hc, henters, halike⟩ | ⟨hup, halike⟩ |
    ⟨hup, halike⟩ | ⟨hup, halike⟩
  · rw [htaken]
    exact halike.prompt ⟨Nat.le_refl _, Nat.le_refl _⟩
  · apply halike.prompt
    exact prompt_applyPendingTimers ((takenIn_receive m _ hc).sessionState.trans hup)
  · apply halike.prompt
    unfold enterUp
    split_ifs
    · obtain ⟨hd, hr⟩ := prompt_changeIntervals (m := (m.takenIn _).inUp) rfl _ _
      exact ⟨hd, hr⟩
    · exact ⟨Nat.le_refl _, Nat.le_refl _⟩
  · apply halike.prompt
    obtain ⟨hd, hr⟩ := prompt_applyPendingTimers (m := m.pend _) hup
    exact ⟨hd, hr⟩
  · exact halike.prompt (prompt_applyEchoSlowdown hm hup)
  · exact halike.prompt (prompt_revertEchoSlowdown hm hup)

lemma Positive.desiredInForce (h : m.Positive) : 0 < m.desiredMinTxInForceUs := by
  unfold desiredMinTxInForceUs
  split_ifs with hheld
  · exact h.txHeld hheld
  · exact h.desired

lemma Positive.requiredInForce (h : m.Positive) : 0 < m.requiredMinRxInForceUs := by
  unfold requiredMinRxInForceUs
  split_ifs with hheld
  · exact h.rxHeld hheld
  · exact h.required

lemma transmitIntervalOf_le (remote : ℕ) (hb : 0 < b) (hle : b ≤ a) :
    transmitIntervalOf b remote ≤ transmitIntervalOf a remote := by
  have hmax : max b remote ≤ max a remote := by omega
  rw [transmitIntervalOf, transmitIntervalOf, if_neg (by omega), if_neg (by omega)]
  exact Nat.mul_le_mul_right _ hmax

lemma detectionIntervalOf_le (remote mult : ℕ) (ha : 0 < a) (hle : a ≤ b) :
    detectionIntervalOf a remote mult ≤ detectionIntervalOf b remote mult := by
  have hmax : max a remote ≤ max b remote := by omega
  rw [detectionIntervalOf, detectionIntervalOf, if_neg (by omega), if_neg (by omega)]
  exact Nat.mul_le_mul_right _ (Nat.mul_le_mul_left _ hmax)

/-! ## Holds and their Polls -/

/-- The Final bit of a packet ends the Poll in flight. Source: fsm.go Receive. -/
def EndsPoll (m : Machine) : Op → Prop
  | .receive c _ => ¬ m.Discards c ∧ c.final = true ∧ m.pollOutstanding = true
  | _ => False

/-- A packet that takes the session Up while a configured interval has to be held finds no Poll
outstanding, and none settling unless its Final bit is clear. Source: fsm.go onStateChange. -/
def HoldsFromIdle (m : Machine) : Op → Prop
  | .receive c _ => ¬ m.Discards c → transition m.sessionState c.state = some (.up, .none) →
      m.desiredMinTxInterval < m.configuredDesiredMinTxInterval ∨
        m.configuredRequiredMinRxInterval < m.requiredMinRxInterval →
      m.pollOutstanding = false ∧ (c.final = true → m.pollSettling = false)
  | _ => True

lemma desiredInForce_takenIn (h : m.txDesiredHeld → ¬ m.EndsPoll op) :
    (m.takenIn op).desiredMinTxInForceUs = m.desiredMinTxInForceUs := by
  rcases takenIn_cases m op with heq | ⟨c, now, rfl, hc⟩
  · rw [heq]
  · rw [(takenIn_receive m now hc).desiredMinTxInForceUs]
    simp only [desiredMinTxInForceUs]
    rcases hheld : m.txDesiredHeld with _ | _
    · simp
    · have hnot := h hheld
      rcases hf : c.final <;> rcases hp : m.pollOutstanding <;>
        simp [EndsPoll, hc, hf, hp] at hnot ⊢

lemma requiredInForce_takenIn (h : m.rxRequiredHeld → ¬ m.EndsPoll op) :
    (m.takenIn op).requiredMinRxInForceUs = m.requiredMinRxInForceUs := by
  rcases takenIn_cases m op with heq | ⟨c, now, rfl, hc⟩
  · rw [heq]
  · rw [(takenIn_receive m now hc).requiredMinRxInForceUs]
    simp only [requiredMinRxInForceUs]
    rcases hheld : m.rxRequiredHeld with _ | _
    · simp
    · have hnot := h hheld
      rcases hf : c.final <;> rcases hp : m.pollOutstanding <;>
        simp [EndsPoll, hc, hf, hp] at hnot ⊢

lemma txDesiredHeld_of_takenIn (h : (m.takenIn op).txDesiredHeld) : m.txDesiredHeld := by
  rcases takenIn_cases m op with heq | ⟨c, now, rfl, hc⟩
  · rwa [heq] at h
  · rw [(takenIn_receive m now hc).txDesiredHeld] at h
    exact (Bool.and_eq_true_iff.1 h).1

lemma rxRequiredHeld_of_takenIn (h : (m.takenIn op).rxRequiredHeld) : m.rxRequiredHeld := by
  rcases takenIn_cases m op with heq | ⟨c, now, rfl, hc⟩
  · rwa [heq] at h
  · rw [(takenIn_receive m now hc).rxRequiredHeld] at h
    exact (Bool.and_eq_true_iff.1 h).1

lemma moves_of_newly_held
    (h : ((m.changeIntervals d r).txDesiredHeld ∧ m.txDesiredHeld = false) ∨
      ((m.changeIntervals d r).rxRequiredHeld ∧ m.rxRequiredHeld = false)) :
    m.desiredMinTxInterval < d ∨ r < m.requiredMinRxInterval := by
  rw [changeIntervals_eq] at h
  unfold holdDesiredMinTx holdRequiredMinRx at h
  by_contra hnot
  obtain ⟨hd, hr⟩ := not_or.1 hnot
  rw [if_pos (.inr (.inl (Nat.le_of_not_lt hd))), if_pos (.inr (.inl (Nat.le_of_not_lt hr)))] at h
  rcases h with ⟨hheld, hnot⟩ | ⟨hheld, hnot⟩
  · exact absurd (hheld.symm.trans hnot) (by decide)
  · exact absurd (hheld.symm.trans hnot) (by decide)

lemma UpStep.idle_of_newly_held (h : m.UpStep op m') (hcond : m.HoldsFromIdle op)
    (hheld : (m'.txDesiredHeld ∧ (m.takenIn op).txDesiredHeld = false) ∨
      (m'.rxRequiredHeld ∧ (m.takenIn op).rxRequiredHeld = false)) :
    (m.takenIn op).pollSequenceIdle := by
  have hsame : ∀ {n : Machine}, Alike n m' → n.txDesiredHeld = (m.takenIn op).txDesiredHeld →
      n.rxRequiredHeld = (m.takenIn op).rxRequiredHeld → False := by
    intro n halike htx hrx
    rw [halike.txDesiredHeld, halike.rxRequiredHeld, htx, hrx] at hheld
    rcases hheld with ⟨hheld, hnot⟩ | ⟨hheld, hnot⟩
    · exact absurd (hheld.symm.trans hnot) (by decide)
    · exact absurd (hheld.symm.trans hnot) (by decide)
  rcases hbusy : (m.takenIn op).pollSequenceIdle with _ | _
  · exfalso
    have hnot : ¬ (m.takenIn op).pollSequenceIdle := by
      rw [hbusy]
      exact Bool.false_ne_true
    rcases h with ⟨htaken, halike⟩ | ⟨hc, hup, halike⟩ | ⟨hc, henters, halike⟩ | ⟨hup, halike⟩ |
      ⟨hup, halike⟩ | ⟨hup, halike⟩
    · exact hsame halike (by rw [htaken]) (by rw [htaken])
    · rw [applyPendingTimers_of_busy _ hbusy] at halike
      exact hsame halike rfl rfl
    · have htaken := takenIn_receive m ‹_› hc
      rw [pollSequenceIdle_takenIn m _ hc] at hnot
      refine hnot (hcond hc henters ?_)
      unfold enterUp at halike
      split_ifs at halike
      · rw [halike.txDesiredHeld, halike.rxRequiredHeld] at hheld
        have hmoves := moves_of_newly_held (m := (m.takenIn _).inUp) hheld
        simp only [inUp, htaken.desiredMinTxInterval, htaken.requiredMinRxInterval,
          htaken.configuredDesired, htaken.configuredRequired] at hmoves
        exact hmoves
      · exact absurd (hsame halike rfl rfl) not_false
    · rw [applyPendingTimers_of_busy (m.pend _) hbusy] at halike
      exact hsame halike rfl rfl
    · rw [applyEchoSlowdown_of_not m (hnot ·.2)] at halike
      exact hsame halike rfl rfl
    · rw [revertEchoSlowdown_of_not m hup (hnot ·.2)] at halike
      exact hsame halike rfl rfl
  · rfl

end Machine

/-! ## Runs -/

/-- A session, and for each hold whether the Poll Sequence in flight began with it, on an idle Poll
state. Source: session.go Machine; the record is of the proof. -/
structure Watched where
  machine : Machine
  txOwn : Bool
  rxOwn : Bool

namespace Watched

/-- A new session. Source: session.go Init. -/
def initial (req : SessionRequest) (localDiscr authType now : ℕ) : Watched where
  machine := Machine.initial req localDiscr authType now
  txOwn := false
  rxOwn := false

/-- One step, which records of a hold that begins whether the Poll Sequence was idle. Source:
internal/component/bfd/engine. -/
def step (w : Watched) (op : Op) : Option Watched :=
  (Bfd.step w.machine op).map fun m' =>
    let taken := w.machine.takenIn op
    { machine := m'
      txOwn :=
        if m'.txDesiredHeld && !taken.txDesiredHeld then taken.pollSequenceIdle else w.txOwn
      rxOwn :=
        if m'.rxRequiredHeld && !taken.rxRequiredHeld then taken.pollSequenceIdle else w.rxOwn }

/-- In Up, the local interval lengthens the transmit interval, or shortens the detection time, only
at the Final that ends the Poll Sequence of the change. Source: timers.go TransmitInterval,
DetectionInterval. -/
def HoldRule (w : Watched) (op : Op) : Prop :=
  ∀ m', Bfd.step w.machine op = some m' → m'.sessionState = .up →
    (Machine.transmitIntervalOf w.machine.desiredMinTxInForceUs m'.remoteMinRxInterval <
        m'.transmitInterval → w.machine.EndsPoll op ∧ w.txOwn = true) ∧
    (m'.detectionInterval < Machine.detectionIntervalOf w.machine.requiredMinRxInForceUs
        m'.remoteDesiredMinTx m'.detectionMult → w.machine.EndsPoll op ∧ w.rxOwn = true)

/-- The invariant of a run: a steady session, whose holds began on an idle Poll state. Source:
session.go Machine. -/
structure Owned (w : Watched) : Prop where
  steady : w.machine.Steady
  tx : w.machine.txDesiredHeld = true → w.txOwn = true
  rx : w.machine.rxRequiredHeld = true → w.rxOwn = true

variable {w w' : Watched} {op : Op}

lemma steady_of_step (hw : w.machine.Steady) (h : w.step op = some w') : w'.machine.Steady := by
  obtain ⟨m', hm', rfl⟩ := Option.map_eq_some_iff.1 h
  exact hw.step hm'

lemma Owned.step (hw : w.Owned) (hcond : w.machine.HoldsFromIdle op) (h : w.step op = some w') :
    w'.Owned := by
  obtain ⟨m', hm', rfl⟩ := Option.map_eq_some_iff.1 h
  have hsteady := hw.steady.step hm'
  by_cases hup : m'.sessionState = .up
  · have hstep := Machine.upStep_of_step hm' hup
    refine ⟨hsteady, fun (hheld : m'.txDesiredHeld) => ?_, fun (hheld : m'.rxRequiredHeld) => ?_⟩
    · rcases htaken : (w.machine.takenIn op).txDesiredHeld with _ | _
      · have hidle := hstep.idle_of_newly_held hcond (.inl ⟨hheld, htaken⟩)
        simp [hheld, htaken, hidle]
      · simp only [htaken, Bool.not_true, Bool.and_false, Bool.false_eq_true, if_false]
        exact hw.tx (Machine.txDesiredHeld_of_takenIn htaken)
    · rcases htaken : (w.machine.takenIn op).rxRequiredHeld with _ | _
      · have hidle := hstep.idle_of_newly_held hcond (.inr ⟨hheld, htaken⟩)
        simp [hheld, htaken, hidle]
      · simp only [htaken, Bool.not_true, Bool.and_false, Bool.false_eq_true, if_false]
        exact hw.rx (Machine.rxRequiredHeld_of_takenIn htaken)
  · have hrest := hsteady.resting hup
    refine ⟨hsteady, fun hheld => ?_, fun hheld => ?_⟩
    · exact absurd (hheld.symm.trans hrest.txHeld) (by decide)
    · exact absurd (hheld.symm.trans hrest.rxHeld) (by decide)

lemma Owned.holdRule (hw : w.Owned) (op : Op) : w.HoldRule op := by
  intro m' hm' hup
  have hsteady := hw.steady.step hm'
  have hprompt := (Machine.upStep_of_step hm' hup).prompt hw.steady
  constructor
  · intro hlong
    by_contra hnot
    have hforce : (w.machine.takenIn op).desiredMinTxInForceUs = w.machine.desiredMinTxInForceUs :=
      Machine.desiredInForce_takenIn fun hheld hends => hnot ⟨hends, hw.tx hheld⟩
    have hle := hforce ▸ hprompt.desired
    have := Machine.transmitIntervalOf_le m'.remoteMinRxInterval hsteady.positive.desiredInForce hle
    exact absurd hlong (Nat.not_lt.2 this)
  · intro hshort
    by_contra hnot
    have hforce : (w.machine.takenIn op).requiredMinRxInForceUs =
        w.machine.requiredMinRxInForceUs :=
      Machine.requiredInForce_takenIn fun hheld hends => hnot ⟨hends, hw.rx hheld⟩
    have hle := hforce ▸ hprompt.required
    have := Machine.detectionIntervalOf_le m'.remoteDesiredMinTx m'.detectionMult
      hw.steady.positive.requiredInForce hle
    exact absurd hshort (Nat.not_lt.2 this)

lemma owned_initial (req : SessionRequest) (localDiscr authType now : ℕ) :
    (initial req localDiscr authType now).Owned := by
  have hpos := Machine.requestInterval_pos
  have hslow : 0 < slowStartIntervalUs := by decide
  refine ⟨⟨⟨hslow, hpos _, hpos _, hpos _, fun h => ?_, fun h => ?_⟩, fun _ => ⟨rfl, rfl, rfl, rfl,
    rfl⟩, fun hup => ?_⟩, fun h => ?_, fun h => ?_⟩ <;> contradiction

/-- In every run of a session the slow-start interval is in force outside Up, and the hold rule is
kept if no packet takes the session Up, with an interval to hold, while a Poll is in flight. -/
theorem holdRule_of_run (req : SessionRequest) (localDiscr authType now : ℕ) (ops : List Op) :
    (∀ w', run step (initial req localDiscr authType now) ops = some w' →
      w'.machine.sessionState ≠ .up → slowStartIntervalUs ≤ w'.machine.desiredMinTxInForceUs) ∧
    (Meets step (fun w op => w.machine.HoldsFromIdle op)
        (initial req localDiscr authType now) ops →
      Meets step HoldRule (initial req localDiscr authType now) ops) := by
  have howned := owned_initial req localDiscr authType now
  refine ⟨fun w' hrun hup => ?_, fun hcond => ?_⟩
  · have hsteady : w'.machine.Steady :=
      run_inv (I := fun w : Watched => w.machine.Steady) (fun w op w' hw h =>
        steady_of_step hw h) ops _ w'
        howned.steady hrun
    have hrest := hsteady.resting hup
    have hslow : w'.machine.desiredMinTxInForceUs = slowStartIntervalUs := by
      rw [Machine.desiredMinTxInForceUs, hrest.txHeld, if_neg Bool.false_ne_true, hrest.desired]
    exact Nat.le_of_eq hslow.symm
  · exact Meets.imp (I := Owned) (fun _ _ _ hw hc h => hw.step hc h) (fun w op hw _ =>
      hw.holdRule op) ops
      _ howned hcond

/-- A client that asks for a transmit interval of five seconds. Source: api: SessionRequest. -/
def slowRequest : SessionRequest := ⟨5000000, 300000, 3, 0, false⟩

/-- A packet in state Up with the Final bit set. Source: packet/control.go Control. -/
def finalPacket : Control := ⟨.up, true, false, false, 3, 7, 1, 1000000, 300000, 0⟩

/-- A session that takes five seconds in Up from an idle Poll state, and is answered. -/
theorem holdRule_of_run_idle : Meets step (fun w op => w.machine.HoldsFromIdle op)
      (initial slowRequest 1 0 0) [.receive Machine.initPacket 5, .receive finalPacket 9] ∧
    Meets step HoldRule (initial slowRequest 1 0 0)
      [.receive Machine.initPacket 5, .receive finalPacket 9] := by
  have hcond : Meets step (fun w op => w.machine.HoldsFromIdle op) (initial slowRequest 1 0 0)
      [.receive Machine.initPacket 5, .receive finalPacket 9] := by
    refine ⟨fun _ _ _ => ⟨rfl, fun _ => rfl⟩, fun w hw => ⟨fun _ henters => ?_, fun _ _ => trivial⟩⟩
    cases hw
    cases henters
  exact ⟨hcond, (holdRule_of_run slowRequest 1 0 0 _).2 hcond⟩

/-- A session that is Down polls for a new Required Min RX Interval; the packet that takes it Up
raises its Desired Min TX Interval under that Poll, and the Final of the earlier Poll puts the new
interval in force. -/
theorem earlier_final_releases : ¬ Meets step HoldRule (initial slowRequest 1 0 0)
    [.applyTimers { slowRequest with requiredMinRxInterval := 500000 },
      .receive Machine.initPacket 5, .receive finalPacket 9] := by
  rintro ⟨-, hrest⟩
  obtain ⟨-, hrest⟩ := hrest _ rfl
  obtain ⟨hrule, -⟩ := hrest _ rfl
  have howned := ((hrule _ rfl (by decide)).1 (by decide)).2
  exact absurd howned (by decide)

end Watched

end Ze.Bfd
