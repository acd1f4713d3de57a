import Ze.Bfd.Session

/-!
# Poll Sequences of a BFD session

A change of `bfd.DesiredMinTxInterval` or `bfd.RequiredMinRxInterval` needs a Poll Sequence of its
own (RFC 5880 Section 6.8.3), and `pollSequenceIdle` is to keep one from starting while another is
outstanding or settling.
-/

namespace Ze.Bfd

open Ze.Lib

namespace Machine

variable (m : Machine)

/-! ## Frames -/

lemma holdDesiredMinTx_eq (us : ℕ) : m.holdDesiredMinTx us = { m with
    txDesiredHeld := (m.holdDesiredMinTx us).txDesiredHeld
    txDesiredHeldUs := (m.holdDesiredMinTx us).txDesiredHeldUs } := by
  unfold holdDesiredMinTx
  split_ifs <;> rfl

lemma holdRequiredMinRx_eq (us : ℕ) : m.holdRequiredMinRx us = { m with
    rxRequiredHeld := (m.holdRequiredMinRx us).rxRequiredHeld
    rxRequiredHeldUs := (m.holdRequiredMinRx us).rxRequiredHeldUs } := by
  unfold holdRequiredMinRx
  split_ifs <;> rfl

lemma changeIntervals_eq (d r : ℕ) : m.changeIntervals d r = { m with
    txDesiredHeld := (m.holdDesiredMinTx d).txDesiredHeld
    txDesiredHeldUs := (m.holdDesiredMinTx d).txDesiredHeldUs
    rxRequiredHeld := (m.holdRequiredMinRx r).rxRequiredHeld
    rxRequiredHeldUs := (m.holdRequiredMinRx r).rxRequiredHeldUs
    desiredMinTxInterval := d
    requiredMinRxInterval := r
    pollOutstanding := true } := by
  have hrx : ((m.holdDesiredMinTx d).holdRequiredMinRx r).rxRequiredHeld =
        (m.holdRequiredMinRx r).rxRequiredHeld ∧
      ((m.holdDesiredMinTx d).holdRequiredMinRx r).rxRequiredHeldUs =
        (m.holdRequiredMinRx r).rxRequiredHeldUs := by
    rw [m.holdDesiredMinTx_eq d]
    unfold holdRequiredMinRx
    split_ifs <;> exact ⟨rfl, rfl⟩
  rw [changeIntervals, (m.holdDesiredMinTx d).holdRequiredMinRx_eq r, hrx.1, hrx.2]
  rw [m.holdDesiredMinTx_eq d]

lemma learn_eq (c : Control) : m.learn c = { m with
    remoteDiscr := c.myDiscriminator
    remoteSessionState := c.state
    remoteDemandMode := c.demand
    remoteMinRxInterval := c.requiredMinRxInterval
    remoteDesiredMinTx := c.desiredMinTxInterval
    remoteDetectMult := c.detectMult
    remoteMinEchoRxInterval := c.requiredMinEchoRxInterval
    schedule := (m.learn c).schedule } := by
  unfold learn
  simp only
  split_ifs <;> rfl

lemma takeFinal_eq (final : Bool) : m.takeFinal final = { m with
    pollOutstanding := m.pollOutstanding && !final
    pollSettling := if final then m.pollOutstanding || m.pollSettling else false
    txDesiredHeld := m.txDesiredHeld && !(m.pollOutstanding && final)
    rxRequiredHeld := m.rxRequiredHeld && !(m.pollOutstanding && final)
    schedule := (m.takeFinal final).schedule } := by
  obtain ⟨⟩ := m
  rename_i poll _ txHeld _ rxHeld _ _ _ _
  rcases poll <;> rcases final <;> rcases txHeld <;> simp [takeFinal, releaseDesiredMinTx,
    rescheduleTx]

/-- Two sessions agree on what the timer rules read and write: the state, the two intervals, their
configured values, the Poll flags, the holds, the waiting change and the slow-down. Source:
session.go Machine. -/
structure Alike (m' : Machine) : Prop where
  sessionState : m'.sessionState = m.sessionState
  desiredMinTxInterval : m'.desiredMinTxInterval = m.desiredMinTxInterval
  requiredMinRxInterval : m'.requiredMinRxInterval = m.requiredMinRxInterval
  configuredDesired : m'.configuredDesiredMinTxInterval = m.configuredDesiredMinTxInterval
  configuredRequired : m'.configuredRequiredMinRxInterval = m.configuredRequiredMinRxInterval
  pollOutstanding : m'.pollOutstanding = m.pollOutstanding
  pollSettling : m'.pollSettling = m.pollSettling
  txDesiredHeld : m'.txDesiredHeld = m.txDesiredHeld
  txDesiredHeldUs : m'.txDesiredHeldUs = m.txDesiredHeldUs
  rxRequiredHeld : m'.rxRequiredHeld = m.rxRequiredHeld
  rxRequiredHeldUs : m'.rxRequiredHeldUs = m.rxRequiredHeldUs
  timersPending : m'.timersPending = m.timersPending
  echoSlowdownApplied : m'.echoSlowdownApplied = m.echoSlowdownApplied

variable {m} in
lemma Alike.trans {m' m'' : Machine} (h : Alike m m') (h' : Alike m' m'') : Alike m m'' := by
  obtain ⟨h₁, h₂, h₃, h₄, h₅, h₆, h₇, h₈, h₉, h₁₀, h₁₁, h₁₂, h₁₃⟩ := h
  obtain ⟨k₁, k₂, k₃, k₄, k₅, k₆, k₇, k₈, k₉, k₁₀, k₁₁, k₁₂, k₁₃⟩ := h'
  exact ⟨k₁.trans h₁, k₂.trans h₂, k₃.trans h₃, k₄.trans h₄, k₅.trans h₅, k₆.trans h₆, k₇.trans h₇,
    k₈.trans h₈, k₉.trans h₉, k₁₀.trans h₁₀, k₁₁.trans h₁₁, k₁₂.trans h₁₂, k₁₃.trans h₁₃⟩

variable {m} in
lemma Alike.reschedule {m' : Machine} (h : Alike m m') (s : Schedule) :
    Alike m { m' with schedule := s } := by
  obtain ⟨h₁, h₂, h₃, h₄, h₅, h₆, h₇, h₈, h₉, h₁₀, h₁₁, h₁₂, h₁₃⟩ := h
  exact ⟨h₁, h₂, h₃, h₄, h₅, h₆, h₇, h₈, h₉, h₁₀, h₁₁, h₁₂, h₁₃⟩

variable {m} in
lemma Alike.rescheduleTx {m' : Machine} (h : Alike m m') :
    Alike m.rescheduleTx m'.rescheduleTx := by
  obtain ⟨h₁, h₂, h₃, h₄, h₅, h₆, h₇, h₈, h₉, h₁₀, h₁₁, h₁₂, h₁₃⟩ := h
  exact ⟨h₁, h₂, h₃, h₄, h₅, h₆, h₇, h₈, h₉, h₁₀, h₁₁, h₁₂, h₁₃⟩

variable {m} in
lemma Alike.changeIntervals {m' : Machine} (h : Alike m m') (d r : ℕ) :
    Alike (m.changeIntervals d r) (m'.changeIntervals d r) := by
  obtain ⟨h₁, h₂, h₃, h₄, h₅, h₆, h₇, h₈, h₉, h₁₀, h₁₁, h₁₂, h₁₃⟩ := h
  rw [changeIntervals_eq, changeIntervals_eq]
  unfold holdDesiredMinTx holdRequiredMinRx
  rw [h₁, h₂, h₃, h₈, h₁₀]
  constructor <;> split_ifs <;> first | rfl | assumption

variable {m} in
lemma Alike.enterUp {m' : Machine} (h : Alike m m') : Alike m.enterUp m'.enterUp := by
  unfold Machine.enterUp
  rw [h.desiredMinTxInterval, h.requiredMinRxInterval, h.configuredDesired, h.configuredRequired]
  split_ifs
  · exact h.changeIntervals _ _
  · exact h

/-- The floor that an echo slow-down puts under the intervals. Source: timers.go
applyPendingTimersLocked. -/
def slowdownFloor : ℕ := if m.echoSlowdownApplied then echoSlowdownIntervalUs else 0

/-- The `bfd.DesiredMinTxInterval` that the configuration asks for in Up. Source: timers.go
applyPendingTimersLocked. -/
def operatingDesired : ℕ := max m.slowdownFloor m.configuredDesiredMinTxInterval

/-- The `bfd.RequiredMinRxInterval` that the configuration asks for in Up. Source: timers.go
applyPendingTimersLocked. -/
def operatingRequired : ℕ := max m.slowdownFloor m.configuredRequiredMinRxInterval

lemma applyPendingTimers_eq : m.applyPendingTimers =
    if m.timersPending = false ∨ m.pollSequenceIdle = false then m
    else if m.operatingDesired = m.desiredMinTxInterval ∧
        m.operatingRequired = m.requiredMinRxInterval then { m with timersPending := false }
    else ({ m with timersPending := false }.changeIntervals m.operatingDesired
      m.operatingRequired).rescheduleTx := by
  rw [applyPendingTimers]
  by_cases hp : m.timersPending = false
  · rw [if_pos hp, if_pos (.inl hp)]
  · by_cases hi : m.pollSequenceIdle = false
    · rw [if_neg hp, if_pos hi, if_pos (.inr hi)]
    · rw [if_neg hp, if_neg hi, if_neg (not_or.2 ⟨hp, hi⟩)]
      rfl

variable {m} in
lemma Alike.pollSequenceIdle {m' : Machine} (h : Alike m m') :
    m'.pollSequenceIdle = m.pollSequenceIdle := by
  rw [Machine.pollSequenceIdle, Machine.pollSequenceIdle, h.pollOutstanding, h.pollSettling]

variable {m} in
lemma Alike.operatingDesired {m' : Machine} (h : Alike m m') :
    m'.operatingDesired = m.operatingDesired := by
  rw [Machine.operatingDesired, Machine.operatingDesired, slowdownFloor, slowdownFloor,
    h.echoSlowdownApplied, h.configuredDesired]

variable {m} in
lemma Alike.operatingRequired {m' : Machine} (h : Alike m m') :
    m'.operatingRequired = m.operatingRequired := by
  rw [Machine.operatingRequired, Machine.operatingRequired, slowdownFloor, slowdownFloor,
    h.echoSlowdownApplied, h.configuredRequired]

variable {m} in
lemma Alike.applyPendingTimers {m' : Machine} (h : Alike m m') :
    Alike m.applyPendingTimers m'.applyPendingTimers := by
  have hset : Alike { m with timersPending := false } { m' with timersPending := false } := by
    obtain ⟨h₁, h₂, h₃, h₄, h₅, h₆, h₇, h₈, h₉, h₁₀, h₁₁, h₁₂, h₁₃⟩ := h
    exact ⟨h₁, h₂, h₃, h₄, h₅, h₆, h₇, h₈, h₉, h₁₀, h₁₁, rfl, h₁₃⟩
  rw [applyPendingTimers_eq, applyPendingTimers_eq, h.pollSequenceIdle, h.operatingDesired,
    h.operatingRequired, h.timersPending]
  by_cases hwait : m.timersPending = false ∨ m.pollSequenceIdle = false
  · rw [if_pos hwait, if_pos hwait]
    exact h
  · rw [if_neg hwait, if_neg hwait]
    by_cases hsame : m.operatingDesired = m.desiredMinTxInterval ∧
        m.operatingRequired = m.requiredMinRxInterval
    · have hsame' := hsame
      rw [← h.desiredMinTxInterval, ← h.requiredMinRxInterval] at hsame'
      rw [if_pos hsame, if_pos hsame']
      exact hset
    · have hsame' := hsame
      rw [← h.desiredMinTxInterval, ← h.requiredMinRxInterval] at hsame'
      rw [if_neg hsame, if_neg hsame']
      exact (hset.changeIntervals _ _).rescheduleTx

/-! ## What a packet does before any change -/

/-- Whether a packet is discarded. Source: fsm.go Receive, the first two checks. -/
def Discards (c : Control) : Prop :=
  (c.yourDiscriminator = 0 ∧ c.state ≠ .down ∧ c.state ≠ .adminDown) ∨
    c.auth ≠ decide (m.authType ≠ 0)

instance (c : Control) : Decidable (m.Discards c) := inferInstanceAs (Decidable (_ ∨ _))

/-- The session once an accepted packet has been taken in up to its Final bit; any other step finds
the session as it is. Source: fsm.go Receive, down to the Poll rule. -/
def takenIn : Op → Machine
  | .receive c _ => if m.Discards c then m else (m.learn c).takeFinal c.final
  | _ => m

variable {c : Control} {now : ℕ}

lemma takenIn_receive (now : ℕ) (hc : ¬ m.Discards c) :
    Alike { m with
      pollOutstanding := m.pollOutstanding && !c.final
      pollSettling := if c.final then m.pollOutstanding || m.pollSettling else false
      txDesiredHeld := m.txDesiredHeld && !(m.pollOutstanding && c.final)
      rxRequiredHeld := m.rxRequiredHeld && !(m.pollOutstanding && c.final) }
      (m.takenIn (.receive c now)) := by
  have heq : m.takenIn (.receive c now) = (m.learn c).takeFinal c.final := if_neg hc
  rw [heq, takeFinal_eq, learn_eq]
  constructor <;> rfl

lemma takenIn_receive_eq_of_discards (now : ℕ) (hc : m.Discards c) :
    m.takenIn (.receive c now) = m := if_pos hc

lemma takenIn_cases (op : Op) :
    m.takenIn op = m ∨ ∃ c now, op = .receive c now ∧ ¬ m.Discards c := by
  cases op with
  | receive c now =>
    by_cases hc : m.Discards c
    · exact .inl (takenIn_receive_eq_of_discards m now hc)
    · exact .inr ⟨c, now, rfl, hc⟩
  | _ => exact .inl rfl

lemma step_receive (c : Control) (now : ℕ) : step m (.receive c now) =
    if m.Discards c then some m
    else
      match transition m.sessionState c.state with
      | some (state, diag) => some ((m.accept c now).moveTo state diag now)
      | none => some (m.accept c now) := by
  simp only [step, receive]
  by_cases hy : c.yourDiscriminator = 0 ∧ c.state ≠ .down ∧ c.state ≠ .adminDown
  · have hd : m.Discards c := .inl hy
    rw [if_pos hy, if_pos hd]
  · by_cases ha : c.auth ≠ decide (m.authType ≠ 0)
    · have hd : m.Discards c := .inr ha
      rw [if_neg hy, if_pos ha, if_pos hd]
    · have hd : ¬ m.Discards c := not_or.2 ⟨hy, ha⟩
      rw [if_neg hy, if_neg ha, if_neg hd]
      rcases transition m.sessionState c.state with _ | ⟨state, diag⟩ <;> rfl

lemma accept_of_up (now : ℕ) (hc : ¬ m.Discards c) (hup : m.sessionState = .up) :
    Alike (m.takenIn (.receive c now)).applyPendingTimers (m.accept c now) := by
  have heq : m.takenIn (.receive c now) = (m.learn c).takeFinal c.final := if_neg hc
  have hstate : ((m.learn c).takeFinal c.final).sessionState = .up := by
    rw [takeFinal_eq, learn_eq]
    exact hup
  rw [heq, accept]
  simp only [hstate, if_true]
  constructor <;> rfl

lemma accept_of_not_up (now : ℕ) (hc : ¬ m.Discards c) (hup : m.sessionState ≠ .up) :
    Alike (m.takenIn (.receive c now)) (m.accept c now) := by
  have heq : m.takenIn (.receive c now) = (m.learn c).takeFinal c.final := if_neg hc
  have hstate : ((m.learn c).takeFinal c.final).sessionState ≠ .up := by
    rw [takeFinal_eq, learn_eq]
    exact hup
  rw [heq, accept]
  simp only [hstate, if_false]
  constructor <;> rfl

/-- The session as it stands on the way into Up. Source: fsm.go applyTransitionLocked. -/
def inUp : Machine := { m with sessionState := .up }

lemma moveTo_up (diag : Diag) (now : ℕ) : Alike m.inUp.enterUp (m.moveTo .up diag now) := by
  have hself : Alike m.inUp { m with sessionState := .up, localDiag := diag } := by
    constructor <;> rfl
  exact hself.enterUp.reschedule _

lemma sessionState_moveTo (state : State) (diag : Diag) (now : ℕ) :
    (m.moveTo state diag now).sessionState = state := by
  unfold moveTo onStateChange
  rcases state <;> simp [enterUp, leaveUp, changeIntervals_eq]
  split_ifs <;> rfl

lemma clearEchoSchedule_alike : Alike m.revertEchoSlowdown m.clearEchoSchedule := by
  unfold clearEchoSchedule revertEchoSlowdown holdRequiredMinRx
  simp only [pollSequenceIdle]
  split_ifs <;> constructor <;> rfl

lemma echoTick_alike (hup : m.sessionState = .up) (hecho : m.echoEnabled) :
    Alike m.applyEchoSlowdown (m.echoTick false now) := by
  have hcond : ¬ (m.sessionState ≠ .up ∨ m.echoEnabled = false) := by simp [hup, hecho]
  rw [echoTick, if_neg hcond]
  simp only [Bool.false_eq_true, if_false]
  rcases hn : (m.applyEchoSlowdown.primeEcho now).schedule.nextEchoAt with _ | deadline
  · constructor <;> rfl
  · simp only
    split_ifs <;> constructor <;> rfl

/-- A timer change that is recorded and waits. Source: timers.go ApplyTimers. -/
def pend (req : SessionRequest) : Machine :=
  { m with
    configuredDesiredMinTxInterval := requestInterval req.desiredMinTxInterval
    configuredRequiredMinRxInterval := requestInterval req.requiredMinRxInterval
    timersPending := true }

/-! ## The steps of a session that ends up Up -/

/-- What a step can do to the timer rules of a session that is Up after it. Source:
internal/component/bfd/engine. -/
inductive UpStep : Op → Machine → Prop
  /-- Nothing changes. -/
  | still {op : Op} {m' : Machine} (taken : m.takenIn op = m) (alike : Alike m m') : UpStep op m'
  /-- A packet ends a Poll or the wait after it, and a change that waited is made. -/
  | packet {c : Control} {now : ℕ} {m' : Machine} (accepted : ¬ m.Discards c)
      (up : m.sessionState = .up)
      (alike : Alike (m.takenIn (.receive c now)).applyPendingTimers m') :
        UpStep (.receive c now) m'
  /-- A packet takes the session Up. -/
  | enter {c : Control} {now : ℕ} {m' : Machine} (accepted : ¬ m.Discards c)
      (enters : transition m.sessionState c.state = some (.up, .none))
      (alike : Alike (m.takenIn (.receive c now)).inUp.enterUp m') :
      UpStep (.receive c now) m'
  /-- The configuration changes. -/
  | timers {req : SessionRequest} {m' : Machine} (up : m.sessionState = .up)
      (alike : Alike (m.pend req).applyPendingTimers m') : UpStep (.applyTimers req) m'
  /-- Echo runs, and the Control packets slow down. -/
  | slow {expired : Bool} {now : ℕ} {m' : Machine} (up : m.sessionState = .up)
      (alike : Alike m.applyEchoSlowdown m') : UpStep (.echoTick expired now) m'
  /-- Echo does not run, and the slow-down is reverted. -/
  | revert {expired : Bool} {now : ℕ} {m' : Machine} (up : m.sessionState = .up)
      (alike : Alike m.revertEchoSlowdown m') : UpStep (.echoTick expired now) m'

variable {m} {m' : Machine}

lemma upStep_receive (h : step m (.receive c now) = some m')
    (hup : m'.sessionState = .up) : m.UpStep (.receive c now) m' := by
  rw [step_receive] at h
  by_cases hc : m.Discards c
  · rw [if_pos hc] at h
    cases h
    exact .still (takenIn_receive_eq_of_discards m now hc) (by constructor <;> rfl)
  rw [if_neg hc] at h
  rcases ht : transition m.sessionState c.state with _ | ⟨state, diag⟩ <;> rw [ht] at h
  · cases h
    by_cases hm : m.sessionState = .up
    · exact .packet hc hm (accept_of_up m now hc hm)
    · have halike := accept_of_not_up m now hc hm
      rw [halike.sessionState, (takenIn_receive m now hc).sessionState] at hup
      exact absurd hup hm
  · cases h
    rw [sessionState_moveTo] at hup
    subst hup
    have hnone : diag = .none ∧ m.sessionState ≠ .up := by
      rcases hs : m.sessionState <;> rcases hcs : c.state <;> rw [hs, hcs] at ht <;>
        simp_all [transition]
    obtain ⟨rfl, hm⟩ := hnone
    have halike := accept_of_not_up m now hc hm
    have hmoved : Alike (m.takenIn (.receive c now)).inUp (m.accept c now).inUp := by
      obtain ⟨h₁, h₂, h₃, h₄, h₅, h₆, h₇, h₈, h₉, h₁₀, h₁₁, h₁₂, h₁₃⟩ := halike
      exact ⟨rfl, h₂, h₃, h₄, h₅, h₆, h₇, h₈, h₉, h₁₀, h₁₁, h₁₂, h₁₃⟩
    exact .enter hc ht (hmoved.enterUp.trans (moveTo_up _ _ _))

lemma upStep_echoTick {expired : Bool} (hup : (m.echoTick expired now).sessionState = .up) :
    m.UpStep (.echoTick expired now) (m.echoTick expired now) := by
  by_cases hcond : m.sessionState ≠ .up ∨ m.echoEnabled = false
  · have heq : m.echoTick expired now = m.clearEchoSchedule := if_pos hcond
    have hrevert : m.revertEchoSlowdown.sessionState = m.sessionState := by
      unfold revertEchoSlowdown holdRequiredMinRx
      split_ifs <;> rfl
    rw [heq] at hup ⊢
    rw [m.clearEchoSchedule_alike.sessionState, hrevert] at hup
    exact .revert hup m.clearEchoSchedule_alike
  · obtain ⟨hm, hecho⟩ := not_or.1 hcond
    rw [not_not] at hm
    rw [Bool.not_eq_false] at hecho
    rcases expired with _ | _
    · exact .slow hm (m.echoTick_alike hm hecho)
    · have heq : m.echoTick true now = m.echoFail now := by
        rw [echoTick, if_neg hcond]
        rfl
      rw [heq, echoFail, if_pos (.inr hm), sessionState_moveTo] at hup
      exact absurd hup (by decide)

lemma upStep_of_step {op : Op} (h : step m op = some m') (hup : m'.sessionState = .up) :
    m.UpStep op m' := by
  cases op with
  | receive => exact upStep_receive h hup
  | applyTimers =>
    cases h
    by_cases hm : m.sessionState = .up
    · rw [applyTimers, if_pos hm]
      refine .timers hm (Alike.applyPendingTimers ?_)
      constructor <;> rfl
    · rw [applyTimers, if_neg hm] at hup
      exact absurd hup hm
  | applyRole | setAuth | advanceTx =>
    cases h
    exact .still rfl (by constructor <;> rfl)
  | applyEcho =>
    cases h
    refine .still rfl ?_
    unfold applyEcho
    simp only
    split_ifs <;> constructor <;> rfl
  | revive =>
    rw [step, reconfigure] at h
    split_ifs at h with hm
    cases h
    exact absurd hup hm
  | echoTick =>
    cases h
    exact upStep_echoTick hup
  | checkDetection =>
    cases h
    unfold checkDetection at hup ⊢
    rcases hn : m.schedule.nextDetectAt with _ | deadline <;> simp only [hn] at hup ⊢
    · exact .still rfl (by constructor <;> rfl)
    · split_ifs at hup ⊢
      · exact .still rfl (by constructor <;> rfl)
      · rw [sessionState_moveTo] at hup
        exact absurd hup (by decide)
      all_goals exact .still rfl (by constructor <;> rfl)
  | adminDown =>
    cases h
    unfold adminDown at hup ⊢
    split_ifs at hup ⊢
    · exact .still rfl (by constructor <;> rfl)
    · simp only [sessionState_moveTo] at hup
      exact absurd hup (by decide)
  | adminEnable =>
    cases h
    unfold adminEnable at hup ⊢
    split_ifs at hup ⊢
    · rw [sessionState_moveTo] at hup
      exact absurd hup (by decide)
    · exact .still rfl (by constructor <;> rfl)
  | defectDown =>
    cases h
    unfold defectDown at hup ⊢
    split_ifs at hup ⊢
    · rw [sessionState_moveTo] at hup
      exact absurd hup (by decide)
    · exact .still rfl (by constructor <;> rfl)

/-! ## One Poll Sequence at a time -/

variable (m)

/-- An interval changes, or a Poll Sequence starts. Source: timers.go applyPendingTimersLocked.
-/
def Retimes (m' : Machine) : Prop :=
  m'.desiredMinTxInterval ≠ m.desiredMinTxInterval ∨
    m'.requiredMinRxInterval ≠ m.requiredMinRxInterval ∨
    (m.pollOutstanding = false ∧ m'.pollOutstanding = true)

instance (m' : Machine) : Decidable (m.Retimes m') := inferInstanceAs (Decidable (_ ∨ _))

/-- A change of an interval, or the start of a Poll Sequence, finds no Poll outstanding or settling
once the packet of its step has been taken in: in a step that leaves the session Up, and in a packet
that an Up session accepts, before the packet may take it Down. Source: timers.go
pollSequenceIdle; session.go pollSettling; fsm.go Receive. -/
def Undisturbed (op : Op) : Prop :=
  (∀ m', step m op = some m' → m'.sessionState = .up → (m.takenIn op).Retimes m' →
    (m.takenIn op).pollSequenceIdle = true) ∧
  ∀ c now, op = .receive c now → ¬ m.Discards c → m.sessionState = .up →
    (m.takenIn op).Retimes (m.accept c now) → (m.takenIn op).pollSequenceIdle = true

/-- A packet that takes the session Up while an interval differs from its configured value finds no
Poll outstanding, and none settling unless its Final bit is clear. Source: fsm.go
onStateChange. -/
def EntersUpIdle : Op → Prop
  | .receive c _ => ¬ m.Discards c → transition m.sessionState c.state = some (.up, .none) →
      m.desiredMinTxInterval ≠ m.configuredDesiredMinTxInterval ∨
        m.requiredMinRxInterval ≠ m.configuredRequiredMinRxInterval →
      m.pollOutstanding = false ∧ (c.final = true → m.pollSettling = false)
  | _ => True

lemma pollSequenceIdle_takenIn (now : ℕ) (hc : ¬ m.Discards c) :
    (m.takenIn (.receive c now)).pollSequenceIdle ↔
      m.pollOutstanding = false ∧ (c.final → m.pollSettling = false) := by
  have halike := takenIn_receive m now hc
  rw [pollSequenceIdle, halike.pollOutstanding, halike.pollSettling]
  rcases m.pollOutstanding <;> rcases c.final <;> rcases m.pollSettling <;> simp

variable {m} in
lemma Alike.not_retimes {m' : Machine} (h : Alike m m') : ¬ m.Retimes m' := by
  rintro (hd | hr | ⟨hp, hp'⟩)
  · exact hd h.desiredMinTxInterval
  · exact hr h.requiredMinRxInterval
  · rw [h.pollOutstanding, hp] at hp'
    cases hp'

variable {m} in
lemma Alike.retimes_iff {m' n : Machine} (h : Alike m m') : n.Retimes m' ↔ n.Retimes m := by
  rw [Retimes, Retimes, h.desiredMinTxInterval, h.requiredMinRxInterval, h.pollOutstanding]

lemma applyPendingTimers_of_busy (h : m.pollSequenceIdle = false) : m.applyPendingTimers = m := by
  rw [applyPendingTimers_eq, if_pos (.inr h)]

lemma applyEchoSlowdown_of_not
    (h : ¬ (m.echoSlowdownApplied = false ∧ m.pollSequenceIdle)) : m.applyEchoSlowdown = m := by
  rw [applyEchoSlowdown]
  rcases hs : m.echoSlowdownApplied <;> rcases hi : m.pollSequenceIdle <;> simp_all

lemma revertEchoSlowdown_of_not (hup : m.sessionState = .up)
    (h : ¬ (m.echoSlowdownApplied ∧ m.pollSequenceIdle)) : m.revertEchoSlowdown = m := by
  rw [revertEchoSlowdown]
  rcases hs : m.echoSlowdownApplied <;> rcases hi : m.pollSequenceIdle <;> simp_all

lemma retimes_enterUp : m.Retimes m.enterUp ↔
    (m.desiredMinTxInterval ≠ m.configuredDesiredMinTxInterval ∨
      m.requiredMinRxInterval ≠ m.configuredRequiredMinRxInterval) := by
  unfold enterUp
  split_ifs with h
  · rw [changeIntervals_eq]
    refine ⟨fun _ => h, fun h => ?_⟩
    exact h.elim (fun h => .inl (Ne.symm h)) fun h => .inr (.inl (Ne.symm h))
  · have hsame : Alike m m := by constructor <;> rfl
    exact ⟨fun h => absurd h hsame.not_retimes, fun h' => absurd h' h⟩

lemma retimes_of_enters {m' : Machine} (hc : ¬ m.Discards c)
    (halike : Alike (m.takenIn (.receive c now)).inUp.enterUp m') :
    (m.takenIn (.receive c now)).Retimes m' ↔
      (m.desiredMinTxInterval ≠ m.configuredDesiredMinTxInterval ∨
        m.requiredMinRxInterval ≠ m.configuredRequiredMinRxInterval) := by
  have htaken := takenIn_receive m now hc
  rw [halike.retimes_iff, ← htaken.desiredMinTxInterval, ← htaken.requiredMinRxInterval,
    ← htaken.configuredDesired, ← htaken.configuredRequired]
  exact retimes_enterUp (m.takenIn (.receive c now)).inUp

/-- An accepted packet changes nothing of an Up session while a Poll is in flight. -/
lemma not_retimes_accept (now : ℕ) (hc : ¬ m.Discards c) (hup : m.sessionState = .up)
    (hbusy : (m.takenIn (.receive c now)).pollSequenceIdle = false) :
    ¬ (m.takenIn (.receive c now)).Retimes (m.accept c now) := by
  have halike := accept_of_up m now hc hup
  rw [applyPendingTimers_of_busy _ hbusy] at halike
  exact halike.not_retimes

/-- A step is undisturbed exactly when it does not take the session Up, with an interval to change,
while a Poll is in flight: every other change consults `pollSequenceIdle`. -/
lemma undisturbed_iff (op : Op) : m.Undisturbed op ↔ m.EntersUpIdle op := by
  constructor
  · rintro ⟨hun, -⟩
    rcases op with ⟨c, now⟩ | _ | _ | _ | _ | _ | _ | _ | _ | _ | _ | _
    case receive =>
      intro hc henters hne
      have hstep : step m (.receive c now) = some ((m.accept c now).moveTo .up .none now) := by
        rw [step_receive, if_neg hc, henters]
      have hup := sessionState_moveTo (m.accept c now) .up .none now
      rw [← pollSequenceIdle_takenIn m now hc]
      apply hun _ hstep hup
      rcases upStep_of_step hstep hup with ⟨htaken, halike⟩ | ⟨_, hm, _⟩ | ⟨_, _, halike⟩
      · have hstate := halike.sessionState
        rw [hup] at hstate
        rw [← hstate] at henters
        rcases hcs : c.state <;> rw [hcs] at henters <;> cases henters
      · rw [hm] at henters
        rcases hcs : c.state <;> rw [hcs] at henters <;> cases henters
      · exact (retimes_of_enters m hc halike).2 hne
    all_goals trivial
  · intro hidle
    refine ⟨fun m' hstep hup hre => ?_, fun c now hop hc hup hre => ?_⟩
    swap
    · subst hop
      by_contra hbusy
      exact not_retimes_accept m now hc hup (Bool.eq_false_iff.2 hbusy) hre
    rcases hbusy : (m.takenIn op).pollSequenceIdle with _ | _
    · exfalso
      have hnot : ¬ (m.takenIn op).pollSequenceIdle := by
        rw [hbusy]
        exact Bool.false_ne_true
      rcases upStep_of_step hstep hup with ⟨htaken, halike⟩ | ⟨hc, hm, halike⟩ |
        ⟨hc, henters, halike⟩ | ⟨hm, halike⟩ | ⟨hm, halike⟩ | ⟨hm, halike⟩
      · rw [htaken] at hre
        exact halike.not_retimes hre
      · rw [applyPendingTimers_of_busy _ hbusy] at halike
        exact halike.not_retimes hre
      · have hne := (retimes_of_enters m hc halike).1 hre
        rw [(pollSequenceIdle_takenIn m _ hc).2 (hidle hc henters hne)] at hbusy
        cases hbusy
      · rw [applyPendingTimers_of_busy (m.pend _) hbusy] at halike
        exact halike.not_retimes hre
      · rw [applyEchoSlowdown_of_not m (hnot ·.2)] at halike
        exact halike.not_retimes hre
      · rw [revertEchoSlowdown_of_not m hm (hnot ·.2)] at halike
        exact halike.not_retimes hre
    · rfl

/-- Along a run, every change made in Up or on the way into it finds the Poll Sequence idle exactly
when no packet takes the session Up, with an interval to change, while a Poll is in flight. -/
theorem meets_undisturbed_iff (ops : List Op) :
    Meets step Undisturbed m ops ↔ Meets step EntersUpIdle m ops := by
  apply Meets.iff_of_inv (I := fun _ => True)
  · intro m op _
    exact m.undisturbed_iff op
  · intro _ _ _ _ _ _
    trivial
  · trivial

/-- A client that asks for 300 ms in both directions. Source: api: SessionRequest. -/
def fastRequest : SessionRequest := ⟨300000, 300000, 3, 0, false⟩

/-- A packet in state Init from a peer that knows the session. Source: packet/control.go
Control. -/
def initPacket : Control := ⟨.init, false, false, false, 3, 7, 1, 1000000, 300000, 0⟩

/-- A session that is Down polls for a new Required Min RX Interval; the packet that takes it Up
lowers its Desired Min TX Interval under that Poll. -/
theorem enterUp_disturbs : ¬ Meets step Undisturbed (initial fastRequest 1 0 0)
    [.applyTimers { fastRequest with requiredMinRxInterval := 500000 }, .receive initPacket 5] := by
  rintro ⟨-, hrest⟩
  obtain ⟨⟨hun, -⟩, -⟩ := hrest _ rfl
  exact absurd (hun _ rfl (by decide) (by decide)) (by decide)

end Machine

end Ze.Bfd
