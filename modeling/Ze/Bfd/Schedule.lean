import Ze.Bfd.Polls

/-!
# When a BFD session transmits

The next periodic transmission is to be unset exactly while a passive session does not know the
remote discriminator (RFC 5880 Section 6.8.7). Every change of state and of role writes the deadline
anew; a packet that brings no change of state only learns the discriminator.
-/

namespace Ze.Bfd

open Ze.Lib

namespace Machine

variable (m : Machine)

/-- What the callers promise for a step: a received packet names its sender and has a multiplier
(`ParseControl`), and a periodic packet is sent when one is due (`tick`).
Source: packet/control.go ParseControl; engine/loop.go tick -/
def Offered : Op → Prop
  | .receive c _ => c.myDiscriminator ≠ 0 ∧ c.detectMult ≠ 0
  | .advanceTx _ _ => m.schedule.nextTxAt ≠ none
  | _ => True

instance : (op : Op) → Decidable (m.Offered op)
  | .receive _ _ => inferInstanceAs (Decidable (_ ∧ _))
  | .advanceTx _ _ => inferInstanceAs (Decidable (_ ≠ _))
  | .applyTimers _ | .applyRole _ _ | .applyEcho _ | .setAuth _ | .revive _ _ | .echoTick _ _
  | .checkDetection _ | .adminDown _ _ | .adminEnable _ | .defectDown _ => isTrue trivial

/-- The next transmission is unset exactly while the session is passive and does not know the remote
discriminator.
Source: session.go nextTxAt -/
def Scheduled : Prop :=
  m.schedule.nextTxAt = none ↔ m.passive = true ∧ m.remoteDiscr = 0

instance : Decidable m.Scheduled := inferInstanceAs (Decidable (_ ↔ _))

/-- An accepted packet that is the first to name the peer to a passive session changes its state.
Source: fsm.go Receive -/
def Heard : Op → Prop
  | .receive c _ => ¬ m.Discards c → m.passive = true → m.remoteDiscr = 0 →
      transition m.sessionState c.state ≠ none
  | _ => True

instance : (op : Op) → Decidable (m.Heard op)
  | .receive c _ => inferInstanceAs (Decidable (¬ m.Discards c → m.passive = true →
      m.remoteDiscr = 0 → transition m.sessionState c.state ≠ none))
  | .advanceTx _ _ | .applyTimers _ | .applyRole _ _ | .applyEcho _ | .setAuth _ | .revive _ _
  | .echoTick _ _ | .checkDetection _ | .adminDown _ _ | .adminEnable _ | .defectDown _ =>
    isTrue trivial

/-! ## What keeps the deadline as it is -/

/-- Two sessions transmit under the same conditions. Source: timers.go transmitPermitted. -/
structure TxAlike (m m' : Machine) : Prop where
  passive : m'.passive = m.passive
  remoteDiscr : m'.remoteDiscr = m.remoteDiscr
  nextTxAt : m'.schedule.nextTxAt = none ↔ m.schedule.nextTxAt = none

section

variable {m} {m' m'' : Machine}

lemma TxAlike.refl : TxAlike m m := ⟨rfl, rfl, Iff.rfl⟩

lemma TxAlike.trans (h : TxAlike m m') (h' : TxAlike m' m'') : TxAlike m m'' :=
  ⟨h'.passive.trans h.passive, h'.remoteDiscr.trans h.remoteDiscr, h'.nextTxAt.trans h.nextTxAt⟩

lemma TxAlike.scheduled_iff (h : TxAlike m m') : m'.Scheduled ↔ m.Scheduled := by
  unfold Scheduled
  rw [h.passive, h.remoteDiscr, h.nextTxAt]

lemma nextTxAt_rescheduledTx : m.rescheduledTx.nextTxAt = none ↔ m.schedule.nextTxAt = none := by
  unfold rescheduledTx
  dsimp only
  by_cases hsame : m.transmitInterval = m.schedule.txInterval
  · rw [if_pos hsame]
  · rw [if_neg hsame]
    rcases hnext : m.schedule.nextTxAt with _ | next
    · simp only [hnext]
    · rcases hlast : m.schedule.lastTxAt with _ | last
      · simp only [hnext]
      · dsimp only
        split_ifs
        · simp only [hnext, reduceCtorEq]
        · simp only

lemma txAlike_rescheduleTx : TxAlike m m.rescheduleTx :=
  ⟨rfl, rfl, nextTxAt_rescheduledTx⟩

lemma txAlike_rescheduleEcho : TxAlike m m.rescheduleEcho := by
  refine ⟨rfl, rfl, ?_⟩
  unfold rescheduleEcho rescheduledEcho
  dsimp only
  split <;> exact Iff.rfl

lemma txAlike_changeIntervals (d r : ℕ) : TxAlike m (m.changeIntervals d r) := by
  rw [changeIntervals_eq]
  exact ⟨rfl, rfl, Iff.rfl⟩

lemma txAlike_applyPendingTimers : TxAlike m m.applyPendingTimers := by
  have hset : TxAlike m { m with timersPending := false } := ⟨rfl, rfl, Iff.rfl⟩
  rw [applyPendingTimers_eq]
  split_ifs
  · exact TxAlike.refl
  · exact hset
  · exact (hset.trans (txAlike_changeIntervals _ _)).trans txAlike_rescheduleTx

lemma txAlike_takeFinal (final : Bool) : TxAlike m (m.takeFinal final) := by
  unfold takeFinal releaseDesiredMinTx
  split_ifs
  · exact ⟨rfl, rfl, nextTxAt_rescheduledTx⟩
  · exact ⟨rfl, rfl, Iff.rfl⟩
  · exact ⟨rfl, rfl, Iff.rfl⟩
  · exact TxAlike.refl

lemma txAlike_revertEchoSlowdown : TxAlike m m.revertEchoSlowdown := by
  have hheld : ∀ (n : Machine) (us : ℕ), TxAlike n (n.holdRequiredMinRx us) := by
    intro n us
    rw [holdRequiredMinRx_eq]
    exact ⟨rfl, rfl, Iff.rfl⟩
  unfold revertEchoSlowdown
  dsimp only
  by_cases hslow : m.echoSlowdownApplied = false
  · rw [if_pos hslow]
    exact TxAlike.refl
  · rw [if_neg hslow]
    by_cases hbusy : m.sessionState = .up ∧ m.pollSequenceIdle = false
    · rw [if_pos hbusy]
      exact TxAlike.refl
    · rw [if_neg hbusy]
      have hbase : TxAlike m { ({ m with
          echoSlowdownApplied := false
          desiredMinTxInterval := m.configuredDesiredMinTxInterval }).holdRequiredMinRx
            m.configuredRequiredMinRxInterval with
          requiredMinRxInterval := m.configuredRequiredMinRxInterval } := by
        obtain ⟨hp, hd, hn⟩ := hheld { m with
          echoSlowdownApplied := false
          desiredMinTxInterval := m.configuredDesiredMinTxInterval }
            m.configuredRequiredMinRxInterval
        exact ⟨hp, hd, hn⟩
      have hmoved := hbase.trans txAlike_rescheduleTx
      split_ifs
      · exact ⟨hmoved.passive, hmoved.remoteDiscr, hmoved.nextTxAt⟩
      · exact hmoved

lemma txAlike_applyEchoSlowdown : TxAlike m m.applyEchoSlowdown := by
  unfold applyEchoSlowdown
  split_ifs
  · exact TxAlike.refl
  · dsimp only
    rw [holdDesiredMinTx_eq]
    exact ⟨rfl, rfl, Iff.rfl⟩

/-! ## What writes the deadline -/

lemma scheduled_of_permitted {next : Option ℕ} (hnext : m.transmitPermitted → next ≠ none) :
    { m with schedule := { m.schedule with
        nextTxAt := if m.transmitPermitted then next else none } }.Scheduled := by
  unfold Scheduled
  dsimp only
  rcases hp : m.transmitPermitted with _ | _
  · simp only [Bool.false_eq_true, if_false, true_iff]
    simpa [transmitPermitted] using hp
  · simp only [if_true]
    constructor
    · intro hnone
      exact absurd hnone (hnext hp)
    · rintro ⟨hpassive, hdiscr⟩
      rw [transmitPermitted, hpassive, hdiscr] at hp
      cases hp

lemma scheduled_moveTo (state : State) (diag : Diag) (now : ℕ) :
    (m.moveTo state diag now).Scheduled := by
  unfold moveTo onStateChange
  exact scheduled_of_permitted fun _ => Option.some_ne_none now

lemma scheduled_permitTx (now : ℕ) : (m.permitTx now).Scheduled := by
  unfold permitTx
  apply scheduled_of_permitted
  intro _
  rcases m.schedule.nextTxAt <;> exact Option.some_ne_none _

/-! ## The steps -/

lemma accept_tx (c : Control) (now : ℕ) :
    (m.accept c now).passive = m.passive ∧ (m.accept c now).remoteDiscr = c.myDiscriminator ∧
      ((m.accept c now).schedule.nextTxAt = none ↔ m.schedule.nextTxAt = none) := by
  have hlearn : TxAlike { m with remoteDiscr := c.myDiscriminator } (m.learn c) := by
    unfold learn
    dsimp only
    have hmoved := @txAlike_rescheduleTx { m with
      remoteDiscr := c.myDiscriminator
      remoteSessionState := c.state
      remoteDemandMode := c.demand
      remoteMinRxInterval := c.requiredMinRxInterval
      remoteDesiredMinTx := c.desiredMinTxInterval
      remoteDetectMult := c.detectMult
      remoteMinEchoRxInterval := c.requiredMinEchoRxInterval }
    have hlearned := (show TxAlike { m with remoteDiscr := c.myDiscriminator } _ from
      ⟨hmoved.passive, hmoved.remoteDiscr, hmoved.nextTxAt⟩)
    split_ifs
    · exact hlearned.trans txAlike_rescheduleEcho
    · exact hlearned
  have htaken := hlearn.trans (txAlike_takeFinal c.final)
  have happlied : TxAlike { m with remoteDiscr := c.myDiscriminator }
      (if ((m.learn c).takeFinal c.final).sessionState = .up then
        ((m.learn c).takeFinal c.final).applyPendingTimers else (m.learn c).takeFinal c.final) := by
    split_ifs
    · exact htaken.trans txAlike_applyPendingTimers
    · exact htaken
  exact ⟨happlied.passive, happlied.remoteDiscr, happlied.nextTxAt⟩

lemma scheduled_receive_iff (hm : m.Scheduled) {c : Control} {now : ℕ}
    (hoffered : m.Offered (.receive c now)) (h : step m (.receive c now) = some m') :
    m'.Scheduled ↔ m.Heard (.receive c now) := by
  rw [step_receive] at h
  by_cases hc : m.Discards c
  · rw [if_pos hc] at h
    cases h
    exact ⟨fun _ hnot => absurd hc hnot, fun _ => hm⟩
  · rw [if_neg hc] at h
    rcases ht : transition m.sessionState c.state with _ | ⟨state, diag⟩ <;> rw [ht] at h
    · cases h
      obtain ⟨hpassive, hdiscr, hnext⟩ := m.accept_tx c now
      have hset : (m.accept c now).Scheduled ↔ m.schedule.nextTxAt ≠ none := by
        unfold Scheduled
        rw [hdiscr, hnext]
        have hnever : ¬ ((m.accept c now).passive ∧ c.myDiscriminator = 0) :=
          fun hand => hoffered.1 hand.2
        rw [iff_false_right hnever]
      rw [hset]
      constructor
      · intro hnot _ hp hd
        exact absurd (hm.2 ⟨hp, hd⟩) hnot
      · intro hheard hnone
        obtain ⟨hp, hd⟩ := hm.1 hnone
        exact hheard hc hp hd ht
    · cases h
      refine ⟨fun _ _ _ _ hnone => ?_, fun _ => scheduled_moveTo state diag now⟩
      rw [ht] at hnone
      cases hnone

lemma scheduled_step_iff (hm : m.Scheduled) {op : Op} (hoffered : m.Offered op)
    (h : step m op = some m') : m'.Scheduled ↔ m.Heard op := by
  cases op
  case receive => exact scheduled_receive_iff hm hoffered h
  all_goals refine iff_of_true ?_ trivial
  case applyTimers =>
    cases h
    unfold applyTimers
    dsimp only
    split_ifs
    · exact (txAlike_applyPendingTimers.scheduled_iff).2 hm
    · exact hm
  case applyRole now =>
    cases h
    exact scheduled_permitTx now
  case applyEcho =>
    cases h
    unfold applyEcho
    dsimp only
    split_ifs
    · exact (txAlike_rescheduleEcho.scheduled_iff).2 hm
    · exact hm
  case setAuth =>
    cases h
    exact hm
  case revive now =>
    rw [step, reconfigure] at h
    split_ifs at h
    cases h
    exact scheduled_permitTx now
  case echoTick expired now =>
    cases h
    unfold echoTick
    split_ifs
    · refine (txAlike_revertEchoSlowdown.scheduled_iff).2 ?_
      exact hm
    · unfold echoFail
      split_ifs
      · exact scheduled_moveTo _ _ _
      · exact hm
    · have hprimed : (m.applyEchoSlowdown.primeEcho now).Scheduled :=
        (txAlike_applyEchoSlowdown.scheduled_iff).2 hm
      dsimp only
      split
      · exact hprimed
      · split_ifs
        · exact hprimed
        · unfold advanceEcho
          split_ifs <;> exact hprimed
  case checkDetection =>
    cases h
    unfold checkDetection
    split
    · exact hm
    · split_ifs with hwait hlive hpassive
      · exact hm
      · exact scheduled_moveTo _ _ _
      · exact ⟨fun _ => ⟨hpassive, rfl⟩, fun _ => rfl⟩
      · refine ⟨fun hnone => ?_, fun hsilent => ?_⟩
        · exact absurd (hm.1 hnone).1 hpassive
        · exact absurd hsilent.1 hpassive
  case adminDown diag now =>
    cases h
    unfold adminDown
    split_ifs
    · exact hm
    · exact scheduled_moveTo .adminDown diag now
  case adminEnable =>
    cases h
    unfold adminEnable
    split_ifs
    · exact scheduled_moveTo _ _ _
    · exact hm
  case defectDown =>
    cases h
    unfold defectDown
    split_ifs
    · exact scheduled_moveTo _ _ _
    · exact hm
  case advanceTx =>
    cases h
    refine ⟨fun hnone => ?_, fun hsilent => ?_⟩
    · cases hnone
    · exact absurd (hm.2 hsilent) hoffered

/-! ## Every run -/

lemma scheduled_initial (req : SessionRequest) (localDiscr authType now : ℕ) :
    (initial req localDiscr authType now).Scheduled := by
  unfold Scheduled initial
  rcases req.passive <;> simp

/-- Along a run, the next transmission is unset exactly while the session is passive and does not
know the remote discriminator, iff no packet that leaves the state as it is is the first
to name the peer to a passive session. -/
theorem scheduled_iff_heard (req : SessionRequest) (localDiscr authType now : ℕ) (ops : List Op)
    (hoffered : Meets step Offered (initial req localDiscr authType now) ops) :
    (∀ pre post m, ops = pre ++ post →
        run step (initial req localDiscr authType now) pre = some m →
        (m.schedule.nextTxAt = none ↔ m.passive ∧ m.remoteDiscr = 0)) ↔
      Meets step Heard (initial req localDiscr authType now) ops := by
  refine reached_iff_meets (I := fun _ => True) (P := Scheduled) ?_ ?_ ?_ ops _ trivial
    (scheduled_initial req localDiscr authType now) hoffered
  · intro m op m' _ hm hoff h
    exact scheduled_step_iff hm hoff h
  · intro m op h
    rcases op with ⟨c, now⟩ | _ | _ | _ | _ | _ | _ | _ | _ | _ | _ | _
    case receive =>
      rw [step_receive] at h
      split_ifs at h
      rcases ht : transition m.sessionState c.state with _ | _ <;> rw [ht] at h <;> cases h
    all_goals trivial
  · exact fun _ _ _ _ _ _ => trivial

/-- A passive client. Source: api: SessionRequest. -/
def passiveRequest : SessionRequest := ⟨300000, 300000, 3, 0, true⟩

/-- A packet in a state, from a peer that does not know the session. Source: control.go
Control. -/
def firstPacket (state : State) : Control :=
  ⟨state, false, false, false, 3, 7, 0, 1000000, 1000000, 0⟩

/-- A passive session that hears the peer's Down answers it. -/
theorem passive_answers_down :
    Meets step Offered (initial passiveRequest 1 0 0) [.receive (firstPacket .down) 5] ∧
      ∀ pre post m, [.receive (firstPacket .down) 5] = pre ++ post →
        run step (initial passiveRequest 1 0 0) pre = some m →
        (m.schedule.nextTxAt = none ↔ m.passive ∧ m.remoteDiscr = 0) :=
  ⟨by decide, (scheduled_iff_heard passiveRequest 1 0 0 [.receive (firstPacket .down) 5]
    (by decide)).2 (by decide)⟩

/-- A passive session whose peer is AdminDown learns the discriminator and has no transmission
scheduled. -/
theorem passive_silent_after_adminDown :
    Meets step Offered (initial passiveRequest 1 0 0) [.receive (firstPacket .adminDown) 5] ∧
      ∃ m, run step (initial passiveRequest 1 0 0) [.receive (firstPacket .adminDown) 5] = some m ∧
        m.schedule.nextTxAt = none ∧ m.passive ∧ m.remoteDiscr = 7 :=
  ⟨by decide, _, rfl, rfl, rfl, rfl⟩

end

end Machine

end Ze.Bfd
