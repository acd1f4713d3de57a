import Ze.Lib.Run
import Ze.Vrrp.Fsm
import Mathlib.Algebra.Order.Ring.Int

/-!
# The timers of a VRRP instance

Every state of the machine goes with a set of armed timers, and an expiry that comes late must not
act. The machine keeps one generation for each timer role, 0 when the role is not armed, and draws a
new one from a 64-bit counter whenever it starts a timer.
-/

namespace Ze.Vrrp

open Ze.Lib List

/-! ## Roles and the record of actions -/

/-- The three timers of an instance. Source: vrrp/fsm/fsm.go mdArmedGen, advArmedGen, pdArmedGen. -/
inductive Role where
  | masterDown
  | advert
  | preemptDelay
  deriving DecidableEq, Repr

/-- The expiry event of a role. Source: vrrp/fsm/events.go MasterDownExpired, AdvertTimerExpired,
PreemptDelayExpired. -/
def Role.expired : Role → BitVec 64 → Event
  | .masterDown, gen => .masterDownExpired gen
  | .advert, gen => .advertTimerExpired gen
  | .preemptDelay, gen => .preemptDelayExpired gen

/-- What an action does to a role: a start replaces its generation, a stop ends it.
Source: vrrp/fsm/actions.go StartMasterDownTimer, StartAdvertTimer, StartPreemptDelayTimer,
StopPreemptDelayTimer, StopTimers -/
def Role.after (role : Role) (gen : Option (BitVec 64)) : Action → Option (BitVec 64)
  | .startMasterDownTimer _ g => if role = .masterDown then some g else gen
  | .startAdvertTimer _ g => if role = .advert then some g else gen
  | .startPreemptDelayTimer _ g => if role = .preemptDelay then some g else gen
  | .stopPreemptDelayTimer => if role = .preemptDelay then none else gen
  | .stopTimers => none
  | _ => gen

/-- The generation of the latest start action of a role, `none` when a stop came after it.
Source: actions.go Action -/
def pending (role : Role) (log : List Action) : Option (BitVec 64) :=
  log.foldl role.after none

lemma pending_concat (role : Role) (log : List Action) (action : Action) :
    pending role (log ++ [action]) = role.after (pending role log) action := by
  rw [pending, foldl_append]
  rfl

namespace Instance

variable (i : Instance)

/-- The generation a role waits for. Source: fsm.go mdArmedGen, advArmedGen, pdArmedGen. -/
def armedGen : Role → BitVec 64
  | .masterDown => i.mdArmedGen
  | .advert => i.advArmedGen
  | .preemptDelay => i.pdArmedGen

/-- The timers that go with each state. Source: fsm.go Handle. -/
def Armed : Prop :=
  match i.state with
  | .init => i.mdArmedGen = 0#64 ∧ i.advArmedGen = 0#64 ∧ i.pdArmedGen = 0#64
  | .backup => i.mdArmedGen ≠ 0#64 ∧ i.advArmedGen = 0#64
  | .master => i.advArmedGen ≠ 0#64 ∧ i.mdArmedGen = 0#64 ∧ i.pdArmedGen = 0#64

/-- What a role waits for is what the actions left pending. Source: fsm.go matches. -/
def Tracked (log : List Action) : Prop :=
  ∀ role, i.armedGen role ≠ 0#64 → pending role log = some (i.armedGen role)

/-- How many timers an event starts. The master-down or the advertisement timer is the last of them.
Source: fsm.go armMasterDown, armAdvert, armPreemptDelay -/
def draws : Event → BitVec 64
  | .startup config => if i.state = .init ∧ config.priority ≠ 0#8 then 1#64 else 0#64
  | .shutdown | .sourceAddressChanged _ => 0#64
  | .advertReceived e =>
    match i.state with
    | .init => 0#64
    | .backup =>
      if e.priority = 0#8 ∨ i.cfg.preempt = false ∨ i.cfg.priority ≤ e.priority then 1#64
      else if i.cfg.preemptDelayMs = 0 then 0#64
      else if i.pdArmedGen = 0#64 then 2#64
      else 1#64
    | .master =>
      if e.priority = 0#8 ∨ i.cfg.priority < e.priority ∨
          (e.priority = i.cfg.priority ∧ i.senderWinsTieBreak e.srcIP) then 1#64
      else 0#64
  | .masterDownExpired gen => if i.state = .backup ∧ matches_ i.mdArmedGen gen then 1#64 else 0#64
  | .advertTimerExpired gen => if i.state = .master ∧ matches_ i.advArmedGen gen then 1#64 else 0#64
  | .preemptDelayExpired gen =>
    if i.state = .backup ∧ matches_ i.pdArmedGen gen then 1#64 else 0#64
  | .configUpdated _ => if i.state = .init then 0#64 else 1#64

/-- The last timer that an event starts does not get the generation 0.
Source: fsm.go nextGen -/
def Fresh (ev : Event) : Prop :=
  i.draws ev ≠ 0#64 → i.genSeq + i.draws ev ≠ 0#64

instance (ev : Event) : Decidable (i.Fresh ev) := inferInstanceAs (Decidable (_ → _))

/-! ## What the helpers leave alone -/

variable {i}

lemma adoptInterval_eq (ms : ℤ) : i.adoptInterval ms =
    { i with activeAdverIntervalMs := (i.adoptInterval ms).activeAdverIntervalMs } := by
  unfold adoptInterval
  split_ifs <;> rfl

lemma stopDelayIfArmed_eq (out : List Action) :
    (i.stopDelayIfArmed out).1 = { i with pdArmedGen := 0#64 } := by
  unfold stopDelayIfArmed
  split_ifs with h
  · rw [← h]
  · rfl

section

variable (i)

@[simp] lemma adoptInterval_state (ms : ℤ) : (i.adoptInterval ms).state = i.state := by
  rw [adoptInterval_eq]

@[simp] lemma adoptInterval_genSeq (ms : ℤ) : (i.adoptInterval ms).genSeq = i.genSeq := by
  rw [adoptInterval_eq]

@[simp] lemma adoptInterval_mdArmedGen (ms : ℤ) :
    (i.adoptInterval ms).mdArmedGen = i.mdArmedGen := by
  rw [adoptInterval_eq]

@[simp] lemma adoptInterval_advArmedGen (ms : ℤ) :
    (i.adoptInterval ms).advArmedGen = i.advArmedGen := by
  rw [adoptInterval_eq]

@[simp] lemma stopDelayIfArmed_state (out : List Action) :
    (i.stopDelayIfArmed out).1.state = i.state := by
  rw [stopDelayIfArmed_eq]

@[simp] lemma stopDelayIfArmed_genSeq (out : List Action) :
    (i.stopDelayIfArmed out).1.genSeq = i.genSeq := by
  rw [stopDelayIfArmed_eq]

@[simp] lemma stopDelayIfArmed_mdArmedGen (out : List Action) :
    (i.stopDelayIfArmed out).1.mdArmedGen = i.mdArmedGen := by
  rw [stopDelayIfArmed_eq]

@[simp] lemma stopDelayIfArmed_advArmedGen (out : List Action) :
    (i.stopDelayIfArmed out).1.advArmedGen = i.advArmedGen := by
  rw [stopDelayIfArmed_eq]

end

/-! ## Every start is the one a role waits for -/

section

variable {log out : List Action}

lemma Tracked.quiet (h : i.Tracked log)
    (hquiet : ∀ (role : Role) gen, out.foldl role.after gen = gen) : i.Tracked (log ++ out) := by
  intro role hrole
  rw [pending, foldl_append, hquiet]
  exact h role hrole

/-- An action that arms a role in step with the instance, and leaves the others alone. -/
lemma Tracked.concat (h : i.Tracked (log ++ out)) {j : Instance} {a : Action}
    (hj : ∀ role, j.armedGen role ≠ 0#64 → ∀ gen, role.after gen a = j.armedGen role ∨
      role.after gen a = gen ∧ j.armedGen role = i.armedGen role) :
    j.Tracked (log ++ (out ++ [a])) := by
  intro role hrole
  rw [← append_assoc, pending_concat]
  rcases hj role hrole (pending role (log ++ out)) with heq | ⟨heq, hsame⟩
  · exact heq
  · rw [hsame] at hrole ⊢
    exact heq.trans (h role hrole)

lemma Tracked.armMasterDown (h : i.Tracked (log ++ out)) (d : ℤ) :
    (i.armMasterDown d out).1.Tracked (log ++ (i.armMasterDown d out).2) := by
  refine h.concat fun role _ _ => ?_
  rcases role with _ | _ | _
  · exact .inl rfl
  · exact .inr ⟨rfl, rfl⟩
  · exact .inr ⟨rfl, rfl⟩

lemma Tracked.armAdvert (h : i.Tracked (log ++ out)) :
    (i.armAdvert out).1.Tracked (log ++ (i.armAdvert out).2) := by
  refine h.concat fun role _ _ => ?_
  rcases role with _ | _ | _
  · exact .inr ⟨rfl, rfl⟩
  · exact .inl rfl
  · exact .inr ⟨rfl, rfl⟩

lemma Tracked.armPreemptDelay (h : i.Tracked (log ++ out)) :
    (i.armPreemptDelay out).1.Tracked (log ++ (i.armPreemptDelay out).2) := by
  refine h.concat fun role _ _ => ?_
  rcases role with _ | _ | _
  · exact .inr ⟨rfl, rfl⟩
  · exact .inr ⟨rfl, rfl⟩
  · exact .inl rfl

lemma Tracked.stopDelayIfArmed (h : i.Tracked (log ++ out)) :
    (i.stopDelayIfArmed out).1.Tracked (log ++ (i.stopDelayIfArmed out).2) := by
  by_cases hpd : i.pdArmedGen = 0#64
  · rw [Instance.stopDelayIfArmed, if_pos hpd]
    exact h
  · rw [Instance.stopDelayIfArmed, if_neg hpd]
    refine h.concat fun role hrole _ => ?_
    rcases role with _ | _ | _
    · exact .inr ⟨rfl, rfl⟩
    · exact .inr ⟨rfl, rfl⟩
    · exact absurd rfl hrole

lemma tracked_of_unarmed (h : ∀ role, i.armedGen role = 0#64) : i.Tracked log :=
  fun role hrole => absurd (h role) hrole

variable (h : i.Tracked log)
include h

lemma Tracked.congr {j : Instance}
    (hj : ∀ role, j.armedGen role ≠ 0#64 → j.armedGen role = i.armedGen role) : j.Tracked log := by
  intro role hrole
  have heq := hj role hrole
  rw [heq] at hrole ⊢
  exact h role hrole

lemma Tracked.promoteToMaster (now : ℕ) (reason : Reason) :
    (i.promoteToMaster now reason).1.Tracked (log ++ (i.promoteToMaster now reason).2) := by
  unfold Instance.promoteToMaster
  dsimp only
  rw [← append_assoc]
  refine Tracked.quiet ?_ fun _ _ => rfl
  apply Tracked.armAdvert
  refine Tracked.quiet ?_ fun _ _ => rfl
  apply h.congr
  intro role hrole
  rcases role with _ | _ | _
  · exact absurd rfl hrole
  · rfl
  · exact absurd rfl hrole

lemma Tracked.backupAdvert (now : ℕ) (e : AdvertReceived) :
    (i.backupAdvert now e).1.Tracked (log ++ (i.backupAdvert now e).2) := by
  have hrecorded : (i.recordAdvert now e).Tracked (log ++ []) := by
    rw [append_nil]
    exact h.congr fun role _ => by rcases role <;> rfl
  have hadopt : ∀ {j : Instance} {acts : List Action}, j.Tracked acts →
      { j.adoptInterval e.intervalMs with masterHeardSinceBackup := true }.Tracked acts := by
    intro j acts hj
    rw [adoptInterval_eq]
    exact hj.congr fun role _ => by rcases role <;> rfl
  unfold Instance.backupAdvert
  dsimp only
  split_ifs
  · exact hrecorded.stopDelayIfArmed.armMasterDown _
  · exact (hadopt hrecorded.stopDelayIfArmed).armMasterDown _
  · exact hrecorded
  · exact (hadopt hrecorded.armPreemptDelay).armMasterDown _
  · exact (hadopt hrecorded).armMasterDown _

lemma Tracked.masterAdvert (now : ℕ) (e : AdvertReceived) :
    (i.masterAdvert now e).1.Tracked (log ++ (i.masterAdvert now e).2) := by
  have hrecorded : (i.recordAdvert now e).Tracked log :=
    h.congr fun role _ => by rcases role <;> rfl
  have hdemoted : ∀ reason, ((i.recordAdvert now e).demoteToBackup now e reason).1.Tracked
      (log ++ ((i.recordAdvert now e).demoteToBackup now e reason).2) := by
    intro reason
    unfold demoteToBackup
    dsimp only
    rw [← append_assoc]
    refine Tracked.quiet ?_ fun _ _ => rfl
    apply Tracked.armMasterDown
    apply tracked_of_unarmed
    rw [adoptInterval_eq]
    intro role
    rcases role <;> rfl
  unfold Instance.masterAdvert
  dsimp only
  split_ifs
  · exact (hrecorded.quiet fun _ _ => rfl).armAdvert
  · exact hdemoted .tieBreakLost
  · exact hdemoted .higherPriority
  · exact hrecorded.quiet (by intros; rfl)
  · exact hrecorded.quiet (by intros; rfl)

lemma Tracked.handle (now : ℕ) (ev : Event) :
    (i.handle now ev).1.Tracked (log ++ (i.handle now ev).2) := by
  have hsame : i.Tracked (log ++ []) := by rwa [append_nil]
  have hstopped : ∀ acts, (i.stopAllTimers.setState now .init).Tracked acts := by
    intro acts
    apply tracked_of_unarmed
    intro role
    rcases role <;> rfl
  rcases ev with config | _ | e | gen | gen | gen | config | address
  case sourceAddressChanged => exact hsame.congr fun role _ => by rcases role <;> rfl
  all_goals
    unfold Instance.handle
    dsimp only
    rcases hstate : i.state with _ | _ | _ <;> dsimp only
  case startup.init =>
    have hconfigured : { i with cfg := config }.Tracked log :=
      h.congr fun role _ => by rcases role <;> rfl
    unfold handleInitialize
    dsimp only
    split_ifs
    · exact hconfigured.quiet fun _ _ => rfl
    · exact hconfigured.promoteToMaster now .startupOwner
    · unfold enterBackupFromInitialize
      dsimp only
      rw [← append_assoc]
      refine Tracked.quiet ?_ fun _ _ => rfl
      apply Tracked.armMasterDown
      rw [append_nil]
      apply hconfigured.congr
      intro role hrole
      rcases role with _ | _ | _
      · rfl
      · exact absurd rfl hrole
      · exact absurd rfl hrole
  case configUpdated.init => exact hsame.congr fun role _ => by rcases role <;> rfl
  case shutdown.backup => exact hstopped _
  case shutdown.master => exact hstopped _
  case masterDownExpired.backup =>
    unfold handleBackup
    dsimp only
    split_ifs
    · exact h.promoteToMaster now .masterDownExpired
    · exact hsame
  case preemptDelayExpired.backup =>
    unfold handleBackup
    dsimp only
    split_ifs
    · exact h.promoteToMaster now .preemptDelayExpired
    · exact hsame
  case advertReceived.backup => exact h.backupAdvert now e
  case configUpdated.backup =>
    unfold handleBackup backupConfigUpdated
    dsimp only
    apply Tracked.armMasterDown
    apply Tracked.stopDelayIfArmed
    apply hsame.congr
    intro role _
    split_ifs <;> rcases role <;> rfl
  case advertTimerExpired.master =>
    unfold handleMaster
    dsimp only
    split_ifs
    · exact (h.quiet fun _ _ => rfl).armAdvert
    · exact hsame
  case advertReceived.master => exact h.masterAdvert now e
  case configUpdated.master =>
    have hconfigured : { i with
        cfg := config, activeAdverIntervalMs := config.advertIntervalMs }.Tracked log :=
      h.congr fun role _ => by rcases role <;> rfl
    unfold handleMaster masterConfigUpdated
    dsimp only
    have hsent : { i with cfg := config, activeAdverIntervalMs := config.advertIntervalMs }.Tracked
        (log ++ [Action.sendAdvert config.priority config.advertIntervalMs]) :=
      hconfigured.quiet fun _ _ => rfl
    have harmed := hsent.armAdvert
    split_ifs
    · rw [← append_assoc]
      exact harmed.quiet fun _ _ => rfl
    · rw [← append_assoc]
      exact harmed.quiet fun _ _ => rfl
    · exact harmed
  all_goals exact hsame

end

/-! ## The timers of each state -/

section

lemma armed_backup_iff (hs : i.state = .backup) :
    i.Armed ↔ i.mdArmedGen ≠ 0#64 ∧ i.advArmedGen = 0#64 := by
  rw [Armed, hs]

lemma armed_master_iff (hs : i.state = .master) :
    i.Armed ↔ i.advArmedGen ≠ 0#64 ∧ i.mdArmedGen = 0#64 ∧ i.pdArmedGen = 0#64 := by
  rw [Armed, hs]

lemma Armed.congr {j : Instance} (h : i.Armed) (hs : j.state = i.state)
    (hgen : ∀ role, j.armedGen role = i.armedGen role) : j.Armed := by
  have hmd := hgen .masterDown
  have hadv := hgen .advert
  have hpd := hgen .preemptDelay
  simp only [armedGen] at hmd hadv hpd
  unfold Armed at h ⊢
  rw [hs, hmd, hadv, hpd]
  exact h

lemma fresh_of_none {ev : Event} (h : i.draws ev = 0#64) : i.Fresh ev :=
  fun hne => absurd h hne

lemma fresh_iff_of_one {ev : Event} (h : i.draws ev = 1#64) :
    i.Fresh ev ↔ i.genSeq + 1#64 ≠ 0#64 := by
  rw [Fresh, h]
  exact ⟨fun hfresh => hfresh (by decide), fun hne _ => hne⟩

lemma armed_armMasterDown_iff (hs : i.state = .backup) (hadv : i.advArmedGen = 0#64) (d : ℤ)
    (out : List Action) : (i.armMasterDown d out).1.Armed ↔ i.genSeq + 1#64 ≠ 0#64 := by
  rw [armed_backup_iff (i := (i.armMasterDown d out).1) hs]
  exact and_iff_left hadv

lemma armed_restart_iff (hs : i.state = .backup) (hadv : i.advArmedGen = 0#64) (d : ℤ)
    (out out' : List Action) :
    ((i.stopDelayIfArmed out).1.armMasterDown d out').1.Armed ↔ i.genSeq + 1#64 ≠ 0#64 := by
  rw [armed_armMasterDown_iff ((stopDelayIfArmed_state _ _).trans hs)
    ((stopDelayIfArmed_advArmedGen _ _).trans hadv), stopDelayIfArmed_genSeq]

lemma armed_armAdvert_iff (hs : i.state = .master) (hmd : i.mdArmedGen = 0#64)
    (hpd : i.pdArmedGen = 0#64) (out : List Action) :
    (i.armAdvert out).1.Armed ↔ i.genSeq + 1#64 ≠ 0#64 := by
  rw [armed_master_iff (i := (i.armAdvert out).1) hs]
  exact and_iff_left ⟨hmd, hpd⟩

lemma armed_shutdown (now : ℕ) : (i.stopAllTimers.setState now .init).Armed :=
  ⟨rfl, rfl, rfl⟩

lemma armed_promoteToMaster_iff (now : ℕ) (reason : Reason) :
    (i.promoteToMaster now reason).1.Armed ↔ i.genSeq + 1#64 ≠ 0#64 := by
  unfold promoteToMaster
  dsimp only
  exact armed_armAdvert_iff rfl rfl rfl _

lemma backupAdvert_gens (hs : i.state = .backup) (now : ℕ) (e : AdvertReceived) :
    (i.backupAdvert now e).1.state = .backup ∧
      (i.backupAdvert now e).1.advArmedGen = i.advArmedGen ∧
      (i.backupAdvert now e).1.mdArmedGen =
        if i.draws (.advertReceived e) = 0#64 then i.mdArmedGen
        else i.genSeq + i.draws (.advertReceived e) := by
  have hdraws : i.draws (.advertReceived e) =
      if e.priority = 0#8 ∨ i.cfg.preempt = false ∨ i.cfg.priority ≤ e.priority then 1#64
      else if i.cfg.preemptDelayMs = 0 then 0#64
      else if i.pdArmedGen = 0#64 then 2#64
      else 1#64 := by
    rw [draws, hs]
  rw [hdraws]
  unfold backupAdvert
  by_cases hzero : e.priority = 0#8
  · simp [hzero, recordAdvert, armMasterDown, hs]
  by_cases hfollow : i.cfg.preempt = false ∨ i.cfg.priority ≤ e.priority
  · simp [hzero, hfollow, recordAdvert, armMasterDown, hs]
  by_cases hdelay : i.cfg.preemptDelayMs = 0
  · simp [hzero, hfollow, hdelay, recordAdvert, hs]
  by_cases hpd : i.pdArmedGen = 0#64
  · have htwo : i.genSeq + 1#64 + 1#64 = i.genSeq + 2#64 := by
      rw [BitVec.add_assoc]
      rfl
    simp [hzero, hfollow, hdelay, hpd, recordAdvert, armMasterDown, armPreemptDelay, hs, htwo]
  · simp [hzero, hfollow, hdelay, hpd, recordAdvert, armMasterDown, hs]

lemma armed_backupAdvert_iff (h : i.Armed) (hs : i.state = .backup) (now : ℕ) (e : AdvertReceived) :
    (i.backupAdvert now e).1.Armed ↔ i.Fresh (.advertReceived e) := by
  obtain ⟨hmd, hadv⟩ := (armed_backup_iff hs).1 h
  obtain ⟨hs', hadv', hmd'⟩ := backupAdvert_gens hs now e
  rw [armed_backup_iff hs', hadv', hmd', and_iff_left hadv, Fresh]
  split_ifs with hnone
  · exact iff_of_true hmd fun hne => absurd hnone hne
  · exact ⟨fun hne _ => hne, fun hfresh => hfresh hnone⟩

lemma armed_masterAdvert_iff (h : i.Armed) (hs : i.state = .master) (now : ℕ) (e : AdvertReceived) :
    (i.masterAdvert now e).1.Armed ↔ i.Fresh (.advertReceived e) := by
  obtain ⟨hadv, hmd, hpd⟩ := (armed_master_iff hs).1 h
  have hdraws : i.draws (.advertReceived e) =
      if e.priority = 0#8 ∨ i.cfg.priority < e.priority ∨
          (e.priority = i.cfg.priority ∧ i.senderWinsTieBreak e.srcIP) then 1#64
      else 0#64 := by
    rw [draws, hs]
  have hkept : (i.recordAdvert now e).Armed := h.congr rfl fun role => by rcases role <;> rfl
  unfold masterAdvert
  dsimp only
  by_cases hzero : e.priority = 0#8
  · rw [if_pos hzero, fresh_iff_of_one (hdraws.trans (if_pos (.inl hzero)))]
    exact armed_armAdvert_iff (i := i.recordAdvert now e) hs hmd hpd _
  rw [if_neg hzero]
  by_cases hwins : i.cfg.priority < e.priority ∨
      (e.priority = i.cfg.priority ∧ i.senderWinsTieBreak e.srcIP)
  · rw [fresh_iff_of_one (hdraws.trans (if_pos (.inr hwins)))]
    have hcond : (i.recordAdvert now e).cfg.priority < e.priority ∨
        (e.priority = (i.recordAdvert now e).cfg.priority ∧
          (i.recordAdvert now e).senderWinsTieBreak e.srcIP) := hwins
    rw [if_pos hcond]
    unfold demoteToBackup
    dsimp only
    rw [adoptInterval_eq]
    exact armed_armMasterDown_iff rfl rfl _ _
  · have hcond : ¬ ((i.recordAdvert now e).cfg.priority < e.priority ∨
        (e.priority = (i.recordAdvert now e).cfg.priority ∧
          (i.recordAdvert now e).senderWinsTieBreak e.srcIP)) := hwins
    rw [if_neg hcond]
    refine iff_of_true ?_ (fresh_of_none (hdraws.trans (if_neg (not_or.2 ⟨hzero, hwins⟩))))
    split_ifs <;> exact hkept

lemma armed_handle_iff (h : i.Armed) (now : ℕ) (ev : Event) :
    (i.handle now ev).1.Armed ↔ i.Fresh ev := by
  rcases ev with config | _ | e | gen | gen | gen | config | address
  case sourceAddressChanged =>
    exact iff_of_true (h.congr rfl fun role => by rcases role <;> rfl) (fresh_of_none rfl)
  all_goals
    unfold Instance.handle
    dsimp only
    rcases hs : i.state with _ | _ | _ <;> dsimp only
  case startup.init =>
    unfold handleInitialize
    dsimp only
    by_cases hzero : config.priority = 0#8
    · rw [if_pos hzero]
      refine iff_of_true (h.congr rfl fun role => by rcases role <;> rfl) (fresh_of_none ?_)
      rw [draws, if_neg fun hand => hand.2 hzero]
    · rw [if_neg hzero, fresh_iff_of_one (by rw [draws, if_pos ⟨hs, hzero⟩])]
      split_ifs
      · exact armed_promoteToMaster_iff (i := { i with cfg := config }) now .startupOwner
      · unfold enterBackupFromInitialize
        dsimp only
        exact armed_armMasterDown_iff rfl rfl _ _
  case configUpdated.init =>
    refine iff_of_true (h.congr rfl fun role => by rcases role <;> rfl) (fresh_of_none ?_)
    rw [draws, if_pos hs]
  case shutdown.backup => exact iff_of_true (armed_shutdown now) (fresh_of_none rfl)
  case shutdown.master => exact iff_of_true (armed_shutdown now) (fresh_of_none rfl)
  case advertReceived.backup => exact armed_backupAdvert_iff h hs now e
  case advertReceived.master => exact armed_masterAdvert_iff h hs now e
  case masterDownExpired.backup =>
    unfold handleBackup
    dsimp only
    split_ifs with hgen
    · rw [fresh_iff_of_one (by rw [draws, if_pos ⟨hs, hgen⟩])]
      exact armed_promoteToMaster_iff now _
    · refine iff_of_true h (fresh_of_none ?_)
      rw [draws, if_neg fun hand => hgen hand.2]
  case preemptDelayExpired.backup =>
    unfold handleBackup
    dsimp only
    split_ifs with hgen
    · rw [fresh_iff_of_one (by rw [draws, if_pos ⟨hs, hgen⟩])]
      exact armed_promoteToMaster_iff now _
    · refine iff_of_true h (fresh_of_none ?_)
      rw [draws, if_neg fun hand => hgen hand.2]
  case configUpdated.backup =>
    have hadv := ((armed_backup_iff hs).1 h).2
    rw [fresh_iff_of_one (by rw [draws, hs]; rfl)]
    unfold handleBackup backupConfigUpdated
    dsimp only
    split_ifs
    · refine armed_restart_iff ?_ ?_ _ _ _
      · exact hs
      · exact hadv
    · refine armed_restart_iff ?_ ?_ _ _ _
      · exact hs
      · exact hadv
  case advertTimerExpired.master =>
    obtain ⟨hadv, hmd, hpd⟩ := (armed_master_iff hs).1 h
    unfold handleMaster
    dsimp only
    split_ifs with hgen
    · rw [fresh_iff_of_one (by rw [draws, if_pos ⟨hs, hgen⟩])]
      exact armed_armAdvert_iff hs hmd hpd _
    · refine iff_of_true h (fresh_of_none ?_)
      rw [draws, if_neg fun hand => hgen hand.2]
  case configUpdated.master =>
    obtain ⟨hadv, hmd, hpd⟩ := (armed_master_iff hs).1 h
    rw [fresh_iff_of_one (by rw [draws, hs]; rfl)]
    have hconfigured := armed_armAdvert_iff (i := { i with
      cfg := config, activeAdverIntervalMs := config.advertIntervalMs }) hs hmd hpd
      [.sendAdvert config.priority config.advertIntervalMs]
    unfold handleMaster masterConfigUpdated
    dsimp only
    split_ifs <;> exact hconfigured
  all_goals
    refine iff_of_true h (fresh_of_none ?_)
    simp [draws, hs]

end

lemma armedGen_of_acts {role : Role} {gen : BitVec 64} {now : ℕ}
    (h : i.handle now (role.expired gen) ≠ (i, [])) :
    i.armedGen role ≠ 0#64 ∧ i.armedGen role = gen := by
  have hmatch : ∀ armed, matches_ armed gen → armed ≠ 0#64 ∧ armed = gen := by
    intro armed hmatch
    rw [matches_, Bool.and_eq_true, bne_iff_ne, beq_iff_eq] at hmatch
    exact ⟨hmatch.1, hmatch.2.symm⟩
  apply hmatch
  by_contra hnot
  apply h
  rcases role <;> rcases hs : i.state <;>
    simp_all [Role.expired, Instance.handle, handleInitialize, handleBackup, handleMaster, armedGen]

end Instance

/-! ## Runs -/

/-- An instance and the actions the engine was given so far. Source: fsm.go Handle. -/
structure Traced where
  instance_ : Instance
  log : List Action

namespace Traced

/-- One event at a time of the clock. Source: fsm.go Handle. -/
def step (t : Traced) (timed : ℕ × Event) : Option Traced :=
  let (i, out) := t.instance_.handle timed.1 timed.2
  some ⟨i, t.log ++ out⟩

/-- The last timer that the event starts does not get the generation 0. Source: fsm.go
nextGen. -/
def Fresh (t : Traced) (timed : ℕ × Event) : Prop :=
  t.instance_.Fresh timed.2

instance (t : Traced) (timed : ℕ × Event) : Decidable (t.Fresh timed) :=
  inferInstanceAs (Decidable (t.instance_.Fresh timed.2))

/-- The timers go with the state, and an expiry acts only with the generation of the latest start
action of its role that no stop came after.
Source: fsm.go Handle, matches -/
def Kept (t : Traced) : Prop :=
  t.instance_.Armed ∧
    ∀ role gen now, t.instance_.handle now (role.expired gen) ≠ (t.instance_, []) →
      pending role t.log = some gen

lemma kept_iff {t : Traced} (h : t.instance_.Tracked t.log) : t.Kept ↔ t.instance_.Armed := by
  refine and_iff_left fun role gen now hacts => ?_
  obtain ⟨harmed, hgen⟩ := Instance.armedGen_of_acts hacts
  rw [h role harmed, hgen]

end Traced

/-- A new instance, of which the engine has been told nothing. Source: fsm.go New. -/
def traced (now : ℕ) (config : Config) : Traced := ⟨new now config, []⟩

/-- Along a run, every state goes with its timers and an expiry acts only with the generation of the
latest start of its role without a later stop, iff no event gives the generation 0 to the
last timer it starts. -/
theorem armed_iff_fresh (now : ℕ) (config : Config) (evs : List (ℕ × Event)) :
    (∀ pre post t, evs = pre ++ post → run Traced.step (traced now config) pre = some t →
      (match t.instance_.state with
        | .init => t.instance_.mdArmedGen = 0#64 ∧ t.instance_.advArmedGen = 0#64 ∧
            t.instance_.pdArmedGen = 0#64
        | .backup => t.instance_.mdArmedGen ≠ 0#64 ∧ t.instance_.advArmedGen = 0#64
        | .master => t.instance_.advArmedGen ≠ 0#64 ∧ t.instance_.mdArmedGen = 0#64 ∧
            t.instance_.pdArmedGen = 0#64) ∧
      ∀ role gen now', t.instance_.handle now' (role.expired gen) ≠ (t.instance_, []) →
        pending role t.log = some gen) ↔
      Meets Traced.step Traced.Fresh (traced now config) evs := by
  have hnew : (traced now config).instance_.Tracked (traced now config).log := by
    apply Instance.tracked_of_unarmed
    intro role
    rcases role <;> rfl
  have hinit : (traced now config).Kept := (Traced.kept_iff hnew).2 ⟨rfl, rfl, rfl⟩
  have howed : Meets Traced.step (fun _ _ => True) (traced now config) evs :=
    meets_of_forall (fun _ _ => trivial) evs _
  refine reached_iff_meets (I := fun t => t.instance_.Tracked t.log) (P := Traced.Kept)
    ?_ ?_ ?_ evs _ hnew hinit howed
  · intro t timed t' ht hkept _ h
    cases h
    rw [Traced.kept_iff (ht.handle timed.1 timed.2)]
    exact Instance.armed_handle_iff hkept.1 timed.1 timed.2
  · intro t timed h
    cases h
  · intro t timed t' ht _ h
    cases h
    exact ht.handle timed.1 timed.2

/-- A router of priority 100 at an interval of one second, and the owner of the same address.
Source: events.go Config -/
def plainConfig (isOwner : Bool) : Config :=
  ⟨3#8, isOwner, 100#8, true, 0, 1000, .zero, [], false⟩

/-- A router that becomes Master because its master-down timer expires. -/
theorem armed_after_promotion :
    ∀ pre post t, [(0, .startup (plainConfig false)), (4, .masterDownExpired 1#64)] = pre ++ post →
      run Traced.step (traced 0 (plainConfig false)) pre = some t →
      (match t.instance_.state with
        | .init => t.instance_.mdArmedGen = 0#64 ∧ t.instance_.advArmedGen = 0#64 ∧
            t.instance_.pdArmedGen = 0#64
        | .backup => t.instance_.mdArmedGen ≠ 0#64 ∧ t.instance_.advArmedGen = 0#64
        | .master => t.instance_.advArmedGen ≠ 0#64 ∧ t.instance_.mdArmedGen = 0#64 ∧
            t.instance_.pdArmedGen = 0#64) ∧
      ∀ role gen now', t.instance_.handle now' (role.expired gen) ≠ (t.instance_, []) →
        pending role t.log = some gen :=
  (armed_iff_fresh 0 (plainConfig false)
    [(0, .startup (plainConfig false)), (4, .masterDownExpired 1#64)]).2 (by decide)

lemma run_configUpdated (config : Config) (n : ℕ) :
    ∀ t : Traced, t.instance_.state = .master → t.instance_.advArmedGen = t.instance_.genSeq →
      ∃ t', run Traced.step t (replicate n (0, .configUpdated config)) = some t' ∧
        t'.instance_.state = .master ∧ t'.instance_.advArmedGen = t'.instance_.genSeq ∧
        t'.instance_.genSeq = t.instance_.genSeq + BitVec.ofNat 64 n := by
  induction n with
  | zero =>
    intro t hs hadv
    refine ⟨t, rfl, hs, hadv, ?_⟩
    simp
  | succ n ih =>
    intro t hs hadv
    have hhandle : t.instance_.handle 0 (.configUpdated config) =
        t.instance_.masterConfigUpdated config := by
      simp only [Instance.handle, hs, Instance.handleMaster]
    obtain ⟨t₁, h₁, hs₁, hadv₁, hgen₁⟩ : ∃ t₁, Traced.step t (0, .configUpdated config) = some t₁ ∧
        t₁.instance_.state = .master ∧ t₁.instance_.advArmedGen = t₁.instance_.genSeq ∧
        t₁.instance_.genSeq = t.instance_.genSeq + 1#64 := by
      refine ⟨⟨(t.instance_.masterConfigUpdated config).1,
        t.log ++ (t.instance_.masterConfigUpdated config).2⟩, ?_, ?_⟩
      · simp only [Traced.step, hhandle]
      unfold Instance.masterConfigUpdated
      dsimp only
      split_ifs <;> exact ⟨hs, rfl, rfl⟩
    obtain ⟨t', h', hs', hadv', hgen'⟩ := ih t₁ hs₁ hadv₁
    refine ⟨t', ?_, hs', hadv', ?_⟩
    · rw [replicate_succ, run_cons, h₁, Option.bind_some, h']
    · rw [hgen', hgen₁, BitVec.add_assoc]
      congr 1
      apply BitVec.eq_of_toNat_eq
      simp [Nat.add_comm]

/-- The 2^64-th timer that an instance starts gets the generation 0, and a master is left with no
armed timer. -/
theorem master_unarmed_after_wrap :
    ∃ t, run Traced.step (traced 0 (plainConfig true)) ((0, .startup (plainConfig true)) ::
        replicate (2 ^ 64 - 1) (0, .configUpdated (plainConfig true))) = some t ∧
      t.instance_.state = .master ∧ t.instance_.advArmedGen = 0#64 := by
  obtain ⟨t₁, h₁, hs₁, hadv₁, hgen₁⟩ : ∃ t₁, Traced.step (traced 0 (plainConfig true))
        (0, .startup (plainConfig true)) = some t₁ ∧ t₁.instance_.state = .master ∧
      t₁.instance_.advArmedGen = t₁.instance_.genSeq ∧ t₁.instance_.genSeq = 1#64 :=
    ⟨_, rfl, rfl, rfl, rfl⟩
  obtain ⟨t, h, hs, hadv, hgen⟩ := run_configUpdated (plainConfig true) (2 ^ 64 - 1) t₁ hs₁ hadv₁
  refine ⟨t, ?_, hs, ?_⟩
  · rw [run_cons, h₁, Option.bind_some, h]
  · rw [hadv, hgen, hgen₁]
    rfl

end Ze.Vrrp
