import Ze.Isis.Sequences
import Ze.Lib.Run

/-!
# Runs of the originator

Whether in every run the numbers of the system's own LSPs only go up (`Ordered`) and every pass
leaves nothing behind that it did not produce (`Regenerated`). The two levels share the counters of
an identifier, and a purge may repeat a number or leave fragments behind. `Steady` is a pass in
which none of this comes up.
-/

namespace Ze.Isis

open Ze.Lib List
open Originator (originateFragments)
open Function (update)

/-! ## Passes -/

namespace Originator

/-- After the pass every router LSP of the node that is not purged at the level was written by it,
with the TLVs of its fragment. Source: origination.go Originate. -/
def Regenerated (o : Originator) (pass : Pass) : Prop :=
  ∀ num < maxFragments, ∀ e, ((o.originate pass).1.db pass.level).lookup (pass.id num) = some e →
    e.purged = false →
    pass.id num ∈ (o.originate pass).2.originated ∧ pass.fragments[num]? = some e.raw.tlvs

/-- The walk over fragments that are no longer produced gets as far as a number: all before it are
stored. Source: origination.go purgeStaleFragmentsLocked. -/
def Reached (o : Originator) (pass : Pass) (num : ℕ) : Prop :=
  ∀ k ≤ num, pass.fragments.length ≤ k → ((o.db pass.level).lookup (pass.id k)).isSome = true

/-- A pass in which the numbers of no identifier run out or start again that the other level has
written, no fragment that is found to be stale stands at the last number, and none that is live is
behind a gap. -/
def Steady (o : Originator) : Op → Prop
  | .originate pass =>
    (∀ num < pass.fragments.length, o.lastSeq (pass.id num) = some maxSequenceNumber ∨
        (o.suspendUntil (pass.id num)).any (· ≤ o.now) = true →
      lastOf pass.level.other (pass.id num) o.writes = none) ∧
    ∀ num < maxFragments, pass.fragments.length ≤ num →
      ∀ e, (o.db pass.level).lookup (pass.id num) = some e →
        (o.Reached pass num → e.sequence ≠ maxSequenceNumber) ∧ (¬ o.Reached pass num → e.purged =
          true)
  | _ => True

instance (o : Originator) (pass : Pass) (num : ℕ) : Decidable (o.Reached pass num) :=
  inferInstanceAs (Decidable (∀ k ≤ num, pass.fragments.length ≤ k → _ = true))

instance (o : Originator) : (op : Op) → Decidable (o.Steady op)
  | .originate pass =>
    decidable_of_iff
      ((∀ num < pass.fragments.length, o.lastSeq (pass.id num) = some maxSequenceNumber ∨
          (o.suspendUntil (pass.id num)).any (· ≤ o.now) = true →
        (lastOf pass.level.other (pass.id num) o.writes).isNone = true) ∧
      ∀ num < maxFragments, pass.fragments.length ≤ num →
        ((o.db pass.level).lookup (pass.id num)).all (fun e => decide
          ((o.Reached pass num → e.sequence ≠ maxSequenceNumber) ∧
            (¬ o.Reached pass num → e.purged = true))) = true)
      (by simp only [Steady, Option.isNone_iff_eq_none, Option.all_eq_true, decide_eq_true_eq])
  | .raiseSequenceFloor _ _ => isTrue trivial
  | .tick => isTrue trivial
  | .wait _ => isTrue trivial

end Originator

instance (p w : Write) : Decidable (p.Follows w) := inferInstanceAs (Decidable (_ ∨ _ ∨ _))

instance decidableOrdered : (ws : List Write) → Decidable (Ordered ws)
  | [] => isTrue trivial
  | w :: ws =>
    have := decidableOrdered ws
    decidable_of_iff
      ((lastOf w.lsp.level w.lsp.lspId ws).all (fun p => decide (p.Follows w)) = true ∧ Ordered ws)
      (by simp only [Ordered, Option.all_eq_true, decide_eq_true_eq])

/-! ## A pass -/

structure Originator.Sound (o : Originator) : Prop where
  good : ∀ id, (o.track id).Good
  ordered : Ordered o.writes

/-- The numbers of the identifier neither run out nor start again at a level while the other has
written it. -/
def Track.OneLevel (t : Track) (level : Level) (now : ℕ) : Prop :=
  t.lastSeq = some maxSequenceNumber ∨ t.suspendUntil.any (· ≤ now) = true → t.last level.other =
    none

section

variable {pass : Pass} {o : Originator}

lemma Pass.id_ne {num k : ℕ} (hnum : num < maxFragments) (hk : k < maxFragments) (hne : num ≠ k) :
    pass.id num ≠ pass.id k := by
  intro h
  have hval : pass.systemID.val * 2 ^ 16 + num % 256 = pass.systemID.val * 2 ^ 16 + k % 256 :=
    congrArg Fin.val h
  unfold maxFragments at hnum hk
  omega

lemma Pass.lifetime_ne_zero (pass : Pass) : pass.lifetime ≠ 0 := by
  unfold Pass.lifetime
  split_ifs with h
  · decide
  · exact h

lemma Originator.Sound.of_kept {level : Level} {id : LspId} {tlvs : List UInt8}
    {r : Originator × Bool × Bool} (h : o.Sound) (hk : Kept o level id tlvs r)
    (hframe : ∀ id' ≠ id, r.1.track id' = o.track id') : r.1.Sound := by
  refine ⟨fun id' => ?_, hk.2.1 h.ordered⟩
  by_cases heq : id' = id
  · rw [heq]
    exact hk.1
  · rw [hframe id' heq]
    exact h.good id'

lemma OriginateResult.mem_report {res : OriginateResult} {id x : LspId} {wrote wrapped : Bool}
    (h : x ∈ res.originated) : x ∈ (res.report id wrote wrapped).originated := by
  unfold OriginateResult.report
  split_ifs
  · exact h
  · exact mem_append_left _ h
  · exact h

lemma OriginateResult.mem_report_self (res : OriginateResult) (id : LspId) :
    id ∈ (res.report id true false).originated := by
  unfold OriginateResult.report
  exact mem_append_right _ (mem_singleton.2 rfl)

lemma originateFragments_spec (frags : List (List UInt8)) (num : ℕ) (res : OriginateResult)
    (h : o.Sound) (hbound : num + frags.length ≤ maxFragments)
    (hone : ∀ k, num ≤ k → k < num + frags.length →
      (o.track (pass.id k)).OneLevel pass.level o.now) :
    (originateFragments pass num frags o res).1.Sound ∧
      (∀ id, (∀ k, num ≤ k → k < num + frags.length → id ≠ pass.id k) →
        (originateFragments pass num frags o res).1.track id = o.track id) ∧
      (∀ id ∈ res.originated, id ∈ (originateFragments pass num frags o
        res).2.originated) ∧
      ∀ (i : ℕ) (e : Entry), i < frags.length →
        ((originateFragments pass num frags o res).1.track
          (pass.id (num + i))).entry pass.level
          = some e →
        e.purged = false →
        pass.id (num + i) ∈ (originateFragments pass num frags o res).2.originated ∧
          frags[i]? = some e.raw.tlvs := by
  induction frags generalizing num o res with
  | nil => exact ⟨h, fun _ _ => rfl, fun _ h => h, fun _ _ hi => absurd hi (Nat.not_lt_zero _)⟩
  | cons tlvs rest ih =>
    rw [length_cons] at hbound hone
    simp only [originateFragments]
    generalize hr : o.originateFragment pass.level (pass.id num)
      (lspTypeBlock pass.level pass.overload (num == 0)) pass.lifetime tlvs = r
    have hkept : Kept o pass.level (pass.id num) tlvs r := by
      rw [← hr]
      exact kept_originateFragment (h.good _) (hone num le_rfl (by omega)) pass.lifetime_ne_zero
    obtain ⟨hnow, hframe⟩ : r.1.now = o.now ∧ ∀ id' ≠ pass.id num, r.1.track id' = o.track id' := by
      rw [← hr]
      exact originateFragment_frame
    have hsound := h.of_kept hkept hframe
    have hone' : ∀ k, num + 1 ≤ k → k < num + 1 + rest.length →
        (r.1.track (pass.id k)).OneLevel pass.level r.1.now := by
      intro k hk hlt
      rw [hframe _ (Pass.id_ne (by omega) (by omega) (by omega)), hnow]
      exact hone k (by omega) (by omega)
    obtain ⟨hsound', htrack, hres, hlive⟩ :=
      ih (num + 1) (res.report (pass.id num) r.2.1 r.2.2) hsound (by omega) hone'
    refine ⟨hsound', fun id hid => ?_, fun id hid => ?_, fun i e hi he hp => ?_⟩
    · rw [htrack id fun k hk hlt => hid k (by omega) (by rw [length_cons]; omega)]
      exact hframe id (hid num le_rfl (by rw [length_cons]; omega))
    · exact hres id (OriginateResult.mem_report hid)
    · rcases i with _ | i
      · -- the first fragment is not touched again
        have hself : (originateFragments pass (num + 1) rest r.1
            (res.report (pass.id num) r.2.1 r.2.2)).1.track (pass.id num) =
              r.1.track (pass.id num) :=
          htrack _ fun k hk hlt => Pass.id_ne (by omega) (by omega) (by omega)
        rw [Nat.add_zero num] at he ⊢
        rw [hself] at he
        obtain ⟨hwrote, htlvs⟩ := hkept.2.2 e he hp
        refine ⟨hres _ ?_, by rw [htlvs]; rfl⟩
        rw [hwrote]
        exact res.mem_report_self _
      · rw [show num + (i + 1) = num + 1 + i by omega] at he ⊢
        rw [length_cons] at hi
        obtain ⟨h1, h2⟩ := hlive i e (by omega) he hp
        exact ⟨h1, h2⟩

lemma purgeStaleFragments_spec (pass : Pass) (num n : ℕ) (h : o.Sound)
    (hbound : num + n ≤ maxFragments)
    (hmax : ∀ k e, num ≤ k → k < num + n → (o.track (pass.id k)).entry pass.level = some e →
      (∀ j ≤ k, num ≤ j → ((o.track (pass.id j)).entry pass.level).isSome) →
      e.sequence ≠ maxSequenceNumber) :
    (Originator.purgeStaleFragments pass num n o).1.Sound ∧
      (∀ id, (∀ k, num ≤ k → k < num + n → id ≠ pass.id k) →
        (Originator.purgeStaleFragments pass num n o).1.track id = o.track id) ∧
      ∀ k e, num ≤ k → k < num + n →
        ((Originator.purgeStaleFragments pass num n o).1.track (pass.id k)).entry pass.level =
          some e →
        e.purged = false →
        (o.track (pass.id k)).entry pass.level = some e ∧
          ¬ ∀ j ≤ k, num ≤ j → ((o.track (pass.id j)).entry pass.level).isSome := by
  induction n generalizing num o with
  | zero =>
    refine ⟨h, fun _ _ => rfl, fun k e hk hlt => ?_⟩
    omega
  | succ n ih =>
    simp only [Originator.purgeStaleFragments]
    rcases hlook : (o.db pass.level).lookup (pass.id num) with _ | e₀
    · refine ⟨h, fun _ _ => rfl, fun k e hk hlt he _ => ⟨he, fun hall => ?_⟩⟩
      have := hall num hk le_rfl
      rw [show (o.track (pass.id num)).entry pass.level = none from hlook] at this
      cases this
    · simp only
      have he₀ : (o.track (pass.id num)).entry pass.level = some e₀ := hlook
      have hkept : Kept o pass.level (pass.id num) [] (o.purgeStale pass.level (pass.id num)
          (lspTypeBlock pass.level false (num == 0)), false, false) := by
        refine kept_purgeStale (h.good _) he₀ (hmax num e₀ le_rfl (by omega) he₀ fun j hj hj' => ?_)
        obtain rfl : j = num := by omega
        rw [he₀]
        rfl
      obtain ⟨-, hframe⟩ := purgeStale_frame o pass.level (pass.id num)
        (lspTypeBlock pass.level false (num == 0))
      have hsound := h.of_kept hkept hframe
      generalize hr : o.purgeStale pass.level (pass.id num) (lspTypeBlock pass.level false (num ==
        0)) = r
        at hkept hframe hsound ⊢
      have hentry : ∀ k, num + 1 ≤ k → k < num + (n + 1) →
          (r.track (pass.id k)).entry pass.level = (o.track (pass.id k)).entry pass.level := by
        intro k hk hlt
        rw [hframe _ (Pass.id_ne (by omega) (by omega) (by omega))]
      -- the walk from the next number reaches what the walk from this one does
      have hreach : ∀ k, num + 1 ≤ k → k < num + (n + 1) →
          ((∀ j ≤ k, num + 1 ≤ j → ((r.track (pass.id j)).entry pass.level).isSome) ↔
            ∀ j ≤ k, num ≤ j → ((o.track (pass.id j)).entry pass.level).isSome) := by
        intro k hk hlt
        constructor
        · intro hall j hj hj'
          by_cases hjn : j = num
          · rw [hjn, he₀]
            rfl
          · rw [← hentry j (by omega) (by omega)]
            exact hall j hj (by omega)
        · intro hall j hj hj'
          rw [hentry j hj' (by omega)]
          exact hall j hj (by omega)
      obtain ⟨hsound', htrack, hlive⟩ := ih (num + 1) hsound (by omega) fun k e hk hlt he hall => by
        rw [hentry k hk (by omega)] at he
        exact hmax k e (by omega) (by omega) he ((hreach k hk (by omega)).1 hall)
      refine ⟨hsound', fun id hid => ?_, fun k e hk hlt he hp => ?_⟩
      · rw [htrack id fun k hk hlt => hid k (by omega) (by omega)]
        exact hframe id (hid num le_rfl (by omega))
      · by_cases hkn : k = num
        · subst hkn
          rw [htrack _ fun j hj hlt => Pass.id_ne (by omega) (by omega) (by omega)] at he
          have := (hkept.2.2 e he hp).1
          cases this
        · obtain ⟨h1, h2⟩ := hlive k e (by omega) (by omega) he hp
          rw [hentry k (by omega) hlt] at h1
          exact ⟨h1, fun hall => h2 ((hreach k (by omega) hlt).2 hall)⟩

lemma originate_spec (h : o.Sound) (hsteady : o.Steady (.originate pass)) :
    (o.originate pass).1.Sound ∧ o.Regenerated pass := by
  obtain ⟨hone, hstale⟩ := hsteady
  have hlen := pass.bounded
  obtain ⟨hsound, htrack, -, hlive⟩ := originateFragments_spec pass.fragments 0 {} h
    (by omega) fun k _ hk => hone k (by omega)
  generalize hr : originateFragments pass 0 pass.fragments o {} = r
    at hsound htrack hlive
  -- the fragments of the pass leave the others alone
  have hentry : ∀ k, pass.fragments.length ≤ k → k < maxFragments →
      (r.1.track (pass.id k)).entry pass.level = (o.db pass.level).lookup (pass.id k) := by
    intro k hk hlt
    rw [htrack _ fun j _ hj => Pass.id_ne hlt (by omega) (by omega)]
    rfl
  have hreach : ∀ k < maxFragments,
      ((∀ j ≤ k, pass.fragments.length ≤ j → ((r.1.track (pass.id j)).entry pass.level).isSome =
        true) ↔
        o.Reached pass k) := by
    intro k hk
    refine forall₂_congr fun j hj => forall_congr' fun hj' => ?_
    rw [hentry j hj' (by omega)]
  obtain ⟨hsound', htrack', hlive'⟩ := purgeStaleFragments_spec pass pass.fragments.length
    (maxFragments - pass.fragments.length) hsound (by omega) fun k e hk hlt he hall => by
      rw [hentry k hk (by omega)] at he
      exact (hstale k (by omega) hk e he).1 ((hreach k (by omega)).1 hall)
  unfold Originator.Regenerated Originator.originate
  simp only
  rw [hr]
  refine ⟨hsound', fun num hnum e he hp => ?_⟩
  by_cases hprod : num < pass.fragments.length
  · have hself := htrack' (pass.id num) fun k hk hlt => Pass.id_ne hnum (by omega) (by omega)
    have hlive := hlive num e hprod
    rw [Nat.zero_add] at hlive
    refine hlive ?_ hp
    rw [← hself]
    exact he
  · obtain ⟨h1, h2⟩ := hlive' num e (by omega) (by omega) he hp
    rw [hentry num (by omega) hnum] at h1
    rw [hreach num hnum] at h2
    rw [(hstale num hnum (by omega) e h1).2 h2] at hp
    cases hp

end

/-! ## Runs -/

section

variable {o : Originator}

lemma Entry.tick_spec {e e' : Entry} {now : ℕ} (h : (e.tick now).1 = some e') :
    e'.sequence = e.sequence ∧ (e.purged → e'.purged) := by
  unfold Entry.tick Entry.markPurged at h
  simp only at h
  split_ifs at h with h1 h2 h3 h4 h5
  all_goals
    cases h
    exact ⟨rfl, fun h => by first | rfl | exact h⟩

lemma Originator.Sound.tick (h : o.Sound) : o.tick.Sound := by
  refine ⟨fun id => ⟨?_, ?_⟩, h.ordered⟩
  · intro level e he
    have hlook : ((o.db level).lookup id).bind (fun e => (e.tick o.now).1) = some e := by
      rw [← SortedMap.lookup_filterMap]
      exact he
    obtain ⟨e₀, he₀, htick⟩ := Option.bind_eq_some_iff.1 hlook
    obtain ⟨hseq, hpurged⟩ := Entry.tick_spec htick
    obtain ⟨w, hw, hwseq, hwp⟩ := (h.good id).written level e₀ he₀
    exact ⟨w, hw, hseq.trans hwseq, fun hz => hpurged (hwp hz)⟩
  · rcases (h.good id).state with hc | ⟨a, v, hs⟩
    · exact .inl ⟨hc.active, hc.bounded, hc.last⟩
    · exact .inr ⟨a, v, hs.last, hs.number, hs.purge, hs.deadline, hs.forgotten, hs.alone⟩

lemma Originator.Sound.raiseSequenceFloor (h : o.Sound) (id : LspId) (seq : Fin (2 ^ 32)) :
    (o.raiseSequenceFloor id seq).1.Sound := by
  unfold Originator.raiseSequenceFloor
  split
  · exact h
  · rename_i prev hprev
    split_ifs with hlt hanswered
    · exact h
    · exact h
    · refine ⟨fun id' => ?_, h.ordered⟩
      by_cases hid : id' = id
      · subst hid
        have hseq : (update o.lastSeq id' (some seq.val)) id' = some seq.val :=
          Function.update_self ..
        refine ⟨(h.good id').written, ?_⟩
        rcases (h.good id').state with hc | ⟨a, v, hs⟩
        · refine .inl ⟨hc.active, fun m hm => ?_, fun level w hw => ⟨seq, hseq, ?_⟩⟩
          · have hm' : seq.val = m := Option.some.inj (hseq.symm.trans hm)
            unfold maxSequenceNumber
            omega
          · obtain ⟨m, hm, hle⟩ := hc.last level w hw
            have hm' : prev = m := Option.some.inj (hprev.symm.trans hm)
            omega
        · rw [show o.lastSeq id' = none from hs.forgotten] at hprev
          cases hprev
      · have hsame : (update o.lastSeq id (some seq.val)) id' = o.lastSeq id' :=
          Function.update_of_ne hid ..
        have htrack : ({ o with
            answeredClaim := update o.answeredClaim id (some seq.val)
            lastSeq := update o.lastSeq id (some seq.val) } : Originator).track id'
              = o.track id' := by
          unfold Originator.track
          simp only [hsame]
        rw [htrack]
        exact h.good id'

lemma sound_new (checksumOf : Lsp → ℕ) : (Originator.new checksumOf).Sound := by
  refine ⟨fun id => ⟨?_, .inl ⟨rfl, ?_, ?_⟩⟩, trivial⟩
  · rintro level e ⟨⟩
  · rintro m ⟨⟩
  · rintro level w ⟨⟩

lemma sound_step {op : Originator.Op} (h : o.Sound) (hsteady : o.Steady op) :
    ∃ o', o.step op = some o' ∧ o'.Sound := by
  cases op with
  | originate pass => exact ⟨_, rfl, (originate_spec h hsteady).1⟩
  | raiseSequenceFloor id seq => exact ⟨_, rfl, h.raiseSequenceFloor id seq⟩
  | tick => exact ⟨_, rfl, h.tick⟩
  | wait seconds =>
    refine ⟨_, rfl, fun id => ⟨(h.good id).written, ?_⟩, h.ordered⟩
    rcases (h.good id).state with hc | ⟨a, v, hs⟩
    · exact .inl ⟨hc.active, hc.bounded, hc.last⟩
    · exact .inr ⟨a, v, hs.last, hs.number, hs.purge, hs.deadline, hs.forgotten, hs.alone⟩

/-- **In every run of steady steps** the numbers of each identifier go up at each level, and start
again from 1 only after the purge at the last one and a full suspension; and after every pass, every
router LSP of the node that is not purged is one that the pass wrote. -/
theorem steady_runs (checksumOf : Lsp → ℕ) (ops : List Originator.Op)
    (hsteady : Meets Originator.step Originator.Steady (Originator.new checksumOf) ops) :
    ∃ o, run Originator.step (Originator.new checksumOf) ops = some o ∧ Ordered o.writes ∧
      ∀ before pass, before ++ [.originate pass] <+: ops →
        ∀ o₀, run Originator.step (Originator.new checksumOf) before = some o₀ →
          o₀.Regenerated pass := by
  obtain ⟨o, hrun, hsound⟩ :=
    run_total (fun _ _ h hs => sound_step h hs) ops _ (sound_new checksumOf)
    hsteady
  refine ⟨o, hrun, hsound.ordered, ?_⟩
  rintro before pass ⟨rest, rfl⟩ o₀ hrun₀
  have hmeets := Meets.of_append _ _ hsteady
  have hcond := Meets.after _ _ _ hmeets hrun₀
  have hsound₀ : o₀.Sound := by
    refine run_keeps (fun s op s' h hs hstep => ?_) before _ o₀ (sound_new checksumOf)
      (Meets.of_append _ _ hmeets) hrun₀
    obtain ⟨o', ho', hsound'⟩ := sound_step h hs
    rw [Option.some.inj (hstep.symm.trans ho')]
    exact hsound'
  exact (originate_spec hsound₀ hcond).2

end

def nodePass (level : Level) (fragments : List (List UInt8)) (h : fragments ≠ [])
    (hlen : fragments.length ≤ maxFragments) : Originator.Op :=
  .originate { level, systemID := 1, fragments, nonempty := h, bounded := hlen }

/-- Both levels, a fragment more at level 1 for a while, a claim of another system, and time. -/
def quietRun : List Originator.Op :=
  [nodePass .l1 [[1], [2]] (by decide) (by decide), nodePass .l2 [[1]] (by decide) (by decide),
    .tick,
    .wait 1, nodePass .l1 [[3]] (by decide) (by decide), .raiseSequenceFloor (fragmentId 1 0) 9,
    nodePass .l1 [[4]] (by decide) (by decide)]

theorem steady_quietRun :
    ∃ o, run Originator.step (Originator.new fun _ => 0) quietRun = some o ∧ Ordered o.writes ∧
      ∀ before pass, before ++ [.originate pass] <+: quietRun →
        ∀ o₀, run Originator.step (Originator.new fun _ => 0) before = some o₀ →
          o₀.Regenerated pass :=
  steady_runs (fun _ => 0) quietRun (by decide +kernel)

/-- Both levels, a claim at the last number, a pass at level 1, the suspension, and a pass at level
2. -/
def wrapRun : List Originator.Op :=
  [nodePass .l1 [[1]] (by decide) (by decide), nodePass .l2 [[1]] (by decide) (by decide),
    .raiseSequenceFloor (fragmentId 1 0) (Fin.last _), nodePass .l1 [[1]] (by decide) (by decide),
    .wait 1260, nodePass .l2 [[1]] (by decide) (by decide)]

/-- The numbers ran out at level 1, and start again at level 2, where nothing was purged. -/
theorem restart_at_other_level :
    ∃ o, run Originator.step (Originator.new fun _ => 0) wrapRun = some o ∧
      o.writes.map (fun w => (w.lsp.level, w.lsp.sequence, w.lsp.lifetime))
        = [(.l2, 1, 1200), (.l1, maxSequenceNumber, 0), (.l2, 2, 1200), (.l1, 1, 1200)] ∧
      ¬ Ordered o.writes :=
  ⟨_, rfl, by decide +kernel, by decide +kernel⟩

end Ze.Isis
