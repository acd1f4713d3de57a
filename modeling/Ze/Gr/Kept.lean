import Mathlib.Data.List.Dedup
import Ze.Gr.Book

/-!
# Every operation keeps the book

One lemma for every operation of the manager; `Inv.step` puts them together.
-/

namespace Ze.Gr

open List
open Function (update)

variable {F : Type} {c c' : Cell F} {s s' : PeerState F}

/-- The timers of an owned cell belong to the state that it has. -/
lemma Owned.ownedBy (hown : Owned c) (hs : c.state = some s) : OwnedBy c s := by
  intro id t f ht hfam hns
  obtain ⟨s₀, hs₀, h⟩ := hown id t f ht hfam hns
  rw [hs] at hs₀
  cases hs₀
  exact h

/-! ## Stopping everything -/

lemma stopAll_spec (c : Cell F) (s : PeerState F) :
    Fewer c ((c.stopRestart s).stopLLSTTimersLocked s) ∧
      (∀ x ∈ s.llgr, ∀ t, ((c.stopRestart s).stopLLSTTimersLocked s).timers x.2 = some t →
        t.stopped) ∧
      { (c.stopRestart s).stopLLSTTimersLocked s with timers := c.timers } = c := by
  obtain ⟨hfew, -, hstopped, hframe⟩ := stop_foldl s.llgr (c.stopRestart s)
  have hrestart : Fewer c (c.stopRestart s) ∧ { c.stopRestart s with timers := c.timers } = c := by
    unfold Cell.stopRestart
    cases s.restartTimer with
    | none => exact ⟨Fewer.refl c, rfl⟩
    | some id => exact ⟨fewer_stop c id, rfl⟩
  refine ⟨hrestart.1.trans hfew, hstopped, ?_⟩
  have hrest := congrArg (fun d : Cell F => { d with timers := c.timers }) hframe
  exact hrest.trans hrestart.2

lemma Numbers.stopAll (hn : Numbers c) (hown : Owned c) (hs : c.state = some s) (r : ℕ)
    (st : Option (PeerState F)) :
    Numbers { (c.stopRestart s).stopLLSTTimersLocked s with reestablished := r, state := st } ∧
      ∀ id t f, ((c.stopRestart s).stopLLSTTimersLocked s).timers id = some t →
        t.family = some f → t.stopped := by
  obtain ⟨hfew, hstopped, hframe⟩ := stopAll_spec c s
  generalize (c.stopRestart s).stopLLSTTimersLocked s = d at hfew hstopped hframe
  constructor
  · refine hn.fewer hfew ?_ ?_ ?_ ?_ <;> rw [← hframe]
  · intro id t f ht hfam
    by_contra hns
    have hns' : t.stopped = false := by simpa using hns
    obtain ⟨t₀, ht₀, -, hfam₀, -, himp⟩ := hfew id t ht
    have hin := (hown.ownedBy hs id t₀ f ht₀ (hfam₀ ▸ hfam) (himp hns')).2
    exact hns (hstopped _ hin t ht)

lemma Owned.stopped (hown : Owned c) (hnone : c.state = none) :
    ∀ id t f, c.timers id = some t → t.family = some f → t.stopped := by
  intro id t f ht hfam
  by_contra hns
  obtain ⟨s, hs, -⟩ := hown id t f ht hfam (by simpa using hns)
  rw [hnone] at hs
  cases hs

lemma Numbers.clearPeerLocked (hn : Numbers c) (hown : Owned c) :
    Inv c.clearPeerLocked ∧ c.clearPeerLocked.state = none := by
  unfold Cell.clearPeerLocked
  cases hs : c.state with
  | none => exact ⟨hn.inv_of_none hs (hown.stopped hs), hs⟩
  | some s =>
    obtain ⟨hnum, hst⟩ :=
      hn.stopAll hown hs ((c.stopRestart s).stopLLSTTimersLocked s).reestablished none
    exact ⟨hnum.inv_of_none rfl hst, rfl⟩

/-! ## The session goes down -/

section

variable [DecidableEq F]

lemma mem_staleFamilies {cap : GrCap F} {llgrCap : Option (LlgrCap F)} {f : F}
    (h : f ∈ (Cell.staleFamilies cap llgrCap).1) :
    f ∈ cap.families.map (·.1) ∨ f ∈ (Cell.staleFamilies cap llgrCap).2 := by
  suffices hfold : ∀ (fams : List (LlgrFamily F)) (x : List F × List F),
      (∀ g ∈ x.1, g ∈ cap.families.map (·.1) ∨ g ∈ x.2) →
      ∀ g ∈ (fams.foldl (fun x f => if f.family ∈ x.1 ∨ f.llst = 0 then x
          else (x.1 ++ [f.family], x.2 ++ [f.family])) x).1,
        g ∈ cap.families.map (·.1) ∨
          g ∈ (fams.foldl (fun x f => if f.family ∈ x.1 ∨ f.llst = 0 then x
            else (x.1 ++ [f.family], x.2 ++ [f.family])) x).2 by
    exact hfold _ _ (fun g hg => .inl (mem_dedup.1 hg)) f h
  intro fams
  induction fams with
  | nil =>
    intro x hx
    exact hx
  | cons e es ih =>
    intro x hx
    simp only [foldl_cons]
    refine ih _ fun g hg => ?_
    split_ifs at hg ⊢
    · exact hx g hg
    · rcases mem_append.1 hg with hg | hg
      · exact (hx g hg).imp_right fun h => mem_append_left _ h
      · exact .inr (mem_append_right _ hg)

omit [DecidableEq F] in
lemma Inv.begin (h : Inv c) (hnone : c.state = none) (stale immediate : List F)
    (llgrCap : Option (LlgrCap F)) (deadline : Option ℕ) (downAt : ℕ) (hne : stale ≠ [])
    (hcov : ∀ f ∈ stale, deadline ≠ none ∨ f ∈ immediate) :
    Inv { c with
      state := some
        { cycle := c.nextCycle, stale, llgrCap, restartDeadline := deadline,
          born := c.reestablished }
      nextCycle := c.nextCycle + 1
      pending := c.pending ++ [{ cycle := c.nextCycle, immediate, downAt }] } := by
  have hfresh : ∀ id t, c.timers id = some t → t.owner ≠ c.nextCycle := fun id t ht =>
    Nat.ne_of_lt (h.timer_lt id t ht).2
  have hnot : c.nextCycle ∉ c.completed := fun hin => Nat.lt_irrefl _ (h.completed_lt _ hin)
  refine ⟨⟨?_, ?_, ?_, ?_, ?_⟩, ?_, ?_, ?_, ?_⟩
  · intro id t ht
    exact ⟨(h.timer_lt id t ht).1, Nat.lt_succ_of_lt (h.timer_lt id t ht).2⟩
  · intro d hd
    rcases mem_append.1 hd with hd | hd
    · exact ⟨Nat.lt_succ_of_lt (h.pending_lt d hd).1, (h.pending_lt d hd).2⟩
    · obtain rfl := mem_singleton.1 hd
      exact ⟨Nat.lt_succ_self _, hnot⟩
  · intro n hn
    exact Nat.lt_succ_of_lt (h.completed_lt n hn)
  · rw [map_append, nodup_append]
    refine ⟨h.pending_nodup, by simp, fun a ha b hb => ?_⟩
    obtain ⟨d, hd, rfl⟩ := mem_map.1 ha
    rw [show b = c.nextCycle by simpa using hb]
    exact Nat.ne_of_lt (h.pending_lt d hd).1
  · intro id t ht d hd hcycle
    rcases mem_append.1 hd with hd | hd
    · exact h.entered id t ht d hd hcycle
    · obtain rfl := mem_singleton.1 hd
      exact absurd hcycle.symm (hfresh id t ht)
  · intro id t f ht hfam hns
    rw [h.owned.stopped hnone id t f ht hfam] at hns
    cases hns
  · intro s hs
    cases hs
    refine ⟨Nat.lt_succ_self _, Nat.le_refl _, hne, ?_, nodup_nil, ?_, ?_, ?_, ?_⟩
    · intro x hx
      cases hx
    · intro x hx
      cases hx
    · intro hl
      exact absurd rfl hl
    · intro id t ht howner
      exact absurd howner (hfresh id t ht)
    · intro id t f ht howner
      exact absurd howner (hfresh id t ht)
  · intro s hs id hid
    cases hs
    cases hid
  · intro s hs _ f hf
    cases hs
    rcases hcov f hf with hdl | himm
    · exact .inr (.inl ⟨hdl, fun hc => absurd hc hnot⟩)
    · exact .inr (.inr ⟨_, mem_append_right _ (mem_singleton.2 rfl), rfl, rfl, himm⟩)

lemma Inv.down (h : Inv c) (cap : Option (GrCap F)) (llgrCap : Option (LlgrCap F))
    (wasNotification : Bool) (now : ℕ) :
    Inv (c.onSessionDownDeferred cap llgrCap wasNotification now) := by
  obtain ⟨h₁, hnone⟩ := h.toNumbers.clearPeerLocked h.owned
  unfold Cell.onSessionDownDeferred
  cases cap with
  | none => exact h₁
  | some cap =>
    simp only
    by_cases hnotif : wasNotification
    · rw [if_pos hnotif]
      exact h₁
    · rw [if_neg hnotif]
      by_cases hemp : (Cell.staleFamilies cap llgrCap).1.isEmpty
      · rw [if_pos hemp]
        exact h₁
      · rw [if_neg hemp]
        refine h₁.begin hnone _ _ _ _ _ (fun hnil => hemp (isEmpty_iff.2 hnil)) fun f hf =>
          ?_
        rcases mem_staleFamilies hf with hcap | himm
        · have hne : ¬ cap.families.isEmpty := by
            intro hnil
            rw [isEmpty_iff.1 hnil] at hcap
            cases hcap
          rw [if_neg hne]
          exact .inl (Option.some_ne_none _)
        · exact .inr himm

end

/-! ## A completion -/

lemma Numbers.eq_of_cycle (hn : Numbers c) {d d' : Completion F} (hd : d ∈ c.pending)
    (hd' : d' ∈ c.pending) (heq : d.cycle = d'.cycle) : d = d' :=
  inj_on_of_nodup_map hn.pending_nodup hd hd' heq

lemma mem_goOn {d y : Completion F} {stage : Stage} (hy : y ∈ (c.goOn d stage).pending) :
    ∃ x ∈ c.pending, y.cycle = x.cycle ∧ (x.cycle ≠ d.cycle → y = x) ∧
      (x.cycle = d.cycle → y.stage = stage) := by
  obtain ⟨x, hx, rfl⟩ := mem_map.1 hy
  refine ⟨x, hx, ?_, fun hne => if_neg hne, fun heq => ?_⟩
  · split_ifs <;> rfl
  · rw [if_pos heq]

lemma Numbers.goOn (hn : Numbers c) (d : Completion F) {stage : Stage} (hst : stage ≠ .enter) :
    Numbers (c.goOn d stage) := by
  refine ⟨hn.timer_lt, ?_, hn.completed_lt, ?_, ?_⟩
  · intro y hy
    obtain ⟨x, hx, hcycle, -, -⟩ := mem_goOn hy
    rw [hcycle]
    exact hn.pending_lt x hx
  · have hmap : (c.goOn d stage).pending.map Completion.cycle = c.pending.map Completion.cycle := by
      simp only [Cell.goOn, map_map]
      refine map_congr_left fun x _ => ?_
      simp only [Function.comp_apply]
      split_ifs <;> rfl
    rw [hmap]
    exact hn.pending_nodup
  · intro id t ht y hy hcycle
    obtain ⟨x, hx, hxc, hne, heq⟩ := mem_goOn hy
    by_cases hd : x.cycle = d.cycle
    · rw [heq hd]
      exact hst
    · rw [hne hd]
      exact hn.entered id t ht x hx (hxc.symm.trans hcycle)

lemma awaits_goOn (hn : Numbers c) {d : Completion F} (hd : d ∈ c.pending) (stage : Stage) {f : F}
    (ha : c.Awaits s f) :
    (c.goOn d stage).Awaits s f ∨ (d.cycle = s.cycle ∧ d.stage = .enter ∧ f ∈ d.immediate) := by
  obtain ⟨x, hx, hcycle, hstage, hin⟩ := ha
  by_cases hxd : x.cycle = d.cycle
  · obtain rfl := hn.eq_of_cycle hx hd hxd
    exact .inr ⟨hcycle, hstage, hin⟩
  · refine .inl ⟨x, mem_map.2 ⟨x, hx, if_neg hxd⟩, hcycle, hstage, hin⟩

lemma Inv.goOn (h : Inv c) {d : Completion F} (hd : d ∈ c.pending) {stage : Stage}
    (hst : stage ≠ .enter) (hdone : d.stage = .enter → d.immediate = []) :
    Inv (c.goOn d stage) := by
  refine ⟨h.toNumbers.goOn d hst, h.owned, fun s hs => { h.book s hs with }, h.restart, ?_⟩
  intro s hs hborn f hf
  refine (h.cover s hs hborn f hf).imp_right (Or.imp_right fun ha => ?_)
  rcases awaits_goOn h.toNumbers hd stage ha with ha | ⟨-, henter, hin⟩
  · exact ha
  · rw [hdone henter] at hin
    cases hin

lemma Inv.finish (h : Inv c) {d : Completion F} (hlt : d.cycle < c.nextCycle)
    (hcur : ∀ s, c.state = some s → s.cycle = d.cycle →
      (∀ x ∈ c.pending, x.cycle = d.cycle → x.stage ≠ .enter) ∧
        (s.restartDeadline ≠ none → s.restartTimer ≠ none)) :
    Inv (c.finish d) := by
  have hmem : ∀ x ∈ (c.finish d).pending, x ∈ c.pending ∧ x.cycle ≠ d.cycle := by
    intro x hx
    obtain ⟨hx, hne⟩ := mem_filter.1 hx
    exact ⟨hx, by simpa using hne⟩
  refine ⟨⟨h.timer_lt, ?_, ?_, ?_, ?_⟩, h.owned, fun s hs => { h.book s hs with }, h.restart, ?_⟩
  · intro x hx
    obtain ⟨hx, hne⟩ := hmem x hx
    obtain ⟨hxlt, hxc⟩ := h.pending_lt x hx
    refine ⟨hxlt, fun hin => ?_⟩
    rcases mem_cons.1 hin with heq | hin
    · exact hne heq
    · exact hxc hin
  · intro n hn
    rcases mem_cons.1 hn with rfl | hn
    · exact hlt
    · exact h.completed_lt n hn
  · exact h.pending_nodup.sublist (filter_sublist.map _)
  · intro id t ht x hx hcycle
    exact h.entered id t ht x (hmem x hx).1 hcycle
  · intro s hs hborn f hf
    rcases h.cover s hs hborn f hf with hl | ⟨hdl, hrt⟩ | ⟨x, hx, hcycle, hstage, hin⟩
    · exact .inl hl
    · refine .inr (.inl ⟨hdl, fun hc => ?_⟩)
      rcases mem_cons.1 hc with heq | hc
      · exact (hcur s hs heq).2 hdl
      · exact hrt hc
    · by_cases hxd : x.cycle = d.cycle
      · exact absurd hstage ((hcur s hs (hcycle.symm.trans hxd)).1 x hx hxd)
      · refine .inr (.inr ⟨x, mem_filter.2 ⟨hx, by simpa using hxd⟩, ?_⟩)
        exact ⟨hcycle, hstage, hin⟩

lemma Inv.armRestart (h : Inv c) (hs : c.state = some s) (hdl : s.restartDeadline ≠ none)
    (hent : ∀ d ∈ c.pending, d.cycle = s.cycle → d.stage ≠ .enter) :
    Inv { c.afterFunc s.cycle none with
      state := some { s with restartTimer := some c.nextTimer } } := by
  have hb := h.book s hs
  have hcases : ∀ id t, (c.afterFunc s.cycle none).timers id = some t →
      c.timers id = some t ∨ (id = c.nextTimer ∧
        t = { owner := s.cycle, family := none, armedAt := c.reestablished }) := by
    intro id t ht
    by_cases hid : id = c.nextTimer
    · subst hid
      simp only [Cell.afterFunc, Function.update_self, Option.some.injEq] at ht
      exact .inr ⟨rfl, ht.symm⟩
    · simp only [Cell.afterFunc, Function.update_of_ne hid] at ht
      exact .inl ht
  have hold : ∀ id t, c.timers id = some t → (c.afterFunc s.cycle none).timers id = some t := by
    intro id t ht
    have hid := Nat.ne_of_lt (h.timer_lt id t ht).1
    simp only [Cell.afterFunc, Function.update_of_ne hid]
    exact ht
  refine ⟨⟨?_, h.pending_lt, h.completed_lt, h.pending_nodup, ?_⟩, ?_, ?_, ?_, ?_⟩
  · intro id t ht
    rcases hcases id t ht with ht | ⟨rfl, rfl⟩
    · exact ⟨Nat.lt_succ_of_lt (h.timer_lt id t ht).1, (h.timer_lt id t ht).2⟩
    · exact ⟨Nat.lt_succ_self _, hb.cycle_lt⟩
  · intro id t ht d hd hcycle
    rcases hcases id t ht with ht | ⟨-, rfl⟩
    · exact h.entered id t ht d hd hcycle
    · exact hent d hd hcycle
  · intro id t f ht hfam hns
    rcases hcases id t ht with ht | ⟨-, rfl⟩
    · exact ⟨_, rfl, h.owned.ownedBy hs id t f ht hfam hns⟩
    · cases hfam
  · intro s' hs'
    cases hs'
    refine { hb with llgr_timer := ?_, restart_armedAt := ?_, gone := ?_ }
    · intro x hx
      obtain ⟨t, ht, hrest⟩ := hb.llgr_timer x hx
      exact ⟨t, hold _ _ ht, hrest⟩
    · intro id t ht howner hfam hd
      rcases hcases id t ht with ht | ⟨-, rfl⟩
      · exact hb.restart_armedAt id t ht howner hfam hd
      · rfl
    · intro id t f ht howner hfam hst
      rcases hcases id t ht with ht | ⟨-, rfl⟩
      · exact hb.gone id t f ht howner hfam hst
      · cases hfam
  · intro s' hs' id hid
    cases hs'
    cases hid
    refine ⟨hdl, { owner := s.cycle, family := none, armedAt := c.reestablished }, ?_,
      rfl, rfl, rfl⟩
    simp only [Cell.afterFunc, Function.update_self]
  · intro s' hs' hborn f hf
    cases hs'
    exact (h.cover s hs hborn f hf).imp_right
      (Or.imp_left fun hd => ⟨hd.1, fun _ => Option.some_ne_none _⟩)

section

variable [DecidableEq F]

/-- The state with its restart period behind it. Source: gr_state.go handleTimerExpired. -/
def PeerState.endRestart (s : PeerState F) : PeerState F :=
  { s with restartDeadline := none, restartTimer := none }

lemma enterLLGRLocked_endRestart (c : Cell F) (s : PeerState F) (families : List F)
    (deadline now : ℕ) :
    { (c.enterLLGRLocked s families deadline now).1 with
      state := (c.enterLLGRLocked s families deadline now).1.state.map PeerState.endRestart } =
      (c.enterLLGRLocked s.endRestart families deadline now).1 := by
  have hone : Cell.enterOne s.endRestart deadline now = Cell.enterOne s deadline now := rfl
  have hllgr : s.endRestart.llgr = s.llgr := rfl
  have hstale : s.endRestart.stale = s.stale := rfl
  unfold Cell.enterLLGRLocked
  simp only [hone, hllgr, hstale]
  generalize families.foldl (Cell.enterOne s deadline now) { cell := c, llgr := s.llgr } = x
  cases hemp : (s.stale.filter (· ∉ x.purged)).isEmpty with
  | true | false => rfl

lemma handleTimerExpired_inv (hn : Numbers c) (hown : Owned c)
    (hbook : ∀ s, c.state = some s → Book c s) (owner now : ℕ)
    (hidle : ∀ s, c.state = some s → s.cycle ≠ owner ∨ s.restartDeadline = none → Inv c)
    (hent : ∀ d ∈ c.pending, d.cycle = owner → d.stage ≠ .enter) :
    Inv (c.handleTimerExpired owner now) := by
  unfold Cell.handleTimerExpired
  cases hs : c.state with
  | none => exact hn.inv_of_none hs (hown.stopped hs)
  | some s =>
    simp only
    by_cases hcycle : s.cycle ≠ owner
    · rw [if_pos hcycle]
      exact hidle s hs (.inl hcycle)
    · rw [if_neg hcycle]
      cases hdl : s.restartDeadline with
      | none => exact hidle s hs (.inr hdl)
      | some deadline =>
        simp only
        have hb := hbook s hs
        split_ifs
        · refine Eq.mpr (congrArg Inv (enterLLGRLocked_endRestart c s s.stale deadline now)) ?_
          refine enterLLGRLocked_inv hn ?_ ?_ s.stale deadline now ?_ ?_ ?_ ?_
          · refine { hb with restart_armedAt := ?_, gone := ?_ }
            · intro id t _ _ _ hd
              exact absurd rfl hd
            · intro id t f ht howner hfam hst
              exact ⟨(hb.gone id t f ht howner hfam hst).1, .inr rfl⟩
          · exact fun id t f => hown.ownedBy hs id t f
          · intro d hd hd'
            exact hent d hd (hd'.trans (not_not.1 hcycle))
          · intro id t f ht howner hfam hst
            rcases (hb.gone id t f ht howner hfam hst).2 with hf | hnone
            · exact hf
            · rw [hdl] at hnone
              cases hnone
          · intro _ f hf
            exact .inl hf
          · intro id hid
            cases hid
        · obtain ⟨hinv, hnone⟩ := hn.clearPeerLocked hown
          exact { hinv with
            owned := hinv.owned
            book := fun s' hs' => { hinv.book s' hs' with }
            cover := hinv.cover }

lemma restartDeadline_of_handleTimerExpired {owner now : ℕ}
    (h : (c.handleTimerExpired owner now).state = some s') (hcycle : s'.cycle = owner) :
    s'.restartDeadline = none := by
  unfold Cell.handleTimerExpired at h
  cases hs : c.state with
  | none =>
    rw [hs] at h
    simp only [hs] at h
    cases h
  | some s =>
    simp only [hs] at h
    by_cases hne : s.cycle ≠ owner
    · rw [if_pos hne, hs] at h
      cases h
      exact absurd hcycle hne
    · rw [if_neg hne] at h
      cases hdl : s.restartDeadline with
      | none =>
        simp only [hdl, hs] at h
        cases h
        exact hdl
      | some deadline =>
        simp only [hdl] at h
        split_ifs at h
        · obtain ⟨s₁, -, rfl⟩ := Option.map_eq_some_iff.1 h
          rfl
        · simp only [Cell.clearPeerLocked, hs] at h
          cases h

/-- Entering long-lived staleness neither reads nor writes the pending completions. -/
lemma foldl_enterOne_pending (s : PeerState F) (deadline now : ℕ) (fams : List F)
    (x : Cell.Entering F) (p : List (Completion F)) :
    fams.foldl (Cell.enterOne s deadline now) { x with cell := { x.cell with pending := p } } =
      { fams.foldl (Cell.enterOne s deadline now) x with
        cell := { (fams.foldl (Cell.enterOne s deadline now) x).cell with pending := p } } := by
  induction fams generalizing x with
  | nil => rfl
  | cons f fs ih =>
    simp only [foldl_cons]
    rw [← ih]
    refine congrArg (fs.foldl (Cell.enterOne s deadline now)) ?_
    unfold Cell.enterOne
    split
    · rfl
    · split
      · rfl
      · split
        · rfl
        · split <;> rfl

lemma pending_foldl_enterOne (s : PeerState F) (deadline now : ℕ) (families : List F)
    (x : Cell.Entering F) :
    (families.foldl (Cell.enterOne s deadline now) x).cell.pending = x.cell.pending :=
  congrArg (·.cell.pending) (foldl_enterOne_pending s deadline now families x x.cell.pending)

lemma pending_handleTimerExpired (c : Cell F) (owner now : ℕ) :
    (c.handleTimerExpired owner now).pending = c.pending := by
  unfold Cell.handleTimerExpired
  cases hs : c.state with
  | none => rfl
  | some s =>
    simp only
    split
    · rfl
    · split
      · rfl
      · split
        · exact pending_foldl_enterOne _ _ _ _ _
        · simp only [Cell.clearPeerLocked, hs]
          obtain ⟨-, -, hframe⟩ := stopAll_spec c s
          conv_rhs => rw [← hframe]

lemma goOn_enterLLGRLocked (c : Cell F) (s : PeerState F) (d : Completion F) (stage : Stage)
    (families : List F) (deadline now : ℕ) :
    (c.enterLLGRLocked s families deadline now).1.goOn d stage =
      ((c.goOn d stage).enterLLGRLocked s families deadline now).1 := by
  have hgo := foldl_enterOne_pending s deadline now families { cell := c, llgr := s.llgr }
    (c.goOn d stage).pending
  have hpend := pending_foldl_enterOne s deadline now families { cell := c, llgr := s.llgr }
  have hcell : (c.goOn d stage) = { c with pending := (c.goOn d stage).pending } := rfl
  unfold Cell.enterLLGRLocked
  rw [hcell]
  simp only [hgo]
  simp only [Cell.goOn, hpend]

lemma Inv.complete (h : Inv c) {d : Completion F} (hd : d ∈ c.pending) (now : ℕ) :
    Inv (c.complete d now) := by
  have hlt := (h.pending_lt d hd).1
  have hmine : d.stage ≠ .enter → ∀ x ∈ c.pending, x.cycle = d.cycle → x.stage ≠ .enter := by
    intro hne x hx hcycle
    obtain rfl := h.toNumbers.eq_of_cycle hx hd hcycle
    exact hne
  have hother : (∀ s, c.state = some s → s.cycle ≠ d.cycle) → Inv (c.finish d) := by
    intro hne
    exact h.finish hlt fun s hs hcycle => absurd hcycle (hne s hs)
  unfold Cell.complete
  cases hstage : d.stage with
  | enter =>
    simp only
    by_cases himm : d.immediate.isEmpty
    · rw [if_pos himm]
      exact h.goOn hd (by decide) fun _ => isEmpty_iff.1 himm
    · rw [if_neg himm]
      cases hs : c.state with
      | none => exact hother fun s hs' => by rw [hs] at hs'; cases hs'
      | some s =>
        simp only
        by_cases hcycle : s.cycle ≠ d.cycle
        · rw [if_pos hcycle]
          refine hother fun s' hs' => ?_
          rw [hs, Option.some.injEq] at hs'
          exact hs' ▸ hcycle
        · rw [if_neg hcycle, goOn_enterLLGRLocked]
          have heq : s.cycle = d.cycle := not_not.1 hcycle
          have hb := h.book s hs
          refine enterLLGRLocked_inv (h.toNumbers.goOn d (by decide)) { hb with } ?_ _ _ _
            ?_ ?_ ?_ (h.restart s hs)
          · exact h.owned.ownedBy hs
          · intro y hy hyc
            obtain ⟨x, -, hxc, -, hst⟩ := mem_goOn hy
            rw [hst (hxc.symm.trans (hyc.trans heq))]
            decide
          · intro id t f ht howner
            exact absurd hstage (h.entered id t ht d hd (heq.symm.trans howner.symm))
          · intro hborn f hf
            rcases h.cover s hs hborn f hf with hl | hdl | ha
            · exact .inr (.inl hl)
            · exact .inr (.inr (.inl hdl))
            · rcases awaits_goOn h.toNumbers hd .start ha with ha | ⟨-, -, hin⟩
              · exact .inr (.inr (.inr ha))
              · exact .inl hin
  | start =>
    simp only
    have hmine := hmine (by rw [hstage]; decide)
    cases hs : c.state with
    | none => exact hother fun s hs' => by rw [hs] at hs'; cases hs'
    | some s =>
      simp only
      by_cases hcycle : s.cycle ≠ d.cycle
      · rw [if_pos hcycle]
        refine hother fun s' hs' => ?_
        rw [hs, Option.some.injEq] at hs'
        exact hs' ▸ hcycle
      · rw [if_neg hcycle]
        have heq : s.cycle = d.cycle := not_not.1 hcycle
        cases hdl : s.restartDeadline with
        | none =>
          refine h.finish hlt fun s' hs' _ => ⟨hmine, fun hne => ?_⟩
          rw [hs, Option.some.injEq] at hs'
          exact absurd hdl (hs' ▸ hne)
        | some deadline =>
          simp only
          by_cases hnow : now < deadline
          · rw [if_pos hnow, ← hdl]
            have harm := h.armRestart hs (by rw [hdl]; exact Option.some_ne_none _)
              fun x hx hxc => hmine x hx (hxc.trans heq)
            refine harm.finish hlt fun s' hs' _ => ⟨hmine, fun _ => ?_⟩
            cases hs'
            exact Option.some_ne_none _
          · rw [if_neg hnow]
            exact h.goOn hd (by decide) fun henter => by rw [hstage] at henter; cases henter
  | expire =>
    simp only
    have hmine := hmine (by rw [hstage]; decide)
    have hexp : Inv (c.handleTimerExpired d.cycle now) :=
      handleTimerExpired_inv h.toNumbers h.owned h.book d.cycle now (fun _ _ _ => h) hmine
    refine hexp.finish ?_ fun s' hs' hcycle => ⟨?_, fun hne => ?_⟩
    · exact (hexp.pending_lt d (by rw [pending_handleTimerExpired]; exact hd)).1
    · rw [pending_handleTimerExpired]
      exact hmine
    · exact absurd (restartDeadline_of_handleTimerExpired hs' hcycle) hne

/-! ## The session comes back -/

lemma reconnected_eq_some {newCap : Option (GrCap F)} {newLLGRCap : Option (LlgrCap F)}
    (h : Cell.reconnected s newCap newLLGRCap = some s') :
    s'.cycle = s.cycle ∧ s'.born = s.born ∧ s'.stale ≠ [] ∧ s'.llgr = [] ∧
      s'.restartTimer = none ∧ s'.restartDeadline = none := by
  unfold Cell.reconnected at h
  cases newCap with
  | none => cases h
  | some newCap =>
    simp only at h
    split_ifs at h with hemp
    cases h
    exact ⟨rfl, rfl, fun hnil => hemp (isEmpty_iff.2 hnil), rfl, rfl, rfl⟩

lemma Inv.reestablished (h : Inv c) (newCap : Option (GrCap F))
    (newLLGRCap : Option (LlgrCap F)) : Inv (c.onSessionReestablished newCap newLLGRCap) := by
  unfold Cell.onSessionReestablished
  cases hs : c.state with
  | none =>
    have hn : Numbers { c with state := none, reestablished := c.reestablished + 1 } :=
      { h.toNumbers with }
    exact hn.inv_of_none rfl (h.owned.stopped hs)
  | some s =>
    have hb := h.book s hs
    obtain ⟨hnum, hst⟩ := h.toNumbers.stopAll h.owned hs (c.reestablished + 1)
      (Cell.reconnected s newCap newLLGRCap)
    obtain ⟨-, -, hframe⟩ := stopAll_spec c s
    have hnc : ((c.stopRestart s).stopLLSTTimersLocked s).nextCycle = c.nextCycle := by
      conv_rhs => rw [← hframe]
    refine ⟨hnum, ?_, ?_, ?_, ?_⟩
    · intro id t f ht hfam hns
      rw [hst id t f ht hfam] at hns
      cases hns
    · intro s' hs'
      obtain ⟨hcycle, hborn, hne, hllgr, -, hdl⟩ := reconnected_eq_some hs'
      refine ⟨?_, ?_, hne, ?_, ?_, ?_, ?_, ?_, ?_⟩
      · show s'.cycle < ((c.stopRestart s).stopLLSTTimersLocked s).nextCycle
        rw [hcycle, hnc]
        exact hb.cycle_lt
      · rw [hborn]
        exact Nat.le_succ_of_le hb.born_le
      · simp [hllgr]
      · simp [hllgr]
      · simp [hllgr]
      · exact fun hne' => absurd hllgr hne'
      · exact fun id t _ _ _ hne' => absurd hdl hne'
      · refine fun id t f _ _ _ _ => ⟨?_, .inr hdl⟩
        simp [hllgr]
    · intro s' hs' id hid
      obtain ⟨-, -, -, -, hrt, -⟩ := reconnected_eq_some hs'
      rw [hrt] at hid
      cases hid
    · intro s' hs' hborn'
      obtain ⟨-, hborn, -⟩ := reconnected_eq_some hs'
      -- the session has come back since the state was made
      have hlt : s'.born = c.reestablished + 1 := hborn'
      have hle := hb.born_le
      omega

/-! ## End of a family -/

def PeerState.without (s : PeerState F) (fam : F) (inLLGR : Bool) : PeerState F :=
  { s with stale := s.stale.filter (· ≠ fam), llgr := s.llgr.filter (·.1 ≠ fam), inLLGR }

/-- What is left of the timers when a family ends: those of the restart period and of other
families, and of the family itself only stopped ones. -/
structure Without (c d : Cell F) (fam : F) : Prop where
  fewer : Fewer c d
  frame : { d with timers := c.timers } = c
  keep : ∀ k t, c.timers k = some t → t.family ≠ some fam → d.timers k = some t
  stopped : ∀ k t, d.timers k = some t → t.family = some fam → t.stopped = true

section

variable {d : Cell F} {fam : F}

omit [DecidableEq F] in
lemma Without.numbers (hw : Without c d fam) (hn : Numbers c) : Numbers d := by
  have hframe := hw.frame
  refine hn.fewer hw.fewer ?_ ?_ ?_ ?_ <;> rw [← hframe]

lemma Without.owned (hw : Without c d fam) (hown : Owned c) (hs : c.state = some s) (b : Bool) :
    OwnedBy d (s.without fam b) := by
  intro id t f ht hf hns
  obtain ⟨t₀, ht₀, howner, hf₀, -, himp⟩ := hw.fewer id t ht
  obtain ⟨hcycle, hin⟩ := hown.ownedBy hs id t₀ f ht₀ (hf₀ ▸ hf) (himp hns)
  refine ⟨hcycle.trans howner.symm, mem_filter.2 ⟨hin, ?_⟩⟩
  have hne : f ≠ fam := by
    rintro rfl
    rw [hw.stopped id t ht hf] at hns
    cases hns
  simpa using hne

lemma Without.book (hw : Without c d fam) (hb : Book c s) {b : Bool}
    (hin : s.llgr.filter (·.1 ≠ fam) ≠ [] → b) (hne : (s.without fam b).stale ≠ []) :
    Book d (s.without fam b) := by
  have hframe := hw.frame
  have hnc : d.nextCycle = c.nextCycle := by rw [← hframe]
  have hre : d.reestablished = c.reestablished := by rw [← hframe]
  refine ⟨hnc ▸ hb.cycle_lt, hre ▸ hb.born_le, hne, ?_, ?_, ?_, hin, ?_, ?_⟩
  · intro x hx
    obtain ⟨hx, hne⟩ := mem_filter.1 hx
    exact mem_filter.2 ⟨hb.llgr_stale x hx, hne⟩
  · exact hb.keys_nodup.sublist (filter_sublist.map _)
  · intro x hx
    obtain ⟨hx, hne⟩ := mem_filter.1 hx
    obtain ⟨t, ht, howner, hf, hns, hat⟩ := hb.llgr_timer x hx
    refine ⟨t, hw.keep _ t ht ?_, howner, hf, hns, hat.trans hre.symm⟩
    rw [hf]
    simpa using hne
  · intro id t ht howner hf hdl
    obtain ⟨t₀, ht₀, ho₀, hf₀, ha₀, -⟩ := hw.fewer id t ht
    rw [hre, ha₀]
    exact hb.restart_armedAt id t₀ ht₀ (ho₀ ▸ howner) (hf₀ ▸ hf) hdl
  · intro id t f ht howner hf hst
    obtain ⟨t₀, ht₀, ho₀, hf₀, -, -⟩ := hw.fewer id t ht
    by_cases hff : f = fam
    · subst hff
      refine ⟨fun k hk => ?_, .inl fun hin => ?_⟩
      · simpa using (mem_filter.1 hk).2
      · simpa using (mem_filter.1 hin).2
    · have hstill := hw.keep id t₀ ht₀ (by rw [← hf₀, hf]; simpa using hff)
      rw [ht, Option.some.injEq] at hstill
      obtain ⟨hnot, hor⟩ := hb.gone id t₀ f ht₀ (ho₀ ▸ howner) (hf₀ ▸ hf) (hstill ▸ hst)
      refine ⟨fun k hk => hnot k (mem_of_mem_filter hk), hor.imp_left fun hn hin => ?_⟩
      exact hn (mem_of_mem_filter hin)

lemma Without.inv (hw : Without c d fam) (h : Inv c) (hs : c.state = some s) {b : Bool}
    (hin : s.llgr.filter (·.1 ≠ fam) ≠ [] → b) (hne : (s.without fam b).stale ≠ [])
    (acts : List (Action F)) :
    Inv { d with state := some (s.without fam b), actions := acts } := by
  have hframe := hw.frame
  have hre : d.reestablished = c.reestablished := by rw [← hframe]
  have hpe : d.pending = c.pending := by rw [← hframe]
  have hco : d.completed = c.completed := by rw [← hframe]
  refine ⟨{ hw.numbers h.toNumbers with }, ?_, ?_, ?_, ?_⟩
  · intro id t f ht hf hns
    exact ⟨_, rfl, hw.owned h.owned hs b id t f ht hf hns⟩
  · intro s' hs'
    cases hs'
    exact { hw.book (h.book s hs) hin hne with }
  · intro s' hs' id hid
    cases hs'
    obtain ⟨hdl, t, ht, howner, hf, hns⟩ := h.restart s hs id hid
    refine ⟨hdl, t, hw.keep id t ht ?_, howner, hf, hns⟩
    rw [hf]
    exact Option.some_ne_none fam |>.symm
  · intro s' hs' hborn f hf
    cases hs'
    obtain ⟨hf, hnef⟩ := mem_filter.1 hf
    rcases h.cover s hs (hborn.trans hre) f hf with ⟨k, hk⟩ | ⟨hdl, hrt⟩ | ⟨y, hy, hrest⟩
    · exact .inl ⟨k, mem_filter.2 ⟨hk, hnef⟩⟩
    · exact .inr (.inl ⟨hdl, fun hc => hrt (hco ▸ hc)⟩)
    · exact .inr (.inr ⟨y, by rw [hpe]; exact hy, hrest⟩)

end

lemma stopFamily_spec (h : Inv c) (hs : c.state = some s) (fam : F) :
    (c.stopFamily s fam).2 = s.llgr.filter (·.1 ≠ fam) ∧ Without c (c.stopFamily s fam).1 fam := by
  have hb := h.book s hs
  have hidle : (∀ k, (fam, k) ∉ s.llgr) → s.llgr = s.llgr.filter (·.1 ≠ fam) ∧ Without c c fam := by
    intro hnone
    refine ⟨?_, Fewer.refl c, rfl, fun _ _ ht _ => ht, fun k t ht hf => ?_⟩
    · refine (filter_eq_self.2 fun x hx => ?_).symm
      have hne : x.1 ≠ fam := by
        rintro rfl
        exact hnone x.2 hx
      simpa using hne
    · by_contra hns
      exact hnone k (h.owned.ownedBy hs k t fam ht hf (by simpa using hns)).2
  unfold Cell.stopFamily
  by_cases hin : s.inLLGR
  · rw [if_pos hin]
    cases hl : s.llgr.lookup fam with
    | none =>
      refine hidle fun k hk => ?_
      have hsome := isSome_lookup_iff.2 ⟨k, hk⟩
      rw [hl] at hsome
      cases hsome
    | some id =>
      have hmem : (fam, id) ∈ s.llgr := by
        obtain ⟨l₁, l₂, heq, -⟩ := lookup_eq_some_iff.1 hl
        rw [heq]
        simp
      refine ⟨rfl, fewer_stop c id, rfl, fun k t ht hne => ?_, fun k t ht hf => ?_⟩
      · rw [timers_stop, if_neg]
        · exact ht
        · rintro rfl
          obtain ⟨t', ht', -, hf', -, -⟩ := hb.llgr_timer _ hmem
          rw [ht, Option.some.injEq] at ht'
          exact hne (ht' ▸ hf')
      · by_contra hns
        obtain ⟨t₀, ht₀, -, hf₀, -, himp⟩ := fewer_stop c id k t ht
        have hin₀ := (h.owned.ownedBy hs k t₀ fam ht₀ (hf₀ ▸ hf) (himp (by simpa using hns))).2
        -- the keys of the list are distinct, so this is the timer that was stopped
        obtain rfl := congrArg Prod.snd (inj_on_of_nodup_map hb.keys_nodup hin₀ hmem rfl)
        exact hns (stopped_of_stop ht)
  · rw [if_neg hin]
    refine hidle fun k hk => hin (hb.inLLGR_of_llgr ?_)
    exact ne_nil_of_mem hk

lemma Inv.eor (h : Inv c) (fam : F) : Inv (c.onEORReceived fam) := by
  unfold Cell.onEORReceived
  cases hs : c.state with
  | none => exact h
  | some s =>
    simp only
    by_cases hfam : fam ∉ s.stale
    · rw [if_pos hfam]
      exact h
    · rw [if_neg hfam]
      have hb := h.book s hs
      obtain ⟨hllgr, hw⟩ := stopFamily_spec h hs fam
      rw [hllgr]
      generalize (c.stopFamily s fam).1 = d at hw
      have hnum := hw.numbers h.toNumbers
      by_cases hemp : (s.stale.filter (· ≠ fam)).isEmpty
      · rw [if_pos hemp]
        obtain ⟨hfew, hst, hframe⟩ := stopAll_spec d (s.without fam s.inLLGR)
        change Inv { (d.stopRestart (s.without fam s.inLLGR)).stopLLSTTimersLocked
          (s.without fam s.inLLGR) with state := none }
        generalize (d.stopRestart (s.without fam s.inLLGR)).stopLLSTTimersLocked
          (s.without fam s.inLLGR) = d' at hfew hst hframe
        refine Numbers.inv_of_none ?_ rfl fun id t f ht hf => ?_
        · refine hnum.fewer hfew ?_ ?_ ?_ ?_ <;> rw [← hframe]
        · by_contra hns
          obtain ⟨t₀, ht₀, -, hf₀, -, himp⟩ := hfew id t ht
          obtain ⟨-, hin⟩ := hw.owned h.owned hs s.inLLGR id t₀ f ht₀ (hf₀ ▸ hf)
            (himp (by simpa using hns))
          exact hns (hst _ hin t ht)
      · rw [if_neg hemp]
        refine hw.inv h hs (fun hne => hb.inLLGR_of_llgr ?_)
          (fun hnil => hemp (isEmpty_iff.2 hnil)) d.actions
        rintro hnil
        rw [hnil] at hne
        exact hne rfl

/-! ## Timers -/

omit [DecidableEq F] in
lemma Inv.fire (h : Inv c) {id : ℕ} {t : Timer F} (ht : c.timers id = some t) :
    Inv { c with timers := update c.timers id (some { t with started := true }) } := by
  have hto : ∀ k u', update c.timers id (some { t with started := true }) k = some u' →
      ∃ u, c.timers k = some u ∧ u'.owner = u.owner ∧ u'.family = u.family ∧
        u'.armedAt = u.armedAt ∧ u'.stopped = u.stopped := by
    intro k u' hu'
    by_cases hk : k = id
    · subst hk
      rw [Function.update_self] at hu'
      cases hu'
      exact ⟨t, ht, rfl, rfl, rfl, rfl⟩
    · rw [Function.update_of_ne hk] at hu'
      exact ⟨u', hu', rfl, rfl, rfl, rfl⟩
  have hback : ∀ k u, c.timers k = some u →
      ∃ u', update c.timers id (some { t with started := true }) k = some u' ∧
        u'.owner = u.owner ∧ u'.family = u.family ∧ u'.armedAt = u.armedAt ∧
          u'.stopped = u.stopped := by
    intro k u hu
    by_cases hk : k = id
    · subst hk
      rw [ht] at hu
      cases hu
      exact ⟨_, Function.update_self _ _ _, rfl, rfl, rfl, rfl⟩
    · exact ⟨u, by rw [Function.update_of_ne hk]; exact hu, rfl, rfl, rfl, rfl⟩
  have hfew : Fewer c
      { c with timers := update c.timers id (some { t with started := true }) } := by
    intro k u' hu'
    obtain ⟨u, hu, ho, hf, ha, hst⟩ := hto k u' hu'
    exact ⟨u, hu, ho, hf, ha, fun hns => hst.symm.trans hns⟩
  refine ⟨h.toNumbers.fewer hfew rfl rfl rfl rfl, ?_, ?_, ?_, h.cover⟩
  · intro k u' f hu' hf hns
    obtain ⟨u, hu, ho, hf', -, hst⟩ := hto k u' hu'
    obtain ⟨s, hs, hcycle, hin⟩ := h.owned k u f hu (hf' ▸ hf) (hst ▸ hns)
    exact ⟨s, hs, hcycle.trans ho.symm, hin⟩
  · intro s hs
    have hb := h.book s hs
    refine { hb with llgr_timer := ?_, restart_armedAt := ?_, gone := ?_ }
    · intro x hx
      obtain ⟨u, hu, ho, hf, hns, ha⟩ := hb.llgr_timer x hx
      obtain ⟨u', hu', ho', hf', ha', hst'⟩ := hback _ u hu
      exact ⟨u', hu', ho'.trans ho, hf'.trans hf, hst'.trans hns, ha'.trans ha⟩
    · intro k u' hu' ho hf hdl
      obtain ⟨u, hu, ho', hf', ha', -⟩ := hto k u' hu'
      exact ha'.trans (hb.restart_armedAt k u hu (ho' ▸ ho) (hf' ▸ hf) hdl)
    · intro k u' f hu' ho hf hst
      obtain ⟨u, hu, ho', hf', -, hst'⟩ := hto k u' hu'
      exact hb.gone k u f hu (ho' ▸ ho) (hf' ▸ hf) (hst' ▸ hst)
  · intro s hs k hk
    obtain ⟨hdl, u, hu, ho, hf, hns⟩ := h.restart s hs k hk
    obtain ⟨u', hu', ho', hf', -, hst'⟩ := hback k u hu
    exact ⟨hdl, u', hu', ho'.trans ho, hf'.trans hf, hst'.trans hns⟩

def Cell.taken (c : Cell F) (id : ℕ) : Cell F :=
  { c with timers := update c.timers id none }

section

variable {id : ℕ} {t : Timer F}

omit [DecidableEq F] in
lemma timers_taken {k : ℕ} {u : Timer F} :
    (c.taken id).timers k = some u ↔ k ≠ id ∧ c.timers k = some u := by
  unfold Cell.taken
  by_cases hk : k = id
  · subst hk
    simp
  · simp [hk]

omit [DecidableEq F] in
lemma fewer_taken : Fewer c (c.taken id) :=
  fun _ u hu => ⟨u, (timers_taken.1 hu).2, rfl, rfl, rfl, fun hns => hns⟩

omit [DecidableEq F] in
lemma Book.taken (hb : Book c s) (ht : c.timers id = some t)
    (hne : t.owner ≠ s.cycle ∨ t.family = none) : Book (c.taken id) s := by
  refine { hb with llgr_timer := ?_, restart_armedAt := ?_, gone := ?_ }
  · intro x hx
    obtain ⟨u, hu, ho, hf, hrest⟩ := hb.llgr_timer x hx
    refine ⟨u, timers_taken.2 ⟨?_, hu⟩, ho, hf, hrest⟩
    rintro rfl
    rw [ht] at hu
    cases hu
    rcases hne with hne | hne
    · exact hne ho
    · rw [hf] at hne
      cases hne
  · intro k u hu
    exact hb.restart_armedAt k u (timers_taken.1 hu).2
  · intro k u f hu
    exact hb.gone k u f (timers_taken.1 hu).2

omit [DecidableEq F] in
lemma Inv.taken (h : Inv c) (ht : c.timers id = some t) (hne : ∀ s, c.state = some s →
      t.owner ≠ s.cycle ∨ (t.family = none ∧ s.restartDeadline = none)) : Inv (c.taken id) := by
  refine ⟨h.toNumbers.fewer fewer_taken rfl rfl rfl rfl, ?_, ?_, ?_, h.cover⟩
  · intro k u f hu
    exact h.owned k u f (timers_taken.1 hu).2
  · intro s hs
    exact (h.book s hs).taken ht ((hne s hs).imp_right And.left)
  · intro s hs k hk
    obtain ⟨hdl, u, hu, ho, hrest⟩ := h.restart s hs k hk
    refine ⟨hdl, u, timers_taken.2 ⟨?_, hu⟩, ho, hrest⟩
    rintro rfl
    rw [ht] at hu
    cases hu
    rcases hne s hs with hne | ⟨-, hnone⟩
    · exact hne ho
    · exact hdl hnone

lemma Inv.runRestart (h : Inv c) (ht : c.timers id = some t) (hfam : t.family = none)
    (now : ℕ) : Inv ((c.taken id).handleTimerExpired t.owner now) := by
  refine handleTimerExpired_inv (h.toNumbers.fewer fewer_taken rfl rfl rfl rfl) ?_ ?_ _ now ?_ ?_
  · intro k u f hu
    exact h.owned k u f (timers_taken.1 hu).2
  · intro s hs
    exact (h.book s hs).taken ht (.inr hfam)
  · intro s hs hor
    refine h.taken ht fun s' hs' => ?_
    rw [show s' = s from Option.some.inj (hs'.symm.trans hs)]
    exact hor.imp (fun hne => Ne.symm hne) fun hnone => ⟨hfam, hnone⟩
  · intro d hd hcycle
    exact h.entered id t ht d hd hcycle

omit [DecidableEq F] in
lemma Inv.without_taken (h : Inv c) (hs : c.state = some s) (ht : c.timers id = some t)
    (howner : t.owner = s.cycle) {fam : F} (hfam : t.family = some fam) :
    Without c (c.taken id) fam := by
  have hb := h.book s hs
  refine ⟨fewer_taken, rfl, fun k u hu hne => timers_taken.2 ⟨?_, hu⟩, fun k u hu hf => ?_⟩
  · rintro rfl
    rw [ht, Option.some.injEq] at hu
    exact hne (hu ▸ hfam)
  · obtain ⟨hk, hu⟩ := timers_taken.1 hu
    by_contra hns
    have hin := (h.owned.ownedBy hs k u fam hu hf (by simpa using hns)).2
    cases hst : t.stopped with
    | true => exact (hb.gone id t fam ht howner hfam hst).1 k hin
    | false =>
      have hin₁ := (h.owned.ownedBy hs id t fam ht hfam hst).2
      exact hk (congrArg Prod.snd (inj_on_of_nodup_map hb.keys_nodup hin hin₁ rfl))

lemma Inv.runLLST (h : Inv c) (ht : c.timers id = some t) {fam : F} (hfam : t.family = some fam) :
    Inv ((c.taken id).handleLLSTExpired fam t.owner) := by
  unfold Cell.handleLLSTExpired
  have hstate : (c.taken id).state = c.state := rfl
  cases hs : c.state with
  | none =>
    simp only [hstate, hs]
    exact h.taken ht fun s hs' => by rw [hs] at hs'; cases hs'
  | some s =>
    simp only [hstate, hs]
    by_cases hcycle : s.cycle ≠ t.owner
    · rw [if_pos hcycle]
      refine h.taken ht fun s' hs' => .inl ?_
      rw [show s' = s from Option.some.inj (hs'.symm.trans hs)]
      exact Ne.symm hcycle
    · rw [if_neg hcycle]
      have hb := h.book s hs
      have hw := h.without_taken hs ht (not_not.1 hcycle).symm hfam
      by_cases hemp : (s.stale.filter (· ≠ fam)).isEmpty
      · rw [if_pos hemp]
        refine Numbers.inv_of_none { hw.numbers h.toNumbers with } rfl fun k u f hu hf => ?_
        by_contra hns
        obtain ⟨-, hin⟩ := hw.owned h.owned hs s.inLLGR k u f hu hf (by simpa using hns)
        obtain ⟨hin, hne⟩ := mem_filter.1 hin
        have hmem : f ∈ s.stale.filter (· ≠ fam) :=
          mem_filter.2 ⟨hb.llgr_stale _ hin, hne⟩
        rw [isEmpty_iff.1 hemp] at hmem
        cases hmem
      · rw [if_neg hemp]
        refine hw.inv h hs (fun hne => ?_) (fun hnil => hemp (isEmpty_iff.2 hnil)) _
        simpa using hne

end

lemma Inv.step (h : Inv c) {op : Cell.Op F} (hstep : c.step op = some c') : Inv c' := by
  cases op with
  | down cap llgrCap wasNotification now =>
    cases hstep
    exact h.down cap llgrCap wasNotification now
  | complete cycle now =>
    simp only [Cell.step] at hstep
    cases hd : c.pending.find? (·.cycle = cycle) with
    | none =>
      rw [hd] at hstep
      cases hstep
    | some d =>
      simp only [hd] at hstep
      split_ifs at hstep
      cases hstep
      exact h.complete (mem_of_find?_eq_some hd) now
  | reestablished newCap newLLGRCap =>
    cases hstep
    exact h.reestablished newCap newLLGRCap
  | eor fam =>
    cases hstep
    exact h.eor fam
  | remove =>
    cases hstep
    exact (h.toNumbers.clearPeerLocked h.owned).1
  | fire id =>
    simp only [Cell.step] at hstep
    cases ht : c.timers id with
    | none =>
      rw [ht] at hstep
      cases hstep
    | some t =>
      simp only [ht] at hstep
      split_ifs at hstep
      cases hstep
      exact h.fire ht
  | run id now =>
    simp only [Cell.step] at hstep
    cases ht : c.timers id with
    | none =>
      rw [ht] at hstep
      cases hstep
    | some t =>
      simp only [ht] at hstep
      split_ifs at hstep
      cases hstep
      unfold Cell.callback
      cases hfam : t.family with
      | none => exact h.runRestart ht hfam now
      | some fam => exact h.runLLST ht hfam

end

end Ze.Gr
