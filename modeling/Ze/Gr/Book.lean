import Ze.Gr.State

/-!
# The book of a cell

`Inv` is what every cell keeps.
-/

namespace Ze.Gr

open List

variable {F : Type}

/-! ## The invariant -/

/-- The timers in the cell that belong to a family's long-lived period of a state. -/
def Cell.Llst (c : Cell F) (s : PeerState F) (fam : F) (id : ℕ) : Prop :=
  ∃ t, c.timers id = some t ∧ t.owner = s.cycle ∧ t.family = some fam ∧ t.stopped = false ∧
    t.armedAt = c.reestablished

def Cell.Restart (c : Cell F) (s : PeerState F) (id : ℕ) : Prop :=
  ∃ t, c.timers id = some t ∧ t.owner = s.cycle ∧ t.family = none ∧ t.stopped = false

/-- A family waits for the first part of a completion of the state. -/
def Cell.Awaits (c : Cell F) (s : PeerState F) (fam : F) : Prop :=
  ∃ d ∈ c.pending, d.cycle = s.cycle ∧ d.stage = .enter ∧ fam ∈ d.immediate

structure Book (c : Cell F) (s : PeerState F) : Prop where
  cycle_lt : s.cycle < c.nextCycle
  born_le : s.born ≤ c.reestablished
  stale_ne : s.stale ≠ []
  llgr_stale : ∀ x ∈ s.llgr, x.1 ∈ s.stale
  keys_nodup : (s.llgr.map Prod.fst).Nodup
  llgr_timer : ∀ x ∈ s.llgr, c.Llst s x.1 x.2
  inLLGR_of_llgr : s.llgr ≠ [] → s.inLLGR = true
  restart_armedAt : ∀ id t, c.timers id = some t → t.owner = s.cycle → t.family = none →
    s.restartDeadline ≠ none → t.armedAt = c.reestablished
  gone : ∀ id t f, c.timers id = some t → t.owner = s.cycle → t.family = some f →
    t.stopped = true → (∀ k, (f, k) ∉ s.llgr) ∧ (f ∉ s.stale ∨ s.restartDeadline = none)

/-- A family has its timer, or a deadline that gets one, or a completion that will look at it. -/
def Cell.Covers (c : Cell F) (s : PeerState F) (fam : F) : Prop :=
  (∃ id, (fam, id) ∈ s.llgr) ∨
    (s.restartDeadline ≠ none ∧ (s.cycle ∈ c.completed → s.restartTimer ≠ none)) ∨
    c.Awaits s fam

/-- The numbers that were given out, and the completions. -/
structure Numbers (c : Cell F) : Prop where
  timer_lt : ∀ id t, c.timers id = some t → id < c.nextTimer ∧ t.owner < c.nextCycle
  pending_lt : ∀ d ∈ c.pending, d.cycle < c.nextCycle ∧ d.cycle ∉ c.completed
  completed_lt : ∀ n ∈ c.completed, n < c.nextCycle
  pending_nodup : (c.pending.map Completion.cycle).Nodup
  entered : ∀ id t, c.timers id = some t → ∀ d ∈ c.pending, d.cycle = t.owner → d.stage ≠ .enter

/-- A long-lived timer that was not stopped is in the list of the state. -/
def OwnedBy (c : Cell F) (s : PeerState F) : Prop :=
  ∀ id t f, c.timers id = some t → t.family = some f → t.stopped = false →
    s.cycle = t.owner ∧ (f, id) ∈ s.llgr

/-- A long-lived timer that was not stopped belongs to the state. -/
def Owned (c : Cell F) : Prop :=
  ∀ id t f, c.timers id = some t → t.family = some f → t.stopped = false →
    ∃ s, c.state = some s ∧ s.cycle = t.owner ∧ (f, id) ∈ s.llgr

structure Inv (c : Cell F) : Prop extends Numbers c where
  owned : Owned c
  book : ∀ s, c.state = some s → Book c s
  restart : ∀ s, c.state = some s → ∀ id, s.restartTimer = some id →
    s.restartDeadline ≠ none ∧ c.Restart s id
  cover : ∀ s, c.state = some s → s.born = c.reestablished → ∀ f ∈ s.stale, c.Covers s f

section

variable {c c' : Cell F} {s s' : PeerState F}

lemma Numbers.inv_of_none (h : Numbers c) (hnone : c.state = none)
    (hst : ∀ id t f, c.timers id = some t → t.family = some f → t.stopped) : Inv c where
  toNumbers := h
  owned id t f ht hfam hns := by
    rw [hst id t f ht hfam] at hns
    cases hns
  book s hs := by
    rw [hnone] at hs
    cases hs
  restart s hs := by
    rw [hnone] at hs
    cases hs
  cover s hs := by
    rw [hnone] at hs
    cases hs

/-- What the timers of `c'` say, those of `c` said, but for the note that they were stopped. -/
def Fewer (c c' : Cell F) : Prop :=
  ∀ id t', c'.timers id = some t' →
    ∃ t, c.timers id = some t ∧ t'.owner = t.owner ∧ t'.family = t.family ∧
      t'.armedAt = t.armedAt ∧ (t'.stopped = false → t.stopped = false)

lemma Fewer.refl (c : Cell F) : Fewer c c :=
  fun _ t h => ⟨t, h, rfl, rfl, rfl, fun hs => hs⟩

lemma Fewer.trans {c'' : Cell F} (h : Fewer c c') (h' : Fewer c' c'') : Fewer c c'' := by
  intro id t'' ht''
  obtain ⟨t', ht', h₁, h₂, h₃, h₄⟩ := h' id t'' ht''
  obtain ⟨t, ht, h₁', h₂', h₃', h₄'⟩ := h id t' ht'
  exact ⟨t, ht, h₁.trans h₁', h₂.trans h₂', h₃.trans h₃', fun hs => h₄' (h₄ hs)⟩

lemma Numbers.fewer (h : Numbers c) (hf : Fewer c c') (hnt : c'.nextTimer = c.nextTimer)
    (hnc : c'.nextCycle = c.nextCycle) (hp : c'.pending = c.pending)
    (hc : c'.completed = c.completed) : Numbers c' where
  timer_lt id t' ht' := by
    obtain ⟨t, ht, howner, -, -, -⟩ := hf id t' ht'
    rw [hnt, hnc, howner]
    exact h.timer_lt id t ht
  pending_lt := by
    rw [hp, hnc, hc]
    exact h.pending_lt
  completed_lt := by
    rw [hc, hnc]
    exact h.completed_lt
  pending_nodup := by
    rw [hp]
    exact h.pending_nodup
  entered id t' ht' d hd hcycle := by
    obtain ⟨t, ht, howner, -, -, -⟩ := hf id t' ht'
    rw [hp] at hd
    exact h.entered id t ht d hd (hcycle.trans howner)

/-! ## Stopping timers -/

lemma timers_stop (c : Cell F) (id k : ℕ) :
    (c.stop id).timers k = if k = id then
      (c.timers id).bind (fun t => if t.started then some { t with stopped := true } else none)
      else c.timers k := by
  unfold Cell.stop
  by_cases hk : k = id
  · subst hk
    simp
  · simp [hk]

lemma fewer_stop (c : Cell F) (id : ℕ) : Fewer c (c.stop id) := by
  intro k t' ht'
  rw [timers_stop] at ht'
  split_ifs at ht' with hk
  · subst hk
    obtain ⟨t, ht, hst⟩ := Option.bind_eq_some_iff.1 ht'
    split_ifs at hst
    cases hst
    exact ⟨t, ht, rfl, rfl, rfl, fun hs => by cases hs⟩
  · exact ⟨t', ht', rfl, rfl, rfl, fun hs => hs⟩

lemma stopped_of_stop {id : ℕ} {t' : Timer F} (ht' : (c.stop id).timers id = some t') :
    t'.stopped := by
  rw [timers_stop, if_pos rfl] at ht'
  obtain ⟨t, -, hst⟩ := Option.bind_eq_some_iff.1 ht'
  split_ifs at hst
  cases hst
  rfl

lemma stop_foldl (xs : List (F × ℕ)) (c : Cell F) :
    Fewer c (xs.foldl (fun c x => c.stop x.2) c) ∧
      (∀ k, (∀ x ∈ xs, x.2 ≠ k) → (xs.foldl (fun c x => c.stop x.2) c).timers k = c.timers k) ∧
      (∀ x ∈ xs, ∀ t', (xs.foldl (fun c x => c.stop x.2) c).timers x.2 = some t' →
        t'.stopped) ∧
      { xs.foldl (fun c x => c.stop x.2) c with timers := c.timers } = c := by
  induction xs generalizing c with
  | nil =>
    refine ⟨Fewer.refl c, fun _ _ => rfl, fun x hx => ?_, rfl⟩
    cases hx
  | cons x xs ih =>
    obtain ⟨hfew, hsame, hstopped, hframe⟩ := ih (c.stop x.2)
    simp only [foldl_cons]
    refine ⟨(fewer_stop c x.2).trans hfew, fun k hk => ?_, fun y hy t' ht' => ?_, ?_⟩
    · rw [hsame k fun y hy => hk y (mem_cons_of_mem _ hy), timers_stop,
        if_neg (fun h => hk x mem_cons_self h.symm)]
    · rcases mem_cons.1 hy with rfl | hy
      · by_contra hns
        have hns' : t'.stopped = false := by simpa using hns
        obtain ⟨t, ht, -, -, -, himp⟩ := hfew y.2 t' ht'
        have hst := stopped_of_stop ht
        rw [himp hns'] at hst
        cases hst
      · exact hstopped y hy t' ht'
    · have hrest := congrArg (fun d : Cell F => { d with timers := c.timers }) hframe
      exact hrest

end

/-! ## Entering the long-lived period -/

section

variable [DecidableEq F] {c : Cell F} {s : PeerState F} {deadline now : ℕ}

/-- Nothing is left of the long-lived time of a family. Source: gr_state.go enterLLGRLocked,
remaining. -/
def Spent (s : PeerState F) (deadline now : ℕ) (fam : F) : Prop :=
  ∀ llst, Cell.llstByFamily s.llgrCap fam = some llst → deadline + llst ≤ now

/-- The timer that a family gets. Source: gr_state.go enterLLGRLocked. -/
def llstTimer (c : Cell F) (s : PeerState F) (fam : F) : Timer F :=
  { owner := s.cycle, family := some fam, armedAt := c.reestablished }

/-- What the loop has done after the families `done`. Source: gr_state.go enterLLGRLocked. -/
structure Entered (c : Cell F) (s : PeerState F) (deadline now : ℕ) (done : List F)
    (x : Cell.Entering F) : Prop where
  frame : { x.cell with timers := c.timers, nextTimer := c.nextTimer } = c
  next_le : c.nextTimer ≤ x.cell.nextTimer
  old : ∀ id < c.nextTimer, x.cell.timers id = c.timers id
  fresh : ∀ id t, c.nextTimer ≤ id → x.cell.timers id = some t →
    id < x.cell.nextTimer ∧ ∃ f, (f, id) ∈ x.llgr ∧ t = llstTimer c s f
  llgr_old : ∀ y ∈ s.llgr, y ∈ x.llgr
  llgr_new : ∀ y ∈ x.llgr, y ∈ s.llgr ∨
    (y.1 ∈ s.stale ∧ y.1 ∈ done ∧ ¬ Spent s deadline now y.1 ∧ c.nextTimer ≤ y.2 ∧
      x.cell.timers y.2 = some (llstTimer c s y.1))
  keys_nodup : (x.llgr.map Prod.fst).Nodup
  purged : ∀ f ∈ x.purged, Spent s deadline now f ∧ ∀ k, (f, k) ∉ s.llgr
  covered : ∀ f ∈ done, f ∈ s.stale → f ∈ x.purged ∨ ∃ k, (f, k) ∈ x.llgr

omit [DecidableEq F] in
lemma exists_of_mem_keys {xs : List (F × ℕ)} {f : F} : f ∈ xs.map Prod.fst ↔ ∃ k, (f, k) ∈ xs := by
  constructor
  · intro h
    obtain ⟨y, hy, rfl⟩ := mem_map.1 h
    exact ⟨y.2, hy⟩
  · rintro ⟨k, hk⟩
    exact mem_map.2 ⟨(f, k), hk, rfl⟩

lemma isSome_lookup_iff {xs : List (F × ℕ)} {f : F} : (xs.lookup f).isSome ↔ ∃ k, (f, k) ∈ xs := by
  rw [lookup_isSome_iff]
  constructor
  · rintro ⟨y, hy, hkey⟩
    refine ⟨y.2, ?_⟩
    rw [show f = y.1 from by simpa using hkey]
    exact hy
  · rintro ⟨k, hk⟩
    exact ⟨(f, k), hk, by simp⟩

lemma entered_nil (hn : Numbers c) (hb : Book c s) :
    Entered c s deadline now [] { cell := c, llgr := s.llgr } where
  frame := rfl
  next_le := Nat.le_refl _
  old _ _ := rfl
  fresh id t hid ht := absurd (hn.timer_lt id t ht).1 (Nat.not_lt.2 hid)
  llgr_old _ hy := hy
  llgr_new _ hy := .inl hy
  keys_nodup := hb.keys_nodup
  purged f hf := by cases hf
  covered f hf := by cases hf

lemma Entered.skip {done : List F} {x : Cell.Entering F} {fam : F}
    (h : Entered c s deadline now done x)
    (hfam : fam ∈ s.stale → fam ∈ x.purged ∨ ∃ k, (fam, k) ∈ x.llgr) :
    Entered c s deadline now (done ++ [fam]) x :=
  { h with
    llgr_new := fun y hy => by
      refine (h.llgr_new y hy).imp_right fun ⟨hst, hd, hrest⟩ => ?_
      exact ⟨hst, mem_append_left _ hd, hrest⟩
    covered := fun f hf hst => by
      rcases mem_append.1 hf with hf | hf
      · exact h.covered f hf hst
      · obtain rfl := mem_singleton.1 hf
        exact hfam hst }

lemma Entered.purge {done : List F} {x : Cell.Entering F} {fam : F}
    (h : Entered c s deadline now done x) (hspent : Spent s deadline now fam)
    (hnone : ∀ k, (fam, k) ∉ x.llgr) :
    Entered c s deadline now (done ++ [fam]) { x with purged := x.purged ++ [fam] } := by
  refine Entered.skip { h with purged := ?_, covered := ?_ } fun _ => .inl (by simp)
  · intro f hf
    rcases mem_append.1 hf with hf | hf
    · exact h.purged f hf
    · obtain rfl := mem_singleton.1 hf
      exact ⟨hspent, fun k hk => hnone k (h.llgr_old _ hk)⟩
  · intro f hf hst
    exact (h.covered f hf hst).imp_left fun hp => mem_append_left _ hp

lemma Entered.arm {done : List F} {x : Cell.Entering F} {fam : F}
    (h : Entered c s deadline now done x) (hst : fam ∈ s.stale)
    (hleft : ¬ Spent s deadline now fam) (hnone : ∀ k, (fam, k) ∉ x.llgr) (es : List (F × ℕ)) :
    Entered c s deadline now (done ++ [fam])
      { cell := x.cell.afterFunc s.cycle (some fam)
        llgr := x.llgr ++ [(fam, x.cell.nextTimer)]
        purged := x.purged
        entries := es } := by
  have hre : x.cell.reestablished = c.reestablished := by
    rw [← h.frame]
  have hother : ∀ id, id ≠ x.cell.nextTimer →
      (x.cell.afterFunc s.cycle (some fam)).timers id = x.cell.timers id := by
    intro id hid
    simp only [Cell.afterFunc, Function.update_of_ne hid]
  have hself : (x.cell.afterFunc s.cycle (some fam)).timers x.cell.nextTimer =
      some (llstTimer c s fam) := by
    simp only [Cell.afterFunc, Function.update_self, llstTimer, hre]
  have hnext : (x.cell.afterFunc s.cycle (some fam)).nextTimer = x.cell.nextTimer + 1 := rfl
  have hle := h.next_le
  refine ⟨h.frame, ?_, ?_, ?_, ?_, ?_, ?_, h.purged, ?_⟩
  · show c.nextTimer ≤ (x.cell.afterFunc s.cycle (some fam)).nextTimer
    omega
  · intro id hid
    show (x.cell.afterFunc s.cycle (some fam)).timers id = _
    rw [hother id (by omega)]
    exact h.old id hid
  · intro id t hid ht
    by_cases hnew : id = x.cell.nextTimer
    · subst hnew
      rw [hself, Option.some.injEq] at ht
      exact ⟨Nat.lt_succ_self _, fam, by simp, ht.symm⟩
    · rw [hother id hnew] at ht
      obtain ⟨hlt, f, hf, rfl⟩ := h.fresh id t hid ht
      exact ⟨Nat.lt_succ_of_lt hlt, f, mem_append_left _ hf, rfl⟩
  · intro y hy
    exact mem_append_left _ (h.llgr_old y hy)
  · intro y hy
    rcases mem_append.1 hy with hy | hy
    · refine (h.llgr_new y hy).imp_right fun ⟨hst, hd, hsp, hge, ht⟩ => ?_
      refine ⟨hst, mem_append_left _ hd, hsp, hge, ?_⟩
      have hlt := (h.fresh y.2 _ hge ht).1
      rw [hother y.2 (by omega)]
      exact ht
    · obtain rfl := mem_singleton.1 hy
      exact .inr ⟨hst, by simp, hleft, hle, hself⟩
  · rw [map_append, nodup_append]
    refine ⟨h.keys_nodup, by simp, fun a ha b hb => ?_⟩
    obtain ⟨k, hk⟩ := exists_of_mem_keys.1 ha
    rw [show b = fam by simpa using hb]
    rintro rfl
    exact hnone k hk
  · intro f hf hst'
    rcases mem_append.1 hf with hf | hf
    · refine (h.covered f hf hst').imp_right fun ⟨k, hk⟩ => ?_
      exact ⟨k, mem_append_left _ hk⟩
    · obtain rfl := mem_singleton.1 hf
      exact .inr ⟨x.cell.nextTimer, by simp⟩

lemma Entered.step {done : List F} {x : Cell.Entering F} {fam : F}
    (h : Entered c s deadline now done x) :
    Entered c s deadline now (done ++ [fam]) (Cell.enterOne s deadline now x fam) := by
  unfold Cell.enterOne
  by_cases hst : fam ∉ s.stale
  · rw [if_pos hst]
    exact h.skip fun hin => absurd hin hst
  · rw [if_neg hst]
    by_cases hhas : (x.llgr.lookup fam).isSome
    · rw [if_pos hhas]
      exact h.skip fun _ => .inr (isSome_lookup_iff.1 hhas)
    · rw [if_neg hhas]
      have hnone : ∀ k, (fam, k) ∉ x.llgr := fun k hk => hhas (isSome_lookup_iff.2 ⟨k, hk⟩)
      cases hllst : Cell.llstByFamily s.llgrCap fam with
      | none =>
        refine h.purge (fun llst hl => ?_) hnone
        rw [hllst] at hl
        cases hl
      | some llst =>
        by_cases hle : deadline + llst ≤ now
        · simp only [if_pos hle]
          refine h.purge (fun llst' hl => ?_) hnone
          rw [hllst, Option.some.injEq] at hl
          omega
        · simp only [if_neg hle]
          exact h.arm (not_not.1 hst) (fun hsp => hle (hsp llst hllst)) hnone _

lemma Entered.foldl (families : List F) : ∀ {done : List F} {x : Cell.Entering F},
    Entered c s deadline now done x →
    Entered c s deadline now (done ++ families)
      (families.foldl (Cell.enterOne s deadline now) x) := by
  induction families with
  | nil =>
    intro done x h
    rw [append_nil]
    exact h
  | cons f fs ih =>
    intro done x h
    rw [append_cons]
    exact ih h.step

/-! ### What the loop leaves -/

variable {done : List F} {x : Cell.Entering F}

section

variable (h : Entered c s deadline now done x)
include h

lemma Entered.same :
    x.cell.nextCycle = c.nextCycle ∧ x.cell.pending = c.pending ∧
      x.cell.completed = c.completed ∧ x.cell.reestablished = c.reestablished := by
  refine ⟨?_, ?_, ?_, ?_⟩ <;> rw [← h.frame]

lemma Entered.timer_cases {id : ℕ} {t : Timer F} (ht : x.cell.timers id = some t) :
    c.timers id = some t ∨
      (id < x.cell.nextTimer ∧ ∃ f, (f, id) ∈ x.llgr ∧ t = llstTimer c s f) := by
  rcases Nat.lt_or_ge id c.nextTimer with hid | hid
  · exact .inl ((h.old id hid).symm.trans ht)
  · exact .inr (h.fresh id t hid ht)

lemma Entered.timer_old (hn : Numbers c) {id : ℕ} {t : Timer F} (ht : c.timers id = some t) :
    x.cell.timers id = some t := by
  rw [h.old id (hn.timer_lt id t ht).1]
  exact ht

lemma Entered.not_purged {f : F} {k : ℕ} (hk : (f, k) ∈ x.llgr) : f ∉ x.purged := by
  intro hp
  obtain ⟨hspent, hnone⟩ := h.purged f hp
  rcases h.llgr_new _ hk with hold | ⟨-, -, hleft, -, -⟩
  · exact hnone k hold
  · exact hleft hspent

lemma Entered.numbers (hn : Numbers c) (hlt : s.cycle < c.nextCycle)
    (hent : ∀ d ∈ c.pending, d.cycle = s.cycle → d.stage ≠ .enter) : Numbers x.cell := by
  obtain ⟨hnc, hp, hco, -⟩ := h.same
  refine ⟨?_, ?_, ?_, ?_, ?_⟩
  · intro id t ht
    rw [hnc]
    rcases h.timer_cases ht with ht | ⟨hid, f, -, rfl⟩
    · exact ⟨Nat.lt_of_lt_of_le (hn.timer_lt id t ht).1 h.next_le, (hn.timer_lt id t ht).2⟩
    · exact ⟨hid, hlt⟩
  · rw [hp, hnc, hco]
    exact hn.pending_lt
  · rw [hco, hnc]
    exact hn.completed_lt
  · rw [hp]
    exact hn.pending_nodup
  · intro id t ht d hd hcycle
    rw [hp] at hd
    rcases h.timer_cases ht with ht | ⟨-, f, -, rfl⟩
    · exact hn.entered id t ht d hd hcycle
    · exact hent d hd hcycle

end

/-- The state that the loop leaves. Source: gr_state.go enterLLGRLocked. -/
def entered (s : PeerState F) (x : Cell.Entering F) : PeerState F :=
  { s with
    llgr := x.llgr
    stale := s.stale.filter (· ∉ x.purged)
    inLLGR := !x.llgr.isEmpty }

section

variable (h : Entered c s deadline now done x)
include h

lemma Entered.llgr_timer (hn : Numbers c) (hb : Book c s) :
    ∀ y ∈ x.llgr, x.cell.Llst (entered s x) y.1 y.2 := by
  obtain ⟨-, -, -, hre⟩ := h.same
  intro y hy
  rcases h.llgr_new y hy with hold | ⟨-, -, -, -, ht⟩
  · obtain ⟨t, ht, howner, hfam, hns, hat⟩ := hb.llgr_timer y hold
    exact ⟨t, h.timer_old hn ht, howner, hfam, hns, hat.trans hre.symm⟩
  · exact ⟨_, ht, rfl, rfl, rfl, hre.symm⟩

lemma Entered.book (hn : Numbers c) (hb : Book c s)
    (hfree : ∀ id t f, c.timers id = some t → t.owner = s.cycle → t.family = some f →
      t.stopped → f ∉ s.stale)
    (hne : (entered s x).stale ≠ []) : Book x.cell (entered s x) := by
  obtain ⟨hnc, -, -, hre⟩ := h.same
  have hstale : ∀ y ∈ x.llgr, y.1 ∈ s.stale := by
    intro y hy
    rcases h.llgr_new y hy with hold | ⟨hst, -⟩
    · exact hb.llgr_stale y hold
    · exact hst
  refine ⟨?_, ?_, hne, ?_, h.keys_nodup, h.llgr_timer hn hb, ?_, ?_, ?_⟩
  · rw [hnc]
    exact hb.cycle_lt
  · rw [hre]
    exact hb.born_le
  · intro y hy
    refine mem_filter.2 ⟨hstale y hy, ?_⟩
    simpa using h.not_purged hy
  · intro hl
    simpa [entered] using hl
  · intro id t ht howner hfam hdl
    rw [hre]
    rcases h.timer_cases ht with ht | ⟨-, f, -, rfl⟩
    · exact hb.restart_armedAt id t ht howner hfam hdl
    · cases hfam
  · intro id t f ht howner hfam hst
    rcases h.timer_cases ht with ht | ⟨-, g, -, rfl⟩
    · have hf := hfree id t f ht howner hfam hst
      refine ⟨fun k hk => hf (hstale _ hk), .inl fun hf' => ?_⟩
      exact hf (mem_of_mem_filter hf')
    · cases hst

lemma Entered.covers {f : F} (hf : f ∈ (entered s x).stale) (hor : f ∈ done ∨ c.Covers s f) :
    x.cell.Covers (entered s x) f := by
  obtain ⟨-, hp, hco, -⟩ := h.same
  have hf' := mem_filter.1 hf
  rcases hor with hdone | ⟨k, hk⟩ | ⟨hdl, hrt⟩ | ⟨d, hd, hrest⟩
  · rcases h.covered f hdone hf'.1 with hpurged | hk
    · exact absurd hpurged (by simpa using hf'.2)
    · exact .inl hk
  · exact .inl ⟨k, h.llgr_old _ hk⟩
  · exact .inr (.inl ⟨hdl, fun hc => hrt (hco ▸ hc)⟩)
  · exact .inr (.inr ⟨d, hp ▸ hd, hrest⟩)

lemma Entered.owned (hown : OwnedBy c s) : OwnedBy x.cell (entered s x) := by
  intro id t f ht hfam hns
  rcases h.timer_cases ht with ht | ⟨-, g, hg, rfl⟩
  · obtain ⟨hcycle, hin⟩ := hown id t f ht hfam hns
    exact ⟨hcycle, h.llgr_old _ hin⟩
  · cases hfam
    exact ⟨rfl, hg⟩

end

/-- Entering the long-lived period keeps the invariant, if no completion of the state is before its
first part and no family of a stopped timer is stale: then a family that was not covered has to be
among those that enter. -/
lemma enterLLGRLocked_inv (hn : Numbers c) (hb : Book c s) (hown : OwnedBy c s)
    (families : List F) (deadline now : ℕ)
    (hent : ∀ d ∈ c.pending, d.cycle = s.cycle → d.stage ≠ .enter)
    (hfree : ∀ id t f, c.timers id = some t → t.owner = s.cycle → t.family = some f →
      t.stopped → f ∉ s.stale)
    (hcov : s.born = c.reestablished → ∀ f ∈ s.stale, f ∈ families ∨ c.Covers s f)
    (hrestart : ∀ id, s.restartTimer = some id → s.restartDeadline ≠ none ∧ c.Restart s id) :
    Inv (c.enterLLGRLocked s families deadline now).1 := by
  have hx : Entered c s deadline now families
      (families.foldl (Cell.enterOne s deadline now) { cell := c, llgr := s.llgr }) := by
    have h₀ : Entered c s deadline now [] _ := entered_nil hn hb
    simpa only [nil_append] using h₀.foldl families
  unfold Cell.enterLLGRLocked
  generalize families.foldl (Cell.enterOne s deadline now) { cell := c, llgr := s.llgr } = x at hx
  have hnum := hx.numbers hn hb.cycle_lt hent
  have hown' := hx.owned hown
  obtain ⟨-, -, -, hre⟩ := hx.same
  by_cases hdone : (entered s x).stale = []
  · -- no family is left, so none has a timer
    have hllgr : x.llgr = [] := by
      refine eq_nil_iff_forall_not_mem.2 fun y hy => ?_
      have hst : y.1 ∈ s.stale := by
        rcases hx.llgr_new y hy with hold | ⟨hst, -⟩
        · exact hb.llgr_stale y hold
        · exact hst
      have hmem : y.1 ∈ (entered s x).stale :=
        mem_filter.2 ⟨hst, by simpa using hx.not_purged hy⟩
      rw [hdone] at hmem
      cases hmem
    refine Numbers.inv_of_none { hnum with } ?_ fun id t f ht hfam => ?_
    · exact if_pos (List.isEmpty_iff.2 hdone)
    · by_contra hst
      obtain ⟨-, hin⟩ := hown' id t f ht hfam (by simpa using hst)
      change (f, id) ∈ x.llgr at hin
      rw [hllgr] at hin
      cases hin
  · have hstate : ∀ s', (if (entered s x).stale.isEmpty then none else some (entered s x)) =
        some s' → s' = entered s x := by
      intro s' hs'
      rw [if_neg (fun h => hdone (List.isEmpty_iff.mp h)), Option.some.injEq] at hs'
      exact hs'.symm
    refine ⟨{ hnum with }, fun id t f ht hfam hns => ?_, fun s' hs' => ?_, fun s' hs' id hid => ?_,
      fun s' hs' hborn f hf => ?_⟩
    · obtain ⟨hcycle, hin⟩ := hown' id t f ht hfam hns
      exact ⟨entered s x, if_neg (fun h => hdone (List.isEmpty_iff.1 h)), hcycle, hin⟩
    · obtain rfl := hstate s' hs'
      exact { hx.book hn hb hfree hdone with }
    · obtain rfl := hstate s' hs'
      obtain ⟨hdl, t, ht, hrest⟩ := hrestart id hid
      exact ⟨hdl, t, hx.timer_old hn ht, hrest⟩
    · obtain rfl := hstate s' hs'
      have hborn' : s.born = c.reestablished := hborn.trans hre
      exact hx.covers hf (hcov hborn' f (mem_of_mem_filter hf))

end

end Ze.Gr
