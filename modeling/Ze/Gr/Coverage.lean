import Ze.Lib.Run
import Ze.Gr.Kept

/-!
# Every stale family has a timer

`stale_covered` is what the book of a cell means for all runs of the manager, from the empty one.
-/

namespace Ze.Gr

open Ze.Lib

variable {F : Type}

lemma Inv.empty : Inv ({} : Cell F) := by
  refine Numbers.inv_of_none ⟨?_, ?_, ?_, List.nodup_nil, ?_⟩ rfl ?_
  · intro id t ht
    cases ht
  · intro d hd
    cases hd
  · intro n hn
    cases hn
  · intro id t ht
    cases ht
  · intro id t f ht
    cases ht

/-- The manager as it is made. Source: gr_state.go newGRStateManager. -/
def Manager.new {A : Type} : Manager A F := fun _ => {}

section

variable [DecidableEq F] {A : Type} [DecidableEq A]

lemma inv_of_step {m m' : Manager A F} {op : A × Cell.Op F} (h : ∀ addr, Inv (m addr))
    (hstep : m.step op = some m') (addr : A) : Inv (m' addr) := by
  obtain ⟨c, hc, rfl⟩ := Option.map_eq_some_iff.1 hstep
  by_cases haddr : addr = op.1
  · subst haddr
    rw [Function.update_self]
    exact (h op.1).step hc
  · rw [Function.update_of_ne haddr]
    exact h addr

lemma inv_of_run {ops : List (A × Cell.Op F)} {m : Manager A F}
    (hrun : run Manager.step Manager.new ops = some m) (addr : A) : Inv (m addr) :=
  run_inv (I := fun m : Manager A F => ∀ addr, Inv (m addr)) (fun _ _ _ => inv_of_step) ops
    Manager.new m (fun _ => Inv.empty) hrun addr

/-- In every state the manager can reach, a long-lived timer that was not stopped belongs to a stale
family of the peer; a peer has an entry only while a family is stale; and once the completion of the
session-down has run, until the session is back, every stale family has the restart timer, with its
deadline, or a long-lived timer of its own, armed and not stopped. -/
theorem stale_covered {ops : List (A × Cell.Op F)} {m : Manager A F}
    (hrun : run Manager.step Manager.new ops = some m) (addr : A) :
    (∀ id t f, (m addr).timers id = some t → t.family = some f → t.stopped = false →
      ∃ s, (m addr).state = some s ∧ s.cycle = t.owner ∧ f ∈ s.stale ∧ (f, id) ∈ s.llgr) ∧
    ∀ s, (m addr).state = some s → s.stale ≠ [] ∧ (∀ x ∈ s.llgr, x.1 ∈ s.stale) ∧
      (s.cycle ∈ (m addr).completed → s.born = (m addr).reestablished → ∀ f ∈ s.stale,
        (s.restartDeadline ≠ none ∧ ∃ id, s.restartTimer = some id ∧ (m addr).Restart s id) ∨
        ∃ id, (f, id) ∈ s.llgr ∧ (m addr).Llst s f id) := by
  have h := inv_of_run hrun addr
  refine ⟨fun id t f ht hfam hns => ?_, fun s hs => ?_⟩
  · obtain ⟨s, hs, hcycle, hin⟩ := h.owned id t f ht hfam hns
    exact ⟨s, hs, hcycle, (h.book s hs).llgr_stale _ hin, hin⟩
  · have hb := h.book s hs
    refine ⟨hb.stale_ne, hb.llgr_stale, fun hdone hborn f hf => ?_⟩
    rcases h.cover s hs hborn f hf with ⟨id, hid⟩ | ⟨hdl, hrt⟩ | ⟨d, hd, hcycle, -, -⟩
    · exact .inr ⟨id, hid, hb.llgr_timer _ hid⟩
    · obtain ⟨id, hid⟩ := Option.ne_none_iff_exists'.1 (hrt hdone)
      exact .inl ⟨hdl, id, hid, (h.restart s hs id hid).2⟩
    · -- the completion has run, so nothing waits for it
      exact absurd (hcycle ▸ hdone) (h.pending_lt d hd).2

end

/-- A session with one family in the restart capability and another one in the long-lived capability
goes down, and its completion runs. -/
def downOps : List (Unit × Cell.Op ℕ) :=
  [((), .down (some ⟨5, [(1, true)]⟩) (some ⟨[⟨2, true, 10⟩]⟩) false 0),
    ((), .complete 0 1), ((), .complete 0 2)]

/-- Both families are stale and covered, one by each kind of timer. -/
theorem stale_covered_both : ∃ m s, run Manager.step Manager.new downOps = some m ∧
    (m ()).state = some s ∧ s.stale = [1, 2] ∧ s.cycle ∈ (m ()).completed ∧
      s.born = (m ()).reestablished ∧ ∀ f ∈ s.stale,
        (s.restartDeadline ≠ none ∧ ∃ id, s.restartTimer = some id ∧ (m ()).Restart s id) ∨
        ∃ id, (f, id) ∈ s.llgr ∧ (m ()).Llst s f id := by
  have hany : (run Manager.step Manager.new downOps).any (fun m => (m ()).state.any fun s =>
      decide (s.stale = [1, 2]) && decide (s.cycle ∈ (m ()).completed) &&
        decide (s.born = (m ()).reestablished)) = true := by
    decide +kernel
  obtain ⟨m, hm, hm'⟩ := (Option.any_eq_true _ _).1 hany
  obtain ⟨s, hs, hs'⟩ := (Option.any_eq_true _ _).1 hm'
  simp only [Bool.and_eq_true, decide_eq_true_eq] at hs'
  obtain ⟨⟨hstale, hdone⟩, hborn⟩ := hs'
  refine ⟨m, s, hm, hs, hstale, hdone, hborn, ?_⟩
  exact ((stale_covered hm ()).2 s hs).2.2 hdone hborn

end Ze.Gr
