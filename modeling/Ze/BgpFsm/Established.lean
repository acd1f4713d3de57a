import Ze.BgpFsm.Callbacks

/-!
# The way into Established

A session is established by a KEEPALIVE in OpenConfirm or, with strict BFD, by one in OpenSent and
BFD that comes up after it. `handleOpenSent` takes every sub-state but two for the confirmed one.
-/

namespace Ze.BgpFsm

open Ze.Lib List

/-- BFD Up leads to Established. Source: fsm.go handleOpenSent. -/
def Fsm.Confirmed (f : Fsm) : Prop :=
  f.state = .openSent ∧ f.bfdSub ≠ .none ∧ f.bfdSub ≠ .openSentBfdUpPending

/-- What a handler may do: `change` is called with another state, and with Established only on a
KEEPALIVE in OpenConfirm or once confirmed. -/
def Fsm.Allows (f : Fsm) (e : Event) (o : Outcome) : Prop :=
  match o.target with
  | none => o.fsm.bfdSub = f.bfdSub ∨ f.state = .openSent ∧ e = .keepaliveMsg
  | some t => t ≠ f.state ∧
    (t = .established → f.state = .openConfirm ∧ e = .keepaliveMsg ∨ f.Confirmed)

/-- Since a KEEPALIVE in OpenSent or OpenConfirm, every event was handled in OpenSent or
Established; `seen` has the events with the states they were handled in. -/
def Heard (seen : List (State × Event)) : Prop :=
  ∃ before st after, seen = before ++ (st, .keepaliveMsg) :: after ∧
    (st = .openSent ∨ st = .openConfirm) ∧ ∀ p ∈ after, p.1 = .openSent ∨ p.1 = .established

section

variable {f : Fsm} {e : Event} {st : State} {seen : List (State × Event)}

lemma heard_snoc (hst : st = .openSent ∨ st = .openConfirm) :
    Heard (seen ++ [(st, .keepaliveMsg)]) :=
  ⟨seen, st, [], rfl, hst, forall_mem_nil _⟩

lemma Heard.snoc (h : Heard seen) (hst : st = .openSent ∨ st = .established) :
    Heard (seen ++ [(st, e)]) := by
  obtain ⟨before, st', after, rfl, hst', hafter⟩ := h
  refine ⟨before, st', after ++ [(st, e)], by simp, hst', ?_⟩
  rw [forall_mem_append, forall_mem_singleton]
  exact ⟨hafter, hst⟩

lemma allows_goes {f' : Fsm} {err : Bool} {t : State} (hs : f.state = st) (ht : t ≠ st)
    (hne : t ≠ .established) : f.Allows e ⟨f', some t, err⟩ :=
  ⟨hs ▸ ht, fun h => absurd h hne⟩

lemma allows_ofDelayOpen {own : Outcome} (hs : f.state = .connect ∨ f.state = .active)
    (hown : f.Allows e own) :
    f.Allows e (match f.handleDelayOpen e with | some outcome => outcome | none => own) := by
  split
  · rename_i o h
    unfold Fsm.handleDelayOpen at h
    split at h
    · cases h
    · split at h
      · simp only at h
        split_ifs at h
        cases h
        exact .inl rfl
      on_goal 4 => cases h
      all_goals
        split_ifs at h
        cases h
        rcases hs with hs | hs <;> exact allows_goes hs (by decide) (by decide)
  · exact hown

lemma allows_dispatch (f : Fsm) (e : Event) : f.Allows e (f.dispatch e) := by
  -- `Allows` reads the state and the sub-state, which the field `event` does not touch.
  change Fsm.Allows { f with event := e } e (f.dispatch e)
  unfold Fsm.dispatch
  generalize { f with event := e } = f
  simp only
  split <;> rename_i hs
  on_goal 1 => unfold Fsm.handleIdle
  on_goal 2 => apply allows_ofDelayOpen (.inl hs)
  on_goal 3 => apply allows_ofDelayOpen (.inr hs)
  on_goal 4 => unfold Fsm.handleOpenSent
  on_goal 5 => unfold Fsm.handleOpenConfirm
  on_goal 6 => unfold Fsm.handleEstablished
  all_goals split
  all_goals first
    | exact .inl rfl
    | exact allows_goes hs (by decide) (by decide)
    | exact ⟨by rw [hs]; decide, fun _ => .inl ⟨hs, rfl⟩⟩
    | split_ifs <;> first
      | exact .inl rfl
      | exact .inr ⟨hs, rfl⟩
      | exact allows_goes hs (by decide) (by decide)
      | exact ⟨by rw [hs]; decide, fun _ => .inr ⟨hs, by assumption, by assumption⟩⟩

/-- The KEEPALIVE has been heard wherever it has to be. -/
def Fsm.Vouched (f : Fsm) (seen : List (State × Event)) : Prop :=
  f.state = .established ∨ f.Confirmed → Heard seen

variable {G : Type*} [DecidableEq G] {s s' : System G} {op : Op G}

omit [DecidableEq G] in
/-- The event of an operation with the state it is handled in. -/
def handled (s : System G) : Op G → Option (State × Event)
  | .event _ e => some (s.fsm.state, e)
  | _ => none

lemma bfdSub_moved {t : State} (h : t ≠ f.state) : (f.moved t).bfdSub = .none := by
  unfold Fsm.moved
  simp only [ne_eq, Ne.symm h, not_false_eq_true, if_true]
  split_ifs <;> rfl

lemma vouched_event (h : s.fsm.Vouched seen) (g : G) (e : Event) :
    (s.event g e).fsm.Vouched (seen ++ [(s.fsm.state, e)]) := by
  have hallows := allows_dispatch s.fsm e
  have hstate := state_dispatch s.fsm e
  unfold System.event Fsm.Allows at *
  cases htarget : (s.fsm.dispatch e).target <;> simp only [htarget, System.change] at hallows ⊢
  · intro hwas
    simp only [Fsm.Confirmed, hstate] at hwas
    rcases hallows with hsub | ⟨hst, rfl⟩
    · rw [hsub] at hwas
      exact (h hwas).snoc (hwas.symm.imp_left And.left)
    · exact heard_snoc (.inl hst)
  · rintro (hest | ⟨-, hsub, -⟩)
    · rw [Fsm.state_moved] at hest
      rcases hallows.2 hest with ⟨hst, rfl⟩ | hconf
      · exact heard_snoc (.inr hst)
      · exact (h (.inr hconf)).snoc (.inl hconf.1)
    · exact absurd (bfdSub_moved (hstate ▸ hallows.1)) hsub

lemma vouched_step (h : s.fsm.Vouched seen) (hs : s.step op = some s') :
    s'.fsm.Vouched (seen ++ (handled s op).toList) := by
  have hkeeps : ∀ f : Fsm, f.state = s.fsm.state → (f.Confirmed → s.fsm.Confirmed) →
      f.Vouched (seen ++ []) := by
    intro f hstate hconf hwas
    rw [append_nil]
    exact h (hwas.imp hstate.symm.trans hconf)
  rcases op with ⟨g, e⟩ | g | g | passive | strict | timers | crc | _ | _
  · cases hs
    exact vouched_event h g e
  iterate 2
    · obtain ⟨q, -, rfl⟩ := Option.map_eq_some_iff.mp hs
      exact hkeeps _ rfl id
  iterate 4
    · cases hs
      exact hkeeps _ rfl id
  · cases hs
    unfold Fsm.enterBfdUpPending
    split
    · exact hkeeps _ rfl id
    · exact hkeeps _ rfl fun hconf => absurd rfl hconf.2.2
  · cases hs
    unfold Fsm.enterDelayOpenBfdUpPending
    split
    · exact hkeeps _ rfl id
    · refine hkeeps _ rfl fun hconf => ?_
      have hopen : s.fsm.state = .openSent := hconf.1
      simp_all

end

/-- **No session is established unheard.** In every run, with events from any goroutines and every
setting changed at any time: a session in Established has handled a KEEPALIVE in OpenSent or
OpenConfirm, and every event since then in OpenSent or Established. -/
theorem established_heard {G : Type*} [DecidableEq G] {ops : List (Op G)} {s : System G}
    (hrun : run System.step System.new ops = some s) (hest : s.fsm.state = .established) :
    Heard (observed System.step handled System.new ops) := by
  have hmeets : Meets System.step (fun _ _ => True) System.new ops :=
    meets_of_forall (fun _ _ => trivial) ops _
  have hvouched := run_observed (J := fun s seen => s.fsm.Vouched seen)
    (fun _ _ _ _ h _ hs => vouched_step h hs) ops _ _ [] (by rintro (h | ⟨h, -⟩) <;> cases h)
    hmeets hrun
  exact hvouched (.inl hest)

/-- With strict BFD. -/
def strictOps : List (Op Bool) :=
  [.setBFDStrict true, .event false .manualStart, .event false .tcpConnectionConfirmed,
    .enterBfdUpPending, .event true .keepaliveMsg, .event true .bfdUp]

theorem established_heard_strict :
    ∃ s, run System.step System.new strictOps = some s ∧ s.fsm.state = .established ∧
      Heard (observed System.step handled System.new strictOps) :=
  ⟨_, rfl, rfl, established_heard (rfl : run System.step System.new strictOps = some _) rfl⟩

end Ze.BgpFsm
