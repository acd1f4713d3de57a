import Mathlib.Data.List.Chain
import Ze.BgpFsm.Fsm
import Ze.Lib.DrainQueue
import Ze.Lib.Run

/-!
# The callbacks of the state changes

Events reach a session's machine from several goroutines. `Event` holds the lock of the machine
through the handler and the change of the state; the callback of the change is queued, and runs with
the lock released on the goroutine that drains the queue. A callback may call `Event` again, and may
panic.
-/

namespace Ze.BgpFsm

open Ze.Lib List

/-- Source: bgp/fsm/fsm.go. -/
structure Transition where
  fromState : State
  toState : State
  event : Event
  deriving DecidableEq, Repr

/-- The machine and the queue of its callbacks: the source's `pending` and `draining`, with the
callbacks under way and what was seen of them. Source: fsm.go FSM. -/
structure System (G : Type*) where
  fsm : Fsm
  queue : Drain G Transition

/-- What can happen. Source: fsm.go, delay_open.go. -/
inductive Op (G : Type*) where
  /-- A goroutine calls `Event`, which gets the lock; within a callback or not. -/
  | event (g : G) (e : Event)
  /-- The callback that the goroutine is in returns. -/
  | returns (g : G)
  /-- The callback that the goroutine is in panics. -/
  | panics (g : G)
  | setPassive (passive : Bool)
  | setBFDStrict (strict : Bool)
  /-- The timers are set, or change of themselves. -/
  | setTimers (timers : Option Timers)
  /-- The counter is set, or its owner changes it. -/
  | setConnectRetryCounter (crc : Option ConnectRetryCounter)
  | enterBfdUpPending
  | enterDelayOpenBfdUpPending

namespace System

variable {G : Type*} [DecidableEq G]

omit [DecidableEq G] in
/-- Source: fsm.go New, SetCallback. -/
def new : System G := ⟨.new, .empty⟩

/-- Source: fsm.go. -/
def change (s : System G) (g : G) (target : State) : System G where
  fsm := s.fsm.moved target
  queue :=
    if s.fsm.state = target then s.queue
    else s.queue.enqueue g ⟨s.fsm.state, target, s.fsm.event⟩

/-- Source: fsm.go. -/
def event (s : System G) (g : G) (e : Event) : System G :=
  let outcome := s.fsm.dispatch e
  let s := { s with fsm := outcome.fsm }
  match outcome.target with
  | none => s
  | some target => s.change g target

/-- One hold of the lock. Source: fsm.go Event, change, runCallback. -/
def step (s : System G) : Op G → Option (System G)
  | .event g e => some (s.event g e)
  | .returns g => (s.queue.returns g).map fun q => { s with queue := q }
  | .panics g => (s.queue.panics g).map fun q => { s with queue := q }
  | .setPassive passive => some { s with fsm := { s.fsm with passive := passive } }
  | .setBFDStrict strict => some { s with fsm := { s.fsm with bfdStrict := strict } }
  | .setTimers timers => some { s with fsm := { s.fsm with timers := timers } }
  | .setConnectRetryCounter crc => some { s with fsm := { s.fsm with crc := crc } }
  | .enterBfdUpPending => some { s with fsm := s.fsm.enterBfdUpPending }
  | .enterDelayOpenBfdUpPending => some { s with fsm := s.fsm.enterDelayOpenBfdUpPending }

end System

structure Orderly {G : Type*} (s : System G) : Prop where
  /-- One at a time: a goroutine that is in a callback is in one, and no other goroutine is. -/
  alone : ∀ g t rest, s.queue.stack g = t :: rest → rest = [] ∧ ∀ g', g' ≠ g → s.queue.stack g' = []
  /-- In the order of the changes of the state, and once each. -/
  inOrder : Obs.begun s.queue.log <+: Obs.written s.queue.log
  /-- Each old state is the new state of the callback before. -/
  chain : (Obs.begun s.queue.log).IsChain fun t t' => t'.fromState = t.toState
  /-- With no call of `Event` under way, the callback of every change has run after which none
  panicked. -/
  complete : (∀ g, s.queue.stack g = []) → ∀ before t after, s.queue.log = before ++
    .wrote t :: after →
    (∀ g, Obs.panicked g ∉ after) → (Obs.written before).length < (Obs.begun s.queue.log).length

/-! ## The changes -/

/-- The changes lead from the one state to the other. -/
def Leads : State → List Transition → State → Prop
  | old, [], new => old = new
  | old, t :: ts, new => t.fromState = old ∧ Leads t.toState ts new

variable {old new : State} {ts : List Transition}

lemma Leads.snoc (h : Leads old ts new) (t : Transition)
    (ht : t.fromState = new) : Leads old (ts ++ [t]) t.toState := by
  induction ts generalizing old with
  | nil => exact ⟨ht.trans (Eq.symm h), rfl⟩
  | cons t' ts ih => exact ⟨h.1, ih h.2⟩

lemma Leads.isChain (h : Leads old ts new) : ts.IsChain fun t t' => t'.fromState = t.toState := by
  induction ts generalizing old with
  | nil => exact isChain_nil
  | cons t ts ih =>
    rcases ts with _ | ⟨t', ts⟩
    · exact isChain_singleton _
    · exact isChain_cons_cons.2 ⟨h.2.1, ih h.2⟩

/-- The queue is in order, and the changes lead from Idle to the state. -/
structure Recorded {G : Type*} (s : System G) : Prop where
  queue : s.queue.Orderly
  leads : Leads .idle (Obs.written s.queue.log) s.fsm.state

section

variable {G : Type*} {s s' : System G}

lemma Recorded.of_fsm (h : Recorded s) {f : Fsm} (hf : f.state = s.fsm.state) :
    Recorded { s with fsm := f } := by
  refine ⟨h.queue, ?_⟩
  simp only [hf]
  exact h.leads

variable [DecidableEq G]

lemma written_next (q : Drain G Transition) (g : G) :
    Obs.written (q.next g).log = Obs.written q.log := by
  unfold Drain.next
  split
  · rfl
  · simp only [Obs.written_append, Obs.written, append_nil]

lemma written_enqueue (q : Drain G Transition) (g : G) (t : Transition) :
    Obs.written (q.enqueue g t).log = Obs.written q.log ++ [t] := by
  unfold Drain.enqueue
  simp only
  split_ifs
  · simp only [Obs.written_append, Obs.written]
  · rw [written_next]
    simp only [Obs.written_append, Obs.written]

lemma written_returns {q q' : Drain G Transition} {g : G} (h : q.returns g = some q') :
    Obs.written q'.log = Obs.written q.log := by
  unfold Drain.returns at h
  split at h
  · cases h
  · cases h
    rw [written_next]
    simp only [Obs.written_append, Obs.written, append_nil]

lemma written_panics {q q' : Drain G Transition} {g : G} (h : q.panics g = some q') :
    Obs.written q'.log = Obs.written q.log := by
  unfold Drain.panics at h
  split at h
  · cases h
  · cases h
    simp only [Obs.written_append, Obs.written, append_nil]

lemma Recorded.change (h : Recorded s) (g : G) (target : State) : Recorded (s.change g target) := by
  unfold System.change
  split_ifs with hsame
  · refine ⟨h.queue, ?_⟩
    simp only [Fsm.state_moved]
    rw [← hsame]
    exact h.leads
  · refine ⟨h.queue.enqueue g _, ?_⟩
    simp only [Fsm.state_moved, written_enqueue]
    exact h.leads.snoc _ rfl

lemma Recorded.event (h : Recorded s) (g : G) (e : Event) : Recorded (s.event g e) := by
  have hhandled := h.of_fsm (state_dispatch s.fsm e)
  unfold System.event
  simp only
  split
  · exact hhandled
  · exact hhandled.change g _

lemma recorded_step {op : Op G} (h : Recorded s) (hs : s.step op = some s') : Recorded s' := by
  rcases op with ⟨g, e⟩ | g | g | passive | strict | timers | crc | _ | _
  · cases hs
    exact h.event g e
  · obtain ⟨q, hq, rfl⟩ := Option.map_eq_some_iff.mp hs
    exact ⟨h.queue.returns hq, by simp only [written_returns hq]; exact h.leads⟩
  · obtain ⟨q, hq, rfl⟩ := Option.map_eq_some_iff.mp hs
    exact ⟨h.queue.panics hq, by simp only [written_panics hq]; exact h.leads⟩
  · cases hs
    exact h.of_fsm rfl
  · cases hs
    exact h.of_fsm rfl
  · cases hs
    exact h.of_fsm rfl
  · cases hs
    exact h.of_fsm rfl
  · cases hs
    apply h.of_fsm
    unfold Fsm.enterBfdUpPending
    split_ifs <;> rfl
  · cases hs
    apply h.of_fsm
    unfold Fsm.enterDelayOpenBfdUpPending
    split_ifs <;> rfl

omit [DecidableEq G] in
lemma recorded_new : Recorded (System.new : System G) :=
  ⟨Drain.orderly_empty, rfl⟩

omit [DecidableEq G] in
lemma Recorded.orderly (h : Recorded s) : Orderly s := by
  have hbegun : Obs.begun s.queue.log <+: Obs.written s.queue.log :=
    ⟨s.queue.pending, h.queue.inOrder.symm⟩
  have hchain := h.leads.isChain
  rw [h.queue.inOrder] at hchain
  refine ⟨fun g t rest hs => ?_, hbegun, hchain.left_of_append,
    fun hidle before t after hlog hcalm =>
    h.queue.complete hidle hlog hcalm⟩
  rcases h.queue.alone with ⟨-, g₀, ⟨t₀, ht₀⟩, hother⟩ | ⟨-, hidle⟩
  · obtain rfl : g = g₀ := by
      by_contra hne
      rw [hother g hne] at hs
      cases hs
    rw [ht₀] at hs
    exact ⟨(cons.inj hs).2.symm, hother⟩
  · rw [hidle g] at hs
    cases hs

end

/-! ## Runs -/

/-- **The callbacks of the state changes.** For every interleaving of calls of `Event` from any
goroutines, also out of callbacks, and of callbacks that return or panic: the callbacks run one at a
time, in the order in which the state was written, once each, and each old state is the new state of
the callback before; and with no call of `Event` under way, the callback of every change has run
since which no callback panicked. -/
theorem callbacks_orderly {G : Type*} [DecidableEq G] {ops : List (Op G)} {s : System G}
    (hrun : run System.step System.new ops = some s) : Orderly s :=
  (run_inv (I := Recorded) (fun _ _ _ h hs => recorded_step h hs) ops _ _ recorded_new hrun).orderly

/-- Two goroutines: while the first is in the callback of the start, the second confirms the
connection and the first, out of the callback, stops; both changes wait for the first goroutine. The
second callback panics, and the third runs with the next change. Source: fsm.go change. -/
def exampleOps : List (Op Bool) :=
  [.event false .manualStart, .event true .tcpConnectionConfirmed, .event false .manualStop,
    .returns false, .panics false, .event true .manualStart, .returns true, .returns true]

theorem callbacks_orderly_of_two : ∃ s, run System.step System.new exampleOps = some s ∧ Orderly s ∧
    (Obs.begun s.queue.log).map Transition.toState = [.connect, .openSent, .idle, .connect] := by
  refine ⟨_, rfl, callbacks_orderly (rfl : run System.step System.new exampleOps = some _), ?_⟩
  decide

end Ze.BgpFsm
