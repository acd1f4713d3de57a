import Mathlib.Data.List.Basic

/-!
# A queue that the first to fill it drains

Notices are put into a queue under a lock and handed out, outside the lock, by whoever finds nobody
at it. Handing out a notice is a call that may itself put notices into the queue, on the same
thread, and may panic; then what is left waits for the next to drain it.
-/

namespace Ze.Lib

open List
open Function (update update_of_ne update_self)

variable {G T : Type*}

inductive Obs (G T : Type*) where
  | wrote (t : T)
  | began (g : G) (t : T)
  | ended (g : G)
  | panicked (g : G)

namespace Obs

def written : List (Obs G T) → List T
  | [] => []
  | .wrote t :: log => t :: written log
  | _ :: log => written log

def begun : List (Obs G T) → List T
  | [] => []
  | .began _ t :: log => t :: begun log
  | _ :: log => begun log

@[simp] lemma written_append (log log' : List (Obs G T)) :
    written (log ++ log') = written log ++ written log' := by
  induction log with
  | nil => rfl
  | cons o log ih => rcases o with t | ⟨g, t⟩ | g | g <;> simp [written, ih]

@[simp] lemma begun_append (log log' : List (Obs G T)) :
    begun (log ++ log') = begun log ++ begun log' := by
  induction log with
  | nil => rfl
  | cons o log ih => rcases o with t | ⟨g, t⟩ | g | g <;> simp [begun, ih]

end Obs

open Obs

/-- The queue, whether somebody drains it, the calls that each thread is in (the innermost first),
and what was seen. -/
structure Drain (G T : Type*) where
  pending : List T
  draining : Bool
  stack : G → List T
  log : List (Obs G T)

namespace Drain

variable [DecidableEq G] {q q' : Drain G T} {g : G} {t : T}

def empty : Drain G T := ⟨[], false, fun _ => [], []⟩

/-- The head of the draining loop: the next call begins, or the draining ends. -/
def next (q : Drain G T) (g : G) : Drain G T :=
  match q.pending with
  | [] => { q with draining := false }
  | t :: rest => { q with
      pending := rest
      stack := update q.stack g (t :: q.stack g)
      log := q.log ++ [.began g t] }

/-- A thread puts a notice in, and drains the queue if nobody does. -/
def enqueue (q : Drain G T) (g : G) (t : T) : Drain G T :=
  let q := { q with pending := q.pending ++ [t], log := q.log ++ [.wrote t] }
  if q.draining then q else { q with draining := true }.next g

def returns (q : Drain G T) (g : G) : Option (Drain G T) :=
  match q.stack g with
  | [] => none
  | _ :: rest =>
    let q : Drain G T :=
      { q with stack := update q.stack g rest, log := q.log ++ [.ended g] }
    some (q.next g)

/-- The innermost call of a thread panics: the thread drains no more. -/
def panics (q : Drain G T) (g : G) : Option (Drain G T) :=
  match q.stack g with
  | [] => none
  | _ :: rest => some { q with
      stack := update q.stack g rest
      draining := false
      log := q.log ++ [.panicked g] }

def Idle (q : Drain G T) : Prop := ∀ g, q.stack g = []

def Busy (q : Drain G T) (g : G) : Prop :=
  (∃ t, q.stack g = [t]) ∧ ∀ g', g' ≠ g → q.stack g' = []

structure Orderly (q : Drain G T) : Prop where
  /-- Somebody drains exactly while a call is under way, and then there is one call. -/
  alone : (q.draining = true ∧ ∃ g, q.Busy g) ∨ (q.draining = false ∧ q.Idle)
  /-- What has begun and what waits is what was put in. -/
  inOrder : written q.log = begun q.log ++ q.pending
  /-- Notices wait for nobody only after a panic. -/
  left : q.draining = false → q.pending ≠ [] →
    ∃ before g after, q.log = before ++ .panicked g :: after ∧ written after = []

omit [DecidableEq G] in
lemma orderly_empty : (empty : Drain G T).Orderly where
  alone := .inr ⟨rfl, fun _ => rfl⟩
  inOrder := rfl
  left _ h := absurd rfl h

lemma orderly_next (hidle : q.Idle) (hdrain : q.draining)
    (horder : written q.log = begun q.log ++ q.pending) : (q.next g).Orderly := by
  rcases q with ⟨pending, draining, stack, log⟩
  simp only at hdrain horder
  rcases pending with _ | ⟨t, rest⟩
  · exact ⟨.inr ⟨rfl, hidle⟩, horder, fun _ hne => absurd rfl hne⟩
  · refine ⟨.inl ⟨hdrain, g, ⟨t, ?_⟩, fun g' hne => ?_⟩, ?_, fun hd => ?_⟩
    · have hg : stack g = [] := hidle g
      simp only [next, update_self, hg]
    · have hg' : stack g' = [] := hidle g'
      simp only [next, update_of_ne hne, hg']
    · simp only [next, written_append, begun_append, written, begun, horder, append_nil,
        append_assoc, singleton_append]
    · have hd' : draining = false := hd
      rw [hdrain] at hd'
      cases hd'

lemma Orderly.enqueue (h : q.Orderly) (g : G) (t : T) : (q.enqueue g t).Orderly := by
  have horder : written (q.log ++ [.wrote t]) = begun (q.log ++ [.wrote t]) ++ (q.pending ++
      [t]) := by
    simp only [written_append, begun_append, written, begun, h.inOrder, append_nil, append_assoc]
  unfold Drain.enqueue
  rcases h.alone with ⟨hdrain, hbusy⟩ | ⟨hdrain, hidle⟩
  · rw [if_pos hdrain]
    refine ⟨.inl ⟨hdrain, hbusy⟩, horder, fun hd => ?_⟩
    simp only [hdrain] at hd
    cases hd
  · rw [if_neg (by simp only [hdrain]; decide)]
    exact orderly_next hidle rfl horder

lemma Orderly.of_stack {rest : List T} (h : q.Orderly) (hs : q.stack g = t :: rest) :
    q.draining ∧ ∀ g', update q.stack g rest g' = [] := by
  rcases h.alone with ⟨hdrain, g₀, ⟨t₀, ht₀⟩, hother⟩ | ⟨-, hidle⟩
  · refine ⟨hdrain, fun g' => ?_⟩
    obtain rfl : g = g₀ := by
      by_contra hne
      rw [hother g hne] at hs
      cases hs
    rw [ht₀] at hs
    by_cases hg : g' = g
    · rw [hg, update_self]
      exact (cons.inj hs).2.symm
    · rw [update_of_ne hg, hother g' hg]
  · rw [hidle g] at hs
    cases hs

lemma Orderly.returns (h : q.Orderly) (hr : q.returns g = some q') : q'.Orderly := by
  unfold Drain.returns at hr
  split at hr
  · cases hr
  · rename_i hs
    cases hr
    obtain ⟨hdrain, hidle⟩ := h.of_stack hs
    refine orderly_next (fun g' => hidle g') hdrain ?_
    simp only [written_append, begun_append, written, begun, h.inOrder, append_nil]

lemma Orderly.panics (h : q.Orderly) (hr : q.panics g = some q') : q'.Orderly := by
  unfold Drain.panics at hr
  split at hr
  · cases hr
  · rename_i hs
    cases hr
    refine ⟨.inr ⟨rfl, (h.of_stack hs).2⟩, ?_, fun _ _ => ⟨q.log, g, [], rfl, rfl⟩⟩
    simp only [written_append, begun_append, written, begun, h.inOrder, append_nil]

omit [DecidableEq G] in
/-- The call of the `n`-th notice has begun and ended, if no call is under way and none panicked
after the notice was put in. -/
lemma Orderly.complete (h : q.Orderly) (hidle : q.Idle) {before after : List (Obs G T)}
    (hlog : q.log = before ++ .wrote t :: after) (hcalm : ∀ g, Obs.panicked g ∉ after) :
    (written before).length < (begun q.log).length := by
  have hdrain : q.draining = false := by
    rcases h.alone with ⟨-, g, ⟨t', ht'⟩, -⟩ | ⟨hdrain, -⟩
    · rw [hidle g] at ht'
      cases ht'
    · exact hdrain
  have hpending : q.pending = [] := by
    by_contra hne
    obtain ⟨before', g, after', hlog', hnone⟩ := h.left hdrain hne
    rw [hlog] at hlog'
    -- The panic is not behind the notice, so the notice is behind the panic.
    rcases append_eq_append_iff.1 hlog' with ⟨mid, -, hmid⟩ | ⟨mid, -, hmid⟩
    · rcases mid with _ | ⟨o, mid⟩
      · cases hmid
      · obtain ⟨-, hafter⟩ := cons.inj hmid
        apply hcalm g
        rw [hafter]
        exact mem_append_right _ mem_cons_self
    · rcases mid with _ | ⟨o, mid⟩
      · cases hmid
      · obtain ⟨-, hafter⟩ := cons.inj hmid
        have happ : written after' = written mid ++ (t :: written after) := by
          rw [hafter]
          exact written_append _ _
        rw [happ] at hnone
        cases (append_eq_nil_iff.1 hnone).2
  have hall := h.inOrder
  rw [hpending, append_nil] at hall
  rw [← hall, hlog, written_append, written, length_append, length_cons]
  omega

end Drain

end Ze.Lib
