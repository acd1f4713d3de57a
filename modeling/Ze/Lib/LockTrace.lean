import Ze.Lib.Run

/-!
# Traces of locks

What a thread does with locks, as the list of the locks it takes and lets go. `after` is what it
holds then, and `Obeys` says that it never tries to take a lock that it holds.
-/

namespace Ze.Lib

open List

inductive LockOp (L : Type*) where
  | lock (l : L)
  | unlock (l : L)

namespace LockOp

variable {L : Type*}

def brief (ls : List L) : List (LockOp L) := ls.flatMap fun l => [.lock l, .unlock l]

def during (l : L) (ops : List (LockOp L)) : List (LockOp L) := .lock l :: (ops ++ [.unlock l])

lemma brief_cons (l : L) (ls : List L) : brief (l :: ls) = .lock l :: .unlock l :: brief ls := rfl

variable [DecidableEq L]

def after : List L → List (LockOp L) → List L
  | held, [] => held
  | held, .lock l :: ops => after (l :: held) ops
  | held, .unlock l :: ops => after (held.erase l) ops

/-- The thread tries to take no lock that it holds. -/
def Obeys : List L → List (LockOp L) → Prop
  | _, [] => True
  | held, .lock l :: ops => l ∉ held ∧ Obeys (l :: held) ops
  | held, .unlock l :: ops => Obeys (held.erase l) ops

def decidableObeys : (held : List L) → (ops : List (LockOp L)) → Decidable (Obeys held ops)
  | _, [] => isTrue trivial
  | held, .lock l :: ops =>
    have := decidableObeys (l :: held) ops
    inferInstanceAs (Decidable (l ∉ held ∧ Obeys (l :: held) ops))
  | held, .unlock l :: ops => decidableObeys (held.erase l) ops

instance (held : List L) (ops : List (LockOp L)) : Decidable (Obeys held ops) :=
  decidableObeys held ops

lemma after_append (held : List L) (ops more : List (LockOp L)) :
    after held (ops ++ more) = after (after held ops) more := by
  induction ops generalizing held with
  | nil => rfl
  | cons op ops ih =>
    rcases op with l | l
    · exact ih (l :: held)
    · exact ih (held.erase l)

lemma obeys_append (held : List L) (ops more : List (LockOp L)) :
    Obeys held (ops ++ more) ↔ Obeys held ops ∧ Obeys (after held ops) more := by
  induction ops generalizing held with
  | nil => simp [Obeys, after]
  | cons op ops ih =>
    rcases op with l | l
    · show l ∉ held ∧ Obeys (l :: held) (ops ++ more) ↔ _
      rw [ih, ← and_assoc]
      rfl
    · exact ih (held.erase l)

@[simp] lemma after_brief (held ls : List L) : after held (brief ls) = held := by
  induction ls with
  | nil => rfl
  | cons l ls ih =>
    rw [brief_cons, after, after, erase_cons_head]
    exact ih

lemma obeys_brief (held ls : List L) : Obeys held (brief ls) ↔ ∀ l ∈ ls, l ∉ held := by
  induction ls with
  | nil => simp [brief, Obeys]
  | cons l ls ih =>
    rw [brief_cons, Obeys, Obeys, erase_cons_head, ih, forall_mem_cons]

@[simp] lemma after_during_brief (held : List L) (l : L) (ls : List L) :
    after held (during l (brief ls)) = held := by
  rw [during, after, after_append, after_brief, after, erase_cons_head, after]

/-- A lock held around brief ones must not be one of them. -/
lemma obeys_during_brief (held : List L) (l : L) (ls : List L) :
    Obeys held (during l (brief ls)) ↔ l ∉ held ∧ ∀ l' ∈ ls, l' ∉ l :: held := by
  rw [during, Obeys, obeys_append, after_brief, obeys_brief]
  simp only [Obeys, and_true]

/-- The trace of a run whose steps let go of what they take. -/
lemma obeys_observed {σ ω : Type*} {step : σ → ω → Option σ} {ops : σ → ω → List (LockOp L)}
    {cond : σ → ω → Prop} {I : σ → Prop} (hI : ∀ s o s', I s → step s o = some s' → I s')
    (hafter : ∀ s o, after [] (ops s o) = [])
    (hops : ∀ s o, I s → (Obeys [] (ops s o) ↔ cond s o)) :
    (os : List ω) → ∀ s, I s →
      (Obeys [] (observed step (fun s o => some (ops s o)) s os).flatten ↔ Meets step cond s os)
  | [], _, _ => Iff.rfl
  | o :: os, s, hs => by
      rw [observed, Option.toList_some, singleton_append, flatten_cons, obeys_append,
        hafter, hops s o hs]
      refine and_congr_right fun _ => ?_
      cases hstep : step s o with
      | none => simp [Obeys]
      | some s' =>
        have hrest := obeys_observed hI hafter hops os s' (hI s o s' hs hstep)
        simpa using hrest

end LockOp

end Ze.Lib
