import Mathlib.Data.List.Basic

/-!
# Runs of a fallible machine

A machine is a step function `step : σ → ω → Option σ`: it takes a state and an operation and
either reaches a state or fails for good. `run` folds a list of operations. What a caller owes
at each step is a relation `cond` between the state before the step and the operation, and
`Meets` says that a run pays it at every step it reaches.
-/

namespace Ze.Lib

open List

variable {σ ω : Type*}

/-- The state a machine reaches on a list of operations; `none` once a step fails. -/
def run (step : σ → ω → Option σ) : σ → List ω → Option σ
  | s, [] => some s
  | s, o :: os => (step s o).bind fun s' => run step s' os

/-- Every step the run reaches is taken in a state that meets `cond`. -/
def Meets (step : σ → ω → Option σ) (cond : σ → ω → Prop) : σ → List ω → Prop
  | _, [] => True
  | s, o :: os => cond s o ∧ ∀ s', step s o = some s' → Meets step cond s' os

/-- What is seen along a run, where `obs` says what a step that is about to be taken shows. -/
def observed {τ : Type*} (step : σ → ω → Option σ) (obs : σ → ω → Option τ) : σ → List ω → List τ
  | _, [] => []
  | s, o :: os => (obs s o).toList ++ (step s o).elim [] fun s' => observed step obs s' os

/-- Whether a run meets a decidable condition can be computed. -/
def decidableMeets (step : σ → ω → Option σ) (cond : σ → ω → Prop)
    [∀ s o, Decidable (cond s o)] : (s : σ) → (os : List ω) → Decidable (Meets step cond s os)
  | _, [] => isTrue trivial
  | s, o :: os =>
    match h : step s o with
    | none => decidable_of_iff (cond s o)
        ⟨fun hc => ⟨hc, fun s' hs' => by rw [h] at hs'; cases hs'⟩, fun hm => hm.1⟩
    | some t =>
      have := decidableMeets step cond t os
      decidable_of_iff (cond s o ∧ Meets step cond t os)
        ⟨fun hc => ⟨hc.1, fun s' hs' => by rw [h] at hs'; exact Option.some.inj hs' ▸ hc.2⟩,
          fun hm => ⟨hm.1, hm.2 t h⟩⟩

instance (step : σ → ω → Option σ) (cond : σ → ω → Prop) [∀ s o, Decidable (cond s o)] (s : σ)
    (os : List ω) : Decidable (Meets step cond s os) :=
  decidableMeets step cond s os

section

variable {step : σ → ω → Option σ} {cond : σ → ω → Prop} {I : σ → Prop}

@[simp] lemma run_nil (s : σ) : run step s [] = some s := rfl

lemma run_cons (s : σ) (o : ω) (os : List ω) :
    run step s (o :: os) = (step s o).bind fun s' => run step s' os := rfl

lemma run_append (s : σ) (os os' : List ω) :
    run step s (os ++ os') = (run step s os).bind fun s' => run step s' os' := by
  induction os generalizing s with
  | nil => rfl
  | cons o os ih =>
    rw [cons_append, run_cons, run_cons, Option.bind_assoc]
    simp only [ih]

lemma meets_append (s : σ) (os os' : List ω) :
    Meets step cond s (os ++ os') ↔
      Meets step cond s os ∧ ∀ s', run step s os = some s' → Meets step cond s' os' := by
  induction os generalizing s with
  | nil => simp [Meets]
  | cons o os ih =>
    simp only [cons_append, Meets, ih, run_cons, Option.bind_eq_some_iff, and_assoc]
    constructor
    · rintro ⟨hc, hm⟩
      exact ⟨hc, fun t ht => (hm t ht).1, fun s' ⟨t, ht, hs'⟩ => (hm t ht).2 s' hs'⟩
    · rintro ⟨hc, hm, hm'⟩
      exact ⟨hc, fun t ht => ⟨hm t ht, fun s' hs' => hm' s' ⟨t, ht, hs'⟩⟩⟩

lemma run_total (hstep : ∀ s o, I s → cond s o → ∃ s', step s o = some s' ∧ I s') :
    (os : List ω) → ∀ s, I s → Meets step cond s os → ∃ s', run step s os = some s' ∧ I s'
  | [], s, hI, _ => ⟨s, rfl, hI⟩
  | o :: os, s, hI, hm => by
      obtain ⟨s₁, h₁, hI₁⟩ := hstep s o hI hm.1
      obtain ⟨s', h', hI'⟩ := run_total hstep os s₁ hI₁ (hm.2 s₁ h₁)
      refine ⟨s', ?_, hI'⟩
      rw [run_cons, h₁, Option.bind_some, h']

lemma run_keeps (hstep : ∀ s o s', I s → cond s o → step s o = some s' → I s') :
    (os : List ω) → ∀ s s', I s → Meets step cond s os → run step s os = some s' → I s'
  | [], s, s', hI, _, h => by
      rw [run_nil, Option.some.injEq] at h
      exact h ▸ hI
  | o :: os, s, s', hI, hm, h => by
      rw [run_cons] at h
      obtain ⟨s₁, h₁, h₂⟩ := Option.bind_eq_some_iff.mp h
      exact run_keeps hstep os s₁ s' (hstep s o s₁ hI hm.1 h₁) (hm.2 s₁ h₁) h₂

lemma run_inv (hstep : ∀ s o s', I s → step s o = some s' → I s') :
    (os : List ω) → ∀ s s', I s → run step s os = some s' → I s'
  | [], s, s', hI, h => by
      rw [run_nil, Option.some.injEq] at h
      exact h ▸ hI
  | o :: os, s, s', hI, h => by
      rw [run_cons] at h
      obtain ⟨s₁, h₁, h₂⟩ := Option.bind_eq_some_iff.mp h
      exact run_inv hstep os s₁ s' (hstep s o s₁ hI h₁) h₂

/-- An invariant of the state and of what was seen so far holds at the end of a run, with what was
seen along it. -/
lemma run_observed {τ : Type*} {obs : σ → ω → Option τ} {J : σ → List τ → Prop}
    (hstep : ∀ s o s' seen, J s seen → cond s o → step s o = some s' →
      J s' (seen ++ (obs s o).toList)) :
    (os : List ω) → ∀ s s' seen, J s seen → Meets step cond s os → run step s os = some s' →
      J s' (seen ++ observed step obs s os)
  | [], s, s', seen, hJ, _, h => by
      rw [run_nil] at h
      cases h
      rw [observed, append_nil]
      exact hJ
  | o :: os, s, s', seen, hJ, hm, h => by
      rw [run_cons] at h
      obtain ⟨s₁, h₁, h₂⟩ := Option.bind_eq_some_iff.1 h
      rw [observed, h₁, Option.elim_some, ← append_assoc]
      exact run_observed hstep os s₁ s' _ (hstep s o s₁ seen hJ hm.1 h₁) (hm.2 s₁ h₁) h₂

lemma meets_of_forall (h : ∀ s o, cond s o) :
    (os : List ω) → ∀ s, Meets step cond s os
  | [], _ => trivial
  | o :: os, s => ⟨h s o, fun s' _ => meets_of_forall h os s'⟩

lemma Meets.imp {cond' : σ → ω → Prop}
    (hstep : ∀ s o s', I s → cond s o → step s o = some s' → I s')
    (himp : ∀ s o, I s → cond s o → cond' s o) :
    (os : List ω) → ∀ s, I s → Meets step cond s os → Meets step cond' s os
  | [], _, _, _ => trivial
  | o :: os, s, hI, hm =>
    ⟨himp s o hI hm.1, fun s' hs' => Meets.imp hstep himp os s'
      (hstep s o s' hI hm.1 hs') (hm.2 s' hs')⟩

lemma Meets.iff_of_inv {cond' : σ → ω → Prop} (hiff : ∀ s o, I s → (cond s o ↔ cond' s o))
    (hstep : ∀ s o s', I s → cond' s o → step s o = some s' → I s') :
    (os : List ω) → ∀ s, I s → (Meets step cond s os ↔ Meets step cond' s os)
  | [], _, _ => Iff.rfl
  | o :: os, s, hI => by
      have hrest : ∀ hc : cond' s o, ∀ s', step s o = some s' →
          (Meets step cond s' os ↔ Meets step cond' s' os) :=
        fun hc s' hs' => Meets.iff_of_inv hiff hstep os s' (hstep s o s' hI hc hs')
      constructor
      · rintro ⟨hc, hm⟩
        have hc' := (hiff s o hI).1 hc
        exact ⟨hc', fun s' hs' => (hrest hc' s' hs').1 (hm s' hs')⟩
      · rintro ⟨hc', hm⟩
        exact ⟨(hiff s o hI).2 hc', fun s' hs' => (hrest hc' s' hs').2 (hm s' hs')⟩

/-- A property that a step keeps exactly when it pays `cond` holds of every state that a run reaches
exactly when the run pays it at every step; `owed` is what the run pays in any case. -/
lemma reached_iff_meets {owed : σ → ω → Prop} {P : σ → Prop}
    (hstep : ∀ s o s', I s → P s → owed s o → step s o = some s' → (P s' ↔ cond s o))
    (hfail : ∀ s o, step s o = none → cond s o)
    (hinv : ∀ s o s', I s → owed s o → step s o = some s' → I s') :
    (os : List ω) → ∀ s, I s → P s → Meets step owed s os →
      ((∀ pre post s', os = pre ++ post → run step s pre = some s' → P s') ↔ Meets step cond s os)
  | [], s, _, hP, _ => by
      refine ⟨fun _ => trivial, fun _ pre post s' heq h => ?_⟩
      obtain ⟨rfl, -⟩ := append_eq_nil_iff.mp heq.symm
      rw [run_nil, Option.some.injEq] at h
      exact h ▸ hP
  | o :: os, s, hI, hP, hm => by
      constructor
      · intro hall
        have hnext : ∀ s₁, step s o = some s₁ → P s₁ := by
          intro s₁ h₁
          apply hall [o] os s₁ rfl
          rw [run_cons, h₁, Option.bind_some, run_nil]
        refine ⟨?_, ?_⟩
        · rcases h₁ : step s o with _ | s₁
          · exact hfail s o h₁
          · exact (hstep s o s₁ hI hP hm.1 h₁).mp (hnext s₁ h₁)
        · intro s₁ h₁
          refine (reached_iff_meets hstep hfail hinv os s₁ (hinv s o s₁ hI hm.1 h₁) (hnext s₁ h₁)
            (hm.2 s₁ h₁)).mp ?_
          intro pre post s' heq h
          apply hall (o :: pre) post s' (congrArg (o :: ·) heq)
          rw [run_cons, h₁, Option.bind_some, h]
      · rintro ⟨hc, hrest⟩ pre post s' heq h
        rcases pre with _ | ⟨o', pre⟩
        · rw [run_nil, Option.some.injEq] at h
          exact h ▸ hP
        · obtain ⟨rfl, hos⟩ := List.cons.inj heq
          rw [run_cons] at h
          obtain ⟨s₁, h₁, h₂⟩ := Option.bind_eq_some_iff.mp h
          exact (reached_iff_meets hstep hfail hinv os s₁ (hinv s o s₁ hI hm.1 h₁)
            ((hstep s o s₁ hI hP hm.1 h₁).mpr hc) (hm.2 s₁ h₁)).mpr (hrest s₁ h₁) pre post s' hos h₂

lemma Meets.of_append {rest : List ω} (os : List ω) (s : σ)
    (hm : Meets step cond s (os ++ rest)) : Meets step cond s os :=
  ((meets_append s os rest).1 hm).1

lemma Meets.after {o : ω} (os : List ω) (s s' : σ) (hm : Meets step cond s (os ++ [o]))
    (h : run step s os = some s') : cond s' o :=
  (((meets_append s os [o]).1 hm).2 s' h).1

end

/-! ## One operation on every element of a table -/

/-- If `f` succeeds on every element, so does the loop over them, and entry `i` of the result is `f`
of entry `i`. -/
lemma mapM_total {f : σ → Option ω} :
    (xs : List σ) → (∀ (i : ℕ) x, xs[i]? = some x → ∃ y, f x = some y) →
      ∃ ys, xs.mapM f = some ys ∧ ys.length = xs.length ∧
        ∀ (i : ℕ) y, ys[i]? = some y → ∃ x, xs[i]? = some x ∧ f x = some y
  | [], _ => ⟨[], rfl, rfl, by simp⟩
  | x :: xs, h => by
      obtain ⟨y, hy⟩ := h 0 x rfl
      obtain ⟨ys, hys, hlen, hget⟩ := mapM_total xs fun i z hz => h (i + 1) z (by simpa using hz)
      refine ⟨y :: ys, by simp [mapM_cons, hy, hys], by simp [hlen], ?_⟩
      intro i z hz
      cases i with
      | zero =>
        simp only [getElem?_cons_zero, Option.some.injEq] at hz
        exact ⟨x, rfl, hz ▸ hy⟩
      | succ i =>
        obtain ⟨w, hw, hf⟩ := hget i z (by simpa using hz)
        exact ⟨w, by simpa using hw, hf⟩

lemma exists_of_mem_mapM {f : σ → Option ω} {y : ω} :
    (xs : List σ) → ∀ ys, xs.mapM f = some ys → y ∈ ys → ∃ x ∈ xs, f x = some y
  | [], ys, h, hy => by
      rw [mapM_nil] at h
      cases h
      cases hy
  | x :: xs, ys, h, hy => by
      rw [mapM_cons] at h
      obtain ⟨z, hz, h⟩ := Option.bind_eq_some_iff.1 h
      obtain ⟨zs, hzs, h⟩ := Option.bind_eq_some_iff.1 h
      cases h
      rcases mem_cons.1 hy with rfl | hy
      · exact ⟨x, mem_cons_self, hz⟩
      · obtain ⟨w, hw, hf⟩ := exists_of_mem_mapM xs zs hzs hy
        exact ⟨w, mem_cons_of_mem _ hw, hf⟩

lemma mem_mapM_of_mem {f : σ → Option ω} {x : σ} :
    (xs : List σ) → ∀ ys, xs.mapM f = some ys → x ∈ xs → ∃ y ∈ ys, f x = some y
  | z :: xs, ys, h, hx => by
      rw [mapM_cons] at h
      obtain ⟨w, hw, h⟩ := Option.bind_eq_some_iff.1 h
      obtain ⟨zs, hzs, h⟩ := Option.bind_eq_some_iff.1 h
      cases h
      rcases mem_cons.1 hx with rfl | hx
      · exact ⟨w, mem_cons_self, hw⟩
      · obtain ⟨y, hy, hf⟩ := mem_mapM_of_mem xs zs hzs hx
        exact ⟨y, mem_cons_of_mem w hy, hf⟩

end Ze.Lib
