import Mathlib.Data.List.Basic

/-!
# Bounded walks

A walk follows a partial function from place to place for at most `n` places. Two functions that
agree on the places of one walk have the same walk (`walk_congr`), and a property that the function
keeps holds all along (`walk_forall`): what a bounded search reads is what it has to be told of.
-/

namespace Ze.Lib

open List

variable {α : Type*}

def walk (next : α → Option α) : ℕ → α → List α
  | 0, _ => []
  | n + 1, a =>
    a :: match next a with
      | none => []
      | some b => walk next n b

lemma walk_of_none {next : α → Option α} {a : α} (n : ℕ) (h : next a = none) :
    walk next (n + 1) a = [a] := by
  simp only [walk, h]

lemma walk_of_some {next : α → Option α} {a b : α} (n : ℕ) (h : next a = some b) :
    walk next (n + 1) a = a :: walk next n b := by
  simp only [walk, h]

lemma walk_forall {next : α → Option α} {P : α → Prop}
    (hnext : ∀ a b, P a → next a = some b → P b) :
    (n : ℕ) → ∀ a, P a → ∀ x ∈ walk next n a, P x
  | 0, _, _ => by simp [walk]
  | n + 1, a, ha => by
      cases h : next a with
      | none =>
        rw [walk_of_none n h]
        simpa using ha
      | some b =>
        rw [walk_of_some n h]
        have hrest := walk_forall hnext n b (hnext a b ha h)
        simpa using ⟨ha, hrest⟩

lemma walk_congr {next next' : α → Option α} :
    (n : ℕ) → ∀ a, (∀ x ∈ walk next' n a, next x = next' x) → walk next n a = walk next' n a
  | 0, _, _ => rfl
  | n + 1, a, h => by
      cases h' : next' a with
      | none =>
        rw [walk_of_none n h'] at h ⊢
        rw [walk_of_none n (h' ▸ h a mem_cons_self)]
      | some b =>
        rw [walk_of_some n h'] at h ⊢
        rw [walk_of_some n (h' ▸ h a mem_cons_self)]
        rw [walk_congr n b fun x hx => h x (mem_cons_of_mem a hx)]

end Ze.Lib
