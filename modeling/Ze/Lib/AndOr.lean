import Mathlib.Data.List.Basic

/-!
# Lists of terms joined by AND and OR

A list of terms in which every term but the first is joined to the one before it, by AND or by OR,
and AND binds tighter: the list is an OR of runs, and a run is an AND of terms.
-/

namespace Ze.Lib.AndOr

open List

variable {α β : Type} (joined : α → Bool)

/-- The runs of a list whose first run begins with `cur`. -/
def runsFrom (cur : List α) : List α → List (List α)
  | [] => [cur]
  | a :: l => if joined a then runsFrom (cur ++ [a]) l else cur :: runsFrom [a] l

/-- The runs of AND-joined terms; what joins the first term to nothing is not read. -/
def runs : List α → List (List α)
  | [] => []
  | a :: l => runsFrom joined [a] l

/-- The list holds where every term of one of its runs does. -/
def Holds (term : α → Prop) (l : List α) : Prop := ∃ r ∈ runs joined l, ∀ a ∈ r, term a

/-- The evaluation from left to right: what the finished runs give, and what the current one gives
so far. -/
def evalFrom (or and : β → β → β) (term : α → β) (admitted group : β) : List α → β
  | [] => or admitted group
  | a :: l =>
    if joined a then evalFrom or and term admitted (and group (term a)) l
    else evalFrom or and term (or admitted group) (term a) l

/-- The evaluation of a list; the empty one gives nothing. -/
def eval (or and : β → β → β) (bot : β) (term : α → β) : List α → β
  | [] => or bot bot
  | a :: l => evalFrom joined or and term bot (term a) l

variable {joined}

lemma map_evalFrom {γ : Type} {or and : β → β → β} {or' and' : γ → γ → γ} {f : β → γ}
    (hor : ∀ x y, f (or x y) = or' (f x) (f y)) (hand : ∀ x y, f (and x y) = and' (f x) (f y))
    (term : α → β) (admitted group : β) (l : List α) :
    f (evalFrom joined or and term admitted group l)
      = evalFrom joined or' and' (fun a => f (term a)) (f admitted) (f group) l := by
  induction l generalizing admitted group with
  | nil => exact hor _ _
  | cons a l ih =>
    unfold evalFrom
    by_cases ha : joined a
    · rw [if_pos ha, if_pos ha, ih, hand]
    · rw [if_neg ha, if_neg ha, ih, hor]

lemma map_eval {γ : Type} {or and : β → β → β} {or' and' : γ → γ → γ} {f : β → γ}
    (hor : ∀ x y, f (or x y) = or' (f x) (f y)) (hand : ∀ x y, f (and x y) = and' (f x) (f y))
    (bot : β) (term : α → β) (l : List α) :
    f (eval joined or and bot term l)
      = eval joined or' and' (f bot) (fun a => f (term a)) l := by
  cases l with
  | nil => exact hor _ _
  | cons a l => exact map_evalFrom hor hand term bot (term a) l

lemma evalFrom_iff (joined : α → Bool) (term : α → Bool) (admitted : Bool) (cur l : List α) :
    evalFrom joined or and term admitted (cur.all term) l ↔
      admitted ∨ ∃ r ∈ runsFrom joined cur l, ∀ a ∈ r, term a := by
  induction l generalizing admitted cur with
  | nil => simp [evalFrom, runsFrom]
  | cons a l ih =>
    unfold evalFrom runsFrom
    by_cases ha : joined a
    · have hgroup : and (cur.all term) (term a) = (cur ++ [a]).all term := by simp
      rw [if_pos ha, if_pos ha, hgroup, ih]
    · have hgroup : term a = [a].all term := by simp
      rw [if_neg ha, if_neg ha, hgroup, ih]
      simp only [Bool.or_eq_true, all_eq_true, mem_cons, exists_eq_or_imp, or_assoc]

/-- The evaluation in `Bool` is the reading. -/
lemma eval_iff (term : α → Bool) (l : List α) :
    eval joined or and false term l ↔ Holds joined (fun a => term a = true) l := by
  cases l with
  | nil => simp [eval, Holds, runs]
  | cons a l =>
    have h := evalFrom_iff joined term false [a] l
    simp only [all_cons, all_nil, Bool.and_true, Bool.false_eq_true, false_or] at h
    exact h

lemma holds_congr {term term' : α → Prop} (h : ∀ a, term a ↔ term' a) (l : List α) :
    Holds joined term l ↔ Holds joined term' l := by
  unfold Holds
  simp only [h]

end Ze.Lib.AndOr
