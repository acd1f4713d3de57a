import Mathlib.Data.List.Basic

/-!
# Append-only data and pairs of slots

Two small structures that a double-buffered store rests on.
-/

namespace Ze.Lib

/-! ## Arrays of two -/

structure Two (α : Type*) where
  zero : α
  one : α
deriving DecidableEq, Repr

namespace Two

variable {α : Type*}

def get (t : Two α) (b : Bool) : α :=
  if b then t.one else t.zero

def set (t : Two α) (b : Bool) (v : α) : Two α :=
  if b then { t with one := v } else { t with zero := v }

lemma get_set (t : Two α) (b c : Bool) (v : α) :
    (t.set b v).get c = if c = b then v else t.get c := by
  cases b <;> cases c <;> rfl

@[simp] lemma get_set_self (t : Two α) (b : Bool) (v : α) : (t.set b v).get b = v := by
  cases b <;> rfl

@[simp] lemma get_not_set (t : Two α) (b : Bool) (v : α) : (t.set b v).get (!b) = t.get (!b) := by
  cases b <;> rfl

@[simp] lemma get_set_not (t : Two α) (b : Bool) (v : α) : (t.set (!b) v).get b = t.get b := by
  cases b <;> rfl

@[simp] lemma set_get (t : Two α) (b : Bool) : t.set b (t.get b) = t := by
  cases b <;> rfl

@[simp] lemma set_set (t : Two α) (b : Bool) (v w : α) : (t.set b v).set b w = t.set b w := by
  cases b <;> rfl

end Two

/-! ## Regions -/

section

variable {α : Type*} {data d e x : List α} {off : ℕ}

def At (data : List α) (off : ℕ) (d : List α) : Prop :=
  ∃ pre post, data = pre ++ (d ++ post) ∧ pre.length = off

lemma At.le_length (h : At data off d) : off + d.length ≤ data.length := by
  obtain ⟨pre, post, rfl, rfl⟩ := h
  simp only [List.length_append]
  omega

lemma At.take_drop (h : At data off d) : (data.drop off).take d.length = d := by
  obtain ⟨pre, post, rfl, rfl⟩ := h
  simp

lemma At.append (h : At data off d) (x : List α) : At (data ++ x) off d := by
  obtain ⟨pre, post, rfl, rfl⟩ := h
  exact ⟨pre, post ++ x, by simp, rfl⟩

lemma At.last (data d : List α) : At (data ++ d) data.length d :=
  ⟨data, [], by simp, rfl⟩

lemma At.unique (h : At data off d) (h' : At data off e) (hlen : d.length = e.length) : d = e := by
  rw [← h.take_drop, ← h'.take_drop, hlen]

lemma At.take_drop_append (h : At data off d) (x : List α) :
    ((data ++ x).drop off).take d.length = d :=
  (h.append x).take_drop

end

end Ze.Lib
