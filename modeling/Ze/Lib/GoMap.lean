import Mathlib.Data.Finmap

/-!
# Finite maps of the Go programs

A Go map is a Mathlib `Finmap`. A range over one visits its keys in an order that the language
leaves open: `RangeOrder` is such an order, and a function that ranges over a map takes one.

`SetIndex` is a map of sets that drops a set once it is empty, as the programs keep their reverse
indexes.
-/

namespace Ze.Lib

open List

/-- The order in which a range over a map visits its keys: any list of them, each once.
Source: Go, for k := range m -/
structure RangeOrder (K : Type) where
  keys : Finset K → List K
  mem_keys : ∀ s k, k ∈ keys s ↔ k ∈ s
  nodup_keys : ∀ s, (keys s).Nodup

noncomputable instance {K : Type} : Inhabited (RangeOrder K) :=
  ⟨⟨Finset.toList, fun _ _ => Finset.mem_toList, fun s => Finset.nodup_toList s⟩⟩

/-- The range that meets the keys of a list in its order, and then the others. -/
noncomputable def RangeOrder.listing {K : Type} [DecidableEq K] (first : List K)
    (hfirst : first.Nodup) : RangeOrder K where
  keys s := first.filter (· ∈ s) ++ if s ⊆ first.toFinset then [] else (s \ first.toFinset).toList
  mem_keys s k := by
    rw [mem_append, mem_filter]
    split_ifs with hsub
    · have hmem : k ∈ s → k ∈ first := fun hk => mem_toFinset.1 (hsub hk)
      simpa using hmem
    · rw [Finset.mem_toList, Finset.mem_sdiff, mem_toFinset]
      simp only [decide_eq_true_eq]
      tauto
  nodup_keys s := by
    refine List.Nodup.append (hfirst.filter _) ?_ ?_
    · split_ifs
      · exact nodup_nil
      · exact Finset.nodup_toList _
    · intro k hk
      split_ifs
      · exact not_mem_nil
      · rw [Finset.mem_toList, Finset.mem_sdiff, mem_toFinset]
        exact fun h => h.2 (mem_of_mem_filter hk)

section

variable {K V : Type} [DecidableEq K]

lemma lookup_insert_eq (m : Finmap fun _ : K => V) (a k : K) (v : V) :
    (m.insert a v).lookup k = if k = a then some v else m.lookup k := by
  split_ifs with h
  · rw [h, Finmap.lookup_insert]
  · exact Finmap.lookup_insert_of_ne m h

lemma lookup_erase_eq (m : Finmap fun _ : K => V) (a k : K) :
    (m.erase a).lookup k = if k = a then none else m.lookup k := by
  split_ifs with h
  · rw [h, Finmap.lookup_erase]
  · exact Finmap.lookup_erase_ne h

/-- The values of a map in the order of a range. Source: for _, v := range m. -/
def RangeOrder.values (ord : RangeOrder K) (m : Finmap fun _ : K => V) : List V :=
  (ord.keys m.keys).filterMap m.lookup

lemma RangeOrder.mem_values {ord : RangeOrder K} {m : Finmap fun _ : K => V} {v : V} :
    v ∈ ord.values m ↔ ∃ k, m.lookup k = some v := by
  unfold RangeOrder.values
  rw [mem_filterMap]
  constructor
  · rintro ⟨k, -, hk⟩
    exact ⟨k, hk⟩
  · rintro ⟨k, hk⟩
    refine ⟨k, ?_, hk⟩
    rw [ord.mem_keys, Finmap.mem_keys]
    exact Finmap.mem_of_lookup_eq_some hk

omit [DecidableEq K] in
lemma RangeOrder.keys_singleton (ord : RangeOrder K) (k : K) : ord.keys {k} = [k] := by
  apply perm_singleton.1
  rw [perm_ext_iff_of_nodup (ord.nodup_keys _) (nodup_singleton k)]
  intro a
  rw [ord.mem_keys, Finset.mem_singleton, mem_singleton]

lemma RangeOrder.values_singleton (ord : RangeOrder K) (k : K) (v : V) :
    ord.values ((∅ : Finmap fun _ : K => V).insert k v) = [v] := by
  have hkeys : ((∅ : Finmap fun _ : K => V).insert k v).keys = {k} := by
    ext a
    rw [Finmap.mem_keys, Finmap.mem_insert, Finset.mem_singleton]
    simp [Finmap.notMem_empty]
  unfold RangeOrder.values
  rw [hkeys, ord.keys_singleton]
  simp

lemma RangeOrder.values_empty (ord : RangeOrder K) :
    ord.values (∅ : Finmap fun _ : K => V) = [] := by
  rw [eq_nil_iff_forall_not_mem]
  intro v hv
  obtain ⟨k, hk⟩ := RangeOrder.mem_values.1 hv
  rw [Finmap.lookup_empty] at hk
  cases hk

def mapValues (f : V → V) (m : Finmap fun _ : K => V) : Finmap fun _ : K => V where
  entries := m.entries.map (Sigma.map id fun _ => f)
  nodupKeys := by
    obtain ⟨entries, h⟩ := m
    induction entries using Quotient.inductionOn with
    | h l => exact List.NodupKeys.map₂ (fun _ => f) l h

lemma lookup_mapValues (f : V → V) (m : Finmap fun _ : K => V) (k : K) :
    (mapValues f m).lookup k = (m.lookup k).map f := by
  induction m using Finmap.induction_on with
  | H l => exact dlookup_map₂ k

end

/-! ## A map of sets -/

/-- A map of sets. Source: a map from keys to sets of values. -/
abbrev SetIndex (K V : Type) := Finmap fun _ : K => Finset V

namespace SetIndex

variable {K V : Type} [DecidableEq K] [DecidableEq V]

def at_ (ix : SetIndex K V) (k : K) : Finset V := (ix.lookup k).getD ∅

def put (ix : SetIndex K V) (k : K) (v : V) : SetIndex K V := ix.insert k (insert v (ix.at_ k))

/-- A value leaves the set of a key, and an empty set leaves the map. -/
def drop (ix : SetIndex K V) (k : K) (v : V) : SetIndex K V :=
  match ix.lookup k with
  | none => ix
  | some vs => if vs.erase v = ∅ then Finmap.erase k ix else ix.insert k (vs.erase v)

def NoEmpty (ix : SetIndex K V) : Prop := ∀ k, ix.lookup k ≠ some ∅

variable {ix : SetIndex K V} {k a : K} {v w : V}

lemma mem_at_put : w ∈ (ix.put k v).at_ a ↔ (a = k ∧ w = v) ∨ w ∈ ix.at_ a := by
  unfold at_ put
  rw [lookup_insert_eq]
  split_ifs with h
  · subst h
    simp [at_]
  · simp [h]

lemma mem_at_drop : w ∈ (ix.drop k v).at_ a ↔ ¬(a = k ∧ w = v) ∧ w ∈ ix.at_ a := by
  unfold at_ drop
  by_cases h : a = k
  · subst h
    cases hl : ix.lookup a with
    | none => simp [hl]
    | some vs =>
      by_cases he : vs.erase v = ∅
      · have hw : w ∉ vs.erase v := by
          rw [he]
          exact Finset.notMem_empty w
        rw [Finset.mem_erase] at hw
        simpa [he] using hw
      · simp [he]
  · split
    · simp [h]
    · split_ifs
      · rw [lookup_erase_eq]
        simp [h]
      · rw [lookup_insert_eq]
        simp [h]

lemma NoEmpty.put (h : ix.NoEmpty) : (ix.put k v).NoEmpty := by
  intro a
  unfold SetIndex.put
  rw [lookup_insert_eq]
  split_ifs
  · simp
  · exact h a

lemma NoEmpty.drop (h : ix.NoEmpty) : (ix.drop k v).NoEmpty := by
  intro a
  unfold SetIndex.drop
  split
  · exact h a
  · split_ifs with he
    · rw [lookup_erase_eq]
      split_ifs
      · simp
      · exact h a
    · rw [lookup_insert_eq]
      split_ifs
      · simpa using he
      · exact h a

end SetIndex

end Ze.Lib
