import Ze.Rpki.Aspa

/-!
# What the verification of a path decides

`verifyASPADownstream` measures the two ramps of a path and compares their lengths with the length
of the path. The result says whether the path has an apex: a place from which every hop towards the
neighbour and every hop towards the origin goes down from a provider to a customer. The upstream
procedure asks for the apex at the neighbour.
-/

namespace Ze.Rpki

open List

variable {cache : ASPACache}

/-! ## Ramps -/

/-- The first `k` hops of the path, each from a customer to the provider after it, are `ok`. -/
def Climbs (ok : HopResult → Prop) (cache : ASPACache) (path : List UInt32) (k : ℕ) : Prop :=
  ∀ j, j < k → ∀ hj : j + 1 < path.length, ok (cache.checkPair path[j + 1] path[j])

section

variable {ok : HopResult → Prop} {a p : UInt32} {rest path : List UInt32} {k : ℕ}

lemma climbs_zero : Climbs ok cache path 0 := fun _ hj => absurd hj (Nat.not_lt_zero _)

lemma climbs_cons_succ :
    Climbs ok cache (a :: p :: rest) (k + 1) ↔
      ok (cache.checkPair p a) ∧ Climbs ok cache (p :: rest) k := by
  constructor
  · intro h
    refine ⟨h 0 (Nat.succ_pos k) (by simp), ?_⟩
    intro j hj hlen
    exact h (j + 1) (Nat.succ_lt_succ hj) (Nat.succ_lt_succ hlen)
  · rintro ⟨hfirst, hrest⟩ j hj hlen
    obtain _ | j := j
    · exact hfirst
    · exact hrest j (Nat.lt_of_succ_lt_succ hj) (Nat.lt_of_succ_lt_succ hlen)

lemma climbs_reverse_iff :
    Climbs ok cache path.reverse k ↔
      ∀ i, path.length ≤ i + k → 0 < i → ∀ hi : i < path.length,
        ok (cache.checkPair path[i - 1] path[i]) := by
  constructor
  · intro h i hk hpos hi
    have hj : path.length - 1 - i + 1 < path.reverse.length := by
      rw [length_reverse]
      omega
    have hhop := h (path.length - 1 - i) (by omega) hj
    rw [getElem_reverse, getElem_reverse] at hhop
    have hfar : path.length - 1 - (path.length - 1 - i + 1) = i - 1 := by omega
    have hnear : path.length - 1 - (path.length - 1 - i) = i := by omega
    simpa only [hfar, hnear] using hhop
  · intro h j hj hlen
    rw [length_reverse] at hlen
    rw [getElem_reverse, getElem_reverse]
    have hhop := h (path.length - 1 - j) (by omega) (by omega) (by omega)
    have hfar : path.length - 1 - j - 1 = path.length - 1 - (j + 1) := by omega
    simpa only [hfar] using hhop

end

section

variable {len i : ℕ}

/-- The length `r` marks how far from `i` on the hops of a path are `ok`. -/
structure Marks (ok : HopResult → Prop) (cache : ASPACache) (len i : ℕ) (path : List UInt32)
    (r : ℕ) : Prop where
  lower : i < r
  upper : r ≤ len
  lt_iff : ∀ k < path.length, i + k < r ↔ Climbs ok cache path k

variable {ok : HopResult → Prop} {a p : UInt32} {rest : List UInt32}

lemma marks_singleton (hlen : i + 1 = len) : Marks ok cache len i [a] len := by
  refine ⟨by omega, Nat.le_refl len, fun k hk => ?_⟩
  rw [length_singleton, Nat.lt_one_iff] at hk
  subst hk
  simp only [climbs_zero, iff_true]
  omega

lemma marks_stop (hlen : i + (a :: p :: rest).length = len) (hno : ¬ ok (cache.checkPair p a)) :
    Marks ok cache len i (a :: p :: rest) (i + 1) := by
  simp only [length_cons] at hlen
  refine ⟨by omega, by omega, fun k _ => ?_⟩
  obtain _ | k := k
  · simp only [climbs_zero, iff_true]
    omega
  · rw [climbs_cons_succ]
    constructor
    · intro hlt
      omega
    · intro hclimbs
      exact absurd hclimbs.1 hno

lemma Marks.step {r : ℕ} (h : Marks ok cache len (i + 1) (p :: rest) r)
    (hok : ok (cache.checkPair p a)) : Marks ok cache len i (a :: p :: rest) r := by
  refine ⟨Nat.lt_of_succ_lt h.lower, h.upper, fun k hk => ?_⟩
  obtain _ | k := k
  · simp only [climbs_zero, iff_true]
    exact Nat.lt_of_succ_lt h.lower
  · rw [climbs_cons_succ, ← h.lt_iff k (Nat.lt_of_succ_lt_succ hk), Nat.add_assoc, Nat.add_comm 1 k]
    exact ⟨fun hlt => ⟨hok, hlt⟩, And.right⟩

lemma rampLoop_snd (cache : ASPACache) (low : ℕ) {path : List UInt32} (hne : path ≠ [])
    (hlen : i + path.length = len) :
    Marks (· ≠ .notProviderPlus) cache len i path (rampLoop cache len i low path).2 := by
  induction path generalizing i low with
  | nil => exact absurd rfl hne
  | cons a rest ih =>
    rcases rest with _ | ⟨p, rest⟩
    · exact marks_singleton hlen
    · have hlen' : i + 1 + (p :: rest).length = len := by
        rw [length_cons] at hlen
        omega
      simp only [rampLoop]
      by_cases hdenied : cache.checkPair p a = .notProviderPlus
      · rw [if_pos hdenied]
        exact marks_stop hlen (not_not.2 hdenied)
      · rw [if_neg hdenied]
        exact (ih _ (cons_ne_nil p rest) hlen').step hdenied

lemma rampLoop_fst_of_ne {low : ℕ} {path : List UInt32} (hlow : low ≠ len) :
    (rampLoop cache len i low path).1 = low := by
  induction path generalizing i with
  | nil => rfl
  | cons a rest ih =>
    rcases rest with _ | ⟨p, rest⟩
    · rfl
    · simp only [rampLoop, hlow, and_false, if_false]
      split_ifs
      · rfl
      · exact ih

lemma rampLoop_fst (cache : ASPACache) {path : List UInt32} (hne : path ≠ [])
    (hlen : i + path.length = len) :
    Marks (· = .providerPlus) cache len i path (rampLoop cache len i len path).1 := by
  induction path generalizing i with
  | nil => exact absurd rfl hne
  | cons a rest ih =>
    rcases rest with _ | ⟨p, rest⟩
    · exact marks_singleton hlen
    · have hlen' : i + 1 + (p :: rest).length = len := by
        rw [length_cons] at hlen
        omega
      by_cases hplus : cache.checkPair p a = .providerPlus
      · have hstep : rampLoop cache len i len (a :: p :: rest)
            = rampLoop cache len (i + 1) len (p :: rest) := by
          simp [rampLoop, hplus]
        rw [hstep]
        exact (ih (cons_ne_nil p rest) hlen').step hplus
      · have hstep : (rampLoop cache len i len (a :: p :: rest)).1 = i + 1 := by
          simp only [rampLoop, ne_eq, hplus, not_false_eq_true, and_self, if_true]
          split_ifs
          · rfl
          · simp only [length_cons] at hlen
            exact rampLoop_fst_of_ne (by omega)
        rw [hstep]
        exact marks_stop hlen hplus

end

/-! ## The apex -/

/-- The place `k` of a path is an apex: the hops to it from both ends are `ok`. -/
def Apex (ok : HopResult → Prop) (cache : ASPACache) (path : List UInt32) (k : ℕ) : Prop :=
  (∀ i, k + 1 < i → ∀ hi : i < path.length, ok (cache.checkPair path[i - 1] path[i])) ∧
    ∀ i, i < k → ∀ hi : i + 1 < path.length, ok (cache.checkPair path[i + 1] path[i])

lemma exists_apex_iff {ok : HopResult → Prop} {path : List UInt32} {u d : ℕ}
    (h : 2 ≤ path.length) (hupos : 0 < u) (hdpos : 0 < d)
    (hu : ∀ k < path.length, k < u ↔ Climbs ok cache path.reverse k)
    (hd : ∀ k < path.length, k < d ↔ Climbs ok cache path k) :
    path.length ≤ u + d ↔ ∃ k, k < path.length - 1 ∧ Apex ok cache path k := by
  have happly : ∀ k, k < path.length - 1 →
      (Apex ok cache path k ↔ path.length - 2 - k < u ∧ k < d) := by
    intro k hk
    rw [hu _ (by omega), hd _ (by omega), climbs_reverse_iff]
    constructor
    · rintro ⟨hdown, hup⟩
      exact ⟨fun i hi _ => hdown i (by omega), hup⟩
    · rintro ⟨hdown, hup⟩
      exact ⟨fun i hi => hdown i (by omega) (by omega), hup⟩
  constructor
  · intro hmeet
    refine ⟨min (d - 1) (path.length - 2), by omega, (happly _ (by omega)).2 ?_⟩
    constructor <;> omega
  · rintro ⟨k, hk, hapex⟩
    obtain ⟨hup, hdown⟩ := (happly k hk).1 hapex
    omega

lemma ramp_spec (cache : ASPACache) {path : List UInt32} (hne : path ≠ []) :
    (0 < (ramp cache path).2 ∧ ∀ k < path.length,
        k < (ramp cache path).2 ↔ Climbs (· ≠ .notProviderPlus) cache path k) ∧
      (0 < (ramp cache path).1 ∧ ∀ k < path.length,
        k < (ramp cache path).1 ↔ Climbs (· = .providerPlus) cache path k) ∧
      (ramp cache path).1 ≤ (ramp cache path).2 := by
  obtain ⟨hpos, hle, hiff⟩ :=
    rampLoop_snd cache path.length hne (Nat.zero_add path.length)
  obtain ⟨hpos', hle', hiff'⟩ := rampLoop_fst cache hne (Nat.zero_add path.length)
  simp only [Nat.zero_add] at hiff hiff'
  refine ⟨⟨hpos, hiff⟩, ⟨hpos', hiff'⟩, ?_⟩
  by_contra hlt
  -- The hop that is denied is not attested either, so the first length cannot be the longer one.
  have hk : (ramp cache path).2 < (ramp cache path).1 := Nat.lt_of_not_le hlt
  have hclimbs := (hiff' _ (Nat.lt_of_lt_of_le hk hle')).1 hk
  have hnot : Climbs (· ≠ .notProviderPlus) cache path (ramp cache path).2 := by
    intro j hj hlen
    rw [hclimbs j hj hlen]
    decide
  exact absurd ((hiff _ (Nat.lt_of_lt_of_le hk hle')).2 hnot) (Nat.lt_irrefl _)

lemma verifyASPADownstream_reversed (path : List UInt32) :
    verifyASPADownstream cache path.reverse = verifyASPADownstream cache path := by
  unfold verifyASPADownstream
  simp only [reverse_eq_nil_iff, reverse_reverse, length_reverse]
  rw [Nat.add_comm (ramp cache path).2, Nat.add_comm (ramp cache path).1]

/-- A path of at least two ASes is not invalid exactly when it has an apex that no denied hop
contradicts, it is valid exactly when it has one to which every hop is attested, and its reversal is
judged like the path. -/
theorem verifyASPADownstream_apex (cache : ASPACache) (path : List UInt32) (h : 2 ≤ path.length) :
    (verifyASPADownstream cache path ≠ .invalid ↔
        ∃ k, k < path.length - 1 ∧
          (∀ i, k + 1 < i → ∀ hi : i < path.length,
            cache.checkPair path[i - 1] path[i] ≠ .notProviderPlus) ∧
          ∀ i, i < k → ∀ hi : i + 1 < path.length,
            cache.checkPair path[i + 1] path[i] ≠ .notProviderPlus) ∧
      (verifyASPADownstream cache path = .valid ↔
        ∃ k, k < path.length - 1 ∧
          (∀ i, k + 1 < i → ∀ hi : i < path.length,
            cache.checkPair path[i - 1] path[i] = .providerPlus) ∧
          ∀ i, i < k → ∀ hi : i + 1 < path.length,
            cache.checkPair path[i + 1] path[i] = .providerPlus) ∧
      verifyASPADownstream cache path.reverse = verifyASPADownstream cache path := by
  have hne : path ≠ [] := by
    rintro rfl
    exact absurd h (by decide)
  obtain ⟨⟨hup, hupiff⟩, ⟨hup', hupiff'⟩, huple⟩ :=
    ramp_spec cache (mt reverse_eq_nil_iff.1 hne)
  obtain ⟨⟨hdown, hdowniff⟩, ⟨hdown', hdowniff'⟩, hdownle⟩ := ramp_spec cache hne
  rw [length_reverse] at hupiff hupiff'
  have hmeet := exists_apex_iff h hup hdown hupiff hdowniff
  have hmeet' := exists_apex_iff h hup' hdown' hupiff' hdowniff'
  have hinvalid : verifyASPADownstream cache path ≠ .invalid ↔
      path.length ≤ (ramp cache path.reverse).2 + (ramp cache path).2 := by
    unfold verifyASPADownstream
    rw [if_neg hne]
    dsimp only
    split_ifs with hmax hmin
    · simpa using hmax
    · simpa using Nat.le_of_not_lt hmax
    · simpa using Nat.le_of_not_lt hmax
  have hvalid : verifyASPADownstream cache path = .valid ↔
      path.length ≤ (ramp cache path.reverse).1 + (ramp cache path).1 := by
    unfold verifyASPADownstream
    rw [if_neg hne]
    dsimp only
    split_ifs with hmax hmin
    · simp only [false_iff]
      omega
    · simpa using hmin
    · simpa using Nat.le_of_not_lt hmin
  exact ⟨hinvalid.trans hmeet, hvalid.trans hmeet', verifyASPADownstream_reversed path⟩

/-- A cache in which 2 attests 1 as its provider and 3 attests 2. -/
def chainCache : ASPACache := (ASPACache.new.store ⟨2, [1]⟩).store ⟨3, [2]⟩

/-- The path up from 3 by way of 2 to 1 is valid, with its apex at 1. -/
theorem verifyASPADownstream_chain :
    2 ≤ [1, 2, 3].length ∧ verifyASPADownstream chainCache [1, 2, 3] = .valid := by
  refine ⟨by decide, ((verifyASPADownstream_apex chainCache [1, 2, 3] (by decide)).2.1).2 ?_⟩
  have hhop : chainCache.checkPair 2 3 = .providerPlus := by decide
  refine ⟨0, by decide, ?_, fun i hi => absurd hi (Nat.not_lt_zero i)⟩
  intro i hlow hi
  have h2 : i = 2 := by
    simp only [length_cons, length_nil] at hi
    omega
  subst h2
  exact hhop

/-! ## The upstream procedure -/

variable {ok : HopResult → Prop} {path : List UInt32}

lemma verifyHops_iff (hasUnknown : Bool) :
    (verifyHops cache hasUnknown path ≠ .invalid ↔
        path.IsChain fun p a => cache.checkPair p a ≠ .notProviderPlus) ∧
      (verifyHops cache hasUnknown path = .valid ↔
        hasUnknown = false ∧ path.IsChain fun p a => cache.checkPair p a = .providerPlus) := by
  induction path generalizing hasUnknown with
  | nil => cases hasUnknown <;> simp [verifyHops]
  | cons p rest ih =>
    rcases rest with _ | ⟨a, rest⟩
    · cases hasUnknown <;> simp [verifyHops]
    · rw [isChain_cons_cons, isChain_cons_cons, verifyHops]
      rcases cache.checkPair p a <;> simp [ih]

lemma verifyASPA_eq (hne : path ≠ []) : verifyASPA cache path = verifyHops cache false path := by
  rcases path with _ | ⟨p, _ | ⟨a, rest⟩⟩
  · exact absurd rfl hne
  · rfl
  · simp [verifyASPA]

lemma climbs_of_isChain (h : path.IsChain fun p a => ok (cache.checkPair p a)) (k : ℕ) :
    Climbs ok cache path.reverse k :=
  fun j _ hj => isChain_iff_getElem.1 (isChain_reverse.2 h) j hj

/-- **The upstream verification is the stricter one.** It is not invalid exactly when no hop of the
path is denied, and valid exactly when every hop is attested; and what it does not refuse, or
accepts, the downstream verification does not refuse, or accepts. -/
theorem verifyASPA_chain (cache : ASPACache) (path : List UInt32) :
    (verifyASPA cache path ≠ .invalid ↔
        path ≠ [] ∧ path.IsChain fun p a => cache.checkPair p a ≠ .notProviderPlus) ∧
      (verifyASPA cache path = .valid ↔
        path ≠ [] ∧ path.IsChain fun p a => cache.checkPair p a = .providerPlus) ∧
      (verifyASPA cache path ≠ .invalid → verifyASPADownstream cache path ≠ .invalid) ∧
      (verifyASPA cache path = .valid → verifyASPADownstream cache path = .valid) := by
  by_cases hne : path = []
  · subst hne
    simp [verifyASPA]
  · have hlen := length_pos_iff.2 hne
    obtain ⟨⟨-, hup⟩, ⟨-, hup'⟩, hle⟩ := ramp_spec cache (mt reverse_eq_nil_iff.1 hne)
    rw [length_reverse] at hup hup'
    have hlast : path.length - 1 < path.length := by omega
    rw [verifyASPA_eq hne, (verifyHops_iff false).1, (verifyHops_iff false).2]
    unfold verifyASPADownstream
    simp only [hne, ne_eq, not_false_eq_true, true_and, if_false]
    refine ⟨fun hchain => ?_, fun hchain => ?_⟩
    · have hlong := (hup _ hlast).2 (climbs_of_isChain hchain _)
      rw [if_neg (by omega)]
      split_ifs <;> nofun
    · have hlong := (hup' _ hlast).2 (climbs_of_isChain hchain _)
      rw [if_neg (by omega), if_neg (by omega)]

end Ze.Rpki
