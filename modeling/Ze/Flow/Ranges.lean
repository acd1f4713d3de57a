import Ze.Flow.Unmatchable

/-!
# What the ranges of an operator list are

`admittedRanges` answers the values that a numeric list admits (`mem_admittedRanges`), as ranges in
increasing order that neither overlap nor touch, and `rangesMeet` decides whether two such answers
share a value (`rangesMeet_iff`).
-/

namespace Ze.Flow

open Ze.Lib List
open BitVec (le_refl)

/-! ## Membership -/

/-- Source: unmatchable_values.go valueRange. -/
def ValueRange.Has (r : ValueRange) (x : BitVec 64) : Prop := r.lo ≤ x ∧ x ≤ r.hi

def InRanges (ranges : List ValueRange) (x : BitVec 64) : Prop := ∃ r ∈ ranges, r.Has x

def Proper (ranges : List ValueRange) : Prop := ∀ r ∈ ranges, r.lo ≤ r.hi

/-- The second range is above the first, and at least one value lies between them. -/
def Apart (a b : ValueRange) : Prop := a.hi.toNat + 1 < b.lo.toNat

lemma Apart.lt {a b : ValueRange} (h : Apart a b) : a.hi < b.lo := by
  unfold Apart at h
  bv_omega

/-- What the numeric operator of a term admits. Source: RFC 8955 Section 4.2.1.1, as
unmatchable.go quotes it. -/
def NumericTerm (m : FlowMatch) (x : BitVec 64) : Prop :=
  (m.op &&& flowOpLess ≠ 0#8 ∧ x < m.value) ∨ (m.op &&& flowOpGreater ≠ 0#8 ∧ m.value < x) ∨
    (m.op &&& flowOpEqual ≠ 0#8 ∧ x = m.value)

@[simp]
lemma inRanges_nil (x : BitVec 64) : ¬ InRanges [] x := by
  rintro ⟨r, hr, -⟩
  cases hr

variable {ranges : List ValueRange} {hi : BitVec 64}

variable {r last : ValueRange} {x next : BitVec 64} {a b : List ValueRange}
  {excluded : List (BitVec 64)}

lemma inRanges_cons : InRanges (r :: ranges) x ↔ r.Has x ∨ InRanges ranges x := by
  unfold InRanges
  simp

lemma inRanges_append : InRanges (a ++ b) x ↔ InRanges a x ∨ InRanges b x := by
  unfold InRanges
  simp [or_and_right, exists_or]

lemma proper_cons : Proper (r :: ranges) ↔ r.lo ≤ r.hi ∧ Proper ranges := by
  unfold Proper
  simp

lemma pairwise_sorted {α : Type} (key : α → BitVec 64) (l : List α) :
    (l.mergeSort fun a b => decide (key a ≤ key b)).Pairwise fun a b => key a ≤ key b := by
  have htrans : ∀ a b c : α, decide (key a ≤ key b) → decide (key b ≤ key c) →
      decide (key a ≤ key c) := by
    intro a b c
    simp only [decide_eq_true_eq]
    bv_omega
  have htotal : ∀ a b : α, (decide (key a ≤ key b) || decide (key b ≤ key a)) := by
    intro a b
    simp only [Bool.or_eq_true, decide_eq_true_eq]
    bv_omega
  have hsort := pairwise_mergeSort htrans htotal l
  simpa only [decide_eq_true_eq] using hsort

/-! ## One group -/

lemma exists_bounds {a b : BitVec 64} {p : BitVec 64 → BitVec 64 → Prop} :
    (∃ lo hi, some (a, b) = some (lo, hi) ∧ p lo hi) ↔ p a b := by
  simp

lemma termRange_spec {less greater : Bool} (h : (less && greater) = false) (equal : Bool)
    (value x : BitVec 64) :
    (less ∧ x < value) ∨ (greater ∧ value < x) ∨ (equal ∧ x = value) ↔
      ∃ lo hi, termRange value less greater equal = some (lo, hi) ∧ lo ≤ x ∧ x ≤ hi := by
  have hmax : maxUint64.toNat = 2 ^ 64 - 1 := rfl
  unfold termRange
  cases less with
  | true =>
    obtain rfl : greater = false := by simpa using h
    cases equal with
    | true =>
      simp only [Bool.false_eq_true, if_true, true_and, false_and, false_or, exists_bounds]
      bv_omega
    | false =>
      simp only [Bool.false_eq_true, if_true, if_false, true_and, false_and, or_false]
      split_ifs with hv
      · simp [hv]
      · rw [exists_bounds]
        bv_omega
  | false =>
    cases greater with
    | true =>
      cases equal with
      | true =>
        simp only [Bool.false_eq_true, if_true, if_false, true_and, false_and, false_or,
          exists_bounds]
        bv_omega
      | false =>
        simp only [Bool.false_eq_true, if_true, if_false, true_and, false_and, or_false, false_or]
        split_ifs with hv
        · simp only [false_and, exists_false, iff_false]
          bv_omega
        · rw [exists_bounds]
          bv_omega
    | false =>
      cases equal with
      | true =>
        simp only [Bool.false_eq_true, if_true, if_false, true_and, false_and, false_or,
          exists_bounds]
        bv_omega
      | false => simp

lemma groupBounds_spec (group : List FlowMatch) (lo hi : BitVec 64) (excluded : List (BitVec 64))
    (x : BitVec 64) :
    (lo ≤ x ∧ x ≤ hi ∧ x ∉ excluded ∧ ∀ m ∈ group, NumericTerm m x) ↔
      ∃ lo' hi' excluded', groupBounds group lo hi excluded = some (lo', hi', excluded') ∧
        lo' ≤ x ∧ x ≤ hi' ∧ x ∉ excluded' := by
  induction group generalizing lo hi excluded with
  | nil => simp [groupBounds]
  | cons m group ih =>
    have hterm : NumericTerm m x ↔
        (decide (m.op &&& flowOpLess ≠ 0#8) ∧ x < m.value) ∨
          (decide (m.op &&& flowOpGreater ≠ 0#8) ∧ m.value < x) ∨
          (decide (m.op &&& flowOpEqual ≠ 0#8) ∧ x = m.value) := by
      unfold NumericTerm
      simp only [decide_eq_true_eq]
    rw [forall_mem_cons, hterm]
    unfold groupBounds
    simp only
    generalize decide (m.op &&& flowOpLess ≠ 0#8) = less
    generalize decide (m.op &&& flowOpGreater ≠ 0#8) = greater
    generalize decide (m.op &&& flowOpEqual ≠ 0#8) = equal
    by_cases hboth : (less && greater)
    · rw [if_pos hboth, ← ih]
      rw [Bool.and_eq_true] at hboth
      cases equal with
      | true =>
        have hany : x < m.value ∨ m.value < x ∨ x = m.value := by bv_omega
        simp [hboth.1, hboth.2, hany]
      | false =>
        have hne : x < m.value ∨ m.value < x ↔ x ≠ m.value := by bv_omega
        simp only [hboth.1, hboth.2, true_and, Bool.false_eq_true, false_and, or_false, if_false,
          hne, mem_append, mem_singleton]
        tauto
    · rw [if_neg hboth]
      rw [Bool.not_eq_true] at hboth
      rw [termRange_spec hboth]
      rcases termRange m.value less greater equal with _ | ⟨termLo, termHi⟩
      · simp
      · simp only [Option.some.injEq, Prod.mk.injEq]
        generalize hlo : (if lo < termLo then termLo else lo) = lo'
        generalize hhi : (if termHi < hi then termHi else hi) = hi'
        have hx : lo' ≤ x ∧ x ≤ hi' ↔ (lo ≤ x ∧ x ≤ hi) ∧ termLo ≤ x ∧ x ≤ termHi := by
          rw [← hlo, ← hhi]
          split_ifs <;> bv_omega
        by_cases hempty : hi' < lo'
        · rw [if_pos hempty]
          have hnot : ¬ (lo' ≤ x ∧ x ≤ hi') := by bv_omega
          rw [hx] at hnot
          constructor
          · rintro ⟨h1, h2, -, ⟨l, h, ⟨rfl, rfl⟩, h3⟩, -⟩
            exact absurd ⟨⟨h1, h2⟩, h3⟩ hnot
          · rintro ⟨_, _, _, h, -⟩
            cases h
        · rw [if_neg hempty, ← ih]
          constructor
          · rintro ⟨h1, h2, h3, ⟨l, h, ⟨rfl, rfl⟩, h4⟩, h5⟩
            obtain ⟨h6, h7⟩ := hx.mpr ⟨⟨h1, h2⟩, h4⟩
            exact ⟨h6, h7, h3, h5⟩
          · rintro ⟨h1, h2, h3, h4⟩
            obtain ⟨⟨h5, h6⟩, h7⟩ := hx.mp ⟨h1, h2⟩
            exact ⟨h5, h6, h3, ⟨_, _, ⟨rfl, rfl⟩, h7⟩, h4⟩

lemma groupBounds_le {group : List FlowMatch} {lo lo' hi' : BitVec 64}
    {excluded' : List (BitVec 64)} (hle : lo ≤ hi)
    (h : groupBounds group lo hi excluded = some (lo', hi', excluded')) : lo' ≤ hi' := by
  induction group generalizing lo hi excluded with
  | nil =>
    obtain ⟨rfl, rfl, -⟩ := by simpa [groupBounds] using h
    exact hle
  | cons m group ih =>
    unfold groupBounds at h
    simp only at h
    split at h
    · exact ih hle h
    · split at h
      · cases h
      · rename_i termLo termHi _
        generalize (if lo < termLo then termLo else lo) = lo₁ at h
        generalize (if termHi < hi then termHi else hi) = hi₁ at h
        by_cases hempty : hi₁ < lo₁
        · rw [if_pos hempty] at h
          cases h
        · rw [if_neg hempty] at h
          exact ih (by bv_omega) h

lemma mem_cutExcluded
    (hsort : excluded.Pairwise (· ≤ ·)) (hle : next ≤ hi) (x : BitVec 64) :
    InRanges (cutExcluded hi excluded next) x ↔ next ≤ x ∧ x ≤ hi ∧ x ∉ excluded := by
  induction excluded generalizing next with
  | nil => simp [cutExcluded, InRanges, ValueRange.Has]
  | cons value excluded ih =>
    obtain ⟨hfirst, hrest⟩ := pairwise_cons.1 hsort
    unfold cutExcluded
    by_cases hbelow : value < next
    · rw [if_pos hbelow, ih hrest hle, mem_cons]
      have : next ≤ x → x ≠ value := by bv_omega
      tauto
    rw [if_neg hbelow]
    by_cases habove : hi < value
    · rw [if_pos habove]
      have hout : x ≤ hi → x ∉ value :: excluded := by
        intro hx hmem
        rcases mem_cons.1 hmem with rfl | hmem
        · bv_omega
        · have := hfirst x hmem
          bv_omega
      simp only [inRanges_cons, inRanges_nil, or_false, ValueRange.Has]
      tauto
    rw [if_neg habove]
    simp only
    have hbefore : InRanges (if next < value then [⟨next, value - 1⟩] else []) x ↔
        next ≤ x ∧ x < value := by
      split_ifs with h
      · simp only [inRanges_cons, inRanges_nil, or_false, ValueRange.Has]
        bv_omega
      · simp only [inRanges_nil, false_iff]
        bv_omega
    have hlater : x < value → x ∉ excluded := by
      intro hx hmem
      have := hfirst x hmem
      bv_omega
    by_cases hlast : value = hi
    · rw [if_pos hlast, hbefore, mem_cons]
      constructor
      · rintro ⟨h1, h2⟩
        refine ⟨h1, by bv_omega, ?_⟩
        rintro (h | h)
        · bv_omega
        · exact hlater h2 h
      · rintro ⟨h1, h2, h3⟩
        refine ⟨h1, ?_⟩
        by_contra h4
        exact h3 (.inl (by bv_omega))
    · rw [if_neg hlast, inRanges_append, hbefore, ih hrest (by bv_omega), mem_cons]
      constructor
      · rintro (⟨h1, h2⟩ | ⟨h1, h2, h3⟩)
        · refine ⟨h1, by bv_omega, ?_⟩
          rintro (h | h)
          · bv_omega
          · exact hlater h2 h
        · refine ⟨by bv_omega, h2, ?_⟩
          rintro (h | h)
          · bv_omega
          · exact h3 h
      · rintro ⟨h1, h2, h3⟩
        by_cases h4 : x < value
        · exact .inl ⟨h1, h4⟩
        · refine .inr ⟨?_, h2, fun h => h3 (.inr h)⟩
          bv_omega

lemma proper_cutExcluded (excluded : List (BitVec 64))
    (hle : next ≤ hi) : Proper (cutExcluded hi excluded next) := by
  induction excluded generalizing next with
  | nil => simpa [cutExcluded, Proper] using hle
  | cons value excluded ih =>
    have hbefore : Proper (if next < value then [⟨next, value - 1⟩] else []) := by
      split_ifs with h
      · rw [proper_cons]
        refine ⟨?_, by simp [Proper]⟩
        show next ≤ value - 1
        bv_omega
      · simp [Proper]
    unfold cutExcluded
    by_cases hbelow : value < next
    · rw [if_pos hbelow]
      exact ih hle
    rw [if_neg hbelow]
    by_cases habove : hi < value
    · rw [if_pos habove]
      simpa [Proper] using hle
    rw [if_neg habove]
    simp only
    by_cases hlast : value = hi
    · rw [if_pos hlast]
      exact hbefore
    · rw [if_neg hlast]
      intro r hr
      rcases mem_append.1 hr with hr | hr
      · exact hbefore r hr
      · exact ih (by bv_omega) r hr

lemma appendGroupRanges_spec (group : List FlowMatch) (valueMax : BitVec 64) :
    Proper (appendGroupRanges group valueMax) ∧
      ∀ x, InRanges (appendGroupRanges group valueMax) x ↔
        x ≤ valueMax ∧ ∀ m ∈ group, NumericTerm m x := by
  have hspec := groupBounds_spec group 0#64 valueMax []
  have hzero : 0#64 ≤ valueMax := by bv_omega
  unfold appendGroupRanges
  rcases hb : groupBounds group 0#64 valueMax [] with _ | ⟨lo, hi, excluded⟩
  · refine ⟨by simp [Proper], fun x => ?_⟩
    rw [hb] at hspec
    have hx := hspec x
    simp only [not_mem_nil, not_false_eq_true, true_and, reduceCtorEq, false_and,
      exists_false, iff_false] at hx
    simp only [inRanges_nil, false_iff]
    exact fun h => hx ⟨by bv_omega, h⟩
  · have hle := groupBounds_le hzero hb
    have hperm := mergeSort_perm excluded fun a b => decide (a ≤ b)
    have hsorted : (excluded.mergeSort fun a b => decide (a ≤ b)).Pairwise (· ≤ ·) :=
      pairwise_sorted (fun a => a) excluded
    refine ⟨proper_cutExcluded _ hle, fun x => ?_⟩
    simp only
    rw [mem_cutExcluded hsorted hle, hperm.mem_iff]
    have hx := hspec x
    simp only [hb, not_mem_nil, not_false_eq_true, true_and, Option.some.injEq, Prod.mk.injEq] at hx
    constructor
    · intro h
      exact (hx.mpr ⟨lo, hi, excluded, ⟨rfl, rfl, rfl⟩, h⟩).2
    · intro h
      obtain ⟨_, _, _, ⟨rfl, rfl, rfl⟩, h'⟩ := hx.1 ⟨by bv_omega, h⟩
      exact h'

/-! ## Merging -/

lemma mem_joinRanges (hlast : last.lo ≤ last.hi)
    (hproper : Proper ranges) (hsort : (last :: ranges).Pairwise fun a b => a.lo ≤ b.lo)
    (x : BitVec 64) : InRanges (joinRanges last ranges) x ↔ last.Has x ∨ InRanges ranges x := by
  have hmax : maxUint64.toNat = 2 ^ 64 - 1 := rfl
  induction ranges generalizing last with
  | nil => simp [joinRanges, inRanges_cons]
  | cons r ranges ih =>
    obtain ⟨hr, hrest⟩ := proper_cons.1 hproper
    obtain ⟨hbelow, hsort'⟩ := pairwise_cons.1 hsort
    have hlr := hbelow r mem_cons_self
    unfold joinRanges
    by_cases htop : last.hi = maxUint64
    · rw [if_pos htop]
      -- what is left lies inside the last range
      have hin : InRanges (r :: ranges) x → last.Has x := by
        rintro ⟨r', hr', hx⟩
        have := hbelow r' hr'
        unfold ValueRange.Has at hx ⊢
        bv_omega
      simp only [inRanges_cons, inRanges_nil, or_false]
      rw [inRanges_cons] at hin
      tauto
    rw [if_neg htop]
    by_cases htouch : r.lo ≤ last.hi + 1
    · rw [if_pos htouch]
      generalize hhi : (if last.hi < r.hi then r.hi else last.hi) = hi
      have hjoin : (⟨last.lo, hi⟩ : ValueRange).Has x ↔ last.Has x ∨ r.Has x := by
        unfold ValueRange.Has
        rw [← hhi]
        split_ifs <;> simp only <;> bv_omega
      have hle : last.lo ≤ hi := by
        rw [← hhi]
        split_ifs <;> bv_omega
      have hsort₁ : ((⟨last.lo, hi⟩ : ValueRange) :: ranges).Pairwise fun a b => a.lo ≤ b.lo := by
        refine pairwise_cons.2 ⟨?_, (pairwise_cons.1 hsort').2⟩
        intro r' hr'
        exact hbelow r' (mem_cons_of_mem _ hr')
      have hstep : InRanges (joinRanges ⟨last.lo, hi⟩ ranges) x ↔ _ := ih hle hrest hsort₁
      rw [hstep, hjoin, inRanges_cons, or_assoc]
    · have hstep : InRanges (joinRanges r ranges) x ↔ _ := ih hr hrest hsort'
      rw [if_neg htouch, inRanges_cons, hstep, inRanges_cons]

lemma joinRanges_apart (hlast : last.lo ≤ last.hi) (hproper : Proper ranges) :
    (joinRanges last ranges).Pairwise Apart ∧ Proper (joinRanges last ranges) ∧
      ∀ r ∈ joinRanges last ranges, last.lo ≤ r.lo := by
  have hmax : maxUint64.toNat = 2 ^ 64 - 1 := rfl
  induction ranges generalizing last with
  | nil => simp [joinRanges, Proper, hlast]
  | cons r ranges ih =>
    obtain ⟨hr, hrest⟩ := proper_cons.1 hproper
    unfold joinRanges
    by_cases htop : last.hi = maxUint64
    · rw [if_pos htop]
      simp [Proper, hlast]
    rw [if_neg htop]
    by_cases htouch : r.lo ≤ last.hi + 1
    · rw [if_pos htouch]
      apply ih _ hrest
      show last.lo ≤ if last.hi < r.hi then r.hi else last.hi
      split_ifs <;> bv_omega
    · rw [if_neg htouch]
      obtain ⟨h1, h2, h3⟩ := ih hr hrest
      refine ⟨pairwise_cons.2 ⟨?_, h1⟩, proper_cons.2 ⟨hlast, h2⟩, ?_⟩
      · intro r' hr'
        have := h3 r' hr'
        unfold Apart
        bv_omega
      · intro r' hr'
        rcases mem_cons.1 hr' with rfl | hr'
        · exact le_refl _
        · have := h3 r' hr'
          bv_omega

lemma mergeRanges_spec (hproper : Proper ranges) :
    (mergeRanges ranges).Pairwise Apart ∧ Proper (mergeRanges ranges) ∧
      ∀ x, InRanges (mergeRanges ranges) x ↔ InRanges ranges x := by
  have hperm := mergeSort_perm ranges fun a b => decide (a.lo ≤ b.lo)
  have hsorted := pairwise_sorted ValueRange.lo ranges
  have hsame : ∀ x, InRanges (ranges.mergeSort fun a b => decide (a.lo ≤ b.lo)) x ↔
      InRanges ranges x := by
    intro x
    unfold InRanges
    simp only [hperm.mem_iff]
  have hproper' : Proper (ranges.mergeSort fun a b => decide (a.lo ≤ b.lo)) :=
    fun r hr => hproper r (hperm.mem_iff.1 hr)
  unfold mergeRanges
  rcases hs : ranges.mergeSort (fun a b => decide (a.lo ≤ b.lo)) with _ | ⟨r, rest⟩
  · rw [hs] at hsame
    exact ⟨List.Pairwise.nil, by simp [Proper], hsame⟩
  · rw [hs] at hsame hsorted hproper'
    obtain ⟨hr, hrest⟩ := proper_cons.1 hproper'
    obtain ⟨h1, h2, -⟩ := joinRanges_apart hr hrest
    refine ⟨h1, h2, fun x => ?_⟩
    rw [← hsame, inRanges_cons]
    exact mem_joinRanges hr hrest hsorted x

/-! ## The whole list -/

/-- The reading of a numeric list. Source: RFC 8955 Section 4.2.1.1, as unmatchable.go quotes it.
-/
def Admits (list : List FlowMatch) (x : BitVec 64) : Prop :=
  AndOr.Holds FlowMatch.and (NumericTerm · x) list

lemma admittedRanges_spec (list : List FlowMatch) (valueMax : BitVec 64) :
    (admittedRanges list valueMax).Pairwise Apart ∧
      Proper (admittedRanges list valueMax) ∧
      ∀ x, InRanges (admittedRanges list valueMax) x ↔ x ≤ valueMax ∧ Admits list x := by
  have hproper : Proper ((AndOr.runs FlowMatch.and list).flatMap
      fun group => appendGroupRanges group valueMax) := by
    intro r hr
    obtain ⟨group, -, hr⟩ := mem_flatMap.1 hr
    exact (appendGroupRanges_spec group valueMax).1 r hr
  obtain ⟨h1, h2, h3⟩ := mergeRanges_spec hproper
  refine ⟨h1, h2, fun x => (h3 x).trans ?_⟩
  unfold Admits AndOr.Holds
  constructor
  · rintro ⟨r, hr, hx⟩
    obtain ⟨group, hgroup, hr⟩ := mem_flatMap.1 hr
    obtain ⟨h4, h5⟩ := ((appendGroupRanges_spec group valueMax).2 x).1 ⟨r, hr, hx⟩
    exact ⟨h4, group, hgroup, h5⟩
  · rintro ⟨h4, group, hgroup, h5⟩
    obtain ⟨r, hr, hx⟩ := ((appendGroupRanges_spec group valueMax).2 x).2 ⟨h4, h5⟩
    exact ⟨r, mem_flatMap.2 ⟨group, hgroup, hr⟩, hx⟩

lemma isEmpty_admittedRanges (list : List FlowMatch) (valueMax : BitVec 64) :
    (admittedRanges list valueMax).isEmpty = false ↔ ∃ x, x ≤ valueMax ∧ Admits list x := by
  obtain ⟨-, hproper, hin⟩ := admittedRanges_spec list valueMax
  rw [isEmpty_eq_false_iff_exists_mem]
  constructor
  · rintro ⟨r, hr⟩
    exact ⟨r.lo, (hin r.lo).1 ⟨r, hr, le_refl _, hproper r hr⟩⟩
  · rintro ⟨x, hx⟩
    obtain ⟨r, hr, -⟩ := (hin x).2 hx
    exact ⟨r, hr⟩

lemma not_inRanges_of_below {r s : ValueRange} {bs : List ValueRange} {x : BitVec 64}
    (hb : (s :: bs).Pairwise fun r s => r.hi < s.lo) (hpb : Proper (s :: bs)) (hlt : r.hi < s.lo)
    (hx : r.Has x) : ¬ InRanges (s :: bs) x := by
  rintro ⟨s', hs', hx'⟩
  have hle : s.lo ≤ s'.lo := by
    rcases mem_cons.1 hs' with rfl | hs'
    · exact le_refl _
    · have h1 := (pairwise_cons.1 hb).1 s' hs'
      have h2 := (proper_cons.1 hpb).1
      bv_omega
  unfold ValueRange.Has at hx hx'
  bv_omega

/-- Two sorted lists of ranges meet exactly where they share a value. -/
lemma rangesMeet_iff (ha : a.Pairwise fun r s => r.hi < s.lo)
    (hb : b.Pairwise fun r s => r.hi < s.lo) (hpa : Proper a) (hpb : Proper b) :
    rangesMeet a b ↔ ∃ x, InRanges a x ∧ InRanges b x := by
  fun_induction rangesMeet a b with
  | case1 b | case2 r as => simp
  | case3 r as s bs hlt ih =>
    rw [ih (pairwise_cons.1 ha).2 hb (proper_cons.1 hpa).2 hpb]
    -- the first range lies below everything on the other side
    have hout := fun x => not_inRanges_of_below (x := x) hb hpb hlt
    constructor
    · rintro ⟨x, h1, h2⟩
      exact ⟨x, inRanges_cons.2 (.inr h1), h2⟩
    · rintro ⟨x, h1, h2⟩
      rcases inRanges_cons.1 h1 with h1 | h1
      · exact absurd h2 (hout x h1)
      · exact ⟨x, h1, h2⟩
  | case4 r as s bs hlt hgt ih =>
    rw [ih ha (pairwise_cons.1 hb).2 hpa (proper_cons.1 hpb).2]
    have hout := fun x => not_inRanges_of_below (x := x) ha hpa hgt
    constructor
    · rintro ⟨x, h1, h2⟩
      exact ⟨x, h1, inRanges_cons.2 (.inr h2)⟩
    · rintro ⟨x, h1, h2⟩
      rcases inRanges_cons.1 h2 with h2 | h2
      · exact absurd h1 (hout x h2)
      · exact ⟨x, h1, h2⟩
  | case5 r as s bs hlt hgt =>
    simp only [true_iff]
    have h1 := (proper_cons.1 hpa).1
    have h2 := (proper_cons.1 hpb).1
    -- the greater of the two lower ends
    by_cases hle : r.lo ≤ s.lo
    · refine ⟨s.lo, inRanges_cons.2 (.inl ⟨hle, ?_⟩), inRanges_cons.2 (.inl ⟨?_, h2⟩)⟩
      · bv_omega
      · exact le_refl _
    · refine ⟨r.lo, inRanges_cons.2 (.inl ⟨?_, h1⟩), inRanges_cons.2 (.inl ⟨?_, ?_⟩)⟩
      · exact le_refl _
      · bv_omega
      · bv_omega

end Ze.Flow
