import Ze.Flow.Ranges

/-!
# Protocol sets and bitmask lists

What the check makes of the lists that it evaluates value by value.
-/

namespace Ze.Flow

open Ze.Lib List
open BitVec (allOnes and_allOnes eq_of_toNat_eq getLsbD_or ofNat toNat toNat_and toNat_ofNat)

/-! ## Sets of bits -/

variable {w : ℕ} {list : List FlowMatch} {mask : BitVec 64}

lemma getLsbD_foldl_bits (p : ℕ → Bool) {n : ℕ} (hn : n ≤ w) (i : ℕ) :
    ((range n).foldl (fun s j => if p j then s ||| (1#w <<< j) else s) 0#w).getLsbD i
      = (decide (i < n) && p i) := by
  induction n with
  | zero => simp
  | succ n ih =>
    have hone : (1#w <<< n).getLsbD i = decide (i = n) := by
      rw [BitVec.getLsbD_shiftLeft, BitVec.getLsbD_one]
      grind
    rw [range_succ, foldl_append]
    simp only [foldl_cons, foldl_nil]
    by_cases hp : p n
    · rw [if_pos hp, getLsbD_or, ih (by omega), hone]
      by_cases hi : i = n
      · subst hi
        simp [hp]
      · have : i < n + 1 ↔ i < n := by omega
        simp [hi, this]
    · rw [if_neg hp, ih (by omega)]
      by_cases hi : i = n
      · subst hi
        simp [hp]
      · have : i < n + 1 ↔ i < n := by omega
        simp [this]

lemma getLsbD_bitsWhere (w : ℕ) (p : ℕ → Bool) (i : ℕ) :
    (bitsWhere w p).getLsbD i = (decide (i < w) && p i) :=
  getLsbD_foldl_bits p le_rfl i

lemma ne_zero_iff_getLsbD {s : BitVec w} : s ≠ 0#w ↔ ∃ i, s.getLsbD i := by
  rw [ne_eq, BitVec.eq_of_getLsbD_eq_iff]
  push Not
  constructor
  · rintro ⟨i, -, h⟩
    exact ⟨i, by simpa using h⟩
  · rintro ⟨i, h⟩
    exact ⟨i, BitVec.lt_of_getLsbD h, by simp [h]⟩

/-! ## Operator lists -/

/-- What the bitmask operator of a term admits, of the value bits in `mask`. Source: RFC 8955
Section 4.2.1.2, as unmatchable.go quotes it. -/
def BitmaskTerm (mask : BitVec 64) (m : FlowMatch) (x : BitVec 64) : Prop :=
  (if m.op &&& flowOpMatch ≠ 0#8 then x &&& (m.value &&& mask) = m.value &&& mask
    else x &&& (m.value &&& mask) ≠ 0#64) ↔ m.op &&& flowOpNot = 0#8

/-- The reading of a bitmask list. Source: RFC 8955 Section 4.2.1.2. -/
def AdmitsBits (mask : BitVec 64) (list : List FlowMatch) (x : BitVec 64) : Prop :=
  AndOr.Holds FlowMatch.and (BitmaskTerm mask · x) list

variable {x : BitVec 64} {high low : ℕ}

lemma expressionAdmits_numeric : expressionAdmits list x false (allOnes 64) ↔ Admits list x := by
  unfold expressionAdmits Admits
  rw [AndOr.eval_iff]
  refine AndOr.holds_congr (fun m => ?_) list
  unfold NumericTerm termAdmits
  rw [and_allOnes]
  simp [or_assoc]

/-- The ranges of a numeric list are in order with a gap between any two, none is empty, and
together they hold the values up to `valueMax` that the list admits. -/
theorem admittedRanges_exact (list : List FlowMatch) (valueMax : BitVec 64) :
    (admittedRanges list valueMax).Pairwise (fun a b => a.lo < b.lo ∧ Apart a b) ∧
      (∀ r ∈ admittedRanges list valueMax, r.lo ≤ r.hi) ∧
      ∀ x, InRanges (admittedRanges list valueMax) x ↔
        x ≤ valueMax ∧ expressionAdmits list x false (allOnes 64) := by
  obtain ⟨hapart, hproper, hin⟩ := admittedRanges_spec list valueMax
  refine ⟨?_, hproper, fun x => ?_⟩
  · refine List.Pairwise.imp_of_mem ?_ hapart
    intro a b ha _ hab
    have hle := hproper a ha
    have hlt := hab.lt
    exact ⟨by bv_omega, hab⟩
  · rw [hin, expressionAdmits_numeric]

lemma termAdmits_bitmask {m : FlowMatch} :
    termAdmits m.op (m.value &&& mask) x true ↔ BitmaskTerm mask m x := by
  unfold BitmaskTerm termAdmits
  by_cases hn : m.op &&& flowOpNot = 0#8
  · by_cases hm : m.op &&& flowOpMatch = 0#8 <;> simp [hn, hm]
  · by_cases hm : m.op &&& flowOpMatch = 0#8 <;> simp [hn, hm]

lemma expressionAdmits_bitmask : expressionAdmits list x true mask ↔ AdmitsBits mask list x := by
  unfold expressionAdmits AdmitsBits
  rw [AndOr.eval_iff]
  exact AndOr.holds_congr (fun m => termAdmits_bitmask) list

/-! ## Sixty-four values at once -/

lemma eq_iff_split (x y : BitVec 64) :
    x = y ↔ x >>> 6 = y >>> 6 ∧ x &&& 0x3F#64 = y &&& 0x3F#64 := by
  constructor
  · rintro rfl
    exact ⟨rfl, rfl⟩
  · rintro ⟨h1, h2⟩
    apply eq_of_toNat_eq
    have h1' := congrArg toNat h1
    have h2' := congrArg toNat h2
    have hmod : ∀ n : ℕ, n &&& 63 = n % 64 := fun n => Nat.and_two_pow_sub_one_eq_mod n 6
    simp only [BitVec.toNat_ushiftRight, toNat_and, toNat_ofNat,
      Nat.shiftRight_eq_div_pow] at h1' h2'
    rw [show 63 % 2 ^ 64 = 63 from rfl, hmod, hmod] at h2'
    omega

/-- The value with the high bits `high` and the low bits `low`. -/
def wide (high low : ℕ) : BitVec 64 := ofNat 64 (high * 64 + low)

lemma wide_split (hh : high < 2 ^ 10) (hl : low < 64) :
    wide high low >>> 6 = ofNat 64 high ∧ wide high low &&& 0x3F#64 =
      ofNat 64 low := by
  have hmod : ∀ n : ℕ, n &&& 63 = n % 64 := fun n => Nat.and_two_pow_sub_one_eq_mod n 6
  unfold wide
  constructor
  · apply eq_of_toNat_eq
    simp only [BitVec.toNat_ushiftRight, toNat_ofNat, Nat.shiftRight_eq_div_pow]
    omega
  · apply eq_of_toNat_eq
    simp only [toNat_and, toNat_ofNat]
    rw [show 63 % 2 ^ 64 = 63 from rfl, hmod]
    omega

lemma wide_and_eq_iff (hh : high < 2 ^ 10) (hl : low < 64) (value y : BitVec 64) :
    wide high low &&& value = y ↔
      ofNat 64 high &&& (value >>> 6) = y >>> 6 ∧
        ofNat 64 low &&& (value &&& 0x3F#64) = y &&& 0x3F#64 := by
  obtain ⟨h1, h2⟩ := wide_split hh hl
  rw [eq_iff_split, BitVec.ushiftRight_and_distrib, h1, ← h2]
  have hcomm : wide high low &&& value &&& 0x3F#64
      = wide high low &&& 0x3F#64 &&& (value &&& 0x3F#64) := by
    ext i
    simp only [BitVec.getElem_and]
    cases (0x3F#64)[i] <;> simp
  rw [hcomm]

lemma getLsbD_termWord (m : FlowMatch) (hh : high < 2 ^ 10) (hl : low < 64) :
    (termWord m (ofNat 64 high)).getLsbD low
      = termAdmits m.op m.value (wide high low) true := by
  have hmax : maxUint64.getLsbD low := by
    rw [maxUint64, BitVec.getLsbD_allOnes, decide_eq_true hl]
  have hhit : (if m.op &&& flowOpMatch = 0#8 then
        if ofNat 64 high &&& (m.value >>> 6) ≠ 0#64 then maxUint64
        else lowAnySet (m.value &&& 0x3F#64)
      else if ofNat 64 high &&& (m.value >>> 6) = m.value >>> 6 then
        lowAllSet (m.value &&& 0x3F#64)
      else 0#64).getLsbD low =
        if m.op &&& flowOpMatch ≠ 0#8 then decide (wide high low &&& m.value = m.value)
        else decide (wide high low &&& m.value ≠ 0#64) := by
    by_cases hm : m.op &&& flowOpMatch = 0#8
    · rw [if_pos hm, if_neg (not_not.2 hm)]
      have hz := wide_and_eq_iff hh hl m.value 0#64
      simp only [BitVec.zero_ushiftRight, BitVec.zero_and] at hz
      by_cases hhigh : ofNat 64 high &&& (m.value >>> 6) = 0#64
      · rw [if_neg (not_not.2 hhigh), lowAnySet, getLsbD_bitsWhere]
        simp [hl, hz, hhigh]
      · rw [if_pos hhigh, hmax]
        simp [hz, hhigh]
    · rw [if_neg hm, if_pos hm]
      have hz := wide_and_eq_iff hh hl m.value m.value
      by_cases hhigh : ofNat 64 high &&& (m.value >>> 6) = m.value >>> 6
      · rw [if_pos hhigh, lowAllSet, getLsbD_bitsWhere]
        simp [hl, hz, hhigh]
      · rw [if_neg hhigh]
        simp [hz, hhigh]
  unfold termWord termAdmits
  simp only
  by_cases hn : m.op &&& flowOpNot = 0#8
  · rw [if_neg (not_not.2 hn), hhit]
    simp [hn]
  · rw [if_pos hn, BitVec.getLsbD_not, hhit]
    simp [hn, hl]

lemma getLsbD_expressionWord (list : List FlowMatch) (hh : high < 2 ^ 10) (hl : low < 64) :
    (expressionWord list (ofNat 64 high)).getLsbD low
      = expressionAdmits list (wide high low) true (allOnes 64) := by
  unfold expressionWord expressionAdmits
  rw [AndOr.map_eval (f := fun w : BitVec 64 => w.getLsbD low) (fun x y => getLsbD_or)
    (fun x y => BitVec.getLsbD_and)]
  simp only [getLsbD_termWord _ hh hl, and_allOnes]
  rw [BitVec.getLsbD_zero]

lemma tcpFlagsAdmitted_iff (list : List FlowMatch) :
    tcpFlagsAdmitted list ↔
      ∃ bits : BitVec 16, AdmitsBits (allOnes 64) list (bits.setWidth 64) := by
  unfold tcpFlagsAdmitted
  simp only [any_eq_true, mem_range, decide_eq_true_eq]
  constructor
  · rintro ⟨high, hh, hne⟩
    obtain ⟨low, hlow⟩ := ne_zero_iff_getLsbD.1 hne
    have hl := BitVec.lt_of_getLsbD hlow
    rw [getLsbD_expressionWord list hh hl, expressionAdmits_bitmask] at hlow
    refine ⟨ofNat 16 (high * 64 + low), ?_⟩
    have hwide : (ofNat 16 (high * 64 + low)).setWidth 64 = wide high low := by
      apply eq_of_toNat_eq
      simp only [wide, BitVec.toNat_setWidth, toNat_ofNat]
      omega
    rw [hwide]
    exact hlow
  · rintro ⟨bits, hbits⟩
    have hh : bits.toNat / 64 < 2 ^ 10 := by omega
    have hl : bits.toNat % 64 < 64 := Nat.mod_lt _ (by decide)
    refine ⟨bits.toNat / 64, hh, ne_zero_iff_getLsbD.2 ⟨bits.toNat % 64, ?_⟩⟩
    have hwide : wide (bits.toNat / 64) (bits.toNat % 64) = bits.setWidth 64 := by
      apply eq_of_toNat_eq
      simp only [wide, BitVec.toNat_setWidth, toNat_ofNat]
      omega
    rw [getLsbD_expressionWord list hh hl, expressionAdmits_bitmask, hwide]
    exact hbits

end Ze.Flow
