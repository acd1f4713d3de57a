import Ze.Flow.Wire

/-!
# Operator lists there and back

What the parser makes of the octets of an operator list: the list itself (`parse_encodeMatches`),
with whatever follows it left over, for any choice of widths that the type allows and that hold the
values.
-/

namespace Ze.Flow

open List

/-! ## Values -/

lemma getLsbD_readValue_bigEndian (n : ℕ) (value acc : BitVec 64) (i : ℕ) :
    ((bigEndian n value).foldl pushOctet acc).getLsbD i
      = (decide (i < 64) &&
          if i < 8 * n then value.getLsbD i else acc.getLsbD (i - 8 * n)) := by
  induction n generalizing acc with
  | zero =>
    simp only [bigEndian, foldl_nil, Nat.mul_zero, Nat.not_lt_zero, if_false, Nat.sub_zero]
    by_cases hi : i < 64
    · simp [hi]
    · simp [hi, BitVec.getLsbD_of_ge acc i (by omega)]
  | succ n ih =>
    rw [bigEndian, foldl_cons, ih]
    by_cases hi : i < 64
    · by_cases h1 : i < 8 * n
      · simp [h1, show i < 8 * (n + 1) by omega]
      · simp only [h1, if_false, pushOctet, BitVec.getLsbD_or, BitVec.getLsbD_shiftLeft,
          BitVec.getLsbD_setWidth, BitVec.getLsbD_ushiftRight]
        by_cases h2 : i < 8 * (n + 1)
        · simp [hi, h2, show i - 8 * n < 8 by omega, show i - 8 * n < 64 by omega,
            show 8 * n + (i - 8 * n) = i by omega]
        · simp [hi, h2, show ¬ i - 8 * n < 8 by omega, show i - 8 * n < 64 by omega,
            show i - 8 * n - 8 = i - 8 * (n + 1) by omega]
    · simp [hi]

variable {value : BitVec 64}

lemma readValue_bigEndian {n : ℕ} (h : value.toNat < 2 ^ (8 * n)) :
    readValue (bigEndian n value) = value := by
  apply BitVec.eq_of_getLsbD_eq
  intro i hi
  unfold readValue
  rw [getLsbD_readValue_bigEndian]
  by_cases hn : i < 8 * n
  · simp [hi, hn]
  · simp only [hi, decide_true, Bool.true_and, hn, if_false, BitVec.getLsbD_zero]
    rw [BitVec.getLsbD, Nat.testBit_lt_two_pow]
    exact h.trans_le (Nat.pow_le_pow_right (by decide) (by omega))

@[simp]
lemma length_bigEndian (n : ℕ) (value : BitVec 64) : (bigEndian n value).length = n := by
  induction n with
  | zero => rfl
  | succ n ih => rw [bigEndian, length_cons, ih]

/-! ## Pairs -/

/-- A width that the type allows and that holds the value. Source: types_numeric.go
numericComponentEnd. -/
structure Allowed (t : ComponentType) (code : BitVec 8) (value : BitVec 64) : Prop where
  code_lt : code.toNat < 4
  tcp : t = .tcpFlags → code.toNat < 2
  single : t = .dscp ∨ t = .fragment → code = 0#8
  holds : value.toNat < 2 ^ (8 * 2 ^ code.toNat)

lemma opOctet_spec {code : BitVec 8} (hcode : code.toNat < 4) (a e : Bool) (t : ComponentType)
    (op : BitVec 8) :
    let b := code <<< 4 ||| (if a then flowOpAnd else 0#8) ||| (if e then flowOpEnd else 0#8) |||
      (op &&& t.opMask)
    numericValueOctets b = 2 ^ code.toNat ∧ (b &&& flowOpEnd ≠ 0#8 ↔ e) ∧
      (b &&& flowOpAnd ≠ 0#8 ↔ a) ∧ b &&& t.opMask = op &&& t.opMask := by
  have hlow : ∀ n : BitVec 8, n = 0x30#8 ∨ n = flowOpEnd ∨ n = flowOpAnd →
      op &&& t.opMask &&& n = 0#8 := by
    intro n hn
    rw [BitVec.and_assoc]
    have hz : t.opMask &&& n = 0#8 := by
      unfold ComponentType.opMask
      rcases hn with rfl | rfl | rfl <;> split_ifs <;> rfl
    rw [hz, BitVec.and_zero]
  have hmask : t.opMask = 0x03#8 ∨ t.opMask = 0x07#8 := by
    unfold ComponentType.opMask
    split_ifs
    · exact .inl rfl
    · exact .inr rfl
  have hcodes : code = 0#8 ∨ code = 1#8 ∨ code = 2#8 ∨ code = 3#8 := by
    simp only [← BitVec.toNat_inj, BitVec.toNat_ofNat]
    omega
  have hhigh : ∀ (x : BitVec 8) (n : BitVec 8), n = 0x30#8 ∨ n = flowOpEnd ∨ n = flowOpAnd →
      (x ||| (op &&& t.opMask)) &&& n = x &&& n := by
    intro x n hn
    rw [BitVec.and_comm, BitVec.and_or_distrib_left, BitVec.and_comm n (op &&& t.opMask), hlow n hn,
      BitVec.or_zero, BitVec.and_comm]
  have hself : ∀ x : BitVec 8, x &&& t.opMask = 0#8 →
      (x ||| (op &&& t.opMask)) &&& t.opMask = op &&& t.opMask := by
    intro x hx
    rw [BitVec.and_comm, BitVec.and_or_distrib_left, BitVec.and_comm t.opMask x, hx, BitVec.zero_or,
      BitVec.and_comm, BitVec.and_assoc, BitVec.and_self]
  intro b
  refine ⟨?_, ?_, ?_, ?_⟩
  · unfold numericValueOctets
    rw [hhigh _ _ (.inl rfl)]
    rcases hcodes with rfl | rfl | rfl | rfl <;> cases a <;> cases e <;> rfl
  · rw [hhigh _ _ (.inr (.inl rfl))]
    rcases hcodes with rfl | rfl | rfl | rfl <;> cases a <;> cases e <;> decide
  · rw [hhigh _ _ (.inr (.inr rfl))]
    rcases hcodes with rfl | rfl | rfl | rfl <;> cases a <;> cases e <;> decide
  · apply hself
    rcases hmask with h | h <;> rw [h] <;>
      rcases hcodes with rfl | rfl | rfl | rfl <;> cases a <;> cases e <;> rfl

/-! ## Lists -/

section

variable {t : ComponentType} {afi : Afi} {width : BitVec 64 → BitVec 8}

/-- A list as the parser delivers one: operator bits that the type defines, values that it keeps,
and no AND before the first term. Source: types_numeric.go parseNumericComponent. -/
structure Clean (t : ComponentType) (afi : Afi) (list : List FlowMatch) : Prop where
  op : ∀ m ∈ list, m.op &&& t.opMask = m.op
  value : ∀ m ∈ list, t.keep afi m.value = m.value
  head : ∀ m, list.head? = some m → m.and = false

lemma length_encodePair (first last : Bool) (code : BitVec 8) (m : FlowMatch) :
    (encodePair t afi first last code m).length = 1 + 2 ^ code.toNat := by
  unfold encodePair
  rw [length_cons, length_bigEndian, Nat.add_comm]

variable {list : List FlowMatch}

lemma numericComponentEnd_encode (hne : list ≠ [])
    (hw : ∀ m ∈ list, Allowed t (width (t.keep afi m.value)) (t.keep afi m.value)) (first : Bool)
    (rest : List Octet) :
    numericComponentEnd t (encodeMatches t afi width first list ++ rest)
      = .ok (encodeMatches t afi width first list).length := by
  induction list generalizing first with
  | nil => exact absurd rfl hne
  | cons m list ih =>
    have hm := hw m mem_cons_self
    obtain ⟨hlen, hend, -, -⟩ := opOctet_spec hm.code_lt (!first && m.and) list.isEmpty t m.op
    have hallow : ¬ ((t = .tcpFlags ∧ 2 < 2 ^ (width (t.keep afi m.value)).toNat) ∨
        ((t = .dscp ∨ t = .fragment) ∧ 2 ^ (width (t.keep afi m.value)).toNat ≠ 1)) := by
      rintro (⟨h1, h2⟩ | ⟨h1, h2⟩)
      · have h3 := hm.tcp h1
        have h4 : 2 ^ (width (t.keep afi m.value)).toNat ≤ 2 ^ 1 :=
          Nat.pow_le_pow_right (by decide) (by omega)
        omega
      · rw [hm.single h1] at h2
        exact h2 rfl
    unfold encodeMatches encodePair
    rw [cons_append, cons_append, numericComponentEnd]
    simp only [hlen]
    rw [if_neg hallow, if_neg (by simp), length_cons, length_append, length_bigEndian]
    by_cases hlast : list = []
    · subst hlast
      rw [if_pos (hend.2 rfl)]
      simp [encodeMatches]
      omega
    · have hmore : ¬ (_ &&& flowOpEnd ≠ 0#8) := fun h => hlast (isEmpty_iff.1 (hend.1 h))
      rw [if_neg hmore]
      have hdrop : (bigEndian (2 ^ (width (t.keep afi m.value)).toNat) (t.keep afi m.value) ++
          encodeMatches t afi width false list ++
            rest).drop (2 ^ (width (t.keep afi m.value)).toNat)
            = encodeMatches t afi width false list ++ rest := by
        rw [append_assoc, drop_left' (length_bigEndian _ _)]
      rw [hdrop, ih hlast (fun m' hm' => hw m' (mem_cons_of_mem _ hm')) false]
      simp only [Except.map, Except.ok.injEq]
      omega

lemma decodeMatches_encode
    (hw : ∀ m ∈ list, Allowed t (width m.value) m.value) {first : Bool}
    (hop : ∀ m ∈ list, m.op &&& t.opMask = m.op) (hvalue : ∀ m ∈ list, t.keep afi m.value = m.value)
    (hhead : first → ∀ m, list.head? = some m → m.and = false) :
    decodeMatches t afi first (encodeMatches t afi width first list) = list := by
  induction list generalizing first with
  | nil =>
    unfold encodeMatches
    rw [decodeMatches]
  | cons m list ih =>
    have hm := hw m mem_cons_self
    have hkeep := hvalue m mem_cons_self
    obtain ⟨hlen, -, hand, hmask⟩ := opOctet_spec hm.code_lt (!first && m.and) list.isEmpty t m.op
    have hrest : decodeMatches t afi false (encodeMatches t afi width false list) = list :=
      ih (fun m' hm' => hw m' (mem_cons_of_mem _ hm'))
        (fun m' hm' => hop m' (mem_cons_of_mem _ hm'))
        (fun m' hm' => hvalue m' (mem_cons_of_mem _ hm')) (fun h => by cases h)
    unfold encodeMatches encodePair
    rw [hop m mem_cons_self] at hlen hand hmask ⊢
    rw [hkeep, cons_append, decodeMatches]
    simp only [hlen, hmask]
    rw [take_left' (length_bigEndian _ _), drop_left' (length_bigEndian _ _), hrest,
      readValue_bigEndian hm.holds, hkeep]
    congr 1
    obtain ⟨op, and, value⟩ := m
    congr 1
    rw [Bool.eq_iff_iff, Bool.and_eq_true, decide_eq_true_eq, hand]
    cases first with
    | true =>
      have : and = false := hhead rfl _ rfl
      simp [this]
    | false => simp

lemma parse_encodeMatches {ht : t.isPrefix = false} (hne : list ≠ [])
    (hclean : Clean t afi list) (hw : ∀ m ∈ list, Allowed t (width m.value) m.value)
    (rest : List Octet) :
    parseNumericComponent t ht (encodeMatches t afi width true list ++ rest) afi
      = .ok (.numeric ⟨t, ht, list⟩, rest) := by
  have hw' : ∀ m ∈ list, Allowed t (width (t.keep afi m.value)) (t.keep afi m.value) := by
    intro m hm
    rw [hclean.value m hm]
    exact hw m hm
  unfold parseNumericComponent
  rw [numericComponentEnd_encode hne hw']
  simp only [Except.map, Except.ok.injEq, Prod.mk.injEq, FlowComponent.numeric.injEq,
    NumericComponent.mk.injEq, true_and]
  rw [take_left' rfl, drop_left' rfl]
  exact ⟨decodeMatches_encode hw hclean.op hclean.value fun _ => hclean.head, rfl⟩

end

/-! ## Widths -/

/-- The values of a list are within what the type can carry. Source: types_numeric.go
numericComponentEnd. -/
def Narrow (t : ComponentType) (value : BitVec 64) : Prop :=
  (t = .tcpFlags → value ≤ 0xFFFF#64) ∧ (t = .dscp ∨ t = .fragment → value ≤ 0xFF#64)

lemma lenCode_allowed {t : ComponentType} (h : Narrow t value) :
    Allowed t (lenCode t value) value := by
  have hlt := value.isLt
  have hle : ∀ {n : ℕ}, n < 2 ^ 64 → (value ≤ BitVec.ofNat 64 n ↔ value.toNat ≤ n) := by
    intro n hn
    rw [BitVec.le_def, BitVec.toNat_ofNat, Nat.mod_eq_of_lt hn]
  obtain ⟨htcp, hsingle⟩ := h
  unfold lenCode
  split_ifs with h1 h2 h3 h4
  · rw [hle (by decide)] at h1
    refine ⟨by decide, fun h => ?_, fun h => ?_, ?_⟩
    · rw [h1.1] at h
      cases h
    · rw [h1.1] at h
      rcases h with h | h <;> cases h
    · show value.toNat < 2 ^ 32
      omega
  · rw [hle (by decide)] at h2
    refine ⟨by decide, fun _ => by decide, fun _ => rfl, ?_⟩
    show value.toNat < 2 ^ 8
    omega
  · rw [hle (by decide)] at h2 h3
    refine ⟨by decide, fun _ => by decide, fun h => ?_, ?_⟩
    · have := hsingle h
      rw [hle (by decide)] at this
      omega
    · show value.toNat < 2 ^ 16
      omega
  · rw [hle (by decide)] at h3 h4
    refine ⟨by decide, fun h => ?_, fun h => ?_, ?_⟩
    · have := htcp h
      rw [hle (by decide)] at this
      omega
    · have := hsingle h
      rw [hle (by decide)] at this
      omega
    · show value.toNat < 2 ^ 32
      omega
  · rw [hle (by decide)] at h3 h4
    refine ⟨by decide, fun h => ?_, fun h => ?_, ?_⟩
    · have := htcp h
      rw [hle (by decide)] at this
      omega
    · have := hsingle h
      rw [hle (by decide)] at this
      omega
    · show value.toNat < 2 ^ 64
      exact hlt

lemma NumericComponent.length_writeToAFI (c : NumericComponent) (afi : Afi) :
    (c.writeToAFI afi).length = c.len := by
  have hlist : ∀ (list : List FlowMatch) (first : Bool),
      (encodeMatches c.compType afi (lenCode c.compType) first list).length
        = (list.map fun m => 1 + operandWidth c.compType (c.compType.keep afi m.value)).sum := by
    intro list
    induction list with
    | nil => intro first; rfl
    | cons m list ih =>
      intro first
      rw [encodeMatches, length_append, length_encodePair, ih, map_cons, sum_cons]
      rfl
  unfold NumericComponent.writeToAFI NumericComponent.len
  rw [length_cons, hlist]
  split_ifs with hfrag
  · -- what is left of a fragment value takes one octet
    have hone : ∀ m : FlowMatch, operandWidth c.compType (c.compType.keep afi m.value) = 1 := by
      intro m
      have hle : c.compType.keep afi m.value ≤ 0xFF#64 := by
        unfold ComponentType.keep fragmentMask
        rw [if_pos hfrag, BitVec.le_def, BitVec.toNat_and]
        refine le_trans Nat.and_le_right ?_
        split_ifs <;> decide
      unfold operandWidth lenCode
      rw [if_neg (by rw [hfrag]; rintro ⟨h, -⟩; cases h), if_pos hle]
      rfl
    simp only [hone, map_const', sum_replicate_nat]
    omega
  · have hkeep : ∀ value, c.compType.keep afi value = value := by
      intro value
      unfold ComponentType.keep
      rw [if_neg hfrag]
    simp only [hkeep]
    omega

end Ze.Flow
