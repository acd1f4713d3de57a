import Ze.Flow.Lists
import Ze.Flow.Patterns

/-!
# Components there and back

What holds of one component holds of a list of them.
-/

namespace Ze.Flow

open Ze.Net List

/-- An operator list that the octets of its type can carry. Source: types_numeric.go
writeToAFI, numericComponentEnd. -/
structure NumericComponent.Valid (c : NumericComponent) (afi : Afi) : Prop where
  nonempty : c.list ≠ []
  clean : Clean c.compType afi c.list
  narrow : ∀ m ∈ c.list, Narrow c.compType m.value

/-- A component that a rule of the family can carry. Source: types_prefix.go validate;
types_numeric.go numericComponentEnd. -/
def FlowComponent.Valid (afi : Afi) : FlowComponent → Prop
  | pfx c => c.validate afi = .ok ()
  | numeric c => c.Valid afi ∧ (c.compType = .flowLabel → afi = .ipv6)

/-- The component with the address bits outside its pattern cleared. Source: types_prefix.go
flowPrefixPattern. -/
def FlowComponent.normal : FlowComponent → FlowComponent
  | pfx c => pfx ⟨c.compType, c.isPrefix, flowPrefixPattern c.pfx c.offset, c.offset⟩
  | numeric c => numeric c

@[simp]
lemma FlowComponent.type_normal (c : FlowComponent) : c.normal.type = c.type := by
  cases c <;> rfl

/-! ## One component -/

section

variable {afi : Afi} {c : FlowComponent} {data rest : List Octet}

@[simp]
lemma ComponentType.ofCode_code (t : ComponentType) :
    ComponentType.ofCode (BitVec.ofNat 8 t.code) = some t := by
  cases t <;> rfl

lemma parse_writeTo (h : c.Valid afi) (rest : List Octet) :
    parseFlowComponent (c.writeTo afi ++ rest) afi = .ok (c.normal, rest) := by
  cases c with
  | pfx c =>
    unfold FlowComponent.writeTo PrefixComponent.writeTo
    rw [cons_append]
    simp only [parseFlowComponent, ComponentType.ofCode_code]
    rw [if_neg fun hl => isPrefix_ne_flowLabel c.isPrefix hl.1, dif_pos c.isPrefix]
    exact parse_writePrefix h rest
  | numeric c =>
    obtain ⟨hvalid, hlabel⟩ := h
    have hno : ¬ c.compType.isPrefix := by
      rw [c.isNumeric]
      exact Bool.false_ne_true
    unfold FlowComponent.writeTo NumericComponent.writeToAFI
    rw [cons_append]
    simp only [parseFlowComponent, ComponentType.ofCode_code]
    rw [if_neg fun hl => hl.2 (hlabel hl.1), dif_neg hno]
    exact parse_encodeMatches hvalid.nonempty hvalid.clean
      (fun m hm => lenCode_allowed (hvalid.narrow m hm)) rest

lemma FlowComponent.length_writeTo (h : c.Valid afi) : (c.writeTo afi).length = c.len := by
  cases c with
  | pfx c => exact PrefixComponent.length_writeTo h
  | numeric c => exact c.length_writeToAFI afi

lemma numericComponentEnd_le {t : ComponentType} {n : ℕ}
    (h : numericComponentEnd t data = .ok n) : n ≤ data.length := by
  fun_induction numericComponentEnd t data generalizing n with
  | case1 | case2 | case3 => cases h
  | case4 op data _ _ hlen =>
    cases h
    rw [length_cons]
    omega
  | case5 op data _ _ hlen _ =>
    rename_i ih
    obtain ⟨k, hk, rfl⟩ := map_eq_ok h
    have := ih hk
    rw [length_drop] at this
    rw [length_cons]
    omega

lemma numericComponentEnd_append {t : ComponentType} {n : ℕ} (more : List Octet)
    (h : numericComponentEnd t data = .ok n) : numericComponentEnd t (data ++ more) = .ok n := by
  fun_induction numericComponentEnd t data generalizing n with
  | case1 | case2 | case3 => cases h
  | case4 op data _ hallow hlen =>
    rename_i hend
    rw [cons_append, numericComponentEnd]
    rw [if_neg hallow, if_neg (by rw [length_append]; omega), if_pos hend]
    exact h
  | case5 op data _ hallow hlen hend =>
    rename_i ih
    obtain ⟨k, hk, rfl⟩ := map_eq_ok h
    rw [cons_append, numericComponentEnd]
    rw [if_neg hallow, if_neg (by rw [length_append]; omega), if_neg hend,
      drop_append_of_le_length (by omega), ih hk]
    rfl

lemma prefixComponentShape_append {shape : PrefixShape} (more : List Octet)
    (h : prefixComponentShape data afi = .ok shape) :
    prefixComponentShape (data ++ more) afi = .ok shape ∧
      shape.headerLen + shape.prefixBytes ≤ data.length := by
  unfold prefixComponentShape at h
  split at h
  · cases h
  · obtain ⟨h1, h2, h3, rfl⟩ := checkShape_eq_ok.1 h
    refine ⟨checkShape_eq_ok.2 ⟨h1, h2, ?_, rfl⟩, h3⟩
    rw [length_append]
    omega
  · cases h
  · obtain ⟨h1, h2, h3, rfl⟩ := checkShape_eq_ok.1 h
    refine ⟨checkShape_eq_ok.2 ⟨h1, h2, ?_, rfl⟩, h3⟩
    rw [length_append]
    omega

/-- A component does not depend on what follows. -/
lemma parseFlowComponent_append (more : List Octet)
    (h : parseFlowComponent data afi = .ok (c, rest)) :
    parseFlowComponent (data ++ more) afi = .ok (c, rest ++ more) := by
  unfold parseFlowComponent at h
  split at h
  · cases h
  · rename_i b data
    split at h
    · cases h
    · rename_i t hcode
      rw [cons_append]
      simp only [parseFlowComponent, hcode]
      split_ifs at h ⊢ with hlabel ht
      · obtain ⟨shape, hshape, heq⟩ := map_eq_ok h
        cases heq
        obtain ⟨hshape', hle⟩ := prefixComponentShape_append more hshape
        unfold parsePrefixComponent
        rw [hshape']
        simp only [Except.map]
        rw [drop_append_of_le_length (by omega), drop_append_of_le_length hle,
          take_append_of_le_length (by rw [length_drop]; omega)]
      · obtain ⟨n, hn, heq⟩ := map_eq_ok h
        cases heq
        have hle := numericComponentEnd_le hn
        unfold parseNumericComponent
        rw [numericComponentEnd_append more hn]
        simp only [Except.map]
        rw [take_append_of_le_length hle, drop_append_of_le_length hle]

end

/-! ## What was parsed -/

section

variable {t : ComponentType} {afi : Afi} {c : FlowComponent} {data rest : List Octet}

lemma toNat_readValue_lt (octets : List Octet) :
    (readValue octets).toNat < 2 ^ (8 * octets.length) := by
  have hfold : ∀ (octets : List Octet) (acc : BitVec 64) (k : ℕ), acc.toNat < 2 ^ (8 * k) →
      (octets.foldl pushOctet acc).toNat < 2 ^ (8 * (k + octets.length)) := by
    intro octets
    induction octets with
    | nil =>
      intro acc k h
      exact h
    | cons b octets ih =>
      intro acc k h
      have hpush : (pushOctet acc b).toNat < 2 ^ (8 * (k + 1)) := by
        unfold pushOctet
        rw [BitVec.toNat_or]
        apply Nat.or_lt_two_pow
        · rw [BitVec.toNat_shiftLeft, Nat.shiftLeft_eq]
          calc acc.toNat * 2 ^ 8 % 2 ^ 64 ≤ acc.toNat * 2 ^ 8 := Nat.mod_le _ _
            _ < 2 ^ (8 * k) * 2 ^ 8 := by omega
            _ = 2 ^ (8 * (k + 1)) := by rw [← Nat.pow_add, Nat.mul_add]
        · rw [BitVec.toNat_setWidth]
          calc b.toNat % 2 ^ 64 ≤ b.toNat := Nat.mod_le _ _
            _ < 2 ^ 8 := b.isLt
            _ ≤ 2 ^ (8 * (k + 1)) := Nat.pow_le_pow_right (by decide) (by omega)
      have := ih _ (k + 1) hpush
      rw [foldl_cons, length_cons, show k + (octets.length + 1) = k + 1 + octets.length by omega]
      exact this
  have := hfold octets 0#64 0 (by decide)
  rwa [Nat.zero_add] at this

lemma keep_keep (t : ComponentType) (afi : Afi) (value : BitVec 64) :
    t.keep afi (t.keep afi value) = t.keep afi value := by
  unfold ComponentType.keep
  split_ifs
  · rw [BitVec.and_assoc, BitVec.and_self]
  · rfl

lemma narrow_keep {octets : List Octet} (h : ¬ ((t = .tcpFlags ∧ 2 < octets.length) ∨
      ((t = .dscp ∨ t = .fragment) ∧ octets.length ≠ 1))) :
    Narrow t (t.keep afi (readValue octets)) := by
  have hlt := toNat_readValue_lt octets
  have hle : (t.keep afi (readValue octets)).toNat ≤ (readValue octets).toNat := by
    unfold ComponentType.keep
    split_ifs
    · rw [BitVec.toNat_and]
      exact Nat.and_le_left
    · exact le_rfl
  push Not at h
  refine ⟨fun htcp => ?_, fun hsingle => ?_⟩
  · have hpow : 2 ^ (8 * octets.length) ≤ 2 ^ 16 :=
      Nat.pow_le_pow_right (by decide) (by have := h.1 htcp; omega)
    rw [BitVec.le_def]
    show _ ≤ 0xFFFF
    omega
  · rw [h.2 hsingle] at hlt
    rw [BitVec.le_def]
    show _ ≤ 0xFF
    omega

lemma decodePair_spec {op : Octet} (hallow : ¬ ((t = .tcpFlags ∧ 2 < numericValueOctets op) ∨
      ((t = .dscp ∨ t = .fragment) ∧ numericValueOctets op ≠ 1)))
    (hlen : numericValueOctets op ≤ data.length) :
    op &&& t.opMask &&& t.opMask = op &&& t.opMask ∧
      t.keep afi (t.keep afi (readValue (data.take (numericValueOctets op))))
        = t.keep afi (readValue (data.take (numericValueOctets op))) ∧
      Narrow t (t.keep afi (readValue (data.take (numericValueOctets op)))) := by
  refine ⟨by rw [BitVec.and_assoc, BitVec.and_self], keep_keep .., narrow_keep ?_⟩
  rwa [length_take, Nat.min_eq_left hlen]

lemma decodeMatches_spec {n : ℕ} (h : numericComponentEnd t data = .ok n) (first : Bool) :
    decodeMatches t afi first (data.take n) ≠ [] ∧
      ∀ m ∈ decodeMatches t afi first (data.take n),
        m.op &&& t.opMask = m.op ∧ t.keep afi m.value = m.value ∧ Narrow t m.value := by
  fun_induction numericComponentEnd t data generalizing n first with
  | case1 | case2 | case3 => cases h
  | case4 op data valueLen hallow hlen =>
    cases h
    rw [Nat.add_comm, take_succ_cons, decodeMatches]
    refine ⟨cons_ne_nil _ _, ?_⟩
    intro m hm
    rw [take_take, Nat.min_self, drop_take, Nat.sub_self, take_zero, decodeMatches,
      mem_singleton] at hm
    subst hm
    exact decodePair_spec hallow (Nat.le_of_not_lt hlen)
  | case5 op data valueLen hallow hlen hend =>
    rename_i ih
    obtain ⟨k, hk, rfl⟩ := map_eq_ok h
    rw [Nat.add_assoc, Nat.add_comm, take_succ_cons, decodeMatches]
    refine ⟨cons_ne_nil _ _, ?_⟩
    intro m hm
    rw [take_take, Nat.min_eq_left (Nat.le_add_right _ _), drop_take, Nat.add_sub_cancel_left,
      mem_cons] at hm
    rcases hm with rfl | hm
    · exact decodePair_spec hallow (Nat.le_of_not_lt hlen)
    · exact (ih hk false).2 m hm

lemma head?_decodeMatches {m : FlowMatch} (h : (decodeMatches t afi true data).head? = some m) :
    m.and = false := by
  rcases data with _ | ⟨op, data⟩
  · rw [decodeMatches] at h
    cases h
  · rw [decodeMatches, head?_cons] at h
    cases h
    rfl

lemma flowPrefixPattern_idem {p : Prefix} (hp : p.bits ≤ 128) (offset : UInt8) :
    flowPrefixPattern (flowPrefixPattern p offset) offset = flowPrefixPattern p offset := by
  unfold flowPrefixPattern
  split_ifs with hz
  · exact p.masked_masked
  · unfold Prefix.masked
    simp only [Addr.mask, as16, Prefix.mk.injEq, Addr.v6.injEq, and_true]
    apply BitVec.eq_of_getMsbD_eq
    intro i hi
    rw [getMsbD_mask _ hp, getMsbD_mask _ hp, getMsbD_clear, getMsbD_mask _ hp, getMsbD_clear]
    by_cases h1 : i < p.bits <;> by_cases h2 : offset.toNat ≤ i <;> simp [h1, h2]

lemma valid_of_parse (h : parseFlowComponent data afi = .ok (c, rest)) :
    c.Valid afi ∧ c.normal = c := by
  obtain ⟨hlabel, hpattern⟩ := parseFlowComponent_spec h
  unfold parseFlowComponent at h
  split at h
  · cases h
  · split at h
    · cases h
    · split_ifs at h with hno ht
      · obtain ⟨shape, hshape, heq⟩ := map_eq_ok h
        cases heq
        refine ⟨hpattern _ rfl, ?_⟩
        have hbits : shape.prefixLen ≤ 128 := by
          have := (prefixComponentShape_spec hshape).1
          cases afi <;> simp only [Afi.bitLen] at this <;> omega
        simp only [FlowComponent.normal, readPrefix]
        rw [flowPrefixPattern_idem hbits]
      · obtain ⟨n, hn, heq⟩ := map_eq_ok h
        cases heq
        obtain ⟨hne, hall⟩ := @decodeMatches_spec _ afi _ _ hn true
        refine ⟨⟨⟨hne, ⟨fun m hm => (hall m hm).1, fun m hm => (hall m hm).2.1, ?_⟩,
          fun m hm => (hall m hm).2.2⟩, hlabel⟩, rfl⟩
        intro m hm
        exact head?_decodeMatches hm

end

/-! ## Lists of components -/

section

variable {afi : Afi} {previous : Option ComponentType} {cs : List FlowComponent} {data : List Octet}

lemma parseComponents_writeTo (hvalid : ∀ c ∈ cs, c.Valid afi)
    (hprev : ∀ c ∈ cs, ∀ p, previous = some p → p.code < c.type.code)
    (hord : cs.Pairwise fun a b => a.type.code < b.type.code) :
    parseComponents afi previous (cs.flatMap (FlowComponent.writeTo afi))
      = .ok (cs.map FlowComponent.normal) := by
  induction cs generalizing previous with
  | nil => exact parseComponents_eq_ok.2 (.inl ⟨rfl, rfl⟩)
  | cons c cs ih =>
    obtain ⟨hlt, hord⟩ := pairwise_cons.1 hord
    have hrest : parseComponents afi (some c.type) (cs.flatMap (FlowComponent.writeTo afi))
        = .ok (cs.map FlowComponent.normal) := by
      apply ih (fun b hb => hvalid b (mem_cons_of_mem _ hb)) _ hord
      intro b hb p hp
      cases hp
      exact hlt b hb
    refine parseComponents_eq_ok.2
      (.inr ⟨c.normal, cs.flatMap (FlowComponent.writeTo afi), cs.map FlowComponent.normal, ?_,
        ?_, ?_, rfl⟩)
    · rw [flatMap_cons]
      exact parse_writeTo (hvalid c mem_cons_self) _
    · rw [FlowComponent.type_normal]
      exact hprev c mem_cons_self
    · rw [FlowComponent.type_normal]
      exact hrest

lemma parseComponents_append {more : List Octet} {ds : List FlowComponent}
    (h : parseComponents afi previous data = .ok cs)
    (hmore : parseComponents afi previous (data ++ more) = .ok ds) :
    ∃ es, ds = cs ++ es ∧ (more ≠ [] → es ≠ []) := by
  induction cs generalizing previous data ds with
  | nil =>
    rcases parseComponents_eq_ok.1 h with ⟨rfl, -⟩ | ⟨c, rest, cs', -, -, -, heq⟩
    · refine ⟨ds, rfl, ?_⟩
      rintro hne rfl
      rcases parseComponents_eq_ok.1 hmore with ⟨hnil, -⟩ | ⟨c, rest, cs', -, -, -, heq⟩
      · exact hne hnil
      · cases heq
    · cases heq
  | cons c cs ih =>
    rcases parseComponents_eq_ok.1 h with ⟨-, hnil⟩ | ⟨c', rest, cs', hc, -, hrest, heq⟩
    · cases hnil
    · obtain ⟨rfl, rfl⟩ := cons.inj heq
      have hc' := parseFlowComponent_append more hc
      rcases parseComponents_eq_ok.1 hmore with ⟨hnil, -⟩ | ⟨d, rest', ds', hd, -, hrest', rfl⟩
      · rw [hnil] at hc'
        cases hc'
      · obtain ⟨rfl, rfl⟩ := Prod.mk.inj (Except.ok.inj (hc'.symm.trans hd))
        obtain ⟨es, rfl, hne⟩ := ih hrest hrest'
        exact ⟨es, rfl, hne⟩

end

end Ze.Flow
