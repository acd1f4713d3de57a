import Ze.Flow.Components

/-!
# The precedence of received rules

`Compare` of `compare.go` orders two rules by their components, type after type (RFC 8955 Section
5.1). Each component has a key, a list of numbers, so that the precedence is the lexicographic order
of the keys (`compare_eq_key`).
-/

namespace Ze.Net

/-- Source: net/netip Prefix.Overlaps. -/
def Prefix.overlaps (p q : Prefix) : Bool :=
  p.isValid && q.isValid &&
    (p == q ||
      (decide (p.addr.bitLen = 32) == decide (q.addr.bitLen = 32) &&
        (min p.bits q.bits == 0 ||
          p.addr.mask (min p.bits q.bits) == q.addr.mask (min p.bits q.bits))))

end Ze.Net

namespace Ze.Flow

open Ze.Net List

/-! ## Received rules -/

/-- A rule as it was received: each component with the octets after its type, which a numeric one
retains as `wireData`. Source: types.go FlowSpec; types_numeric.go numericComponent. -/
structure Received where
  afi : Afi
  components : List (FlowComponent × List Octet)

/-- Source: types.go parseComponents; types_numeric.go parseNumericComponent, wireData. -/
def receivedComponents (afi : Afi) (data : List Octet) : List (FlowComponent × List Octet) :=
  match _h : parseFlowComponent data afi with
  | .error _ => []
  | .ok (c, rest) =>
    (c, (data.take (data.length - rest.length)).tail) :: receivedComponents afi rest
  termination_by data.length
  decreasing_by exact parseFlowComponent_length _h

/-- `parseFlowSpec` with the octets retained. Source: types.go ParseFlowSpec. -/
def receive (afi : Afi) (data : List Octet) : Except FlowError Received :=
  match flowSpecValue data with
  | .error e => .error e
  | .ok value => (parseComponents afi none value).map fun _ => ⟨afi, receivedComponents afi value⟩

/-- Source: types.go. -/
def Received.componentOfType (r : Received) (t : ComponentType) :
    Option (FlowComponent × List Octet) :=
  r.components.find? fun c => c.1.type = t

/-! ## The comparison -/

/-- Source: Compare, the masked prefixes. -/
def comparePrefix (l r : Prefix) : Ordering :=
  if l.overlaps r then compare r.bits l.bits else l.addr.cmp r.addr

/-- Source: bytes.Compare. -/
def bytesCompare (l r : List Octet) : Ordering :=
  compare (l.map BitVec.toNat) (r.map BitVec.toNat)

/-- Source: Compare, the received octets; comparisonData. -/
def compareData (l r : List Octet) : Ordering :=
  let common := min l.length r.length
  (bytesCompare (l.take common) (r.take common)).then (compare r.length l.length)

/-- Source: Compare, the body of the loop. -/
def compareComponents : (l r : Option (FlowComponent × List Octet)) → Ordering
  | none, none => .eq
  | none, some _ => .gt
  | some _, none => .lt
  | some (.pfx l, _), some (.pfx r, _) =>
    (compare l.offset.toNat r.offset.toNat).then (comparePrefix l.pfx.masked r.pfx.masked)
  | some (.numeric _, l), some (.numeric _, r) => compareData l r
  -- the source panics here; the two components are of one type, and so of one kind
  | some _, some _ => .eq

def Received.compare (a b : Received) : Ordering :=
  ComponentType.all.foldr
    (fun t later => (compareComponents (a.componentOfType t) (b.componentOfType t)).then later) .eq

/-! ## Blocks of addresses -/

section

/-- The bits after the prefix. -/
def hostBits (p : Prefix) : ℕ := p.addr.bitLen - p.bits

/-- The end of the block of addresses. -/
def blockEnd (p : Prefix) : ℕ := p.addr.value + 2 ^ hostBits p

lemma value_lt (a : Addr) : a.value < 2 ^ a.bitLen := by
  cases a with
  | zero => exact Nat.one_pos
  | v4 x | v6 x zone => exact x.isLt

lemma value_mask (a : Addr) (n : ℕ) :
    (a.mask n).value = a.value / 2 ^ (a.bitLen - n) * 2 ^ (a.bitLen - n) := by
  have hmask : ∀ {w : ℕ} (x : BitVec w) (k : ℕ),
      ((x >>> k) <<< k).toNat = x.toNat / 2 ^ k * 2 ^ k := by
    intro w x k
    rw [BitVec.toNat_shiftLeft, BitVec.toNat_ushiftRight, Nat.shiftRight_eq_div_pow,
      Nat.shiftLeft_eq, Nat.mod_eq_of_lt]
    exact (Nat.div_mul_le_self _ _).trans_lt x.isLt
  cases a with
  | zero => exact (Nat.div_mul_cancel (Nat.dvd_zero _)).symm
  | v4 x | v6 x zone => exact hmask x _

lemma addr_ext {a b : Addr} (hlen : a.bitLen = b.bitLen) (hzone : a.zone = b.zone)
    (hvalue : a.value = b.value) : a = b := by
  cases a <;> cases b <;> simp_all [Addr.bitLen, Addr.zone, Addr.value, BitVec.toNat_inj]

variable {p q : Prefix} (hp : p.isValid) (hq : q.isValid) (hlen : p.addr.bitLen = q.addr.bitLen)

include hp hq hlen

lemma cmp_eq_compare_value : p.addr.cmp q.addr = compare p.addr.value q.addr.value := by
  have hz : ∀ {r : Prefix}, r.isValid → r.addr.zone = [] := by
    intro r hr
    simp only [Prefix.isValid, Bool.and_eq_true, List.isEmpty_iff] at hr
    exact hr.1.2
  rw [Addr.cmp, hlen, Std.ReflOrd.compare_self, hz hp, hz hq]
  split_ifs <;> cases compare p.addr.value q.addr.value <;> rfl

lemma overlaps_iff :
    p.overlaps q ↔
      p.addr.value / 2 ^ max (hostBits p) (hostBits q) =
        q.addr.value / 2 ^ max (hostBits p) (hostBits q) := by
  have hmax : max (hostBits p) (hostBits q) = p.addr.bitLen - min p.bits q.bits := by
    unfold hostBits
    omega
  have hzone : p.addr.zone = [] ∧ q.addr.zone = [] := by
    simp only [Prefix.isValid, Bool.and_eq_true, List.isEmpty_iff] at hp hq
    exact ⟨hp.1.2, hq.1.2⟩
  have hmask : p.addr.mask (min p.bits q.bits) = q.addr.mask (min p.bits q.bits) ↔
      p.addr.value / 2 ^ max (hostBits p) (hostBits q) =
        q.addr.value / 2 ^ max (hostBits p) (hostBits q) := by
    constructor
    · intro h
      have := congrArg Addr.value h
      rw [value_mask, value_mask, ← hlen, ← hmax] at this
      exact Nat.eq_of_mul_eq_mul_right (Nat.two_pow_pos _) this
    · intro h
      apply addr_ext (by simp [hlen])
      · cases hpa : p.addr <;> cases hqa : q.addr <;> simp_all [Addr.mask, Addr.zone, Addr.bitLen]
      · rw [value_mask, value_mask, ← hlen, ← hmax, h]
  rw [Prefix.overlaps, hp, hq, hlen, ← hmask]
  simp only [Bool.true_and, beq_self_eq_true, Bool.or_eq_true, beq_iff_eq]
  constructor
  · rintro (rfl | hzero | h)
    · rfl
    · rw [hmask, hmax, hzero, Nat.sub_zero, Nat.div_eq_of_lt (value_lt _), hlen,
        Nat.div_eq_of_lt (value_lt _)]
    · exact h
  · exact fun h => .inr (.inr h)

omit hp hq hlen in
/-- Two aligned blocks, the first no larger than the second: it lies in the second, before it or
after it. -/
lemma aligned_blocks {v u h k : ℕ} (hle : h ≤ k) (hv : 2 ^ h ∣ v) (hu : 2 ^ k ∣ u) :
    (v / 2 ^ k = u / 2 ^ k ∧ u ≤ v ∧ v + 2 ^ h ≤ u + 2 ^ k) ∨
      (v / 2 ^ k ≠ u / 2 ^ k ∧ v < u ∧ v + 2 ^ h < u + 2 ^ k) ∨
      (v / 2 ^ k ≠ u / 2 ^ k ∧ u < v ∧ u + 2 ^ k < v + 2 ^ h) := by
  obtain ⟨m, rfl⟩ := hu
  obtain ⟨n, rfl⟩ := hv
  obtain ⟨d, rfl⟩ := Nat.exists_eq_add_of_le hle
  have hdiv : 2 ^ h * n / 2 ^ (h + d) = n / 2 ^ d := by
    rw [Nat.pow_add, Nat.mul_div_mul_left _ _ (Nat.two_pow_pos h)]
  rw [hdiv, Nat.mul_div_cancel_left _ (Nat.two_pow_pos _)]
  have hpos := Nat.two_pow_pos h
  -- everything in units of the smaller block
  rw [Nat.pow_add, Nat.mul_assoc, ← Nat.mul_add, ← Nat.mul_succ]
  simp only [Nat.mul_le_mul_left_iff hpos, Nat.mul_lt_mul_left hpos]
  have hmod := Nat.div_add_mod n (2 ^ d)
  rcases lt_trichotomy (n / 2 ^ d) m with hc | hc | hc
  · have := Nat.mul_le_mul_left (2 ^ d) (Nat.succ_le_of_lt hc)
    rw [Nat.mul_succ] at this
    omega
  · rw [hc] at hmod
    omega
  · have := Nat.mul_le_mul_left (2 ^ d) (Nat.succ_le_of_lt hc)
    rw [Nat.mul_succ] at this
    omega

/-- Of two masked prefixes the one whose block ends first comes first, and the smaller one of two
that end together. -/
lemma comparePrefix_eq (hpm : p.masked = p) (hqm : q.masked = q) :
    comparePrefix p q =
      (compare (blockEnd p) (blockEnd q)).then (compare (hostBits p) (hostBits q)) := by
  have hdvd : ∀ {r : Prefix}, r.masked = r → 2 ^ hostBits r ∣ r.addr.value := by
    intro r hr
    have := congrArg (fun s : Prefix => s.addr.value) hr
    rw [Prefix.masked, value_mask] at this
    exact ⟨_, (this.symm.trans (Nat.mul_comm _ _))⟩
  have hbits : ∀ {r : Prefix}, r.isValid → r.bits ≤ r.addr.bitLen := by
    intro r hr
    simp only [Prefix.isValid, Bool.and_eq_true, decide_eq_true_eq] at hr
    exact hr.2
  wlog hle : hostBits p ≤ hostBits q generalizing p q
  · have hswap := this hq hp hlen.symm hqm hpm (by omega)
    have hover : q.overlaps p = p.overlaps q := by
      rw [Bool.eq_iff_iff, overlaps_iff hq hp hlen.symm, overlaps_iff hp hq hlen, max_comm, eq_comm]
    rw [comparePrefix, ← hover]
    rw [comparePrefix] at hswap
    rw [← Ordering.swap_inj, Ordering.swap_then, ← Std.OrientedOrd.eq_swap,
      ← Std.OrientedOrd.eq_swap, ← hswap]
    split_ifs
    · exact Std.OrientedOrd.eq_swap.symm
    · exact Std.OrientedCmp.eq_swap.symm
  · have hb := hbits hp
    have hb' := hbits hq
    rw [comparePrefix, if_congr (overlaps_iff hp hq hlen) rfl rfl, max_eq_right hle,
      cmp_eq_compare_value hp hq hlen]
    rcases aligned_blocks hle (hdvd hpm) (hdvd hqm) with ⟨h, h1, h2⟩ | ⟨h, h1, h2⟩ | ⟨h, h1, h2⟩
    · rw [if_pos h]
      rcases hle.lt_or_eq with hlt | heq
      · have hbit : q.bits < p.bits := by
          unfold hostBits at hlt
          omega
        rw [Nat.compare_eq_lt.mpr hbit, Nat.compare_eq_lt.mpr hlt]
        rcases h2.lt_or_eq with h2 | h2
        · rw [blockEnd, blockEnd, Nat.compare_eq_lt.2 h2]
          rfl
        · rw [blockEnd, blockEnd, h2, Std.ReflOrd.compare_self]
          rfl
      · have hbit : q.bits = p.bits := by
          unfold hostBits at heq
          omega
        have hend : blockEnd p = blockEnd q := by
          rw [heq] at h2
          rw [blockEnd, blockEnd, heq]
          omega
        rw [hbit, heq, hend, Std.ReflOrd.compare_self, Std.ReflOrd.compare_self,
          Std.ReflOrd.compare_self]
        rfl
    · rw [if_neg h, Nat.compare_eq_lt.mpr h1, blockEnd, blockEnd, Nat.compare_eq_lt.mpr h2]
      rfl
    · rw [if_neg h, Nat.compare_eq_gt.mpr h1, blockEnd, blockEnd, Nat.compare_eq_gt.mpr h2]
      rfl

end

/-! ## Keys -/

/-- A number above every octet ends an operator list, so that a list comes before its beginnings. -/
def dataKey (octets : List Octet) : List ℕ := octets.map BitVec.toNat ++ [256]

/-- A missing component comes last. -/
def key : Option (FlowComponent × List Octet) → List ℕ
  | none => [1]
  | some (.pfx c, _) => [0, c.offset.toNat, blockEnd c.pfx, hostBits c.pfx]
  | some (.numeric _, octets) => 0 :: dataKey octets

/-- What a component says: its type, and the prefix and the offset or the octets received. -/
def said : FlowComponent × List Octet → ComponentType × (Prefix × UInt8 ⊕ List Octet)
  | (.pfx c, _) => (c.compType, .inl (c.pfx, c.offset))
  | (.numeric c, octets) => (c.compType, .inr octets)

lemma compareData_eq (l r : List Octet) : compareData l r = compare (dataKey l) (dataKey r) := by
  induction l generalizing r with
  | nil =>
    rcases r with _ | ⟨b, r⟩
    · rfl
    · have hlt : compare 256 b.toNat = .gt := Nat.compare_eq_gt.mpr b.isLt
      have hlen : compare (r.length + 1) 0 = .gt := Nat.compare_eq_gt.mpr (Nat.succ_pos _)
      simp [compareData, dataKey, bytesCompare, List.compare_cons_cons, hlt, hlen]
  | cons a l ih =>
    rcases r with _ | ⟨b, r⟩
    · have hlt : compare a.toNat 256 = .lt := Nat.compare_eq_lt.mpr a.isLt
      have hlen : compare 0 (l.length + 1) = .lt := Nat.compare_eq_lt.mpr (Nat.succ_pos _)
      simp [compareData, dataKey, bytesCompare, List.compare_cons_cons, hlt, hlen]
    · have hlen : compare (r.length + 1) (l.length + 1) = compare r.length l.length := by
        simp [Nat.compare_eq_ite_lt]
      have hstep : compareData (a :: l) (b :: r) =
          (compare a.toNat b.toNat).then (compareData l r) := by
        simp only [compareData, bytesCompare, length_cons, Nat.add_min_add_right, take_succ_cons,
          map_cons, List.compare_cons_cons, Ordering.then_assoc, hlen]
      rw [hstep, ih]
      simp only [dataKey, map_cons, cons_append, List.compare_cons_cons]

lemma dataKey_injective : Function.Injective dataKey := by
  intro l r h
  exact map_injective_iff.2 (fun a b => BitVec.eq_of_toNat_eq) (append_cancel_right h)

/-- What is true of a component of a received rule: a prefix fits the family and is masked. -/
def Sound (afi : Afi) : FlowComponent → Prop
  | .pfx c => c.validate afi = .ok () ∧ c.pfx.masked = c.pfx
  | .numeric _ => True

section

variable {afi : Afi} {x y : FlowComponent × List Octet}

lemma compType_ne (c : PrefixComponent) (d : NumericComponent) : c.compType ≠ d.compType :=
  fun h => Bool.false_ne_true (d.isNumeric.symm.trans (h ▸ c.isPrefix))

lemma compareComponents_some (hx : Sound afi x.1) (hy : Sound afi y.1) (ht : x.1.type = y.1.type) :
    compareComponents (some x) (some y) = compare (key (some x)) (key (some y)) := by
  rcases x with ⟨⟨c⟩ | ⟨c⟩, l⟩ <;> rcases y with ⟨⟨d⟩ | ⟨d⟩, r⟩
  · obtain ⟨hc, hcm⟩ := hx
    obtain ⟨hd, hdm⟩ := hy
    obtain ⟨hcv, hcl, -⟩ := PrefixComponent.validate_eq_ok.mp hc
    obtain ⟨hdv, hdl, -⟩ := PrefixComponent.validate_eq_ok.mp hd
    simp only [compareComponents, key, List.compare_cons_cons, hcm, hdm,
      comparePrefix_eq hcv hdv (hcl.trans hdl.symm) hcm hdm, Std.ReflOrd.compare_self,
      Ordering.then_eq]
    rfl
  · exact absurd ht (compType_ne c d)
  · exact absurd ht.symm (compType_ne d c)
  · simp only [compareComponents, key, List.compare_cons_cons, Std.ReflOrd.compare_self,
      compareData_eq]
    rfl

lemma key_inj (hx : Sound afi x.1) (hy : Sound afi y.1) (ht : x.1.type = y.1.type) :
    key (some x) = key (some y) ↔ said x = said y := by
  rcases x with ⟨⟨c⟩ | ⟨c⟩, l⟩ <;> rcases y with ⟨⟨d⟩ | ⟨d⟩, r⟩
  · have hct : c.compType = d.compType := ht
    obtain ⟨hcv, hcl, -⟩ := PrefixComponent.validate_eq_ok.mp hx.1
    obtain ⟨hdv, hdl, -⟩ := PrefixComponent.validate_eq_ok.mp hy.1
    simp only [Prefix.isValid, Bool.and_eq_true, List.isEmpty_iff, decide_eq_true_eq] at hcv hdv
    simp only [key, said, cons.injEq, true_and, and_true, Prod.mk.injEq, hct, Sum.inl.injEq]
    constructor
    · rintro ⟨hoff, hend, hhost⟩
      have hbits : c.pfx.bits = d.pfx.bits := by
        unfold hostBits at hhost
        omega
      have haddr : c.pfx.addr = d.pfx.addr := by
        apply addr_ext (hcl.trans hdl.symm) (hcv.1.2.trans hdv.1.2.symm)
        unfold blockEnd at hend
        rw [hhost] at hend
        exact Nat.add_right_cancel hend
      exact ⟨by rcases hcp : c.pfx with ⟨_, _⟩; rcases hdp : d.pfx with ⟨_, _⟩; simp_all,
        UInt8.toNat_inj.mp hoff⟩
    · rintro ⟨hpfx, hoff⟩
      rw [hpfx, hoff]
      exact ⟨rfl, rfl, rfl⟩
  · exact absurd ht (compType_ne c d)
  · exact absurd ht.symm (compType_ne d c)
  · have hct : c.compType = d.compType := ht
    simp only [key, said, cons.injEq, true_and, Prod.mk.injEq, hct, Sum.inr.injEq,
      dataKey_injective.eq_iff]

end

/-! ## The order of received rules -/

section

variable {afi : Afi} {a b : Received}

/-- A received rule: its components are sound. -/
def Received.Sound (afi : Afi) (a : Received) : Prop := ∀ c ∈ a.components, Flow.Sound afi c.1

lemma sound_receivedComponents (data : List Octet) :
    ∀ c ∈ receivedComponents afi data, Flow.Sound afi c.1 := by
  fun_induction receivedComponents afi data with
  | case1 => simp
  | case2 data c rest hparse ih =>
    intro d hd
    rcases mem_cons.1 hd with rfl | hd
    · obtain ⟨hvalid, hnormal⟩ := valid_of_parse hparse
      rcases c with c | c
      · have hpfx : flowPrefixPattern c.pfx c.offset = c.pfx :=
          congrArg PrefixComponent.pfx (FlowComponent.pfx.inj hnormal)
        refine ⟨hvalid, ?_⟩
        rw [← hpfx]
        unfold flowPrefixPattern
        split_ifs <;> exact Prefix.masked_masked _
      · trivial
    · exact ih d hd

lemma sound_of_receive {data : List Octet} (h : receive afi data = .ok a) : a.Sound afi := by
  unfold receive at h
  split at h
  · cases h
  · obtain ⟨-, -, rfl⟩ := map_eq_ok h
    exact sound_receivedComponents _

lemma componentOfType_spec {t : ComponentType} {c : FlowComponent × List Octet}
    (ha : a.Sound afi) (h : a.componentOfType t = some c) : Flow.Sound afi c.1 ∧ c.1.type = t :=
  ⟨ha c (mem_of_find?_eq_some h), by simpa using find?_some h⟩

lemma compareComponents_eq_key (ha : a.Sound afi) (hb : b.Sound afi) (t : ComponentType) :
    compareComponents (a.componentOfType t) (b.componentOfType t) =
      compare (key (a.componentOfType t)) (key (b.componentOfType t)) := by
  rcases hl : a.componentOfType t with _ | x <;> rcases hr : b.componentOfType t with _ | y
  · rfl
  · rcases y with ⟨_ | _, r⟩ <;> rfl
  · rcases x with ⟨_ | _, l⟩ <;> rfl
  · obtain ⟨hx, hxt⟩ := componentOfType_spec ha hl
    obtain ⟨hy, hyt⟩ := componentOfType_spec hb hr
    exact compareComponents_some hx hy (hxt.trans hyt.symm)

/-- The keys of a rule, type after type. -/
def Received.keys (a : Received) : List (List ℕ) :=
  ComponentType.all.map fun t => key (a.componentOfType t)

lemma compare_eq_key (ha : a.Sound afi) (hb : b.Sound afi) :
    a.compare b = compare a.keys b.keys := by
  unfold Received.compare Received.keys
  induction ComponentType.all with
  | nil => rfl
  | cons t ts ih =>
    rw [foldr_cons, ih, compareComponents_eq_key ha hb, map_cons, map_cons, List.compare_cons_cons]

lemma key_eq_iff (ha : a.Sound afi) (hb : b.Sound afi) (t : ComponentType) :
    key (a.componentOfType t) = key (b.componentOfType t) ↔
      (a.componentOfType t).map said = (b.componentOfType t).map said := by
  rcases hl : a.componentOfType t with _ | x <;> rcases hr : b.componentOfType t with _ | y
  · simp
  · rcases y with ⟨_ | _, r⟩ <;> simp [key]
  · rcases x with ⟨_ | _, l⟩ <;> simp [key]
  · obtain ⟨hx, hxt⟩ := componentOfType_spec ha hl
    obtain ⟨hy, hyt⟩ := componentOfType_spec hb hr
    rw [key_inj hx hy (hxt.trans hyt.symm), Option.map_some, Option.map_some, Option.some.injEq]

lemma keys_eq_iff (ha : a.Sound afi) (hb : b.Sound afi) :
    a.keys = b.keys ↔ ∀ t, (a.componentOfType t).map said = (b.componentOfType t).map said := by
  have hall : ∀ t, t ∈ ComponentType.all := by
    intro t
    cases t <;> decide
  unfold Received.keys
  rw [map_inj_left]
  simp only [key_eq_iff ha hb]
  exact ⟨fun h t => h t (hall t), fun h t _ => h t⟩

end

/-- **The precedence is a total preorder.** For all rules of one family that are received,
`compare` changes its sign with the sides, is transitive and compares any two; and it makes two
equal exactly when they have components of the same types, with the same prefixes and offsets and
the same octets received of each operator list. -/
theorem compare_totalPreorder (afi : Afi) {da db dc : List Octet} {a b c : Received}
    (ha : receive afi da = .ok a) (hb : receive afi db = .ok b) (hc : receive afi dc = .ok c) :
    b.compare a = (a.compare b).swap ∧
      ((a.compare b).isLE → (b.compare c).isLE → (a.compare c).isLE) ∧
      ((a.compare b).isLE ∨ (b.compare a).isLE) ∧
      (a.compare b = .eq ↔
        ∀ t, (a.componentOfType t).map said = (b.componentOfType t).map said) := by
  have ha := sound_of_receive ha
  have hb := sound_of_receive hb
  have hc := sound_of_receive hc
  have hswap : b.compare a = (a.compare b).swap := by
    rw [compare_eq_key ha hb, compare_eq_key hb ha]
    exact Std.OrientedOrd.eq_swap
  refine ⟨hswap, ?_, ?_, ?_⟩
  · rw [compare_eq_key ha hb, compare_eq_key hb hc, compare_eq_key ha hc]
    exact Std.TransOrd.isLE_trans
  · rw [hswap]
    cases a.compare b <;> decide
  · rw [compare_eq_key ha hb, Std.LawfulEqOrd.compare_eq_iff_eq]
    exact keys_eq_iff ha hb

/-- TCP to 10.0.0.0/16, TCP to port 80 or 90 of 10.0.0.0/8 and TCP to its port 80: the longer prefix
comes first, and of the two lists of ports the one whose first operator does not end it. -/
theorem compare_totalPreorder_nested : ∃ a b c,
    receive .ipv4 [7#8, 1#8, 16#8, 10#8, 0#8, 3#8, 0x81#8, 6#8] = .ok a ∧
    receive .ipv4
      [11#8, 1#8, 8#8, 10#8, 3#8, 0x81#8, 6#8, 5#8, 0x01#8, 80#8, 0x81#8, 90#8] = .ok b ∧
    receive .ipv4 [9#8, 1#8, 8#8, 10#8, 3#8, 0x81#8, 6#8, 5#8, 0x81#8, 80#8] = .ok c ∧
      a.compare b = .lt ∧ b.compare c = .lt ∧ (a.compare c).isLE ∧
      c.compare b = .gt ∧
      ¬ ∀ t, (b.componentOfType t).map said = (c.componentOfType t).map said := by
  have hok : ∀ {x : Except FlowError Received} {a : Received}, x.toOption = some a → x = .ok a := by
    rintro (e | a) _ ⟨⟩
    rfl
  have hrun : ((receive .ipv4 [7#8, 1#8, 16#8, 10#8, 0#8, 3#8, 0x81#8, 6#8]).toOption.bind fun a =>
      (receive .ipv4 [11#8, 1#8, 8#8, 10#8, 3#8, 0x81#8, 6#8, 5#8, 0x01#8, 80#8, 0x81#8,
        90#8]).toOption.bind fun b =>
      (receive .ipv4 [9#8, 1#8, 8#8, 10#8, 3#8, 0x81#8, 6#8, 5#8, 0x81#8, 80#8]).toOption.map
        fun c => (a.compare b, b.compare c)) = some (.lt, .lt) := by decide +kernel
  obtain ⟨a, ha, hrun⟩ := Option.bind_eq_some_iff.1 hrun
  obtain ⟨b, hb, hrun⟩ := Option.bind_eq_some_iff.1 hrun
  obtain ⟨c, hc, hrun⟩ := Option.map_eq_some_iff.1 hrun
  obtain ⟨hab, hbc⟩ := Prod.mk.inj hrun
  obtain ⟨-, htrans, -, -⟩ := compare_totalPreorder .ipv4 (hok ha) (hok hb) (hok hc)
  obtain ⟨hswap, -, -, heq⟩ := compare_totalPreorder .ipv4 (hok hb) (hok hc) (hok ha)
  refine ⟨a, b, c, hok ha, hok hb, hok hc, hab, hbc, htrans (by rw [hab]; rfl) (by rw [hbc]; rfl),
    by rw [hswap, hbc]; rfl, fun hsame => ?_⟩
  rw [heq.2 hsame] at hbc
  cases hbc

end Ze.Flow
