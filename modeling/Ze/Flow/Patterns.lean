import Mathlib.Data.List.GetD
import Ze.Flow.Wire

/-!
# Prefixes there and back

The parser makes of the octets of a prefix component the pattern of the prefix
(`parse_writePrefix`). The argument is about single bits: the writer puts bit `offset + k` of the
address at place `k` (`bitAt_patternOctets`), and the parser puts place `k` back
(`getMsbD_readPattern`).
-/

namespace Ze.Flow

open Ze.Net List
open BitVec (eq_of_getMsbD_eq getMsbD_eq_getLsbD getMsbD_of_ge getMsbD_or getMsbD_shiftLeft
  getMsbD_ushiftRight ofNat toNat_ofNat)

/-! ## Bits of octets -/

/-- Bit `k` of a list of octets, counted from the front. -/
def bitAt (octets : List Octet) (k : ℕ) : Bool := (octets.getD (k / 8) 0#8).getMsbD (k % 8)

variable {octets : List Octet} {w i n : ℕ} {c : PrefixComponent} {afi : Afi}

lemma bitAt_cons {b : Octet} {k : ℕ} :
    bitAt (b :: octets) k = if k < 8 then b.getMsbD k else bitAt octets (k - 8) := by
  unfold bitAt
  by_cases hk : k < 8
  · rw [if_pos hk, Nat.div_eq_of_lt hk, Nat.mod_eq_of_lt hk, getD_cons_zero]
  · rw [if_neg hk, show k / 8 = (k - 8) / 8 + 1 by omega, getD_cons_succ,
      show k % 8 = (k - 8) % 8 by omega]

lemma bitAt_of_length_le {k : ℕ} (h : octets.length ≤ k / 8) : bitAt octets k = false := by
  unfold bitAt
  rw [getD_eq_default _ _ h, BitVec.getMsbD_zero]

lemma getMsbD_octetAt (x : BitVec w) (hi : 8 * (i + 1) ≤ w) (j : ℕ) :
    (octetAt x i).getMsbD j = (decide (j < 8) && x.getMsbD (8 * i + j)) := by
  unfold octetAt
  by_cases hj : j < 8
  · rw [getMsbD_eq_getLsbD, getMsbD_eq_getLsbD, BitVec.getLsbD_setWidth, BitVec.getLsbD_ushiftRight]
    simp [hj, show 8 * i + j < w by omega, show 8 - 1 - j < 8 by omega,
      show w - 8 * (i + 1) + (8 - 1 - j) = w - 1 - (8 * i + j) by omega]
  · rw [getMsbD_of_ge ((x >>> (w - 8 * (i + 1))).setWidth 8) j (by omega)]
    simp [hj]

lemma getMsbD_orOctet (x : BitVec w) (hi : 8 * (i + 1) ≤ w) (b : Octet) (p : ℕ) :
    (orOctet x i b).getMsbD p
      = (x.getMsbD p || (decide (8 * i ≤ p) && b.getMsbD (p - 8 * i))) := by
  unfold orOctet
  rw [getMsbD_or]
  congr 1
  rw [getMsbD_shiftLeft, getMsbD_eq_getLsbD, BitVec.getLsbD_setWidth, getMsbD_eq_getLsbD]
  by_cases h1 : 8 * i ≤ p
  · by_cases h2 : p - 8 * i < 8
    · rw [show w - 1 - (p + (w - 8 * (i + 1))) = 8 - 1 - (p - 8 * i) by omega]
      simp [h1, h2, show p + (w - 8 * (i + 1)) < w by omega, show 7 - (p - 8 * i) < w by omega]
    · simp [h1, h2, show ¬ p + (w - 8 * (i + 1)) < w by omega]
  · have : w - 1 - (p + (w - 8 * (i + 1))) ≥ 8 ∨ ¬ p + (w - 8 * (i + 1)) < w := by omega
    rcases this with h | h
    · simp [h1, BitVec.getLsbD_of_ge b _ h]
    · simp [h1, h]

/-! ## IPv6 patterns -/

lemma getMsbD_patternOctet (ip : BitVec 128) (offset : ℕ) (hi : offset / 8 + i < 16) {j : ℕ}
    (hj : j < 8) : (patternOctet ip offset i).getMsbD j = ip.getMsbD (offset + 8 * i + j) := by
  unfold patternOctet
  simp only
  rw [getMsbD_or, getMsbD_shiftLeft, getMsbD_octetAt ip (by omega)]
  by_cases hs : offset % 8 = 0
  · simp [hs, hj, show 8 * (offset / 8 + i) + j = offset + 8 * i + j by omega]
  · by_cases hnext : offset / 8 + i + 1 < 16
    · rw [if_pos ⟨hs, hnext⟩, getMsbD_ushiftRight, getMsbD_octetAt ip (by omega)]
      by_cases h1 : j + offset % 8 < 8
      · simp [hj, h1, show j < 8 - offset % 8 by omega,
          show 8 * (offset / 8 + i) + (j + offset % 8) = offset + 8 * i + j by omega]
      · simp [hj, h1, show ¬ j < 8 - offset % 8 by omega, show j - (8 - offset % 8) < 8 by omega,
          show 8 * (offset / 8 + i + 1) + (j - (8 - offset % 8)) = offset + 8 * i + j by omega]
    · rw [if_neg (fun h => hnext h.2)]
      by_cases h1 : j + offset % 8 < 8
      · simp [h1, show 8 * (offset / 8 + i) + (j + offset % 8) = offset + 8 * i + j by omega]
      · simp [h1, getMsbD_of_ge ip (offset + 8 * i + j) (by omega)]

lemma bitAt_patternOctets (ip : BitVec 128) {offset : ℕ} (hn : offset + n ≤ 128) (k : ℕ) :
    bitAt (patternOctets ip offset n) k = (decide (k < n) && ip.getMsbD (offset + k)) := by
  unfold patternOctets
  simp only
  by_cases hk : k / 8 < (n + 7) / 8
  · have hget : ((range ((n + 7) / 8)).map fun i =>
        if i + 1 = (n + 7) / 8 ∧ n % 8 ≠ 0 then
          patternOctet ip offset i &&& (0xFF#8 <<< (8 - n % 8))
        else patternOctet ip offset i).getD (k / 8) 0#8
          = if k / 8 + 1 = (n + 7) / 8 ∧ n % 8 ≠ 0 then
              patternOctet ip offset (k / 8) &&& (0xFF#8 <<< (8 - n % 8))
            else patternOctet ip offset (k / 8) := by
      rw [getD_eq_getElem _ _ (by simpa using hk), getElem_map, getElem_range]
    have hbit := getMsbD_patternOctet ip offset (i := k / 8) (by omega)
      (Nat.mod_lt k (by decide : 8 > 0))
    rw [show offset + 8 * (k / 8) + k % 8 = offset + k by omega] at hbit
    unfold bitAt
    rw [hget]
    by_cases hlast : k / 8 + 1 = (n + 7) / 8 ∧ n % 8 ≠ 0
    · have hff : ∀ i, (0xFF#8).getMsbD i = decide (i < 8) := by
        intro i
        rw [show (0xFF#8) = BitVec.allOnes 8 from rfl, BitVec.getMsbD_allOnes]
      rw [if_pos hlast, BitVec.getMsbD_and, hbit, getMsbD_shiftLeft, hff, Bool.and_comm]
      congr 1
      rw [decide_eq_decide]
      omega
    · rw [if_neg hlast, hbit]
      have : k < n := by omega
      simp [this]
  · rw [bitAt_of_length_le (by simpa using hk)]
    have : ¬ k < n := by omega
    simp [this]

lemma getMsbD_readPattern {offset : ℕ}
    (hlen : offset / 8 + i + octets.length ≤ 16) (ip : BitVec 128) {p : ℕ} (hp : p < 128) :
    (readPattern offset i octets ip).getMsbD p
      = (ip.getMsbD p || (decide (offset + 8 * i ≤ p) && bitAt octets (p - (offset + 8 * i)))) := by
  induction octets generalizing i ip with
  | nil =>
    rw [readPattern, bitAt_of_length_le (Nat.zero_le _)]
    simp
  | cons b octets ih =>
    rw [length_cons] at hlen
    have hstep : (if offset % 8 ≠ 0 ∧ offset / 8 + i + 1 < 16
        then orOctet (orOctet ip (offset / 8 + i) (b >>> (offset % 8))) (offset / 8 + i + 1)
          (b <<< (8 - offset % 8))
        else orOctet ip (offset / 8 + i) (b >>> (offset % 8))).getMsbD p
          = (ip.getMsbD p ||
            (decide (offset + 8 * i ≤ p) && decide (p < offset + 8 * i + 8) &&
              b.getMsbD (p - (offset + 8 * i)))) := by
      have h0 : ∀ q, (b >>> (offset % 8)).getMsbD q
          = (decide (q < 8) && (!decide (q < offset % 8) && b.getMsbD (q - offset % 8))) :=
        fun q => getMsbD_ushiftRight
      have hfar : ∀ q, 8 ≤ q → b.getMsbD q = false := fun q hq => getMsbD_of_ge b q hq
      by_cases hs : offset % 8 = 0
      · rw [if_neg (fun h => h.1 hs), getMsbD_orOctet ip (by omega), h0]
        congr 1
        by_cases h1 : offset + 8 * i ≤ p
        · simp [hs, h1, show 8 * (offset / 8 + i) ≤ p by omega,
            show p - 8 * (offset / 8 + i) = p - (offset + 8 * i) by omega,
            show p - (offset + 8 * i) < 8 ↔ p < offset + 8 * i + 8 by omega]
        · simp [h1, show ¬ 8 * (offset / 8 + i) ≤ p by omega]
      · -- the octet falls into two octets of the address
        have hfirst : (orOctet ip (offset / 8 + i) (b >>> (offset % 8))).getMsbD p
            = (ip.getMsbD p || (decide (offset + 8 * i ≤ p) &&
                decide (p < 8 * (offset / 8 + i + 1)) && b.getMsbD (p - (offset + 8 * i)))) := by
          rw [getMsbD_orOctet ip (by omega), h0]
          congr 1
          by_cases h1 : offset + 8 * i ≤ p
          · simp [h1, show 8 * (offset / 8 + i) ≤ p by omega,
              show ¬ p - 8 * (offset / 8 + i) < offset % 8 by omega,
              show p - 8 * (offset / 8 + i) < 8 ↔ p < 8 * (offset / 8 + i + 1) by omega,
              show p - 8 * (offset / 8 + i) - offset % 8 = p - (offset + 8 * i) by omega]
          · by_cases h2 : 8 * (offset / 8 + i) ≤ p
            · simp [h1, show p - 8 * (offset / 8 + i) < offset % 8 by omega]
            · simp [h1, h2]
        by_cases hnext : offset / 8 + i + 1 < 16
        · rw [if_pos ⟨hs, hnext⟩, getMsbD_orOctet _ (by omega), hfirst, getMsbD_shiftLeft,
            Bool.or_assoc]
          congr 1
          by_cases h1 : 8 * (offset / 8 + i + 1) ≤ p
          · rw [show p - 8 * (offset / 8 + i + 1) + (8 - offset % 8) =
              p - (offset + 8 * i) by omega]
            by_cases h2 : p < offset + 8 * i + 8
            · simp [h1, h2, show offset + 8 * i ≤ p by omega,
                show ¬ p < 8 * (offset / 8 + i + 1) by omega]
            · simp [h2, hfar (p - (offset + 8 * i)) (by omega)]
          · simp [h1, show p < 8 * (offset / 8 + i + 1) by omega,
              show p < offset + 8 * i + 8 by omega]
        · rw [if_neg (fun h => hnext h.2), hfirst]
          simp [show p < 8 * (offset / 8 + i + 1) by omega, show p < offset + 8 * i + 8 by omega]
    rw [readPattern]
    rw [ih (by omega), hstep, bitAt_cons, Bool.or_assoc]
    congr 1
    by_cases h1 : offset + 8 * i ≤ p
    · by_cases h2 : p - (offset + 8 * i) < 8
      · simp [h1, h2, show p < offset + 8 * i + 8
          by omega, show ¬ offset + 8 * (i + 1) ≤ p by omega]
      · simp [h1, h2, show ¬ p < offset + 8 * i + 8
          by omega, show offset + 8 * (i + 1) ≤ p by omega,
          show p - (offset + 8 * (i + 1)) = p - (offset + 8 * i) - 8 by omega]
    · simp [h1, show ¬ offset + 8 * (i + 1) ≤ p by omega]

/-! ## IPv4 prefixes -/

lemma getMsbD_readAddr4 (hlen : i + octets.length ≤ 4) (ip : BitVec 32) (p : ℕ) :
    (readAddr4 i octets ip).getMsbD p
      = (ip.getMsbD p || (decide (8 * i ≤ p) && bitAt octets (p - 8 * i))) := by
  induction octets generalizing i ip with
  | nil =>
    rw [readAddr4, bitAt_of_length_le (Nat.zero_le _)]
    simp
  | cons b octets ih =>
    rw [length_cons] at hlen
    rw [readAddr4, ih (by omega), getMsbD_orOctet ip (by omega), bitAt_cons, Bool.or_assoc]
    congr 1
    by_cases h1 : 8 * i ≤ p
    · by_cases h2 : p - 8 * i < 8
      · simp [h1, h2, show ¬ 8 * (i + 1) ≤ p by omega]
      · simp [h1, h2, show 8 * (i + 1) ≤ p by omega, show p - 8 * (i + 1) = p - 8 * i - 8 by omega,
          getMsbD_of_ge b (p - 8 * i) (by omega)]
    · simp [h1, show ¬ 8 * (i + 1) ≤ p by omega]

lemma bitAt_octets (x : BitVec w) (hn : 8 * n ≤ w) (k : ℕ) :
    bitAt ((range n).map (octetAt x)) k = (decide (k < 8 * n) && x.getMsbD k) := by
  by_cases hk : k / 8 < n
  · unfold bitAt
    rw [getD_eq_getElem _ _ (by simpa using hk), getElem_map, getElem_range,
      getMsbD_octetAt x (by omega), show 8 * (k / 8) + k % 8 = k by omega]
    simp [Nat.mod_lt k (by decide : 8 > 0), show k < 8 * n by omega]
  · rw [bitAt_of_length_le (by simpa using hk)]
    simp [show ¬ k < 8 * n by omega]

/-! ## The component -/

lemma getMsbD_mask (x : BitVec w) (hn : n ≤ w) (p : ℕ) :
    ((x >>> (w - n)) <<< (w - n)).getMsbD p = (decide (p < n) && x.getMsbD p) := by
  rw [getMsbD_shiftLeft, getMsbD_ushiftRight]
  by_cases h : p < n
  · simp [h, show p + (w - n) < w by omega]
  · simp [h, show ¬ p + (w - n) < w by omega]

lemma getMsbD_clear (x : BitVec w) (n p : ℕ) :
    ((x <<< n) >>> n).getMsbD p = (decide (n ≤ p) && x.getMsbD p) := by
  rw [getMsbD_ushiftRight, getMsbD_shiftLeft]
  by_cases h : n ≤ p
  · by_cases hp : p < w
    · simp [h, hp, show ¬ p < n by omega, show p - n + n = p by omega]
    · simp [hp, getMsbD_of_ge x p (by omega)]
  · simp [h, show p < n by omega]

lemma length_patternOctets (ip : BitVec 128) (offset n : ℕ) :
    (patternOctets ip offset n).length = (n + 7) / 8 := by
  unfold patternOctets
  simp

lemma PrefixComponent.addr_cases (h : c.validate afi = .ok ()) :
    (afi = .ipv4 ∧ c.offset = 0 ∧ c.pfx.bits ≤ 32 ∧ ∃ x, c.pfx.addr = .v4 x) ∨
      (afi = .ipv6 ∧ (c.offset ≠ 0 → c.offset.toNat < c.pfx.bits) ∧ c.pfx.bits ≤ 128 ∧
        ∃ x, c.pfx.addr = .v6 x []) := by
  obtain ⟨hvalid, hfam, hoff⟩ := PrefixComponent.validate_eq_ok.1 h
  unfold Prefix.isValid at hvalid
  simp only [Bool.and_eq_true, decide_eq_true_eq] at hvalid
  obtain ⟨⟨h1, h2⟩, h3⟩ := hvalid
  cases afi with
  | ipv4 =>
    left
    have h0 : c.offset = 0 := by
      by_contra hne
      cases (hoff hne).1
    cases ha : c.pfx.addr with
    | zero => rw [ha] at h1; cases h1
    | v4 x => exact ⟨rfl, h0, by rw [ha] at h3; exact h3, x, rfl⟩
    | v6 x zone => rw [ha] at hfam; cases hfam
  | ipv6 =>
    right
    cases ha : c.pfx.addr with
    | zero => rw [ha] at h1; cases h1
    | v4 x => rw [ha] at hfam; cases hfam
    | v6 x zone =>
      rw [ha] at h2 h3
      obtain rfl : zone = [] := by simpa [Addr.zone] using h2
      exact ⟨rfl, fun hne => (hoff hne).2, h3, x, rfl⟩

lemma parse_octets {t : ComponentType} {ht : t.isPrefix = true} {shape : PrefixShape}
    {header rest : List Octet}
    (hshape : prefixComponentShape (header ++ octets ++ rest) afi = .ok shape)
    (hheader : header.length = shape.headerLen) (hoctets : octets.length = shape.prefixBytes) :
    parsePrefixComponent t ht (header ++ octets ++ rest) afi
      = .ok (.pfx ⟨t, ht, readPrefix afi shape octets, UInt8.ofBitVec shape.offset⟩, rest) := by
  unfold parsePrefixComponent
  rw [hshape]
  have hdrop : (header ++ octets ++ rest).drop shape.headerLen = octets ++ rest := by
    rw [append_assoc, drop_left' hheader]
  have hrest : (header ++ octets ++ rest).drop (shape.headerLen + shape.prefixBytes) = rest := by
    rw [← hheader, ← hoctets, ← length_append, drop_left' rfl]
  simp only [Except.map, hdrop, hrest]
  rw [take_left' hoctets]

lemma parse_writePrefix (h : c.validate afi = .ok ()) (rest : List Octet) :
    parsePrefixComponent c.compType c.isPrefix (c.parameter ++ rest) afi
      = .ok (.pfx ⟨c.compType, c.isPrefix, flowPrefixPattern c.pfx c.offset, c.offset⟩, rest) := by
  rcases c.addr_cases h with ⟨rfl, hoff, hbits, x, hx⟩ | ⟨rfl, hoff, hbits, x, hx⟩
  · -- IPv4
    have hlen : (ofNat 8 c.pfx.bits).toNat = c.pfx.bits := by
      rw [toNat_ofNat, Nat.mod_eq_of_lt (by omega)]
    generalize hip : (x >>> (32 - c.pfx.bits)) <<< (32 - c.pfx.bits) = ip
    have hpar : c.parameter ++ rest = [ofNat 8 c.pfx.bits] ++
        (range ((c.pfx.bits + 7) / 8)).map (octetAt ip) ++ rest := by
      unfold PrefixComponent.parameter Prefix.masked
      rw [hx]
      simp only [Addr.mask, hip, cons_append, nil_append]
    have hshape : prefixComponentShape ([ofNat 8 c.pfx.bits] ++
        (range ((c.pfx.bits + 7) / 8)).map (octetAt ip) ++ rest) .ipv4
          = .ok ⟨c.pfx.bits, 0#8, 1, (c.pfx.bits + 7) / 8⟩ := by
      simp only [cons_append, nil_append, prefixComponentShape, hlen]
      refine checkShape_eq_ok.2 ⟨hbits, fun h => absurd rfl h, ?_, rfl⟩
      simp
      omega
    rw [hpar, parse_octets hshape rfl (by simp)]
    simp only [hoff]
    have hread : readPrefix .ipv4 ⟨c.pfx.bits, 0#8, 1, (c.pfx.bits + 7) / 8⟩
        ((range ((c.pfx.bits + 7) / 8)).map (octetAt ip)) = c.pfx.masked := by
      unfold readPrefix flowPrefixPattern
      rw [if_pos (ofBitVec_eq_zero.2 rfl), Prefix.masked_masked]
      unfold Prefix.masked
      rw [hx]
      simp only [readAddr, Addr.mask, Prefix.mk.injEq, Addr.v4.injEq, and_true]
      apply eq_of_getMsbD_eq
      intro p hp
      rw [getMsbD_mask _ hbits, getMsbD_mask _ hbits, getMsbD_readAddr4 (by simp; omega),
        bitAt_octets ip (by omega), ← hip, getMsbD_mask _ hbits]
      by_cases hb : p < c.pfx.bits
      · simp [hb, show p < 8 * ((c.pfx.bits + 7) / 8) by omega]
      · simp [hb]
    rw [hread]
    unfold flowPrefixPattern
    rw [if_pos rfl]
    rfl
  · -- IPv6
    have hlen : (ofNat 8 c.pfx.bits).toNat = c.pfx.bits := by
      rw [toNat_ofNat, Nat.mod_eq_of_lt (by omega)]
    have htoNat : c.offset.toBitVec.toNat = c.offset.toNat := rfl
    have hle : c.offset.toNat ≤ c.pfx.bits := by
      by_cases h0 : c.offset = 0
      · rw [h0]
        exact Nat.zero_le _
      · exact (hoff h0).le
    generalize hip : (x >>> (128 - c.pfx.bits)) <<< (128 - c.pfx.bits) = ip
    have hpar : c.parameter ++ rest = [ofNat 8 c.pfx.bits, c.offset.toBitVec] ++
        patternOctets ip c.offset.toNat (c.pfx.bits - c.offset.toNat) ++ rest := by
      unfold PrefixComponent.parameter Prefix.masked
      rw [hx]
      simp only [Addr.mask, hip, cons_append, nil_append]
    have hshape : prefixComponentShape ([ofNat 8 c.pfx.bits, c.offset.toBitVec] ++
        patternOctets ip c.offset.toNat (c.pfx.bits - c.offset.toNat) ++ rest) .ipv6
          = .ok ⟨c.pfx.bits, c.offset.toBitVec, 2, (c.pfx.bits - c.offset.toNat + 7) / 8⟩ := by
      simp only [cons_append, nil_append, prefixComponentShape, hlen]
      refine checkShape_eq_ok.2 ⟨hbits, fun h => ?_, ?_, rfl⟩
      · exact hoff fun h0 => h (by rw [h0]; rfl)
      · simp [length_patternOctets]
        omega
    rw [hpar, parse_octets hshape rfl (length_patternOctets ..)]
    have hread : readPrefix .ipv6
        ⟨c.pfx.bits, c.offset.toBitVec, 2, (c.pfx.bits - c.offset.toNat + 7) / 8⟩
        (patternOctets ip c.offset.toNat (c.pfx.bits - c.offset.toNat))
          = flowPrefixPattern c.pfx c.offset := by
      have hy : ∀ p < 128, (readPattern c.offset.toNat 0
          (patternOctets ip c.offset.toNat (c.pfx.bits - c.offset.toNat)) 0#128).getMsbD p
            = (decide (p < c.pfx.bits) && (decide (c.offset.toNat ≤ p) && x.getMsbD p)) := by
        intro p hp
        rw [getMsbD_readPattern (by rw [length_patternOctets]; omega) _ hp,
          bitAt_patternOctets ip (by omega), ← hip]
        by_cases ho : c.offset.toNat ≤ p
        · rw [Nat.mul_zero, Nat.add_zero, show c.offset.toNat + (p - c.offset.toNat) = p by omega,
            getMsbD_mask x hbits]
          simp [ho, show p - c.offset.toNat < c.pfx.bits - c.offset.toNat ↔ p < c.pfx.bits by omega]
        · simp [ho]
      unfold readPrefix flowPrefixPattern
      split_ifs with h0
      · rw [Prefix.masked_masked]
        unfold Prefix.masked
        rw [hx]
        simp only [readAddr, Addr.mask, Prefix.mk.injEq, Addr.v6.injEq, and_true]
        apply eq_of_getMsbD_eq
        intro p hp
        rw [getMsbD_mask _ hbits, getMsbD_mask _ hbits, htoNat, hy p hp]
        have hz : c.offset.toNat = 0 := by
          rw [show c.offset = 0 from h0]
          rfl
        simp [hz]
      · unfold Prefix.masked
        rw [hx]
        simp only [readAddr, as16, Addr.mask, Prefix.mk.injEq, Addr.v6.injEq, and_true]
        apply eq_of_getMsbD_eq
        intro p hp
        rw [getMsbD_mask _ hbits, getMsbD_mask _ hbits, getMsbD_clear, getMsbD_clear,
          getMsbD_mask _ hbits, htoNat, hy p hp]
        simp only [UInt8.ofBitVec_toBitVec]
        by_cases h1 : p < c.pfx.bits <;> by_cases h2 : c.offset.toNat ≤ p <;> simp [h1, h2]
    rw [hread]

lemma PrefixComponent.length_writeTo
    (h : c.validate afi = .ok ()) :
    c.writeTo.length = c.len := by
  unfold PrefixComponent.writeTo PrefixComponent.parameter PrefixComponent.len Prefix.masked
  rcases c.addr_cases h with ⟨-, -, -, x, hx⟩ | ⟨-, -, -, x, hx⟩
  · rw [hx]
    simp [Addr.mask, Addr.is6]
    omega
  · rw [hx]
    simp [Addr.mask, Addr.is6, length_patternOctets]
    omega

end Ze.Flow
