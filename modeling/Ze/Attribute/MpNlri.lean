import Ze.AsPath.Lengths
import Ze.LocRib.Path

/-!
# MP_REACH_NLRI and MP_UNREACH_NLRI

The two attributes of `core/bgp/attribute/mpnlri.go` that carry NLRI. The next hops of a value that
is read are kept as addresses, two at most, and are written from them again.
-/

namespace Ze.Attribute

open List

open Ze.AsPath (Octet putUint16 uint16)
open Ze.LocRib (Family)

/-! ## Families -/

/-- The family in three octets. Source: ParseMPReachNLRI, the AFI and the SAFI. -/
def readFamily (data : List Octet) : Family where
  afi := UInt16.ofNat (uint16 (data.getD 0 0#8) (data.getD 1 0#8))
  safi := UInt8.ofBitVec (data.getD 2 0#8)

/-- Source: WriteTo, the AFI and the SAFI. -/
def writeFamily (fam : Family) : List Octet := putUint16 fam.afi.toNat ++ [fam.safi.toBitVec]

lemma writeFamily_readFamily (a b s : Octet) (rest : List Octet) :
    writeFamily (readFamily (a :: b :: s :: rest)) = [a, b, s] := by
  have hafi : (UInt16.ofNat (uint16 a b)).toNat = uint16 a b := by
    rw [UInt16.toNat_ofNat', Nat.mod_eq_of_lt (AsPath.uint16_lt a b)]
  simp only [writeFamily, readFamily, getD_cons_zero, getD_cons_succ, hafi,
    AsPath.putUint16_uint16, cons_append, nil_append]

/-! ## Next hops -/

/-- An address, as its octets. Source: net/netip AddrFrom4, AddrFrom16, AsSlice. -/
inductive Hop
  | four (octets : List Octet)
  | sixteen (octets : List Octet)
  deriving DecidableEq, Repr

def safiVPN : UInt8 := 128

def rdSize : ℕ := 8

/-- Source: MPNextHopProfile, Lengths; ValidNextHopLens. -/
def validNextHopLens (fam : Family) : List ℕ :=
  let plain := fam.safi = 1 ∨ fam.safi = 2 ∨ fam.safi = 4
  if fam.afi = 1 then
    if plain ∨ fam.safi = 73 ∨ fam.safi = 5 then [4, 16, 32]
    else if fam.safi = safiVPN then [12, 24, 48] else []
  else if fam.afi = 2 then
    if plain then [16, 32]
    else if fam.safi = 73 ∨ fam.safi = 5 then [4, 16, 32]
    else if fam.safi = safiVPN then [24, 48] else []
  else if fam.afi = 25 ∧ fam.safi = 70 then [4, 16] else []

/-- Source: parseVPNNextHops; none is ErrInvalidNextHopLen. -/
def parseVPNNextHops (data : List Octet) : Option (List Hop) :=
  if data.length = 12 then some [.four (data.drop rdSize)]
  else if data.length = 16 then some [.sixteen data]
  else if data.length = 24 then some [.sixteen (data.drop rdSize)]
  else if data.length = 32 then some [.sixteen (data.take 16), .sixteen (data.drop 16)]
  else if data.length = 48 then
    some [.sixteen ((data.drop rdSize).take 16), .sixteen (data.drop (rdSize + 16 + rdSize))]
  else none

/-- The addresses of four octets each. Source: parseNextHops, the case of AFIIPv4. -/
def fours : List Octet → List Hop
  | a :: b :: c :: d :: rest => .four [a, b, c, d] :: fours rest
  | _ => []

/-- Source: parseNextHops; none is ErrInvalidNextHopLen. -/
def parseNextHops (fam : Family) (data : List Octet) : Option (List Hop) :=
  if data = [] then some []
  else if fam.safi = safiVPN then parseVPNNextHops data
  else if data.length = 16 then some [.sixteen data]
  else if data.length = 32 then some [.sixteen (data.take 16), .sixteen (data.drop 16)]
  else if fam.afi = 1 then if data.length % 4 ≠ 0 then none else some (fours data)
  else if fam.afi = 2 then
    if data.length = 4 ∧ 4 ∈ validNextHopLens fam then some [.four data] else none
  else if data.length = 4 then some [.four data] else none

def newNextHopAddrs (hops : List Hop) : List Hop := hops.take 2

/-- Source: wireNextHop, with AsSlice. -/
def wireNextHop (fam : Family) : Hop → List Octet
  | .four octets =>
    if fam.afi = 2 ∧ fam.safi = safiVPN then
      replicate 10 0#8 ++ [0xff#8, 0xff#8] ++ octets
    else octets
  | .sixteen octets => octets

def nextHopOctets (fam : Family) (nh : Hop) : ℕ :=
  if fam.safi = safiVPN then rdSize + (wireNextHop fam nh).length else (wireNextHop fam nh).length

/-- Source: writeNextHops, the loop. -/
def writeNextHop (fam : Family) (nh : Hop) : List Octet :=
  (if fam.safi = safiVPN then replicate rdSize 0#8 else []) ++ wireNextHop fam nh

def writeNextHops (fam : Family) (hops : List Hop) : List Octet := hops.flatMap (writeNextHop fam)

/-! ## The attributes -/

/-- Source: ErrShortData, ErrInvalidNextHopLen. -/
inductive MPError
  | shortData
  | invalidNextHopLen
  deriving DecidableEq, Repr

structure MPReachNLRI where
  fam : Family
  nextHops : List Hop
  nlri : List Octet
  deriving DecidableEq

def parseMPReachNLRI (data : List Octet) : Except MPError MPReachNLRI :=
  if data.length < 5 then .error .shortData
  else
    let nhLen := (data.getD 3 0#8).toNat
    if data.length < 4 + nhLen + 1 then .error .shortData
    else
      match parseNextHops (readFamily data) ((data.drop 4).take nhLen) with
      | none => .error .invalidNextHopLen
      | some hops => .ok ⟨readFamily data, newNextHopAddrs hops, data.drop (4 + nhLen + 1)⟩

def MPReachNLRI.nextHopLen (m : MPReachNLRI) : ℕ := (m.nextHops.map (nextHopOctets m.fam)).sum

/-- Source: WriteTo, Len. -/
def MPReachNLRI.writeTo (m : MPReachNLRI) : List Octet :=
  writeFamily m.fam ++ BitVec.ofNat 8 m.nextHopLen :: writeNextHops m.fam m.nextHops ++
    0#8 :: m.nlri

structure MPUnreachNLRI where
  fam : Family
  nlri : List Octet
  deriving DecidableEq

def parseMPUnreachNLRI (data : List Octet) : Except MPError MPUnreachNLRI :=
  if data.length < 3 then .error .shortData else .ok ⟨readFamily data, data.drop 3⟩

/-- Source: WriteTo, Len. -/
def MPUnreachNLRI.writeTo (m : MPUnreachNLRI) : List Octet := writeFamily m.fam ++ m.nlri

/-! ## What is read -/

variable {data : List Octet}

lemma exists_octets_of_parse {m : MPReachNLRI} (h : parseMPReachNLRI data = .ok m) :
    ∃ (nh : List Octet) (reserved : Octet) (hops : List Hop), nh.length < 256 ∧
      data = writeFamily m.fam ++ BitVec.ofNat 8 nh.length :: nh ++ reserved :: m.nlri ∧
      parseNextHops m.fam nh = some hops ∧ m.nextHops = newNextHopAddrs hops := by
  unfold parseMPReachNLRI at h
  dsimp only at h
  split_ifs at h with hfive hfits
  split at h
  · cases h
  rename_i hops hhops
  cases h
  obtain ⟨a, b, s, l, rest, rfl⟩ : ∃ a b s l rest, data = a :: b :: s :: l :: rest := by
    rcases data with _ | ⟨a, _ | ⟨b, _ | ⟨s, _ | ⟨l, rest⟩⟩⟩⟩
    · simp at hfive
    · simp at hfive
    · simp at hfive
    · simp at hfive
    · exact ⟨a, b, s, l, rest, rfl⟩
  simp only [getD_cons_zero, getD_cons_succ, length_cons] at hfits
  simp only [getD_cons_zero, getD_cons_succ, drop_succ_cons, drop_zero] at hhops
  have hlt : l.toNat < rest.length := by omega
  have hlen : (rest.take l.toNat).length = l.toNat := by
    rw [length_take]
    omega
  refine ⟨rest.take l.toNat, rest.getD l.toNat 0#8, hops, ?_, ?_, hhops, rfl⟩
  · rw [hlen]
    exact l.isLt
  · have hdrop : (a :: b :: s :: l :: rest).drop (4 + l.toNat + 1) = rest.drop (l.toNat + 1) := by
      rw [show 4 + l.toNat + 1 = l.toNat + 1 + 1 + 1 + 1 + 1 by omega]
      rfl
    have hrest : rest = rest.take l.toNat ++ rest.getD l.toNat 0#8 :: rest.drop (l.toNat + 1) := by
      rw [getD_eq_getElem?_getD, getElem?_eq_getElem hlt, Option.getD_some,
        getElem_cons_drop, take_append_drop]
    simp only [getD_cons_zero, getD_cons_succ]
    rw [writeFamily_readFamily, hlen, hdrop, BitVec.ofNat_toNat, BitVec.setWidth_eq]
    simp only [cons_append, nil_append]
    rw [← hrest]

lemma eq_of_parseMPUnreachNLRI {m : MPUnreachNLRI}
    (h : parseMPUnreachNLRI data = .ok m) : data = writeFamily m.fam ++ m.nlri := by
  unfold parseMPUnreachNLRI at h
  split_ifs at h with hthree
  cases h
  rcases data with _ | ⟨a, _ | ⟨b, _ | ⟨s, rest⟩⟩⟩
  · simp at hthree
  · simp at hthree
  · simp at hthree
  · rw [writeFamily_readFamily]
    rfl

/-! ## What is written again -/

lemma nextHopLen_eq (m : MPReachNLRI) : m.nextHopLen = (writeNextHops m.fam m.nextHops).length := by
  unfold MPReachNLRI.nextHopLen writeNextHops
  rw [length_flatMap]
  congr 1
  apply map_congr_left
  intro nh _
  unfold nextHopOctets writeNextHop
  split_ifs
  · rw [length_append, length_replicate]
  · rfl

def zeroRD : List Octet := replicate rdSize 0#8

/-- A field of next hops in the form that the encoder gives it: for the VPN SAFI, each address
behind a Route Distinguisher of zero, with sixteen octets under AFI 2; for the other SAFIs of AFI 1,
no more than two addresses. -/
def CanonicalNextHop (fam : Family) (nh : List Octet) : Prop :=
  if fam.safi = safiVPN then
    nh = [] ∨ (nh.length = 12 ∧ fam.afi ≠ 2 ∨ nh.length = 24) ∧ nh.take 8 = zeroRD ∨
      nh.length = 48 ∧ nh.take 8 = zeroRD ∧ (nh.drop 24).take 8 = zeroRD
  else fam.afi = 1 → nh.length ≤ 8 ∨ nh.length = 16 ∨ nh.length = 32

section

variable {nh : List Octet}

lemma zeroRD_append_iff (nh : List Octet) : zeroRD ++ nh.drop 8 = nh ↔ nh.take 8 = zeroRD := by
  constructor
  · intro h
    rw [← h]
    rfl
  · intro h
    rw [← h, take_append_drop]

lemma zeroRDs_append_iff (hlen : nh.length = 48) :
    zeroRD ++ ((nh.drop 8).take 16 ++ (zeroRD ++ nh.drop 32)) = nh ↔
      nh.take 8 = zeroRD ∧ (nh.drop 24).take 8 = zeroRD := by
  have hmid : ((nh.drop 8).take 16).length = 16 := by
    rw [length_take, length_drop, hlen]
    rfl
  constructor
  · intro h
    constructor
    · rw [← h]
      rfl
    · have hdrop : nh.drop 24 = zeroRD ++ nh.drop 32 := by
        rw [← congrArg (drop 24) h, ← append_assoc]
        exact drop_left' (by rw [length_append, hmid]; rfl)
      rw [hdrop]
      rfl
  · rintro ⟨hfirst, hsecond⟩
    have htail : zeroRD ++ nh.drop 32 = nh.drop 24 := by
      rw [← zeroRD_append_iff, drop_drop] at hsecond
      exact hsecond
    have hback : (nh.drop 8).take 16 ++ nh.drop 24 = nh.drop 8 := by
      rw [show 24 = 8 + 16 from rfl, ← drop_drop, take_append_drop]
    rw [htail, hback]
    exact (zeroRD_append_iff nh).2 hfirst

lemma flatMap_fours (fam : Family) (hplain : fam.safi ≠ safiVPN) (hfour : nh.length % 4 = 0) :
    writeNextHops fam (newNextHopAddrs (fours nh)) = nh.take 8 := by
  have hone : ∀ o, writeNextHop fam (.four o) = o := by
    intro o
    rw [writeNextHop, if_neg hplain, wireNextHop, if_neg (fun h => hplain h.2)]
    rfl
  rcases nh with _ | ⟨a, _ | ⟨b, _ | ⟨c, _ | ⟨d, nh⟩⟩⟩⟩
  · rfl
  · simp at hfour
  · simp at hfour
  · simp at hfour
  rcases nh with _ | ⟨e, _ | ⟨f, _ | ⟨g, _ | ⟨i, nh⟩⟩⟩⟩
  · simp [fours, newNextHopAddrs, writeNextHops, hone]
  · simp at hfour
  · simp at hfour
  · simp at hfour
  · simp [fours, newNextHopAddrs, writeNextHops, hone]

variable {fam : Family} {hops : List Hop}

lemma writeNextHops_vpn_eq_iff (hvpn : fam.safi = safiVPN)
    (hne : nh ≠ []) (h : parseVPNNextHops nh = some hops) :
    (writeNextHops fam (newNextHopAddrs hops) = nh ↔ CanonicalNextHop fam nh) ∧
      (writeNextHops fam (newNextHopAddrs hops)).length ≤ 48 := by
  have hsix : ∀ o, writeNextHop fam (.sixteen o) = zeroRD ++ o := by
    intro o
    rw [writeNextHop, if_pos hvpn]
    rfl
  have hcanonical : CanonicalNextHop fam nh ↔
      (nh.length = 12 ∧ fam.afi ≠ 2 ∨ nh.length = 24) ∧ nh.take 8 = zeroRD ∨
        nh.length = 48 ∧ nh.take 8 = zeroRD ∧ (nh.drop 24).take 8 = zeroRD := by
    rw [CanonicalNextHop, if_pos hvpn, or_iff_right hne]
  -- A field of another length than the one it was read from is not that field.
  have hlonger : ∀ {written : List Octet} {n : ℕ}, written.length = n → n ≠ nh.length →
      ¬ CanonicalNextHop fam nh → n ≤ 48 →
      (written = nh ↔ CanonicalNextHop fam nh) ∧ written.length ≤ 48 := by
    intro written n hwritten hlen hnot hle
    refine ⟨iff_of_false (fun heq => hlen (hwritten ▸ congrArg length heq)) hnot, ?_⟩
    rw [hwritten]
    exact hle
  unfold parseVPNNextHops at h
  simp only [writeNextHops]
  split_ifs at h with h12 h16 h24 h32 h48 <;> cases h
  · by_cases hafi : fam.afi = 2
    · apply hlonger (n := 24)
      · simp [newNextHopAddrs, writeNextHop, wireNextHop, hvpn, hafi, rdSize, h12]
      · omega
      · rw [hcanonical]
        simp [h12, hafi]
      · decide
    · have hfour : ∀ o, writeNextHop fam (.four o) = zeroRD ++ o := by
        intro o
        rw [writeNextHop, if_pos hvpn, wireNextHop, if_neg (fun h => hafi h.1)]
        rfl
      rw [hcanonical, newNextHopAddrs]
      simp only [take_succ_cons, take_nil, flatMap_singleton, hfour]
      refine ⟨?_, ?_⟩
      · rw [rdSize, zeroRD_append_iff]
        simp [h12, hafi]
      · rw [length_append, length_drop, h12]
        decide
  · apply hlonger (n := 24)
    · simp [newNextHopAddrs, hsix, h16, zeroRD, rdSize]
    · omega
    · rw [hcanonical]
      omega
    · decide
  · rw [hcanonical, newNextHopAddrs]
    simp only [take_succ_cons, take_nil, flatMap_singleton, hsix]
    refine ⟨?_, ?_⟩
    · rw [rdSize, zeroRD_append_iff]
      simp [h24]
    · rw [length_append, length_drop, h24]
      decide
  · apply hlonger (n := 48)
    · simp [newNextHopAddrs, hsix, h32, zeroRD, rdSize]
    · omega
    · rw [hcanonical]
      omega
    · decide
  · rw [hcanonical, newNextHopAddrs]
    simp only [take_succ_cons, take_nil, flatMap_cons, flatMap_nil, append_nil, hsix, append_assoc]
    refine ⟨?_, ?_⟩
    · rw [rdSize, zeroRDs_append_iff h48]
      simp [h48]
    · simp [zeroRD, rdSize, h48]

lemma writeNextHops_eq_iff (h : parseNextHops fam nh = some hops) :
    (writeNextHops fam (newNextHopAddrs hops) = nh ↔ CanonicalNextHop fam nh) ∧
      (writeNextHops fam (newNextHopAddrs hops)).length ≤ 48 := by
  unfold parseNextHops at h
  by_cases hne : nh = []
  · rw [if_pos hne] at h
    cases h
    subst hne
    refine ⟨iff_of_true rfl ?_, Nat.zero_le _⟩
    unfold CanonicalNextHop
    split_ifs
    · exact .inl rfl
    · exact fun _ => .inl (Nat.zero_le _)
  rw [if_neg hne] at h
  by_cases hvpn : fam.safi = safiVPN
  · rw [if_pos hvpn] at h
    exact writeNextHops_vpn_eq_iff hvpn hne h
  rw [if_neg hvpn] at h
  have hfour : ∀ o, writeNextHop fam (.four o) = o := by
    intro o
    rw [writeNextHop, if_neg hvpn, wireNextHop, if_neg (fun h => hvpn h.2)]
    rfl
  have hsix : ∀ o, writeNextHop fam (.sixteen o) = o := by
    intro o
    rw [writeNextHop, if_neg hvpn]
    rfl
  have hcanonical : CanonicalNextHop fam nh ↔
      (fam.afi = 1 → nh.length ≤ 8 ∨ nh.length = 16 ∨ nh.length = 32) := by
    rw [CanonicalNextHop, if_neg hvpn]
  -- One or two addresses that are written as they were read.
  have hsame : ∀ {written : List Octet}, written = nh → nh.length ≤ 48 →
      (fam.afi = 1 → nh.length ≤ 8 ∨ nh.length = 16 ∨ nh.length = 32) →
      (written = nh ↔ CanonicalNextHop fam nh) ∧ written.length ≤ 48 := by
    rintro written rfl hle hlen
    exact ⟨iff_of_true rfl (hcanonical.2 hlen), hle⟩
  split_ifs at h with h16 h32 hafi₁ hmod hafi₂ hfour₂ hfour₃ <;> cases h
  · exact hsame (by simp [writeNextHops, newNextHopAddrs, hsix]) (by omega) (by omega)
  · exact hsame (by simp [writeNextHops, newNextHopAddrs, hsix]) (by omega) (by omega)
  · rw [flatMap_fours fam hvpn (by omega), hcanonical, take_eq_self_iff]
    refine ⟨?_, ?_⟩
    · constructor
      · exact fun hle _ => .inl hle
      · intro hlen
        have := hlen hafi₁
        omega
    · rw [length_take]
      omega
  · exact hsame (by simp [writeNextHops, newNextHopAddrs, hfour]) (by omega)
      (fun hafi => absurd hafi hafi₁)
  · exact hsame (by simp [writeNextHops, newNextHopAddrs, hfour]) (by omega)
      (fun hafi => absurd hafi hafi₁)

end

end Ze.Attribute
