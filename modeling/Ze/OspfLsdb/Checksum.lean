import Ze.Lib.Fletcher
import Mathlib.Data.ZMod.Basic

/-!
# The checksum of an LSA

`types/checksum.go`: the Fletcher checksum over an LSA without its age, in two octets inside the
region it covers. Modulo 255 the loops compute the two sums of `Ze.Lib.weightedSum`
(`octetSums_eq`), and the two octets that `fletcherGenerate` chooses solve both congruences
(`fletcherVerify_store`).
-/

namespace Ze.OspfLsdb

open Ze.Lib List
open UInt8 (ofNat toNat)

def fletcherModulus : ℕ := 255

def lsaChecksumOffsetInCoveredRegion : ℕ := 14

def lsaHeaderLen : ℕ := 20

def minLSAChecksumRegionLen : ℕ := lsaHeaderLen - 2

/-- One octet of the loops. Source: fletcherGenerate, fletcherVerify. -/
def addOctet (c : ℕ × ℕ) (b : ℕ) : ℕ × ℕ :=
  let c0 := (c.1 + b) % fletcherModulus
  (c0, (c.2 + c0) % fletcherModulus)

/-- Source: mulMod; a remainder of Go has the sign of the dividend. -/
def mulMod (a b : ℤ) : ℤ :=
  let r := (a * b).tmod fletcherModulus
  if r < 0 then r + fletcherModulus else r

def subMod (a b : ℤ) : ℤ :=
  let r := (a - b).tmod fletcherModulus
  if r < 0 then r + fletcherModulus else r

def normalizeFletcher (v : ℤ) : UInt8 :=
  let v := v.tmod fletcherModulus
  let v := if v < 0 then v + fletcherModulus else v
  if v = 0 then ofNat fletcherModulus else ofNat v.toNat

def fletcherGenerate (data : List UInt8) (checkOff : ℕ) : UInt8 × UInt8 :=
  if data.length = 0 ∨ data.length ≤ checkOff + 1 then (0, 0)
  else
    let (c0, c1) := data.zipIdx.foldl (fun c bi =>
      addOctet c (if bi.2 = checkOff ∨ bi.2 = checkOff + 1 then 0 else bi.1.toNat)) (0, 0)
    let m : ℤ := data.length - checkOff
    let x := subMod (mulMod (m - 1) c0) c1
    let y := subMod c1 (mulMod m c0)
    (normalizeFletcher x, normalizeFletcher y)

def fletcherVerify (data : List UInt8) : Bool :=
  let (c0, c1) := data.foldl (fun c b => addOctet c b.toNat) (0, 0)
  c0 == 0 && c1 == 0

def fletcherChecksum (data : List UInt8) : UInt16 :=
  if data.length < minLSAChecksumRegionLen then 0
  else
    let (high, low) := fletcherGenerate data lsaChecksumOffsetInCoveredRegion
    high.toUInt16 <<< 8 ||| low.toUInt16

/-- Source: FletcherVerify. -/
def verifyFletcher (data : List UInt8) : Bool :=
  if data.length < minLSAChecksumRegionLen then false
  else if data[lsaChecksumOffsetInCoveredRegion]? = some 0 ∧
      data[lsaChecksumOffsetInCoveredRegion + 1]? = some 0 then false
  else fletcherVerify data

def writeUint16 (buf : List UInt8) (off : ℕ) (v : UInt16) : List UInt8 :=
  (buf.set off (v >>> 8).toUInt8).set (off + 1) v.toUInt8

def lsaChecksumOff : ℕ := 16

def finalizeLSAChecksum (lsa : List UInt8) : List UInt8 :=
  if lsa.length < lsaHeaderLen then lsa
  else writeUint16 lsa lsaChecksumOff (fletcherChecksum (lsa.drop 2))

/-! ## Modulo 255 -/

def residues (data : List UInt8) : List (ZMod 255) := data.map fun b => (b.toNat : ZMod 255)

lemma cast_emod (n : ℕ) : ((n % fletcherModulus : ℕ) : ZMod 255) = n :=
  ZMod.natCast_mod n 255

lemma cast_tmod (v : ℤ) : ((v.tmod fletcherModulus : ℤ) : ZMod 255) = v := by
  have h := Int.tmod_add_mul_tdiv v fletcherModulus
  have hmod : ((fletcherModulus : ℤ) : ZMod 255) = 0 := by decide
  calc ((v.tmod fletcherModulus : ℤ) : ZMod 255)
      = ((v.tmod fletcherModulus + fletcherModulus * v.tdiv fletcherModulus : ℤ) : ZMod 255) := by
        push_cast [hmod]
        ring
    _ = v := by rw [h]

lemma cast_lift (v : ℤ) : (((if v.tmod fletcherModulus < 0 then
    v.tmod fletcherModulus + fletcherModulus else v.tmod fletcherModulus : ℤ)) : ZMod 255) = v := by
  have hmod : ((fletcherModulus : ℤ) : ZMod 255) = 0 := by decide
  split_ifs
  · rw [Int.cast_add, hmod, add_zero, cast_tmod]
  · exact cast_tmod v

lemma cast_mulMod (a b : ℤ) : ((mulMod a b : ℤ) : ZMod 255) = a * b := by
  rw [mulMod, cast_lift, Int.cast_mul]

lemma cast_subMod (a b : ℤ) : ((subMod a b : ℤ) : ZMod 255) = a - b := by
  rw [subMod, cast_lift, Int.cast_sub]

lemma normalizeFletcher_spec (v : ℤ) :
    (((normalizeFletcher v).toNat : ℕ) : ZMod 255) = v ∧ normalizeFletcher v ≠ 0 := by
  rw [normalizeFletcher]
  have hcast := cast_lift v
  have hlo : 0 ≤ if v.tmod fletcherModulus < 0 then v.tmod fletcherModulus + fletcherModulus
      else v.tmod fletcherModulus := by
    have := Int.tmod_lt_of_pos v (show (0 : ℤ) < fletcherModulus by decide)
    have := Int.lt_tmod_of_pos v (show (0 : ℤ) < fletcherModulus by decide)
    split_ifs <;> omega
  have hhi : (if v.tmod fletcherModulus < 0 then v.tmod fletcherModulus + fletcherModulus
      else v.tmod fletcherModulus) < 255 := by
    have := Int.tmod_lt_of_pos v (show (0 : ℤ) < fletcherModulus by decide)
    rw [fletcherModulus] at this ⊢
    split_ifs <;> omega
  generalize (if v.tmod fletcherModulus < 0 then v.tmod fletcherModulus + fletcherModulus
      else v.tmod fletcherModulus) = w at hcast hlo hhi
  obtain ⟨n, rfl⟩ := Int.eq_ofNat_of_zero_le hlo
  rw [← hcast]
  split_ifs with hzero
  · rw [hzero]
    decide
  · have hn : n < 2 ^ 8 := by omega
    have hval : (ofNat (n : ℤ).toNat).toNat = n := by
      rw [Int.toNat_natCast, UInt8.toNat_ofNat_of_lt' hn]
    refine ⟨?_, fun h => hzero ?_⟩
    · rw [hval, Int.cast_natCast]
    · rw [h] at hval
      simpa using hval.symm

lemma octetSums_eq (l : List ℕ) (c : ℕ × ℕ) :
    (((l.foldl addOctet c).1 : ZMod 255), ((l.foldl addOctet c).2 : ZMod 255)) =
      (l.map (Nat.cast : ℕ → ZMod 255)).foldl (fun c b => (c.1 + b, c.2 + (c.1 + b)))
        ((c.1 : ZMod 255), (c.2 : ZMod 255)) := by
  induction l generalizing c with
  | nil => rfl
  | cons b l ih =>
    rw [foldl_cons, ih, map_cons, foldl_cons]
    congr 1
    rw [addOctet]
    dsimp only
    rw [cast_emod, cast_emod, Nat.cast_add, Nat.cast_add, cast_emod, Nat.cast_add]

lemma octetSums_lt (l : List ℕ) (c : ℕ × ℕ) (hc : c.1 < 255 ∧ c.2 < 255) :
    (l.foldl addOctet c).1 < 255 ∧ (l.foldl addOctet c).2 < 255 := by
  induction l generalizing c with
  | nil => exact hc
  | cons b l ih => exact ih _ ⟨Nat.mod_lt _ (by decide), Nat.mod_lt _ (by decide)⟩

lemma sums_of_octets (data : List UInt8) :
    (((data.foldl (fun c b => addOctet c b.toNat) (0, 0)).1 : ZMod 255),
      ((data.foldl (fun c b => addOctet c b.toNat) (0, 0)).2 : ZMod 255)) =
      ((residues data).sum, weightedSum (residues data)) := by
  rw [← foldl_map, octetSums_eq, foldl_fletcher, map_map]
  simp [residues, Function.comp_def]

lemma fletcherVerify_iff (data : List UInt8) :
    fletcherVerify data ↔ (residues data).sum = 0 ∧ weightedSum (residues data) = 0 := by
  obtain ⟨hsum, hweighted⟩ := Prod.mk.inj (sums_of_octets data)
  have hlt := octetSums_lt (data.map toNat) (0, 0) (by decide)
  rw [foldl_map] at hlt
  have hzero : ∀ n : ℕ, n < 255 → (n = 0 ↔ (n : ZMod 255) = 0) := by
    intro n hn
    rw [ZMod.natCast_eq_zero_iff]
    exact ⟨fun h => h ▸ dvd_zero _, fun h => Nat.eq_zero_of_dvd_of_lt h hn⟩
  rw [fletcherVerify, Bool.and_eq_true, beq_iff_eq, beq_iff_eq, hzero _ hlt.1, hzero _ hlt.2, hsum,
    hweighted]

/-! ## The check octets -/

def blank (data : List UInt8) (off : ℕ) : List UInt8 := (data.set off 0).set (off + 1) 0

lemma octets_blank (data : List UInt8) (off : ℕ) :
    (data.zipIdx.map fun bi => if bi.2 = off ∨ bi.2 = off + 1 then 0 else bi.1.toNat) =
      (blank data off).map toNat := by
  apply ext_getElem
  · simp [blank]
  · intro i hi hi'
    simp only [getElem_map, getElem_zipIdx, blank, getElem_set, Nat.zero_add]
    by_cases h : i = off
    · simp [h]
    · by_cases h' : i = off + 1
      · simp [h']
      · simp [h, h', Ne.symm h, Ne.symm h']

lemma fletcherGenerate_spec {data : List UInt8} {off : ℕ} (hoff : off + 1 < data.length) :
    let l := residues (blank data off)
    let octets := fletcherGenerate data off
    (octets.1.toNat : ZMod 255) = (l.length - off - 1) * l.sum - weightedSum l ∧
      (octets.2.toNat : ZMod 255) = weightedSum l - (l.length - off) * l.sum ∧ octets.1 ≠ 0 := by
  intro l octets
  have hlen : l.length = data.length := by simp [l, residues, blank]
  obtain ⟨hsum, hweighted⟩ := Prod.mk.inj (sums_of_octets (blank data off))
  rw [← foldl_map, ← octets_blank, foldl_map] at hsum hweighted
  have hgen : octets = fletcherGenerate data off := rfl
  rw [fletcherGenerate, if_neg (by omega)] at hgen
  dsimp only at hgen
  rw [hgen, hlen]
  refine ⟨?_, ?_, (normalizeFletcher_spec _).2⟩
  · rw [(normalizeFletcher_spec _).1, cast_subMod, cast_mulMod, Int.cast_natCast, Int.cast_natCast,
      hsum, hweighted]
    push_cast
    rfl
  · rw [(normalizeFletcher_spec _).1, cast_subMod, cast_mulMod, Int.cast_natCast, Int.cast_natCast,
      hsum, hweighted]
    push_cast
    rfl

lemma fletcherVerify_store {data : List UInt8} {off : ℕ} (hoff : off + 1 < data.length) :
    fletcherVerify ((data.set off (fletcherGenerate data off).1).set (off + 1)
      (fletcherGenerate data off).2) := by
  obtain ⟨hx, hy, -⟩ := fletcherGenerate_spec hoff
  have hres : residues ((data.set off (fletcherGenerate data off).1).set (off + 1)
      (fletcherGenerate data off).2) =
      ((residues (blank data off)).set off ((fletcherGenerate data off).1.toNat : ZMod 255)).set
        (off + 1) ((fletcherGenerate data off).2.toNat : ZMod 255) := by
    rw [residues, residues, ← map_set, ← map_set, blank,
      set_comm _ _ (by omega : off + 1 ≠ off), set_set,
      set_comm _ _ (by omega : off ≠ off + 1), set_set,
      set_comm _ _ (by omega : off + 1 ≠ off)]
  have hlen : off + 1 < (residues (blank data off)).length := by
    simpa [residues, blank] using hoff
  have hzero : (residues (blank data off)).get ⟨off, by omega⟩ = 0 := by
    simp [residues, blank]
  have hzero' : (residues (blank data off)).get ⟨off + 1, hlen⟩ = 0 := by
    simp [residues, blank]
  rw [fletcherVerify_iff, hres]
  exact ⟨sum_check hlen _ hzero hzero' hx hy, weightedSum_check hlen _ hzero hzero' hx hy⟩

lemma high_octet (high low : UInt8) :
    ((high.toUInt16 <<< 8 ||| low.toUInt16) >>> 8).toUInt8 = high := by
  apply UInt8.eq_of_toBitVec_eq
  ext i hi
  simp [show 8 + i < 16 by omega, show i < 16 by omega, BitVec.getLsbD_eq_getElem hi]

lemma low_octet (high low : UInt8) : (high.toUInt16 <<< 8 ||| low.toUInt16).toUInt8 = low := by
  apply UInt8.eq_of_toBitVec_eq
  ext i hi
  simp

lemma drop_finalize {lsa : List UInt8} (hlen : lsaHeaderLen ≤ lsa.length) :
    (finalizeLSAChecksum lsa).drop 2 =
      ((lsa.drop 2).set 14 (fletcherGenerate (lsa.drop 2) 14).1).set 15
        (fletcherGenerate (lsa.drop 2) 14).2 := by
  have hregion : ¬ (lsa.drop 2).length < minLSAChecksumRegionLen := by
    rw [length_drop, minLSAChecksumRegionLen]
    omega
  rw [finalizeLSAChecksum, if_neg (by omega), writeUint16, fletcherChecksum, if_neg hregion]
  dsimp only
  rw [high_octet, low_octet, drop_set, drop_set]
  rfl

/-- **The stored checksum verifies and finds a changed octet.** For every LSA of at least the length
of its header, whatever its checksum field held: once the checksum is stored, the region after the
age verifies, and with any one octet of the region changed to a value different modulo 255 it does
not. -/
theorem fletcher_detects (lsa : List UInt8) (hlen : lsaHeaderLen ≤ lsa.length) :
    let region := (finalizeLSAChecksum lsa).drop 2
    verifyFletcher region ∧
      ∀ (i : ℕ) (hi : i < region.length) (v : UInt8), v.toNat % 255 ≠ region[i].toNat % 255 →
        verifyFletcher (region.set i v) = false := by
  intro region
  have hlsa : 18 ≤ (lsa.drop 2).length := by
    rw [length_drop]
    rw [lsaHeaderLen] at hlen
    omega
  have hregion : region = _ := drop_finalize hlen
  have hlong : ¬ region.length < minLSAChecksumRegionLen := by
    rw [hregion, length_set, length_set, minLSAChecksumRegionLen, lsaHeaderLen]
    omega
  have hverify : fletcherVerify region := by
    rw [hregion]
    exact fletcherVerify_store (by omega)
  refine ⟨?_, fun i hi v hv => ?_⟩
  · rw [verifyFletcher, if_neg hlong, if_neg ?_, hverify]
    rintro ⟨hhigh, -⟩
    rw [hregion, lsaChecksumOffsetInCoveredRegion, getElem?_set_ne (by omega),
      getElem?_set_self (by omega)] at hhigh
    exact (fletcherGenerate_spec (by omega)).2.2 (Option.some.inj hhigh)
  · rw [verifyFletcher]
    split_ifs
    · rfl
    · rfl
    · rw [Bool.eq_false_iff]
      intro hset
      have hsum := ((fletcherVerify_iff _).1 hset).1
      have hi' : i < (residues region).length := by simpa [residues] using hi
      rw [residues, map_set] at hsum
      -- the plain sum has moved by the difference of the two octets
      rw [show (region.map fun b => (b.toNat : ZMod 255)) = residues region from rfl,
        sum_set hi', ((fletcherVerify_iff _).1 hverify).1, zero_add, sub_eq_zero] at hsum
      simp only [residues, getElem_map] at hsum
      exact hv ((ZMod.natCast_eq_natCast_iff' _ _ 255).1 hsum)

/-- A header with garbage in its checksum field. -/
theorem fletcher_detects_garbage :
    verifyFletcher ((finalizeLSAChecksum (replicate 20 7)).drop 2) ∧
      verifyFletcher (((finalizeLSAChecksum (replicate 20 7)).drop 2).set 3 8) = false := by
  have h := fletcher_detects (replicate 20 7) (by decide)
  exact ⟨h.1, h.2 3 (by decide) 8 (by decide)⟩

end Ze.OspfLsdb
