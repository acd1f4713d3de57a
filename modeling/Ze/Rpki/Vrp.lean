import Mathlib.Data.Finset.Basic
import Ze.Net.IPNet

/-!
# Validated ROA payloads

`VRP` of `rpki/rtr_pdu.go`, the parser of the two Prefix PDUs that produce them, and the origin
validation of RFC 6811 over a set of them (`rfc6811`), which the cache is to answer.
-/

namespace Ze.Rpki

open Ze.Net

structure VRP where
  pfx : IPNet
  maxLength : UInt8
  asn : UInt32
deriving DecidableEq, Repr

/-! ## The parser -/

/-- What a Prefix PDU is refused for.
Source: rtr_pdu.go parsePrefixPDU -/
inductive PduError
  | tooShort (len minLen : ℕ)
  | prefixLength (prefixLen maxPrefixBits : ℕ)
  | maxLength (maxLen prefixLen maxPrefixBits : ℕ)
deriving DecidableEq, Repr

/-- Source: rtr_pdu.go parsePrefixPDU, the texts of its errors. -/
def PduError.text : PduError → String
  | tooShort len minLen => "rtr: prefix PDU too short: " ++ toString len ++ " < " ++ toString minLen
  | prefixLength prefixLen maxPrefixBits =>
    "rtr: prefix length " ++ toString prefixLen ++ " > " ++ toString maxPrefixBits
  | maxLength maxLen prefixLen maxPrefixBits =>
    "rtr: max length " ++ toString maxLen ++ " invalid (prefix len " ++ toString prefixLen ++
      ", max " ++ toString maxPrefixBits ++ ")"

/-- Source: encoding/binary BigEndian. -/
def bigEndian (bytes : List UInt8) : ℕ :=
  bytes.foldl (fun n b => n * 256 + b.toNat) 0

/-- Parses a Prefix PDU: the payload and whether it is announced. `toIP` makes an address of the
`ipLen` bytes. Source: rtr_pdu.go. -/
def parsePrefixPDU (toIP : ℕ → IP) (buf : List UInt8) (minLen ipLen maxPrefixBits : ℕ) :
    Except PduError (VRP × Bool) :=
  if buf.length < minLen then .error (.tooShort buf.length minLen)
  else
    let flags := buf.getD 8 0
    let prefixLen := (buf.getD 9 0).toNat
    let maxLen := buf.getD 10 0
    if maxPrefixBits < prefixLen then .error (.prefixLength prefixLen maxPrefixBits)
    else if maxLen.toNat < prefixLen ∨ maxPrefixBits < maxLen.toNat then
      .error (.maxLength maxLen.toNat prefixLen maxPrefixBits)
    else
      let ip := toIP (bigEndian ((buf.drop 12).take ipLen))
      let asn := UInt32.ofNat (bigEndian ((buf.drop (12 + ipLen)).take 4))
      .ok (⟨⟨ip.mask prefixLen, prefixLen⟩, maxLen, asn⟩, flags &&& 1 == 1)

def parseIPv4Prefix (buf : List UInt8) : Except PduError (VRP × Bool) :=
  parsePrefixPDU (fun n => .four (BitVec.ofNat 32 n)) buf 20 4 32

def parseIPv6Prefix (buf : List UInt8) : Except PduError (VRP × Bool) :=
  parsePrefixPDU (fun n => .sixteen (BitVec.ofNat 128 n)) buf 32 16 128

/-- The payload came out of one of the two parsers. -/
def Parsed (v : VRP) : Prop :=
  ∃ buf announce, parseIPv4Prefix buf = .ok (v, announce) ∨ parseIPv6Prefix buf = .ok (v, announce)

/-- The network is masked, and the maximum length is one of its address, not below its own.
Source: rtr_pdu.go parsePrefixPDU, its checks -/
structure VRP.WellFormed (v : VRP) : Prop where
  masked : v.pfx.Masked
  le_max : v.pfx.ones ≤ v.maxLength.toNat
  max_le : v.maxLength.toNat ≤ v.pfx.ip.bitLen

lemma wellFormed_of_parsePrefixPDU {toIP : ℕ → IP} {buf : List UInt8}
    {minLen ipLen maxPrefixBits : ℕ} {v : VRP} {announce : Bool}
    (hip : ∀ n, (toIP n).bitLen = maxPrefixBits)
    (h : parsePrefixPDU toIP buf minLen ipLen maxPrefixBits = .ok (v, announce)) :
    v.WellFormed := by
  rw [parsePrefixPDU] at h
  dsimp only at h
  split_ifs at h with h₁ h₂ h₃
  obtain ⟨rfl, -⟩ := Prod.mk.inj (Except.ok.inj h)
  rw [not_or, not_lt, not_lt] at h₃
  refine ⟨⟨IP.mask_mask _ _, ?_⟩, h₃.1, ?_⟩
  · rw [IP.bitLen_mask, hip]
    exact not_lt.1 h₂
  · rw [IP.bitLen_mask, hip]
    exact h₃.2

lemma Parsed.wellFormed {v : VRP} (h : Parsed v) : v.WellFormed := by
  obtain ⟨buf, announce, h | h⟩ := h
  · refine wellFormed_of_parsePrefixPDU ?_ h
    exact fun _ => rfl
  · refine wellFormed_of_parsePrefixPDU ?_ h
    exact fun _ => rfl

/-! ## RFC 6811 -/

/-- The validation states of a route.
Source: validate.go, ValidationValid … ValidationInvalid -/
inductive Validation
  | valid
  | notFound
  | invalid
deriving DecidableEq, Repr

/-- Source: validate.go. -/
def originNone : UInt32 := 0xFFFFFFFF

namespace VRP

/-- The payload covers the route: one address family, and the route's network lies in the payload's.
Source: RFC 6811 section 2 as validate.go cites it. -/
def Covers (v : VRP) (r : IPNet) : Prop :=
  v.pfx.ip.bitLen = r.ip.bitLen ∧ v.pfx.ones ≤ r.ones ∧ r.ip.mask v.pfx.ones = v.pfx.ip

/-- The payload authorizes the origin for the length of the route. -/
def Authorizes (v : VRP) (r : IPNet) (origin : UInt32) : Prop :=
  r.ones ≤ v.maxLength.toNat ∧ v.asn = origin ∧ origin ≠ 0 ∧ origin ≠ originNone

instance (v : VRP) (r : IPNet) : Decidable (v.Covers r) := inferInstanceAs (Decidable (_ ∧ _ ∧ _))

instance (v : VRP) (r : IPNet) (o : UInt32) : Decidable (v.Authorizes r o) :=
  inferInstanceAs (Decidable (_ ∧ _ ∧ _ ∧ _))

end VRP

/-- The state of a route with this origin over a set of payloads.
Source: RFC 6811 section 2 as validate.go cites it -/
def rfc6811 (vrps : Finset VRP) (r : IPNet) (origin : UInt32) : Validation :=
  if ¬ ∃ v ∈ vrps, v.Covers r then .notFound
  else if ∃ v ∈ vrps, v.Covers r ∧ v.Authorizes r origin then .valid
  else .invalid

end Ze.Rpki
