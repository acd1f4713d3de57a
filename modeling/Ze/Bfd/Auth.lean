import Mathlib.Data.List.GetD
import Ze.Lib.Sha1

/-!
# Authentication of BFD Control packets

The keyed digests of `internal/component/bfd/auth`: the signer and the verifier of `sha1.go`, which
the four keyed types share, and the window of sequence numbers of `meticulous.go`.
-/

namespace Ze.Bfd

open List
open BitVec (ofNat toNat_ofNat)

/-- An octet. Source: byte. -/
abbrev Octet := BitVec 8

/-! ## The window -/

structure SeqState where
  last : BitVec 32
  initialized : Bool
  deriving DecidableEq, Repr

/-- Why a packet is refused. Source: auth/signer.go ErrShortAuthBody, ErrDigestMismatch,
ErrSequenceOutsideWindow. -/
inductive AuthError
  | shortAuthBody
  | digestMismatch
  | sequenceOutsideWindow
  deriving DecidableEq, Repr

namespace SeqState

def check (s : SeqState) (seq : BitVec 32) (meticulous : Bool) (detectMult : BitVec 8) :
    Except AuthError Unit :=
  if s.initialized = false then .ok ()
  else
    let ahead := seq - s.last
    if meticulous = true ∧ ahead = 0#32 then .error .sequenceOutsideWindow
    else if 3#32 * detectMult.setWidth 32 < ahead then .error .sequenceOutsideWindow
    else .ok ()

def advance (_ : SeqState) (seq : BitVec 32) : SeqState := ⟨seq, true⟩

end SeqState

/-! ## Signer and verifier -/

/-- Source: signer.go Settings. -/
structure AuthSettings where
  type : Octet
  keyID : Octet
  secret : List Octet
  meticulous : Bool

structure DigestSigner where
  authType : Octet
  keyID : Octet
  bodyLen : ℕ
  key : List Octet
  digest : List Octet → List Octet

/-- The verifier; its two scratch buffers hold nothing from one packet to the next.
Source: sha1.go. -/
structure DigestVerifier extends DigestSigner where
  meticulous : Bool

/-- A received packet: its octets, and the two fields of its parsed form that are read.
Source: sha1.go the arguments of Verify -/
structure AuthPacket where
  data : List Octet
  length : Octet
  detectMult : Octet

def mandatoryLen : ℕ := 24

def authLenKeyedSHA1 : ℕ := 28

def authTypeMeticulousKeyedSHA1 : Octet := 5#8

/-- Source: encoding/binary: BigEndian.PutUint32. -/
def putUint32 (n : BitVec 32) : List Octet := Lib.Sha1.octets n

/-- Source: encoding/binary: BigEndian.Uint32. -/
def uint32 (data : List Octet) (off : ℕ) : BitVec 32 :=
  (data.getD off 0#8 ++ data.getD (off + 1) 0#8 ++ data.getD (off + 2) 0#8 ++
    data.getD (off + 3) 0#8 : BitVec 32)

/-- The sequence number of a packet. Source: sha1.go Verify. -/
def AuthPacket.seq (p : AuthPacket) : BitVec 32 := uint32 p.data (mandatoryLen + 4)

/-- Source: sha1.go. -/
def newDigestSigner (cfg : AuthSettings) (bodyLen : ℕ) (digest : List Octet → List Octet) :
    DigestSigner where
  authType := cfg.type
  keyID := cfg.keyID
  bodyLen := bodyLen
  key := (cfg.secret ++ replicate (bodyLen - 8) 0#8).take (bodyLen - 8)
  digest := digest

/-- Source: sha1.go. -/
def newDigestVerifier (cfg : AuthSettings) (bodyLen : ℕ) (digest : List Octet → List Octet)
    (meticulous : Bool) : DigestVerifier :=
  { newDigestSigner cfg bodyLen digest with meticulous := meticulous }

/-- Source: sha1.go. -/
def newSHA1Verifier (cfg : AuthSettings) : DigestVerifier :=
  newDigestVerifier cfg authLenKeyedSHA1 Lib.Sha1.sum
    (cfg.type == authTypeMeticulousKeyedSHA1 || cfg.meticulous)

/-- The section up to the digest. Source: sha1.go Sign. -/
def DigestSigner.header (s : DigestSigner) (seq : BitVec 32) : List Octet :=
  [s.authType, ofNat 8 s.bodyLen, s.keyID, 0#8] ++ putUint32 seq

/-- Source: sha1.go. -/
def DigestSigner.sign (s : DigestSigner) (mandatory : List Octet) (seq : BitVec 32) : List Octet :=
  mandatory ++ s.header seq ++ s.digest (mandatory ++ s.header seq ++ s.key)

namespace DigestVerifier

variable (v : DigestVerifier)

/-- The checks before the sequence number is read: the lengths, the type and the key.
Source: sha1.go Verify, down to seq -/
def checkSection (p : AuthPacket) : Except AuthError Unit :=
  if p.length.toNat < mandatoryLen + v.bodyLen then .error .shortAuthBody
  else if p.data.length < p.length.toNat then .error .shortAuthBody
  else if p.length.toNat ≠ mandatoryLen + v.bodyLen then .error .digestMismatch
  else if p.data.getD mandatoryLen 0#8 ≠ v.authType then .error .digestMismatch
  else if (p.data.getD (mandatoryLen + 1) 0#8).toNat ≠ v.bodyLen then .error .digestMismatch
  else if p.data.getD (mandatoryLen + 2) 0#8 ≠ v.keyID then .error .digestMismatch
  else .ok ()

/-- Whether the digest is the one over the packet with the key in its place. The length of the
packet is that of its sections here, so nothing follows the digest.
Source: sha1.go Verify, from received on -/
def digestMatches (p : AuthPacket) : Bool :=
  v.digest (p.data.take (mandatoryLen + 8) ++ v.key) ==
    (p.data.take (mandatoryLen + v.bodyLen)).drop (mandatoryLen + 8)

/-- The verdict on a packet and the state after it. The first packet sets the number before its
digest is looked at. Source: sha1.go. -/
def verify (p : AuthPacket) (s : SeqState) : Except AuthError Unit × SeqState :=
  match v.checkSection p with
  | .error e => (.error e, s)
  | .ok () =>
    match s.check p.seq v.meticulous p.detectMult with
    | .error e => (.error e, s)
    | .ok () =>
      let seeded := if s.initialized = false then s.advance p.seq else s
      if v.digestMatches p then (.ok (), seeded.advance p.seq)
      else (.error .digestMismatch, seeded)

/-! ## One packet -/

variable {v} {p : AuthPacket} {s : SeqState}

/-- All that a verification can do: it refuses the packet and leaves the state, it refuses the first
packet and takes its number, or it accepts a packet of the window and takes its number. -/
lemma verify_cases :
    (∃ e, v.verify p s = (.error e, s)) ∨
      (s.initialized = false ∧ ∃ e, v.verify p s = (.error e, ⟨p.seq, true⟩)) ∨
      (s.check p.seq v.meticulous p.detectMult = .ok () ∧
        v.verify p s = (.ok (), ⟨p.seq, true⟩)) := by
  unfold verify
  rcases hsection : v.checkSection p with e | ⟨⟩
  · exact .inl ⟨e, rfl⟩
  · rcases hcheck : s.check p.seq v.meticulous p.detectMult with e | ⟨⟩
    · exact .inl ⟨e, rfl⟩
    · dsimp only
      by_cases hdigest : v.digestMatches p
      · rw [if_pos hdigest]
        exact .inr (.inr ⟨rfl, rfl⟩)
      · rw [if_neg hdigest]
        by_cases hinit : s.initialized = false
        · rw [if_pos hinit]
          exact .inr (.inl ⟨hinit, _, rfl⟩)
        · rw [if_neg hinit]
          exact .inl ⟨_, rfl⟩

/-- A packet is accepted. Source: sha1.go Verify, nil. -/
def Accepts (v : DigestVerifier) (s : SeqState) (p : AuthPacket) : Prop :=
  (v.verify p s).1 = .ok ()

instance (v : DigestVerifier) (s : SeqState) (p : AuthPacket) : Decidable (v.Accepts s p) :=
  match h : (v.verify p s).1 with
  | .ok () => isTrue h
  | .error e => isFalse fun hok => by
      rw [Accepts, h] at hok
      cases hok

lemma Accepts.spec (h : v.Accepts s p) :
    s.check p.seq v.meticulous p.detectMult = .ok () ∧
      (v.verify p s).2 = ⟨p.seq, true⟩ := by
  unfold Accepts at h
  rcases verify_cases (v := v) (p := p) (s := s) with ⟨e, he⟩ | ⟨_, e, he⟩ | ⟨hcheck, hok⟩
  · rw [he] at h
    cases h
  · rw [he] at h
    cases h
  · exact ⟨hcheck, congrArg Prod.snd hok⟩

lemma verify_snd_of_not_accepts (hinit : s.initialized) (h : ¬ v.Accepts s p) :
    (v.verify p s).2 = s := by
  unfold Accepts at h
  rcases verify_cases (v := v) (p := p) (s := s) with ⟨e, he⟩ | ⟨hnot, _⟩ | ⟨_, hok⟩
  · rw [he]
  · rw [hinit] at hnot
    cases hnot
  · rw [hok] at h
    exact absurd rfl h

lemma Accepts.ahead (h : v.Accepts s p) (hinit : s.initialized)
    (hmet : v.meticulous) : p.seq - s.last ≠ 0#32 := by
  intro hzero
  have hcheck := h.spec.1
  unfold SeqState.check at hcheck
  rw [if_neg (by rw [hinit]; decide), if_pos ⟨hmet, hzero⟩] at hcheck
  cases hcheck

/-! ## A signed packet -/

section

variable {mandatory : List Octet} (hmandatory : mandatory.length = mandatoryLen)

include hmandatory

lemma getD_mandatory (rest : List Octet) (i : ℕ) :
    (mandatory ++ rest).getD (mandatoryLen + i) 0#8 = rest.getD i 0#8 := by
  rw [← hmandatory, getD_append_right _ _ _ _ (Nat.le_add_right _ i), Nat.add_sub_cancel_left]

lemma seq_sign (signer : DigestSigner) (seq : BitVec 32) (length mult : Octet) :
    AuthPacket.seq ⟨signer.sign mandatory seq, length, mult⟩ = seq := by
  unfold AuthPacket.seq uint32 DigestSigner.sign DigestSigner.header
  simp only [append_assoc, Nat.add_assoc, Nat.reduceAdd]
  simp only [getD_mandatory hmandatory, putUint32, Lib.Sha1.octets, cons_append,
    nil_append, getD_cons_zero, getD_cons_succ]
  have hjoin : ∀ (a b len len' : ℕ), b = a + len' →
      seq.extractLsb' b len ++ seq.extractLsb' a len' = seq.extractLsb' a (len + len') :=
    fun _ _ _ _ h => BitVec.extractLsb'_append_extractLsb'_eq_extractLsb' h
  rw [hjoin 16 24 8 8 rfl, hjoin 8 16 (8 + 8) 8 rfl, hjoin 0 8 (8 + 8 + 8) 8 rfl]
  exact BitVec.extractLsb'_eq_self

lemma accepts_sign (hbody : 8 ≤ v.bodyLen) (hoctet : mandatoryLen + v.bodyLen < 256)
    (hdigest : ∀ data, (v.digest data).length = v.bodyLen - 8) {seq : BitVec 32} {mult : Octet}
    (hcheck : s.check seq v.meticulous mult = .ok ()) :
    v.Accepts s ⟨v.sign mandatory seq, ofNat 8 (mandatoryLen + v.bodyLen), mult⟩ := by
  have hheader : (v.header seq).length = 8 := rfl
  have hfront : (mandatory ++ v.header seq).length = mandatoryLen + 8 := by
    rw [length_append, hmandatory, hheader]
  have hlength : (v.sign mandatory seq).length = mandatoryLen + v.bodyLen := by
    rw [DigestSigner.sign, length_append, hfront, hdigest]
    omega
  have hfield : (ofNat 8 (mandatoryLen + v.bodyLen)).toNat = mandatoryLen + v.bodyLen := by
    rw [toNat_ofNat, Nat.mod_eq_of_lt hoctet]
  have hsection : v.checkSection
      ⟨v.sign mandatory seq, ofNat 8 (mandatoryLen + v.bodyLen), mult⟩ = .ok () := by
    have hget := getD_mandatory hmandatory
    have hfirst := fun rest => hget rest 0
    simp only [Nat.add_zero] at hfirst
    have hbodyLen : (ofNat 8 v.bodyLen).toNat = v.bodyLen := by
      rw [toNat_ofNat, Nat.mod_eq_of_lt (by omega)]
    unfold checkSection
    simp only [hfield, hlength, Nat.lt_irrefl, if_false, ne_eq, not_true_eq_false]
    unfold DigestSigner.sign DigestSigner.header
    simp only [append_assoc, hget, hfirst, cons_append, nil_append,
      getD_cons_zero, getD_cons_succ, hbodyLen, not_true_eq_false, if_false]
  have hmatches : v.digestMatches
      ⟨v.sign mandatory seq, ofNat 8 (mandatoryLen + v.bodyLen), mult⟩ := by
    unfold digestMatches
    rw [take_of_length_le (Nat.le_of_eq hlength), DigestSigner.sign, ← hfront,
      take_left, drop_left, beq_self_eq_true]
  unfold Accepts verify
  rw [hsection]
  rw [seq_sign hmandatory, hcheck]
  rw [if_pos hmatches]

end

/-! ## A run -/

/-- The state after some packets. Source: session/auth.go Verify, packet after packet. -/
def after (v : DigestVerifier) (s : SeqState) (packets : List AuthPacket) : SeqState :=
  packets.foldl (fun s p => (v.verify p s).2) s

/-- By how much the accepted numbers have advanced in all. -/
def advanced (v : DigestVerifier) : SeqState → List AuthPacket → ℕ
  | _, [] => 0
  | s, p :: packets =>
    (if v.Accepts s p then (p.seq - s.last).toNat else 0) +
      advanced v (v.verify p s).2 packets

lemma advanced_append (packets packets' : List AuthPacket) :
    v.advanced s (packets ++ packets')
      = v.advanced s packets + v.advanced (v.after s packets) packets' := by
  induction packets generalizing s with
  | nil => exact (Nat.zero_add _).symm
  | cons p packets ih =>
    rw [cons_append, advanced, advanced, ih, Nat.add_assoc]
    rfl

lemma last_after (packets : List AuthPacket) (hinit : s.initialized) :
    (v.after s packets).initialized ∧
      (v.after s packets).last = s.last + ofNat 32 (v.advanced s packets) := by
  induction packets generalizing s with
  | nil => exact ⟨hinit, (BitVec.add_zero s.last).symm⟩
  | cons p packets ih =>
    rw [advanced]
    change (v.after (v.verify p s).2 packets).initialized = true ∧
      (v.after (v.verify p s).2 packets).last = _
    by_cases hacc : v.Accepts s p
    · have hnext := hacc.spec.2
      obtain ⟨hkept, hlast⟩ := ih (s := (v.verify p s).2) (by rw [hnext])
      refine ⟨hkept, ?_⟩
      rw [hlast, if_pos hacc, BitVec.ofNat_add, BitVec.ofNat_toNat, BitVec.setWidth_eq]
      rw [hnext, ← BitVec.add_assoc, BitVec.add_comm s.last, BitVec.sub_add_cancel]
    · rw [if_neg hacc, Nat.zero_add, verify_snd_of_not_accepts hinit hacc]
      exact ih hinit

/-- After a packet was accepted, a packet with its number is not accepted again before the accepted
numbers have advanced by `2 ^ 32` in all, and a packet that is refused leaves the state alone. -/
theorem replay_protected (v : DigestVerifier) (hmet : v.meticulous) (s : SeqState)
    (before : List AuthPacket) (p : AuthPacket) (hp : v.Accepts (v.after s before) p)
    (mid : List AuthPacket) (q : AuthPacket) :
    (v.Accepts (v.after s (before ++ p :: mid)) q → q.seq = p.seq →
        2 ^ 32 ≤ v.advanced (v.after s (before ++ [p])) (mid ++ [q])) ∧
      ∀ e, (v.verify q (v.after s (before ++ p :: mid))).1 = .error e →
        (v.verify q (v.after s (before ++ p :: mid))).2 = v.after s (before ++ p :: mid) := by
  have hstart : v.after s (before ++ [p]) = ⟨p.seq, true⟩ := by
    rw [after, foldl_append]
    exact hp.spec.2
  have hreach : v.after s (before ++ p :: mid) = v.after ⟨p.seq, true⟩ mid := by
    rw [← hstart, append_cons before p mid, after, foldl_append]
    rfl
  obtain ⟨hinit, hlast⟩ := last_after (v := v) (s := ⟨p.seq, true⟩) mid rfl
  rw [hreach]
  constructor
  · intro hq hseq
    rw [hstart, advanced_append, advanced, advanced, if_pos hq, Nat.add_zero]
    have hahead := hq.ahead hinit hmet
    -- The number comes back where it was, so the total advance is a multiple of `2 ^ 32`.
    rw [hlast, hseq] at hahead ⊢
    dsimp only at hahead ⊢
    generalize v.advanced ⟨p.seq, true⟩ mid = total at hahead ⊢
    have hmod : ((p.seq - (p.seq + ofNat 32 total)).toNat + total) % 2 ^ 32 = 0 := by
      bv_omega
    have hpos : 0 < (p.seq - (p.seq + ofNat 32 total)).toNat := by
      bv_omega
    omega
  · intro e he
    apply verify_snd_of_not_accepts hinit
    intro hacc
    rw [hacc] at he
    cases he

/-- A verifier of Meticulous Keyed SHA1. Source: auth/sha1_test.go. -/
def exampleVerifier : DigestVerifier := newSHA1Verifier ⟨5#8, 1#8, [0x6b#8], true⟩

/-- A packet that the peer signs under a number. Source: sha1_test.go controlBytes. -/
def examplePacket (seq : BitVec 32) : AuthPacket where
  data := exampleVerifier.sign
    [0x20#8, 0x44#8, 3#8, 52#8, 1#8, 2#8, 3#8, 4#8, 0#8, 0#8, 0#8, 0#8,
      0#8, 0x0f#8, 0x42#8, 0x40#8, 0#8, 0x0f#8, 0x42#8, 0x40#8, 0#8, 0#8, 0#8, 0#8] seq
  length := 52#8
  detectMult := 3#8

/-- The packet under 10 is accepted, and after the one under 11 it is not accepted again. -/
theorem replayed_ten_refused :
    exampleVerifier.meticulous ∧
      exampleVerifier.Accepts (exampleVerifier.after ⟨0#32, false⟩ []) (examplePacket 10#32) ∧
      ¬ exampleVerifier.Accepts
        (exampleVerifier.after ⟨0#32, false⟩ ([] ++ examplePacket 10#32 :: [examplePacket 11#32]))
        (examplePacket 10#32) := by
  have hfirst : exampleVerifier.Accepts (exampleVerifier.after ⟨0#32, false⟩ [])
      (examplePacket 10#32) :=
    accepts_sign rfl (by decide) (by decide) Lib.Sha1.length_sum rfl
  refine ⟨rfl, hfirst, ?_⟩
  intro hagain
  have hfar := (replay_protected exampleVerifier rfl ⟨0#32, false⟩ [] (examplePacket 10#32)
    hfirst [examplePacket 11#32] (examplePacket 10#32)).1 hagain rfl
  exact absurd hfar (by decide +kernel)

end DigestVerifier

end Ze.Bfd
