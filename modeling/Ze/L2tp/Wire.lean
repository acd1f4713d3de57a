import Mathlib.Data.List.Basic

/-!
# L2TP control messages on the wire

The header of `internal/component/l2tp/header.go` and the first AVP of `avp.go`, over lists of
octets. `writeControlHeader` stamps the twelve octets in front of a body and
`parseMessageHeader` reads them back with every error path of the source; `payloadOf` is the slice
that the reactor cuts out of a datagram.
-/

namespace Ze.L2tp

open List
open UInt16 (ofNat toNat_ofNat')

/-! ## Octets -/

/-- The high octet of a number. Source: encoding/binary: byte(v >> 8). -/
def hiOctet (v : UInt16) : UInt8 :=
  UInt8.ofNat (v.toNat / 256)

/-- The low octet of a number. Source: encoding/binary: byte(v). -/
def loOctet (v : UInt16) : UInt8 :=
  UInt8.ofNat v.toNat

/-- The number in two octets, high octet first; an octet beyond the end reads as zero, which no
caller does. Source: encoding/binary: BigEndian.Uint16(b[off:]). -/
def getUint16 (b : List UInt8) (off : ℕ) : UInt16 :=
  ofNat ((b.getD off 0).toNat * 256 + (b.getD (off + 1) 0).toNat)

/-- A number written over two octets. Source: encoding/binary: BigEndian.PutUint16(b[off:], v).
-/
def putUint16 (b : List UInt8) (off : ℕ) (v : UInt16) : List UInt8 :=
  (b.set off (hiOctet v)).set (off + 1) (loOctet v)

lemma octets_eq (v : UInt16) : ofNat ((hiOctet v).toNat * 256 + (loOctet v).toNat) = v := by
  have hv := v.toNat_lt
  have hhi : (hiOctet v).toNat = v.toNat / 256 := by
    rw [hiOctet, UInt8.toNat_ofNat']
    omega
  have hlo : (loOctet v).toNat = v.toNat % 256 := by
    rw [loOctet, UInt8.toNat_ofNat']
  rw [hhi, hlo]
  have hsum : v.toNat / 256 * 256 + v.toNat % 256 = v.toNat := by omega
  rw [hsum, UInt16.ofNat_toNat]

lemma getUint16_cons_cons (x y : UInt8) (b : List UInt8) (off : ℕ) :
    getUint16 (x :: y :: b) (off + 2) = getUint16 b off := rfl

lemma getUint16_octets (v : UInt16) (b : List UInt8) :
    getUint16 (hiOctet v :: loOctet v :: b) 0 = v := by
  rw [getUint16]
  exact octets_eq v

/-! ## The header -/

/-- Why a header is refused. Source: errors.go ErrShortBuffer, ErrUnsupportedVersion,
ErrMalformedControl. -/
inductive ParseError
  | shortBuffer
  | unsupportedVersion
  | malformedControl
  deriving DecidableEq

/-- Source: header.go. -/
structure MessageHeader where
  isControl : Bool
  hasLength : Bool := false
  hasSequence : Bool := false
  hasOffset : Bool := false
  priority : Bool := false
  version : UInt16 := 2
  length : UInt16 := 0
  tunnelID : UInt16 := 0
  sessionID : UInt16 := 0
  ns : UInt16 := 0
  nr : UInt16 := 0
  offsetSize : UInt16 := 0
  payloadOff : ℕ := 0
  deriving DecidableEq

/-- Source: header.go. -/
def controlHeaderLen : ℕ := 12

/-- `T=1, L=1, S=1, O=0, P=0, Ver=2`. Source: header.go. -/
def controlFlagsFixed : UInt16 := 0xC802

/-- Source: header.go. -/
def writeControlHeader (buf : List UInt8) (off : ℕ) (length tunnelID sessionID ns nr : UInt16) :
    List UInt8 :=
  let buf := putUint16 buf off controlFlagsFixed
  let buf := putUint16 buf (off + 2) length
  let buf := putUint16 buf (off + 4) tunnelID
  let buf := putUint16 buf (off + 6) sessionID
  let buf := putUint16 buf (off + 8) ns
  putUint16 buf (off + 10) nr

/-- The `Length` word: read when the header has one, and checked against the datagram.
Source: header.go ParseMessageHeader, the HasLength block -/
def readLength (b : List UInt8) (h : MessageHeader) : Except ParseError (MessageHeader × ℕ) :=
  if h.hasLength then
    if b.length < 4 then .error .shortBuffer
    else
      let length := getUint16 b 2
      if length.toNat < 4 ∨ b.length < length.toNat then .error .shortBuffer
      else .ok ({ h with length }, 4)
  else .ok (h, 2)

/-- The two identifiers. Source: header.go ParseMessageHeader, TunnelID and SessionID. -/
def readIDs (b : List UInt8) (h : MessageHeader) (off : ℕ) :
    Except ParseError (MessageHeader × ℕ) :=
  if b.length < off + 4 then .error .shortBuffer
  else .ok ({ h with tunnelID := getUint16 b off, sessionID := getUint16 b (off + 2) }, off + 4)

/-- The sequence words, when the header has them.
Source: header.go ParseMessageHeader, the HasSequence block -/
def readSequence (b : List UInt8) (h : MessageHeader) (off : ℕ) :
    Except ParseError (MessageHeader × ℕ) :=
  if h.hasSequence then
    if b.length < off + 4 then .error .shortBuffer
    else .ok ({ h with ns := getUint16 b off, nr := getUint16 b (off + 2) }, off + 4)
  else .ok (h, off)

/-- The offset word and the pad it announces, when the header has them.
Source: header.go ParseMessageHeader, the HasOffset block -/
def readOffset (b : List UInt8) (h : MessageHeader) (off : ℕ) :
    Except ParseError (MessageHeader × ℕ) :=
  if h.hasOffset then
    if b.length < off + 2 then .error .shortBuffer
    else
      let offsetSize := getUint16 b off
      if b.length < off + 2 + offsetSize.toNat then .error .shortBuffer
      else .ok ({ h with offsetSize }, off + 2 + offsetSize.toNat)
  else .ok (h, off)

/-- The header at the start of a datagram. The version is looked at before the length, and a control
message has to carry both `Length` and the sequence words. Source: header.go. -/
def parseMessageHeader (b : List UInt8) : Except ParseError MessageHeader :=
  if b.length < 2 then .error .shortBuffer
  else
    let word := getUint16 b 0
    let h : MessageHeader :=
      { isControl := word &&& 0x8000 != 0
        hasLength := word &&& 0x4000 != 0
        hasSequence := word &&& 0x0800 != 0
        hasOffset := word &&& 0x0200 != 0
        priority := word &&& 0x0100 != 0
        version := word &&& 0x000F }
    if h.version != 2 then .error .unsupportedVersion
    else if b.length < 6 then .error .shortBuffer
    else if h.isControl && (!h.hasLength || !h.hasSequence) then .error .malformedControl
    else do
      let (h, off) ← readLength b h
      let (h, off) ← readIDs b h off
      let (h, off) ← readSequence b h off
      let (h, off) ← readOffset b h off
      if h.hasLength ∧ h.length.toNat < off then .error .shortBuffer
      else .ok { h with payloadOff := off }

/-- The body of a datagram. Source: reactor.go pkt.bytes[hdr.PayloadOff:int(hdr.Length)]. -/
def payloadOf (b : List UInt8) (h : MessageHeader) : List UInt8 :=
  (b.take h.length.toNat).drop h.payloadOff

/-! ## Control messages -/

/-- What a control message says: the session its header names and its AVPs.
Source: reliable.go Enqueue(sessionID, body) -/
structure Message where
  sessionID : UInt16
  body : List UInt8
  deriving DecidableEq

/-- The octets of a message: the header stamped in front of the body, in a buffer that leaves twelve
octets for it. Source: reliable.go send, slab[:length]. -/
def frame (tunnelID : UInt16) (m : Message) (ns nr : UInt16) : List UInt8 :=
  writeControlHeader (replicate controlHeaderLen 0 ++ m.body) 0
    (ofNat (controlHeaderLen + m.body.length)) tunnelID m.sessionID ns nr

section

variable (tunnelID : UInt16) (m : Message) (ns nr nr' : UInt16)

lemma frame_eq :
    frame tunnelID m ns nr =
      hiOctet controlFlagsFixed :: loOctet controlFlagsFixed ::
      hiOctet (ofNat (controlHeaderLen + m.body.length)) ::
      loOctet (ofNat (controlHeaderLen + m.body.length)) ::
      hiOctet tunnelID :: loOctet tunnelID :: hiOctet m.sessionID :: loOctet m.sessionID ::
      hiOctet ns :: loOctet ns :: hiOctet nr :: loOctet nr :: m.body := by
  simp only [frame, writeControlHeader, putUint16, controlHeaderLen, replicate_succ,
    replicate_zero, cons_append, nil_append, Nat.zero_add, Nat.reduceAdd,
    set_cons_zero, set_cons_succ]

lemma frame_rewrite : putUint16 (frame tunnelID m ns nr) 10 nr' = frame tunnelID m ns nr' := by
  rw [frame_eq, frame_eq]
  simp only [putUint16, Nat.reduceAdd, set_cons_zero, set_cons_succ]

lemma frame_length : (frame tunnelID m ns nr).length = m.body.length + 12 := by
  rw [frame_eq]
  rfl

def frameHeader : MessageHeader where
  isControl := true
  hasLength := true
  hasSequence := true
  version := 2
  length := ofNat (controlHeaderLen + m.body.length)
  tunnelID := tunnelID
  sessionID := m.sessionID
  ns := ns
  nr := nr
  payloadOff := controlHeaderLen

lemma parse_frame (h : controlHeaderLen + m.body.length ≤ 1023) :
    parseMessageHeader (frame tunnelID m ns nr) = .ok (frameHeader tunnelID m ns nr) := by
  have hword : getUint16 (frame tunnelID m ns nr) 0 = controlFlagsFixed := by
    rw [frame_eq, getUint16_octets]
  have hlen : getUint16 (frame tunnelID m ns nr) 2 = ofNat (controlHeaderLen + m.body.length) := by
    rw [frame_eq, getUint16_cons_cons, getUint16_octets]
  have htid : getUint16 (frame tunnelID m ns nr) 4 = tunnelID := by
    rw [frame_eq, getUint16_cons_cons, getUint16_cons_cons, getUint16_octets]
  have hsid : getUint16 (frame tunnelID m ns nr) 6 = m.sessionID := by
    rw [frame_eq]
    iterate 3 rw [getUint16_cons_cons]
    rw [getUint16_octets]
  have hns : getUint16 (frame tunnelID m ns nr) 8 = ns := by
    rw [frame_eq]
    iterate 4 rw [getUint16_cons_cons]
    rw [getUint16_octets]
  have hnr : getUint16 (frame tunnelID m ns nr) 10 = nr := by
    rw [frame_eq]
    iterate 5 rw [getUint16_cons_cons]
    rw [getUint16_octets]
  have hnat : (ofNat (controlHeaderLen + m.body.length)).toNat = m.body.length + 12 := by
    rw [toNat_ofNat']
    unfold controlHeaderLen at h ⊢
    omega
  have hsize := frame_length tunnelID m ns nr
  unfold parseMessageHeader
  simp only [hword, hsize]
  rw [if_neg (by omega), if_neg (by decide), if_neg (by omega), if_neg (by decide)]
  have hflags : (controlFlagsFixed &&& 0x4000 != 0) := by decide
  have hseq : (controlFlagsFixed &&& 0x0800 != 0) := by decide
  have hoff : (controlFlagsFixed &&& 0x0200 != 0) = false := by decide
  -- the four blocks of the header, each with room for what it reads
  have hlong : ¬ (m.body.length + 12 < 4 ∨ m.body.length + 12 < m.body.length + 12) := by omega
  have h4 : ¬ m.body.length + 12 < 4 := by omega
  have h8 : ¬ m.body.length + 12 < 4 + 4 := by omega
  have h12 : ¬ m.body.length + 12 < 4 + 4 + 4 := by omega
  simp only [readLength, readIDs, readSequence, readOffset, hlen, htid, hsid, hns, hnr, hnat,
    hsize, hflags, hseq, hoff, if_true, Bool.false_eq_true, if_false, if_neg hlong, if_neg h4,
    if_neg h8, if_neg h12, true_and, bind, Except.bind]
  rfl

lemma payloadOf_frame (h : controlHeaderLen + m.body.length ≤ 1023) :
    payloadOf (frame tunnelID m ns nr) (frameHeader tunnelID m ns nr) = m.body := by
  have hnat : (ofNat (controlHeaderLen + m.body.length)).toNat = m.body.length + 12 := by
    rw [toNat_ofNat']
    unfold controlHeaderLen at h ⊢
    omega
  have htake : (frame tunnelID m ns nr).take (m.body.length + 12) = frame tunnelID m ns nr :=
    take_of_length_le (Nat.le_of_eq (frame_length tunnelID m ns nr))
  unfold payloadOf frameHeader
  simp only
  rw [hnat, htake]
  rfl

end

/-! ## The first AVP -/

/-- One attribute of a message. Source: avp.go the results of AVPIterator.Next. -/
structure AVP where
  vendorID : UInt16
  attrType : UInt16
  mandatory : Bool
  hidden : Bool
  value : List UInt8

/-- Source: avp.go. -/
def avpHeaderLen : ℕ := 6

/-- Source: avp.go. -/
def avpMessageType : UInt16 := 0

/-- The attribute at the start of a payload. Source: avp.go AVPIterator.Next on a fresh
iterator. -/
def nextAVP (data : List UInt8) : Option AVP :=
  if data.length < avpHeaderLen then none
  else
    let word := getUint16 data 0
    let length := (word &&& 0x03FF).toNat
    if length < avpHeaderLen ∨ data.length < length then none
    else
      some
        { vendorID := getUint16 data 2
          attrType := getUint16 data 4
          mandatory := word &&& 0x8000 != 0
          hidden := word &&& 0x4000 != 0
          value := (data.take length).drop avpHeaderLen }

end Ze.L2tp
