import Ze.AsPath.Merge
import Mathlib.Algebra.Order.Ring.Int

/-!
# AS paths and path attributes on the wire

The octets of `internal/core/bgp/attribute/aspath.go` and `as4.go` (`WriteToWithASN4`,
`ParseASPath`, `ParseAS4Path`, `expandASPath2to4`), the attribute header of `attribute.go`, and the
sections and attributes of an UPDATE body as `internal/component/bgp/wireu` walks them.

Default file: `aspath.go`.
-/

namespace Ze.AsPath

open List
open BitVec (ofNat toNat_ofNat)

/-! ## Octets -/

/-- An octet. Source: byte. -/
abbrev Octet := BitVec 8

/-- The sixteen low bits of a number, high octet first. Source: encoding/binary:
BigEndian.PutUint16(b, uint16(n)). -/
def putUint16 (n : ℕ) : List Octet := [ofNat 8 (n / 256), ofNat 8 n]

/-- Source: encoding/binary: BigEndian.Uint16. -/
def uint16 (a b : Octet) : ℕ := a.toNat * 256 + b.toNat

/-- Source: encoding/binary: BigEndian.PutUint32. -/
def putUint32 (asn : Asn) : List Octet :=
  [ofNat 8 (asn.toNat / 16777216), ofNat 8 (asn.toNat / 65536),
    ofNat 8 (asn.toNat / 256), ofNat 8 asn.toNat]

/-- Source: encoding/binary: BigEndian.Uint32. -/
def uint32 (a b c d : Octet) : Asn :=
  ofNat 32 (a.toNat * 16777216 + b.toNat * 65536 + c.toNat * 256 + d.toNat)

@[simp] lemma uint16_ofNat (n : ℕ) : uint16 (ofNat 8 (n / 256)) (ofNat 8 n) = n % 65536 := by
  rw [uint16, toNat_ofNat, toNat_ofNat]
  omega

lemma uint16_lt (a b : Octet) : uint16 a b < 65536 := by
  rw [uint16]
  omega

@[simp] lemma uint32_ofNat (asn : Asn) :
    uint32 (ofNat 8 (asn.toNat / 16777216)) (ofNat 8 (asn.toNat / 65536))
      (ofNat 8 (asn.toNat / 256)) (ofNat 8 asn.toNat) = asn := by
  apply BitVec.eq_of_toNat_eq
  simp only [uint32, toNat_ofNat]
  omega

/-! ## Segments -/

namespace SegmentType

/-- The octet of a segment type. Source: ASSet to ASConfedSet. -/
def octet : SegmentType → Octet
  | asSet => 1#8
  | asSequence => 2#8
  | asConfedSequence => 3#8
  | asConfedSet => 4#8

/-- The segment type of an octet, if it is one. Source: aspath.go segType < ASSet || segType >
ASConfedSet; as4.go isValidSegmentType. -/
def ofOctet (b : Octet) : Option SegmentType :=
  [asSet, asSequence, asConfedSequence, asConfedSet].find? fun t => t.octet == b

@[simp] lemma ofOctet_octet (t : SegmentType) : ofOctet t.octet = some t := by
  cases t <;> rfl

end SegmentType

def maxASPathSegmentLength : ℕ := 255

def maxASPathTotalLength : ℕ := 1000

/-- Source: writeSegmentWithSplit, asnSize. -/
def asnSize (asn4 : Bool) : ℕ := if asn4 then 4 else 2

/-- An AS number as written: at two octets AS_TRANS stands for one they do not hold.
Source: writeSegmentWithSplit. -/
def writeAsn (asn4 : Bool) (asn : Asn) : List Octet :=
  if asn4 then putUint32 asn else putUint16 (narrowAsn asn).toNat

def writeSegmentWithSplit (type : SegmentType) (asns : List Asn) (asn4 : Bool) : List Octet :=
  if asns.length = 0 then []
  else
    [type.octet, ofNat 8 (min asns.length maxASPathSegmentLength)] ++
      (asns.take maxASPathSegmentLength).flatMap (writeAsn asn4) ++
      (if maxASPathSegmentLength < asns.length then
        writeSegmentWithSplit type (asns.drop maxASPathSegmentLength) asn4
      else [])
termination_by asns.length
decreasing_by
  simp only [length_drop, maxASPathSegmentLength] at *
  omega

def writeToWithASN4 (p : Path) (asn4 : Bool) : List Octet :=
  p.flatMap fun s => writeSegmentWithSplit s.type s.asns asn4

def lenWithASN4 (p : Path) (asn4 : Bool) : ℕ :=
  (p.map fun s =>
    if s.asns.length = 0 then 0
    else (s.asns.length + maxASPathSegmentLength - 1) / maxASPathSegmentLength * 2 +
      s.asns.length * asnSize asn4).sum

/-- An AS4_PATH as written, less the confederation segments; a segment is never split. Source:
as4.go AS4Path.WriteTo. -/
def writeAS4Path (p : Path) : List Octet :=
  (p.filter fun s => !s.type.isConfedSegment).flatMap fun s =>
    [s.type.octet, ofNat 8 s.asns.length] ++ s.asns.flatMap putUint32

/-- The octets that an AS4_PATH takes. Source: as4.go AS4Path.Len. -/
def lenAS4Path (p : Path) : ℕ :=
  ((p.filter fun s => !s.type.isConfedSegment).map fun s => 2 + s.asns.length * 4).sum

/-- Why a path is refused. Source: ErrShortData, ErrMalformedASPath, ErrInvalidLength,
ErrMalformedValue. -/
inductive PathError
  | shortData
  | malformedASPath
  | invalidLength
  | malformedValue
  deriving DecidableEq, Repr

/-- The AS numbers at the head of some octets; the callers have checked that they are there. Source:
aspath.go ParseASPath, the inner loop; as4.go ParseAS4Path. -/
def readAsns (fourByte : Bool) : ℕ → List Octet → List Asn
  | 0, _ => []
  | n + 1, data =>
    if fourByte then
      match data with
      | a :: b :: c :: d :: rest => uint32 a b c d :: readAsns fourByte n rest
      | _ => []
    else
      match data with
      | a :: b :: rest => ofNat 32 (uint16 a b) :: readAsns fourByte n rest
      | _ => []

/-- The segments of an AS_PATH, given the AS numbers already counted. Source: ParseASPath. -/
def parseSegments (fourByte : Bool) (totalASNs : ℕ) : List Octet → Except PathError Path
  | [] => .ok []
  | [_] => .error .shortData
  | t :: count :: rest =>
    match SegmentType.ofOctet t with
    | none => .error .malformedASPath
    | some type =>
      if maxASPathTotalLength < totalASNs + count.toNat then .error .malformedASPath
      else if rest.length < count.toNat * asnSize fourByte then .error .shortData
      else do
        let p ← parseSegments fourByte (totalASNs + count.toNat)
          (rest.drop (count.toNat * asnSize fourByte))
        return ⟨type, readAsns fourByte count.toNat rest⟩ :: p
termination_by data => data.length
decreasing_by
  simp only [length_drop, length_cons]
  omega

def parseASPath (data : List Octet) (fourByte : Bool) : Except PathError Path :=
  parseSegments fourByte 0 data

/-- The segments of an AS4_PATH. Source: as4.go ParseAS4Path, the loop. -/
def parseAS4Segments : List Octet → Except PathError Path
  | [] => .ok []
  | [_] => .error .shortData
  | t :: count :: rest =>
    if count.toNat = 0 then .error .invalidLength
    else
      match SegmentType.ofOctet t with
      | none => .error .malformedValue
      | some type =>
        if rest.length < count.toNat * 4 then .error .shortData
        else do
          let p ← parseAS4Segments (rest.drop (count.toNat * 4))
          return ⟨type, readAsns true count.toNat rest⟩ :: p
termination_by data => data.length
decreasing_by
  simp only [length_drop, length_cons]
  omega

/-- Source: as4.go. -/
def parseAS4Path (data : List Octet) : Except PathError Path :=
  if data.length = 0 then .ok []
  else if data.length % 2 ≠ 0 then .error .invalidLength
  else parseAS4Segments data

/-- Two-octet AS numbers at four octets. Source: as4.go expandASPath2to4, the inner loop. -/
def widenAsns : ℕ → List Octet → List Octet
  | n + 1, a :: b :: rest => [0#8, 0#8, a, b] ++ widenAsns n rest
  | _, _ => []

/-- Source: as4.go expandASPath2to4, the check and the copy in one walk. -/
def expandASPath2to4 : List Octet → Option (List Octet)
  | [] => some []
  | [_] => none
  | t :: count :: rest =>
    if rest.length < count.toNat * 2 then none
    else do
      let out ← expandASPath2to4 (rest.drop (count.toNat * 2))
      return [t, count] ++ widenAsns count.toNat rest ++ out
termination_by data => data.length
decreasing_by
  simp only [length_drop, length_cons]
  omega

/-! ## Paths that one octet can count -/

/-- A path as the wire can carry it: no segment is empty or has more AS numbers than its length
octet counts.
Source: ParseASPath, count := int(data[offset+1]). -/
def Wire (p : Path) : Prop := ∀ s ∈ p, s.asns ≠ [] ∧ s.asns.length ≤ 255

instance (p : Path) : Decidable (Wire p) := inferInstanceAs (Decidable (∀ s ∈ p, _))

variable {p : Path}

lemma Wire.tail {s : Segment} (h : Wire (s :: p)) : Wire p :=
  fun s' hs' => h s' (mem_cons_of_mem _ hs')

lemma Wire.narrow (h : Wire p) : Wire (narrow p) := by
  intro s hs
  obtain ⟨s', hs', rfl⟩ := mem_map.1 hs
  simpa [Segment.narrow] using h s' hs'

lemma writeSegmentWithSplit_eq {type : SegmentType} {asns : List Asn} (asn4 : Bool)
    (hne : asns ≠ []) (hle : asns.length ≤ 255) :
    writeSegmentWithSplit type asns asn4 =
      [type.octet, ofNat 8 asns.length] ++ asns.flatMap (writeAsn asn4) := by
  have hpos : ¬ asns.length = 0 := by simpa using hne
  rw [writeSegmentWithSplit, if_neg hpos, maxASPathSegmentLength, if_neg (by omega),
    Nat.min_eq_left hle, take_of_length_le hle, append_nil]

lemma writeToWithASN4_cons {s : Segment} (asn4 : Bool) (h : Wire (s :: p)) :
    writeToWithASN4 (s :: p) asn4 =
      s.type.octet :: ofNat 8 s.asns.length ::
        (s.asns.flatMap (writeAsn asn4) ++ writeToWithASN4 p asn4) := by
  obtain ⟨hne, hle⟩ := h s mem_cons_self
  rw [writeToWithASN4, flatMap_cons, ← writeToWithASN4, writeSegmentWithSplit_eq asn4 hne hle]
  simp

lemma length_writeAsn (asn4 : Bool) (asn : Asn) : (writeAsn asn4 asn).length = asnSize asn4 := by
  cases asn4 <;> rfl

lemma length_flatMap_writeAsn (asn4 : Bool) (asns : List Asn) :
    (asns.flatMap (writeAsn asn4)).length = asns.length * asnSize asn4 := by
  induction asns with
  | nil => simp
  | cons asn asns ih =>
    rw [flatMap_cons, length_append, length_writeAsn, ih, length_cons, Nat.succ_mul, Nat.add_comm]

lemma length_writeToWithASN4 (asn4 : Bool) (h : Wire p) :
    (writeToWithASN4 p asn4).length = lenWithASN4 p asn4 := by
  induction p with
  | nil => rfl
  | cons s p ih =>
    obtain ⟨hne, hle⟩ := h s mem_cons_self
    have hpos : s.asns.length ≠ 0 := by simpa using hne
    have hone : (s.asns.length + 255 - 1) / 255 = 1 := by omega
    rw [writeToWithASN4_cons asn4 h, lenWithASN4, map_cons, sum_cons, ← lenWithASN4,
      ← ih h.tail, if_neg hpos, maxASPathSegmentLength, hone]
    simp only [length_cons, length_append, length_flatMap_writeAsn]
    omega

/-- The AS number that is read back. Source: ParseASPath. -/
def readBack (asn4 : Bool) (asn : Asn) : Asn := if asn4 then asn else narrowAsn asn

lemma narrowAsn_lt (asn : Asn) : (narrowAsn asn).toNat < 65536 := by
  rw [narrowAsn]
  split_ifs with h
  · decide
  · rw [isNonMappable, decide_eq_true_eq] at h
    omega

lemma readAsns_write (asn4 : Bool) (asns : List Asn) (rest : List Octet) :
    readAsns asn4 asns.length (asns.flatMap (writeAsn asn4) ++ rest) =
      asns.map (readBack asn4) := by
  induction asns with
  | nil => rfl
  | cons asn asns ih =>
    rw [flatMap_cons, append_assoc, length_cons, map_cons]
    cases asn4
    · have hback : ofNat 32 ((narrowAsn asn).toNat % 65536) = narrowAsn asn := by
        rw [Nat.mod_eq_of_lt (narrowAsn_lt asn), BitVec.ofNat_toNat, BitVec.setWidth_eq]
      simp only [writeAsn, putUint16, Bool.false_eq_true, if_false, cons_append,
        nil_append, readAsns, uint16_ofNat, readBack, hback]
      rw [ih]
    · simp only [writeAsn, putUint32, if_true, cons_append, nil_append, readAsns,
        uint32_ofNat, readBack]
      rw [ih]

lemma map_readBack_true (asns : List Asn) : asns.map (readBack true) = asns :=
  map_id' asns

def totalASNs (p : Path) : ℕ := (p.map fun s => s.asns.length).sum

lemma totalASNs_cons (s : Segment) (p : Path) :
    totalASNs (s :: p) = s.asns.length + totalASNs p := rfl

lemma toNat_count {n : ℕ} (h : n ≤ 255) : (ofNat 8 n).toNat = n := by
  rw [toNat_ofNat]
  omega

lemma parseSegments_write (asn4 : Bool) (total : ℕ) (h : Wire p)
    (ht : total + totalASNs p ≤ maxASPathTotalLength) :
    parseSegments asn4 total (writeToWithASN4 p asn4) =
      .ok (p.map fun s => ⟨s.type, s.asns.map (readBack asn4)⟩) := by
  induction p generalizing total with
  | nil =>
    rw [writeToWithASN4, flatMap_nil, parseSegments]
    rfl
  | cons s p ih =>
    obtain ⟨hne, hle⟩ := h s mem_cons_self
    rw [totalASNs_cons] at ht
    have hcount := toNat_count hle
    have hdrop : (s.asns.flatMap (writeAsn asn4) ++ writeToWithASN4 p asn4).drop
        (s.asns.length * asnSize asn4) = writeToWithASN4 p asn4 := by
      rw [← length_flatMap_writeAsn, drop_left]
    rw [writeToWithASN4_cons asn4 h, parseSegments]
    simp only [SegmentType.ofOctet_octet, hcount]
    have hlen : ¬ (s.asns.flatMap (writeAsn asn4) ++ writeToWithASN4 p asn4).length <
        s.asns.length * asnSize asn4 := by
      rw [length_append, length_flatMap_writeAsn]
      omega
    rw [if_neg (by omega), if_neg hlen, hdrop, ih (total + s.asns.length) h.tail (by omega),
      readAsns_write]
    rfl

lemma parseASPath_write (asn4 : Bool) (h : Wire p) (ht : totalASNs p ≤ maxASPathTotalLength) :
    parseASPath (writeToWithASN4 p asn4) asn4 = .ok (if asn4 then p else narrow p) := by
  rw [parseASPath, parseSegments_write asn4 0 h (by omega)]
  cases asn4
  · rfl
  · simp only [if_true, map_readBack_true, map_id']

lemma parseAS4Segments_write (h : Wire p) : parseAS4Segments (writeToWithASN4 p true) = .ok p := by
  induction p with
  | nil =>
    rw [writeToWithASN4, flatMap_nil, parseAS4Segments]
  | cons s p ih =>
    obtain ⟨hne, hle⟩ := h s mem_cons_self
    have hpos : s.asns.length ≠ 0 := by simpa using hne
    have hcount := toNat_count hle
    have hlen : (s.asns.flatMap (writeAsn true)).length = s.asns.length * 4 :=
      length_flatMap_writeAsn true s.asns
    have hdrop : (s.asns.flatMap (writeAsn true) ++ writeToWithASN4 p true).drop
        (s.asns.length * 4) = writeToWithASN4 p true := by
      rw [← hlen, drop_left]
    rw [writeToWithASN4_cons true h, parseAS4Segments]
    simp only [SegmentType.ofOctet_octet, hcount]
    rw [if_neg hpos, if_neg (by rw [length_append, hlen]; omega), hdrop, ih h.tail,
      readAsns_write, map_readBack_true]
    rfl

lemma writeAS4Path_eq (hp : Plain p) (h : Wire p) : writeAS4Path p = writeToWithASN4 p true := by
  rw [writeAS4Path, ← appendAS4Segments, appendAS4Segments_of_plain hp, writeToWithASN4]
  apply flatMap_congr
  intro s hs
  obtain ⟨hne, hle⟩ := h s hs
  rw [writeSegmentWithSplit_eq true hne hle]
  rfl

lemma length_writeAS4Path (p : Path) : (writeAS4Path p).length = lenAS4Path p := by
  rw [writeAS4Path, lenAS4Path, length_flatMap]
  congr 1
  apply map_congr_left
  intro s _
  have hlen : (s.asns.flatMap putUint32).length = s.asns.length * 4 :=
    length_flatMap_writeAsn true s.asns
  rw [length_append, hlen]
  rfl

lemma parseAS4Path_write (hp : Plain p) (h : Wire p) : parseAS4Path (writeAS4Path p) = .ok p := by
  have heven : (writeAS4Path p).length % 2 = 0 := by
    rw [length_writeAS4Path, lenAS4Path]
    generalize (p.filter fun s => !s.type.isConfedSegment) = l
    induction l with
    | nil => rfl
    | cons s l ih =>
      rw [map_cons, sum_cons]
      omega
  rw [parseAS4Path, if_neg (show ¬ (writeAS4Path p).length % 2 ≠ 0 by omega)]
  rw [writeAS4Path_eq hp h, parseAS4Segments_write h]
  split_ifs with hnil
  · rcases p with _ | ⟨s, p⟩
    · rfl
    · rw [writeToWithASN4_cons true h] at hnil
      cases hnil
  · rfl

lemma widenAsns_write (asns : List Asn) (rest : List Octet) :
    widenAsns asns.length (asns.flatMap (writeAsn false) ++ rest) =
      (asns.map narrowAsn).flatMap (writeAsn true) := by
  induction asns with
  | nil => rfl
  | cons asn asns ih =>
    have hlt := narrowAsn_lt asn
    have hhigh : (narrowAsn asn).toNat / 16777216 = 0 := by omega
    have hmid : (narrowAsn asn).toNat / 65536 = 0 := by omega
    rw [flatMap_cons, append_assoc, length_cons, map_cons, flatMap_cons, ← ih]
    simp only [writeAsn, putUint16, putUint32, Bool.false_eq_true, if_false, if_true,
      cons_append, nil_append, widenAsns, hhigh, hmid]

lemma expandASPath2to4_write (h : Wire p) :
    expandASPath2to4 (writeToWithASN4 p false) = some (writeToWithASN4 (narrow p) true) := by
  induction p with
  | nil =>
    rw [writeToWithASN4, flatMap_nil, expandASPath2to4]
    rfl
  | cons s p ih =>
    obtain ⟨hne, hle⟩ := h s mem_cons_self
    have hcount := toNat_count hle
    have hlen : (s.asns.flatMap (writeAsn false)).length = s.asns.length * 2 :=
      length_flatMap_writeAsn false s.asns
    have hdrop : (s.asns.flatMap (writeAsn false) ++ writeToWithASN4 p false).drop
        (s.asns.length * 2) = writeToWithASN4 p false := by
      rw [← hlen, drop_left]
    have hnarrow : Wire (s.narrow :: narrow p) := h.narrow
    have hcons : narrow (s :: p) = s.narrow :: narrow p := rfl
    rw [writeToWithASN4_cons false h, expandASPath2to4, hcount,
      if_neg (by rw [length_append, hlen]; omega), hdrop, ih h.tail, widenAsns_write, hcons,
      writeToWithASN4_cons true hnarrow]
    simp [Segment.narrow]

/-- Source: as4.go. -/
def pathHasNonMappableAS (p : Path) : Bool :=
  p.any fun s => !s.type.isConfedSegment && s.asns.any isNonMappable

lemma narrow_of_mappable (hp : Plain p) (h : pathHasNonMappableAS p = false) : narrow p = p := by
  have hall : ∀ s ∈ p, s.narrow = s := by
    intro s hs
    have hconfed : s.type.isConfedSegment = false := by
      rcases hp s hs with ht | ht <;> rw [ht] <;> rfl
    have hany : s.asns.any isNonMappable = false := by
      have hs' := any_eq_false.1 h s hs
      simpa [hconfed] using hs'
    have hmap : s.asns.map narrowAsn = s.asns.map id := by
      apply map_congr_left
      intro a ha
      rw [narrowAsn, if_neg (any_eq_false.1 hany a ha)]
      rfl
    rw [Segment.narrow, hmap, map_id]
  have hmap : p.map Segment.narrow = p.map id := map_congr_left hall
  rw [narrow, hmap, map_id]

/-! ## Attributes -/

def isExtLength (flags : Octet) : Bool := flags &&& 0x10#8 != 0#8

/-- An attribute of an UPDATE: its flags, its type and its value, no longer than its length field
says. Source: aspath_collapse.go attrSpan with the octets it spans. -/
structure Attr where
  flags : Octet
  code : Octet
  value : List Octet
  fits : value.length < if isExtLength flags then 65536 else 256
  deriving DecidableEq

namespace Attr

def hdrLen (a : Attr) : ℕ := if isExtLength a.flags then 4 else 3

/-- The attribute as it stands in the payload. Source: payload[off:off+hdrLen+length]. -/
def octets (a : Attr) : List Octet :=
  [a.flags, a.code] ++
    (if isExtLength a.flags then putUint16 a.value.length
      else [ofNat 8 a.value.length]) ++ a.value

lemma length_octets (a : Attr) : a.octets.length = a.hdrLen + a.value.length := by
  rw [octets, hdrLen]
  split_ifs <;> simp [putUint16] <;> omega

end Attr

/-- Source: attribute.go AttrASPath, AttrAggregator, AttrAS4Path, AttrAS4Aggregator. -/
def attrASPath : Octet := 2#8

def attrAggregator : Octet := 7#8

def attrAS4Path : Octet := 17#8

def attrAS4Aggregator : Octet := 18#8

/-- Why an UPDATE is refused. Source: wireu/errors.go ErrUpdateTruncated, and the three texts
around ErrUpdateMalformed; ErrASPathSourceNotASN4; as4.go ErrASPathUnreadable with its
length. -/
inductive UpdateError
  | updateTruncated
  | truncatedAttribute (off : ℕ)
  | truncatedExtLength
  | overflowsSection
  | sourceNotASN4
  | parseExisting (e : PathError)
  | unreadable (octets : ℕ)
  deriving DecidableEq, Repr

/-- The attributes of a section, as both walks read them; `off` is where the octets stand in the
payload. Source: aspath_collapse.go as4FamilySpans.scan, attrSpanAt; aspath_transcode.go
the first loop. -/
def scanAttrs (off : ℕ) : List Octet → Except UpdateError (List Attr)
  | [] => .ok []
  | [_] => .error (.truncatedAttribute off)
  | [_, _] => .error (.truncatedAttribute off)
  | flags :: code :: l :: rest =>
    if hext : isExtLength flags then
      match rest with
      | [] => .error .truncatedExtLength
      | l' :: rest =>
        if rest.length < uint16 l l' then .error .overflowsSection
        else do
          let attrs ← scanAttrs (off + 4 + uint16 l l') (rest.drop (uint16 l l'))
          return ⟨flags, code, rest.take (uint16 l l'), by
            have hlt := uint16_lt l l'
            rw [if_pos hext, length_take]
            omega⟩ :: attrs
    else
      if rest.length < l.toNat then .error .overflowsSection
      else do
        let attrs ← scanAttrs (off + 3 + l.toNat) (rest.drop l.toNat)
        return ⟨flags, code, rest.take l.toNat, by
          rw [if_neg hext, length_take]
          omega⟩ :: attrs
termination_by data => data.length
decreasing_by
  · simp only [length_drop, length_cons]
    omega
  · simp only [length_drop, length_cons]
    omega

lemma scanAttrs_octets (off : ℕ) (attrs : List Attr) :
    scanAttrs off (attrs.flatMap Attr.octets) = .ok attrs := by
  induction attrs generalizing off with
  | nil =>
    rw [flatMap_nil, scanAttrs]
  | cons a attrs ih =>
    obtain ⟨flags, code, value, hfits⟩ := a
    rw [flatMap_cons, Attr.octets]
    by_cases hext : isExtLength flags
    · have hlen : value.length < 65536 := by simpa [hext] using hfits
      simp only [hext, if_true, putUint16, cons_append, nil_append, scanAttrs,
        uint16_ofNat, Nat.mod_eq_of_lt hlen, dif_pos]
      rw [if_neg (by simp), drop_left, ih]
      simp only [take_left]
      rfl
    · have hlen : (ofNat 8 value.length).toNat = value.length := by
        rw [toNat_ofNat, Nat.mod_eq_of_lt]
        simpa [hext] using hfits
      rw [if_neg hext]
      simp only [cons_append, nil_append]
      rw [scanAttrs, dif_neg hext]
      simp only [hlen]
      rw [if_neg (by simp), drop_left, ih]
      simp only [take_left]
      rfl

/-! ## Bodies -/

/-- The three sections of an UPDATE body: withdrawn routes, attributes, NLRI. Source:
aspath_transcode.go wdLen, attrsStart, attrsEnd; aspath_collapse.go the same checks. -/
def splitUpdate : List Octet → Except UpdateError (List Octet × List Octet × List Octet)
  | w :: w' :: rest =>
    if rest.length < uint16 w w' + 2 then .error .updateTruncated
    else
      match rest.drop (uint16 w w') with
      | a :: a' :: tail =>
        if tail.length < uint16 a a' then .error .updateTruncated
        else .ok (rest.take (uint16 w w'), tail.take (uint16 a a'), tail.drop (uint16 a a'))
      | _ => .error .updateTruncated
  | _ => .error .updateTruncated

/-- A body of three sections; the length fields hold sixteen bits of the lengths. Source: RFC 4271
Section 4.3, the layout that TranscodeASPath documents. -/
def updateOctets (withdrawn attrs nlri : List Octet) : List Octet :=
  putUint16 withdrawn.length ++ withdrawn ++ putUint16 attrs.length ++ attrs ++ nlri

lemma splitUpdate_updateOctets {withdrawn : List Octet} (attrs nlri : List Octet)
    (hw : withdrawn.length < 65536) :
    splitUpdate (updateOctets withdrawn attrs nlri) =
      .ok (withdrawn, attrs.take (attrs.length % 65536),
        attrs.drop (attrs.length % 65536) ++ nlri) := by
  have hmod : attrs.length % 65536 ≤ attrs.length := Nat.mod_le _ _
  simp only [updateOctets, putUint16, cons_append, nil_append, append_assoc,
    splitUpdate, uint16_ofNat, Nat.mod_eq_of_lt hw]
  rw [if_neg (by simp only [length_append, length_cons]; omega)]
  simp only [drop_left, uint16_ofNat, take_left]
  rw [if_neg (by rw [length_append]; omega), take_append_of_le_length hmod,
    drop_append_of_le_length hmod]

end Ze.AsPath
