import Ze.AsPath.Wire
import Mathlib.Algebra.BigOperators.Group.List.Basic

/-!
# Narrowing the AS path family of an UPDATE

`TranscodeASPath` of `internal/component/bgp/wireu/aspath_transcode.go`: a body with four-octet AS
numbers is rewritten for an old speaker, the AS_PATH and the AGGREGATOR at two octets a number, and
an AS4_PATH and an AS4_AGGREGATOR appended where a number does not fit them.
-/

namespace Ze.AsPath

open List
open BitVec (eq_of_toNat_eq ofNat toNat_ofNat)

/-! ## Writing attributes -/

/-- An attribute header. Source: attribute.go WriteHeaderTo. -/
def writeHeader (flags code : Octet) (length : ℕ) : List Octet :=
  let flags := if 255 < length then flags ||| 0x10#8 else flags
  if isExtLength flags then [flags, code] ++ putUint16 length
  else [flags, code, ofNat 8 length]

/-- Source: attribute.go. -/
def flagTransitive : Octet := 0x40#8

/-- Source: attribute.go FlagOptional | FlagTransitive. -/
def flagOptionalTransitive : Octet := 0xc0#8

def attrTombstone : Octet := 252#8

def tombstoneInvalidLength : Octet := 2#8

def tombstoneMinValueLen : ℕ := 2

/-- The marker in place of an AGGREGATOR of a length that no width has: over the attribute where the
pair fits, rebuilt at its own size where it does not. Source: tombstone.go WriteTombstone;
aspath_transcode.go the case of length != 6 && length != 8. -/
def discardAggregator (a : Attr) : List Octet :=
  let flags := 0x80#8 ||| (a.flags &&& 0x50#8)
  if tombstoneMinValueLen ≤ a.value.length then
    [flags, attrTombstone] ++
      (if a.hdrLen = 4 then putUint16 a.value.length else [ofNat 8 a.value.length]) ++
      [attrAggregator, tombstoneInvalidLength] ++ replicate (a.value.length - 2) 0#8
  else
    writeHeader flags attrTombstone tombstoneMinValueLen ++ [attrAggregator, tombstoneInvalidLength]

/-- The last attribute of a type. Source: aspath_transcode.go aspAttrOff and its kin, which the
walk overwrites; aspath_collapse.go as4FamilySpans. -/
def lastAttr (code : Octet) (attrs : List Attr) : Option Attr :=
  (attrs.filter fun a => a.code == code).getLast?

/-- Source: as4.go AS4PathFor, toward an old speaker. -/
def as4PathFor (path : Option Path) : Option Path := path.filter pathHasNonMappableAS

/-- The AS number and the address of a four-octet AGGREGATOR; one of another length is not read.
Source: aggASN, aggIP, newAggValueLen. -/
def readAggregator (agg : Option Attr) : Option (Asn × List Octet) :=
  match agg.map Attr.value with
  | some [a, b, c, d, e, f, g, h] => some (uint32 a b c d, [e, f, g, h])
  | _ => none

/-- What becomes of one attribute. Source: the switch of the second loop. -/
def transcodeAttr (existing : Option Path) (agg : Option (Asn × List Octet)) (a : Attr) :
    List Octet :=
  if a.code = attrASPath then
    match existing with
    | some p =>
      writeHeader flagTransitive attrASPath (lenWithASN4 p false % 65536) ++ writeToWithASN4 p false
    | none => a.octets
  else if a.code = attrAS4Path then []
  else if a.code = attrAggregator then
    match agg with
    | some (asn, ip) =>
      writeHeader flagOptionalTransitive attrAggregator 6 ++ putUint16 (narrowAsn asn).toNat ++ ip
    | none => if a.value.length ≠ 6 ∧ a.value.length ≠ 8 then discardAggregator a else a.octets
  else if a.code = attrAS4Aggregator then
    match agg with
    | some _ => []
    | none => a.octets
  else a.octets

def writeAS4PathAttr (as4Path : Option Path) : List Octet :=
  match as4Path with
  | some p =>
    writeHeader flagOptionalTransitive attrAS4Path (lenAS4Path p % 65536) ++ writeAS4Path p
  | none => []

def as4PathWireSize (as4Path : Option Path) : ℕ :=
  match as4Path with
  | some p => if 255 < lenAS4Path p then 4 + lenAS4Path p else 3 + lenAS4Path p
  | none => 0

/-- The appended AS4_AGGREGATOR. Source: needAS4Agg. -/
def writeAS4AggregatorAttr (agg : Option (Asn × List Octet)) : List Octet :=
  match agg with
  | some (asn, ip) =>
    if isNonMappable asn then
      writeHeader flagOptionalTransitive attrAS4Aggregator 8 ++ putUint32 asn ++ ip
    else []
  | none => []

/-- The octets of an attribute, if it is there. Source: aspHdrLen + aspValueLen and its kin. -/
def spanLen (a : Option Attr) : ℤ :=
  match a with
  | some a => a.hdrLen + a.value.length
  | none => 0

/-- The length of the new attribute section, as the source reckons it. -/
def newAttrLen (attrLen : ℕ) (attrs : List Attr) (existing : Option Path)
    (agg : Option (Asn × List Octet)) : ℤ :=
  attrLen +
    (match existing with
      | some p => (if 255 < lenWithASN4 p false then 4 else 3) + lenWithASN4 p false -
          spanLen (lastAttr attrASPath attrs)
      | none => 0) -
    spanLen (lastAttr attrAS4Path attrs) + as4PathWireSize (as4PathFor existing) +
    (match agg with
      | some (asn, _) => 3 + 6 - spanLen (lastAttr attrAggregator attrs) -
          spanLen (lastAttr attrAS4Aggregator attrs) + (if isNonMappable asn then 3 + 8 else 0)
      | none => 0) +
    (match lastAttr attrAggregator attrs with
      | some a => if a.value.length < tombstoneMinValueLen then
          3 + (tombstoneMinValueLen : ℤ) - (a.hdrLen + a.value.length) else 0
      | none => 0)

/-- A four-octet UPDATE body, rewritten for an old speaker; the empty answer stands for zero octets
written.
Source: TranscodeASPath, into a buffer as large as its callers give it. -/
def transcodeASPath (payload : List Octet) (srcASN4 dstASN4 : Bool) :
    Except UpdateError (List Octet) :=
  if srcASN4 = dstASN4 then .ok []
  else if !srcASN4 then .error .sourceNotASN4
  else
    match splitUpdate payload with
    | .error e => .error e
    | .ok (withdrawn, attrOctets, nlri) =>
      match scanAttrs (4 + withdrawn.length) attrOctets with
      | .error e => .error e
      | .ok attrs =>
        let agg := readAggregator (lastAttr attrAggregator attrs)
        if lastAttr attrASPath attrs = none ∧ lastAttr attrAggregator attrs = none then .ok payload
        else
          match (lastAttr attrASPath attrs).mapM fun a => parseASPath a.value true with
          | .error e => .error (.parseExisting e)
          | .ok existing =>
            .ok (payload.take (2 + withdrawn.length) ++
              putUint16 (newAttrLen attrOctets.length attrs existing agg % 65536).toNat ++
              attrs.flatMap (transcodeAttr existing agg) ++
              writeAS4PathAttr (as4PathFor existing) ++ writeAS4AggregatorAttr agg ++ nlri)

/-! ## The bodies -/

/-- An UPDATE body with four-octet AS numbers: at most one attribute of each type, an AS_PATH of
non-empty sequences and sets with at most a thousand AS numbers, an AGGREGATOR of eight octets, no
AS4 attributes, and sections that their length fields hold. -/
structure Body where
  withdrawn : List Octet
  attrs : List Attr
  nlri : List Octet
  withdrawn_lt : withdrawn.length < 65536
  attrs_lt : (attrs.flatMap Attr.octets).length < 65536
  once : (attrs.map Attr.code).Nodup
  asPath : ∀ a ∈ attrs, a.code = attrASPath → ∃ p, Plain p ∧ Wire p ∧
    totalASNs p ≤ maxASPathTotalLength ∧ a.value = writeToWithASN4 p true
  aggregator : ∀ a ∈ attrs, a.code = attrAggregator → a.value.length = 8
  noAS4 : ∀ a ∈ attrs, a.code ≠ attrAS4Path ∧ a.code ≠ attrAS4Aggregator

namespace Body

variable (b : Body)

/-- The octets of a body. Source: RFC 4271 Section 4.3. -/
def octets : List Octet := updateOctets b.withdrawn (b.attrs.flatMap Attr.octets) b.nlri

def path : Option Path :=
  (lastAttr attrASPath b.attrs).bind fun a => (parseASPath a.value true).toOption

def node : Option (Asn × List Octet) := readAggregator (lastAttr attrAggregator b.attrs)

end Body

variable {attrs : List Attr} {code flags : Octet} {value : List Octet}

lemma lastAttr_eq_some {a : Attr} (honce : (attrs.map Attr.code).Nodup)
    (ha : a ∈ attrs) : lastAttr a.code attrs = some a := by
  induction attrs with
  | nil => cases ha
  | cons x attrs ih =>
    rw [map_cons, nodup_cons] at honce
    have hnone : ∀ c, c ∉ attrs.map Attr.code → attrs.filter (fun y => y.code == c) = [] := by
      intro c hc
      apply filter_eq_nil_iff.2
      intro y hy hyc
      exact hc (mem_map.2 ⟨y, hy, by simpa using hyc⟩)
    rcases mem_cons.1 ha with rfl | ha
    · simp [lastAttr, hnone _ honce.1]
    · have hne : ¬ x.code = a.code := fun h => honce.1 (mem_map.2 ⟨a, ha, h.symm⟩)
      have htail := ih honce.2 ha
      simpa [lastAttr, hne] using htail

lemma lastAttr_eq_none : lastAttr code attrs = none ↔ ∀ a ∈ attrs, a.code ≠ code := by
  rw [lastAttr, getLast?_eq_none_iff, filter_eq_nil_iff]
  simp

lemma mem_of_lastAttr {a : Attr}
    (h : lastAttr code attrs = some a) : a ∈ attrs ∧ a.code = code := by
  have hmem := mem_filter.1 (mem_of_getLast? h)
  exact ⟨hmem.1, by simpa using hmem.2⟩

lemma sum_of_once (honce : (attrs.map Attr.code).Nodup) (code : Octet) (f : Attr → ℤ) :
    (attrs.map fun a => if a.code = code then f a else 0).sum =
      match lastAttr code attrs with
      | some a => f a
      | none => 0 := by
  induction attrs with
  | nil => rfl
  | cons x attrs ih =>
    have honce' := honce
    rw [map_cons, nodup_cons] at honce
    rw [map_cons, sum_cons, ih honce.2]
    by_cases hx : x.code = code
    · subst hx
      have hnone : lastAttr x.code attrs = none := by
        apply lastAttr_eq_none.2
        intro a ha h
        exact honce.1 (mem_map.2 ⟨a, ha, h⟩)
      rw [lastAttr_eq_some honce' mem_cons_self, hnone, if_pos rfl]
      exact add_zero _
    · have hskip : lastAttr code (x :: attrs) = lastAttr code attrs := by
        simp [lastAttr, hx]
      rw [hskip, if_neg hx, zero_add]

/-! ## Written attributes as attributes -/

lemma isExtLength_or (flags : Octet) : isExtLength (flags ||| 0x10#8) := by
  revert flags
  decide

/-- The attribute of a written header and a value of at most 65535 octets. Source: attribute.go
WriteHeaderTo. -/
def Attr.written (flags code : Octet) (value : List Octet) : Attr where
  flags := if 255 < value.length then flags ||| 0x10#8 else flags
  code := code
  value := value.take 65535
  fits := by
    rw [length_take]
    by_cases hlen : 255 < value.length
    · rw [if_pos hlen, isExtLength_or, if_pos rfl]
      omega
    · split_ifs <;> omega

lemma Attr.value_written (h : value.length < 65536) :
    (Attr.written flags code value).value = value :=
  take_of_length_le (by omega)

lemma Attr.octets_written (h : value.length < 65536) :
    (Attr.written flags code value).octets = writeHeader flags code value.length ++ value := by
  rw [Attr.octets, Attr.value_written h, writeHeader]
  simp only [Attr.written]
  split_ifs <;> simp

lemma Attr.length_octets_written
    (hflags : isExtLength flags = false) (h : value.length < 65536) :
    (Attr.written flags code value).octets.length =
      (if 255 < value.length then 4 else 3) + value.length := by
  rw [Attr.length_octets, Attr.value_written h, Attr.hdrLen]
  simp only [Attr.written]
  by_cases hlen : 255 < value.length
  · simp [hlen, isExtLength_or]
  · simp [hlen, hflags]

lemma Attr.code_written (flags code : Octet) (value : List Octet) :
    (Attr.written flags code value).code = code := rfl

/-- The attribute that an old speaker sees in place of one. Source: the second loop. -/
def narrowedAttr (path : Option Path) (node : Option (Asn × List Octet)) (a : Attr) : Attr :=
  if a.code = attrASPath then
    match path with
    | some p => .written flagTransitive attrASPath (writeToWithASN4 p false)
    | none => a
  else if a.code = attrAggregator then
    match node with
    | some (asn, ip) =>
      .written flagOptionalTransitive attrAggregator (putUint16 (narrowAsn asn).toNat ++ ip)
    | none => a
  else a

/-- The AS4_PATH that an old speaker is given to carry. Source: aspath_as4.go writeAS4PathAttr.
-/
def owedPath (path : Option Path) : List Attr :=
  match as4PathFor path with
  | some p => [.written flagOptionalTransitive attrAS4Path (writeAS4Path p)]
  | none => []

/-- The AS4_AGGREGATOR that an old speaker is given to carry. Source: needAS4Agg. -/
def owedNode (node : Option (Asn × List Octet)) : List Attr :=
  match node with
  | some (asn, ip) =>
    if isNonMappable asn then
      [.written flagOptionalTransitive attrAS4Aggregator (putUint32 asn ++ ip)]
    else []
  | none => []

/-- The attributes that an old speaker sees in place of those of a body.
Source: TranscodeASPath. -/
def Body.narrowed (b : Body) : List Attr :=
  b.attrs.map (narrowedAttr b.path b.node) ++ owedPath b.path ++ owedNode b.node

lemma lenWithASN4_le {p : Path} (asn4 : Bool) (h : Wire p) :
    lenWithASN4 p asn4 ≤ 6 * totalASNs p := by
  induction p with
  | nil => exact Nat.zero_le _
  | cons s p ih =>
    obtain ⟨hne, hle⟩ := h s mem_cons_self
    have hpos : s.asns.length ≠ 0 := by simpa using hne
    have hone : (s.asns.length + 255 - 1) / 255 = 1 := by omega
    have hsize : asnSize asn4 ≤ 4 := by cases asn4 <;> decide
    have hmul : s.asns.length * asnSize asn4 ≤ s.asns.length * 4 := Nat.mul_le_mul_left _ hsize
    have htail := ih h.tail
    rw [lenWithASN4, map_cons, sum_cons, ← lenWithASN4, if_neg hpos,
      maxASPathSegmentLength, hone, totalASNs_cons]
    omega

lemma putUint32_uint32 (a b c d : Octet) : putUint32 (uint32 a b c d) = [a, b, c, d] := by
  have hn : (uint32 a b c d).toNat =
      a.toNat * 16777216 + b.toNat * 65536 + c.toNat * 256 + d.toNat := by
    rw [uint32, toNat_ofNat]
    omega
  have heq : ∀ (n : ℕ) (x : Octet), n % 256 = x.toNat → ofNat 8 n = x := by
    intro n x h
    apply eq_of_toNat_eq
    rw [toNat_ofNat]
    exact h
  rw [putUint32, hn, heq _ a (by omega), heq _ b (by omega), heq _ c (by omega), heq _ d (by omega)]

namespace Body

variable {b : Body}

lemma path_of_mem {a : Attr} (ha : a ∈ b.attrs) (hcode : a.code = attrASPath) :
    ∃ p, b.path = some p ∧ lastAttr attrASPath b.attrs = some a ∧ Plain p ∧ Wire p ∧
      totalASNs p ≤ maxASPathTotalLength ∧ a.value = writeToWithASN4 p true := by
  obtain ⟨p, hplain, hwire, htotal, hvalue⟩ := b.asPath a ha hcode
  have hlast : lastAttr attrASPath b.attrs = some a := hcode ▸ lastAttr_eq_some b.once ha
  refine ⟨p, ?_, hlast, hplain, hwire, htotal, hvalue⟩
  rw [path, hlast, Option.bind_some, hvalue, parseASPath_write true hwire htotal]
  rfl

lemma length_narrowed_node (asn : Asn) {ip : List Octet} (hip : ip.length = 4) :
    (putUint16 (narrowAsn asn).toNat ++ ip).length = 6 := by
  rw [length_append, hip]
  rfl

lemma node_of_mem {a : Attr} (ha : a ∈ b.attrs) (hcode : a.code = attrAggregator) :
    ∃ asn ip, b.node = some (asn, ip) ∧ lastAttr attrAggregator b.attrs = some a ∧
      ip.length = 4 ∧ a.value = putUint32 asn ++ ip := by
  have hlast : lastAttr attrAggregator b.attrs = some a := hcode ▸ lastAttr_eq_some b.once ha
  have hlen := b.aggregator a ha hcode
  match hvalue : a.value, hlen with
  | [w, x, y, z, e, f, g, h], _ =>
    refine ⟨uint32 w x y z, [e, f, g, h], ?_, hlast, rfl, ?_⟩
    · rw [node, hlast, readAggregator, Option.map_some, hvalue]
    · rw [putUint32_uint32]
      rfl

lemma path_eq_some {p : Path} (h : b.path = some p) :
    ∃ a ∈ b.attrs, lastAttr attrASPath b.attrs = some a ∧ a.code = attrASPath ∧ Plain p ∧ Wire p ∧
      totalASNs p ≤ maxASPathTotalLength ∧ a.value = writeToWithASN4 p true := by
  rcases hlast : lastAttr attrASPath b.attrs with _ | a
  · rw [path, hlast] at h
    cases h
  · obtain ⟨hmem, hcode⟩ := mem_of_lastAttr hlast
    obtain ⟨p', hp', -, hspec⟩ := path_of_mem hmem hcode
    rw [h] at hp'
    cases hp'
    exact ⟨a, hmem, rfl, hcode, hspec⟩

lemma node_eq_some {asn : Asn} {ip : List Octet} (h : b.node = some (asn, ip)) :
    ∃ a ∈ b.attrs, lastAttr attrAggregator b.attrs = some a ∧ a.code = attrAggregator ∧
      ip.length = 4 ∧ a.value = putUint32 asn ++ ip := by
  rcases hlast : lastAttr attrAggregator b.attrs with _ | a
  · rw [node, hlast] at h
    cases h
  · obtain ⟨hmem, hcode⟩ := mem_of_lastAttr hlast
    obtain ⟨asn', ip', hnode, -, hspec⟩ := node_of_mem hmem hcode
    rw [h] at hnode
    cases hnode
    exact ⟨a, hmem, rfl, hcode, hspec⟩

end Body

/-! ## The narrowed body -/

namespace Body

variable (b : Body)

lemma transcodeAttr_eq {a : Attr} (ha : a ∈ b.attrs) :
    transcodeAttr b.path b.node a = (narrowedAttr b.path b.node a).octets := by
  unfold transcodeAttr narrowedAttr
  by_cases hpath : a.code = attrASPath
  · obtain ⟨p, hp, -, -, hwire, htotal, -⟩ := path_of_mem ha hpath
    have hlen := length_writeToWithASN4 false hwire
    have hle := lenWithASN4_le false hwire
    have hlt : lenWithASN4 p false < 65536 := by
      rw [maxASPathTotalLength] at htotal
      omega
    rw [if_pos hpath, if_pos hpath, hp]
    simp only
    rw [Attr.octets_written (by omega), hlen, Nat.mod_eq_of_lt hlt]
  · rw [if_neg hpath, if_neg hpath, if_neg (b.noAS4 a ha).1]
    by_cases hagg : a.code = attrAggregator
    · obtain ⟨asn, ip, hnode, -, hip, -⟩ := node_of_mem ha hagg
      have hlen := length_narrowed_node asn hip
      rw [if_pos hagg, if_pos hagg, hnode]
      simp only
      rw [Attr.octets_written (by omega), hlen, append_assoc]
    · rw [if_neg hagg, if_neg hagg, if_neg (b.noAS4 a ha).2]

lemma writeAS4PathAttr_eq :
    writeAS4PathAttr (as4PathFor b.path) = (owedPath b.path).flatMap Attr.octets ∧
      as4PathWireSize (as4PathFor b.path) = ((owedPath b.path).flatMap Attr.octets).length := by
  unfold writeAS4PathAttr as4PathWireSize owedPath
  rcases hpath : as4PathFor b.path with _ | p
  · exact ⟨rfl, rfl⟩
  · obtain ⟨hp, -⟩ := Option.filter_eq_some_iff.1 hpath
    obtain ⟨a, -, -, -, hplain, hwire, htotal, -⟩ := path_eq_some hp
    have hlen := length_writeAS4Path p
    have hsame : (writeAS4Path p).length = lenWithASN4 p true := by
      rw [writeAS4Path_eq hplain hwire, length_writeToWithASN4 true hwire]
    have hle := lenWithASN4_le true hwire
    have hlt : (writeAS4Path p).length < 65536 := by
      rw [maxASPathTotalLength] at htotal
      omega
    have hoct : Attr.octets (.written flagOptionalTransitive attrAS4Path (writeAS4Path p)) =
        writeHeader flagOptionalTransitive attrAS4Path (lenAS4Path p % 65536) ++
          writeAS4Path p := by
      rw [Attr.octets_written hlt, ← hlen, Nat.mod_eq_of_lt hlt]
    refine ⟨?_, ?_⟩
    · rw [flatMap_cons, flatMap_nil, append_nil, hoct]
    · rw [flatMap_cons, flatMap_nil, append_nil, Attr.length_octets_written (by decide) hlt, hlen]
      simp only
      split_ifs <;> rfl

lemma writeAS4AggregatorAttr_eq :
    writeAS4AggregatorAttr b.node = (owedNode b.node).flatMap Attr.octets ∧
      ((owedNode b.node).flatMap Attr.octets).length =
        match b.node with
        | some (asn, _) => if isNonMappable asn then 11 else 0
        | none => 0 := by
  unfold writeAS4AggregatorAttr owedNode
  rcases hnode : b.node with _ | ⟨asn, ip⟩
  · exact ⟨rfl, rfl⟩
  · obtain ⟨a, -, -, -, hip, -⟩ := node_eq_some hnode
    have hlen : (putUint32 asn ++ ip).length = 8 := by
      rw [length_append, hip]
      rfl
    simp only
    split_ifs with hasn
    · refine ⟨?_, ?_⟩
      · rw [flatMap_cons, flatMap_nil, append_nil, Attr.octets_written (by omega),
          hlen, append_assoc]
      · rw [flatMap_cons, flatMap_nil, append_nil,
          Attr.length_octets_written (by decide) (by omega), hlen]
        rfl
    · exact ⟨rfl, rfl⟩

/-- The octets of the narrowed AS_PATH. Source: newASPHdrLen + newASPValueLen. -/
def narrowedPathLen (path : Option Path) : ℤ :=
  match path with
  | some p => (if 255 < lenWithASN4 p false then 4 else 3) + lenWithASN4 p false
  | none => 0

lemma length_narrowedAttr {a : Attr} (ha : a ∈ b.attrs) :
    ((narrowedAttr b.path b.node a).octets.length : ℤ) =
      a.octets.length +
        (if a.code = attrASPath then narrowedPathLen b.path - a.octets.length else 0) +
        (if a.code = attrAggregator then 9 - (a.octets.length : ℤ) else 0) := by
  unfold narrowedAttr
  by_cases hpath : a.code = attrASPath
  · obtain ⟨p, hp, -, -, hwire, htotal, -⟩ := path_of_mem ha hpath
    have hagg : ¬ a.code = attrAggregator := by rw [hpath]; decide
    have hlen := length_writeToWithASN4 false hwire
    have hle := lenWithASN4_le false hwire
    rw [maxASPathTotalLength] at htotal
    rw [if_pos hpath, if_pos hpath, if_neg hagg, hp]
    simp only [narrowedPathLen]
    rw [Attr.length_octets_written (by decide) (by omega), hlen]
    split_ifs <;> omega
  · rw [if_neg hpath, if_neg hpath]
    by_cases hagg : a.code = attrAggregator
    · obtain ⟨asn, ip, hnode, -, hip, -⟩ := node_of_mem ha hagg
      have hlen := length_narrowed_node asn hip
      rw [if_pos hagg, if_pos hagg, hnode]
      simp only
      rw [Attr.length_octets_written (by decide) (by omega), hlen, if_neg (by decide)]
      omega
    · rw [if_neg hagg, if_neg hagg]
      omega

lemma length_flatMap_octets (attrs : List Attr) (f : Attr → Attr) :
    ((attrs.flatMap fun a => (f a).octets).length : ℤ) =
      (attrs.map fun a => ((f a).octets.length : ℤ)).sum := by
  induction attrs with
  | nil => rfl
  | cons a attrs ih =>
    rw [flatMap_cons, length_append, map_cons, sum_cons, ← ih]
    omega

lemma length_map_narrowedAttr :
    ((b.attrs.flatMap fun a => (narrowedAttr b.path b.node a).octets).length : ℤ) =
      (b.attrs.flatMap Attr.octets).length +
        (match lastAttr attrASPath b.attrs with
          | some a => narrowedPathLen b.path - a.octets.length
          | none => 0) +
        (match lastAttr attrAggregator b.attrs with
          | some a => 9 - (a.octets.length : ℤ)
          | none => 0) := by
  have hsum : (b.attrs.map fun a => ((narrowedAttr b.path b.node a).octets.length : ℤ)) =
      b.attrs.map fun a => (a.octets.length : ℤ) +
        (if a.code = attrASPath then narrowedPathLen b.path - (a.octets.length : ℤ) else 0) +
        (if a.code = attrAggregator then 9 - (a.octets.length : ℤ) else 0) :=
    map_congr_left fun a ha => b.length_narrowedAttr ha
  rw [length_flatMap_octets, hsum, sum_map_add, sum_map_add, sum_of_once b.once, sum_of_once b.once]
  congr 2
  exact (length_flatMap_octets b.attrs id).symm

lemma newAttrLen_eq :
    newAttrLen (b.attrs.flatMap Attr.octets).length b.attrs b.path b.node =
      (b.narrowed.flatMap Attr.octets).length := by
  have hno4 : lastAttr attrAS4Path b.attrs = none :=
    lastAttr_eq_none.2 fun a ha => (b.noAS4 a ha).1
  have hnoAgg : lastAttr attrAS4Aggregator b.attrs = none :=
    lastAttr_eq_none.2 fun a ha => (b.noAS4 a ha).2
  have hlen : ((b.narrowed.flatMap Attr.octets).length : ℤ) =
      (b.attrs.flatMap fun a => (narrowedAttr b.path b.node a).octets).length +
        ((owedPath b.path).flatMap Attr.octets).length +
        ((owedNode b.node).flatMap Attr.octets).length := by
    rw [narrowed, flatMap_append, flatMap_append, length_append, length_append, flatMap_map]
    omega
  rw [hlen, length_map_narrowedAttr, ← b.writeAS4PathAttr_eq.2, b.writeAS4AggregatorAttr_eq.2]
  unfold newAttrLen
  rw [hno4, hnoAgg]
  have hpath : (match b.path with
      | some p => (if 255 < lenWithASN4 p false then 4 else 3) + (lenWithASN4 p false : ℤ) -
          spanLen (lastAttr attrASPath b.attrs)
      | none => 0) =
      match lastAttr attrASPath b.attrs with
      | some a => narrowedPathLen b.path - a.octets.length
      | none => 0 := by
    rcases hlast : lastAttr attrASPath b.attrs with _ | a
    · have hnone : b.path = none := by rw [path, hlast]; rfl
      rw [hnone]
    · obtain ⟨hmem, hcode⟩ := mem_of_lastAttr hlast
      obtain ⟨p, hp, -⟩ := path_of_mem hmem hcode
      rw [hp]
      simp only [spanLen, narrowedPathLen, Attr.length_octets]
      push_cast
      rfl
  have hnode : (match b.node with
      | some (asn, _) => 3 + 6 - spanLen (lastAttr attrAggregator b.attrs) - spanLen none +
          (if isNonMappable asn then 3 + 8 else 0)
      | none => 0) +
      (match lastAttr attrAggregator b.attrs with
        | some a => if a.value.length < tombstoneMinValueLen then
            3 + (tombstoneMinValueLen : ℤ) - (a.hdrLen + a.value.length) else 0
        | none => 0) =
      (match lastAttr attrAggregator b.attrs with
        | some a => 9 - (a.octets.length : ℤ)
        | none => 0) +
      ((match b.node with
        | some (asn, _) => if isNonMappable asn then 11 else 0
        | none => 0 : ℕ) : ℤ) := by
    rcases hlast : lastAttr attrAggregator b.attrs with _ | a
    · have hnone : b.node = none := by rw [node, hlast]; rfl
      rw [hnone]
      rfl
    · obtain ⟨hmem, hcode⟩ := mem_of_lastAttr hlast
      obtain ⟨asn, ip, hasn, -⟩ := node_of_mem hmem hcode
      have height := b.aggregator a hmem hcode
      rw [hasn]
      simp only [spanLen, Attr.length_octets, height, tombstoneMinValueLen]
      split_ifs <;> omega
  rw [hpath]
  simp only [spanLen] at hnode ⊢
  omega

lemma splitUpdate_octets :
    splitUpdate b.octets = .ok (b.withdrawn, b.attrs.flatMap Attr.octets, b.nlri) := by
  rw [octets, splitUpdate_updateOctets _ _ b.withdrawn_lt, Nat.mod_eq_of_lt b.attrs_lt,
    take_length, drop_length, nil_append]

lemma narrowed_of_none (hpath : lastAttr attrASPath b.attrs = none)
    (hagg : lastAttr attrAggregator b.attrs = none) : b.narrowed = b.attrs := by
  have hp : b.path = none := by rw [path, hpath]; rfl
  have hn : b.node = none := by rw [node, hagg]; rfl
  have hmap : b.attrs.map (narrowedAttr b.path b.node) = b.attrs.map id := by
    apply map_congr_left
    intro a ha
    unfold narrowedAttr
    rw [if_neg (lastAttr_eq_none.1 hpath a ha), if_neg (lastAttr_eq_none.1 hagg a ha)]
    rfl
  rw [narrowed, hmap, hp, hn, map_id]
  exact (append_nil _).trans (append_nil _)

lemma mapM_parseASPath :
    ((lastAttr attrASPath b.attrs).mapM fun a => parseASPath a.value true) = .ok b.path := by
  rcases hlast : lastAttr attrASPath b.attrs with _ | a
  · have hp : b.path = none := by rw [path, hlast]; rfl
    rw [hp]
    rfl
  · obtain ⟨hmem, hcode⟩ := mem_of_lastAttr hlast
    obtain ⟨p, hp, -, -, hwire, htotal, hvalue⟩ := path_of_mem hmem hcode
    rw [hp, Option.mapM_some, hvalue, parseASPath_write true hwire htotal]
    rfl

lemma putUint16_mod (n : ℕ) : putUint16 (((n : ℤ) % 65536).toNat) = putUint16 n := by
  have hmod : ((n : ℤ) % 65536).toNat = n % 65536 := by omega
  rw [hmod, putUint16, putUint16]
  congr 1
  · apply eq_of_toNat_eq
    rw [toNat_ofNat, toNat_ofNat]
    omega
  · congr 1
    apply eq_of_toNat_eq
    rw [toNat_ofNat, toNat_ofNat]
    omega

/-- Narrowing a body writes the attributes that the old speaker is to see, and the sixteen low bits
of their length. -/
lemma transcodeASPath_octets :
    transcodeASPath b.octets true false =
      .ok (updateOctets b.withdrawn (b.narrowed.flatMap Attr.octets) b.nlri) := by
  have hhead : b.octets.take (2 + b.withdrawn.length) =
      putUint16 b.withdrawn.length ++ b.withdrawn := by
    rw [octets, updateOctets, append_assoc, append_assoc]
    exact take_left' (by rw [length_append]; rfl)
  have hout : b.attrs.flatMap (transcodeAttr b.path b.node) =
      (b.attrs.map (narrowedAttr b.path b.node)).flatMap Attr.octets := by
    rw [flatMap_map]
    exact flatMap_congr fun a ha => b.transcodeAttr_eq ha
  rw [transcodeASPath, if_neg (by decide), if_neg (by decide), b.splitUpdate_octets]
  simp only [scanAttrs_octets]
  split_ifs with hnone
  · rw [b.narrowed_of_none hnone.1 hnone.2]
    rfl
  · have hnode : readAggregator (lastAttr attrAggregator b.attrs) = b.node := rfl
    rw [b.mapM_parseASPath, hnode]
    simp only
    rw [b.newAttrLen_eq, putUint16_mod, hhead, hout, b.writeAS4PathAttr_eq.1,
      b.writeAS4AggregatorAttr_eq.1, updateOctets, narrowed, flatMap_append, flatMap_append]
    simp only [append_assoc]

end Body

end Ze.AsPath
