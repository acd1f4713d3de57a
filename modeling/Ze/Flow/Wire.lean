import Mathlib.Algebra.Order.Ring.Int
import Ze.Flow.Types

/-!
# The octets of a rule

The codec of `types.go`, `types_numeric.go` and `types_prefix.go`: what `WriteTo` puts on the wire
and what `ParseFlowSpec` makes of octets.

Default file: `types_numeric.go`.
-/

namespace Ze.Flow

open Ze.Net List
open BitVec (ofNat)
open Except (ok)
open UInt8 (ofBitVec)

/-- Source: byte. -/
abbrev Octet := BitVec 8

/-! ## Operator lists -/

/-- The operator bits that a type defines.
Source: mask in writeToAFI and parseNumericComponent. -/
def ComponentType.opMask (t : ComponentType) : BitVec 8 := if t.isBitmask then 0x03#8 else 0x07#8

/-- The value as the type holds it: of a fragment value only the bits that the family defines.
Source: writeToAFI, parseNumericComponent. -/
def ComponentType.keep (t : ComponentType) (afi : Afi) (value : BitVec 64) : BitVec 64 :=
  if t = .fragment then value &&& fragmentMask afi else value

/-- The len code of an operand. Source: operandWidth. -/
def lenCode (t : ComponentType) (value : BitVec 64) : BitVec 8 :=
  if t = .flowLabel ∧ value ≤ 0xFFFFFFFF#64 then 2#8
  else if value ≤ 0xFF#64 then 0#8
  else if value ≤ 0xFFFF#64 then 1#8
  else if value ≤ 0xFFFFFFFF#64 then 2#8
  else 3#8

def operandWidth (t : ComponentType) (value : BitVec 64) : ℕ := 2 ^ (lenCode t value).toNat

/-- The last `n` octets of a value, the highest first.
Source: writeToAFI, the encoding of the value. -/
def bigEndian : ℕ → BitVec 64 → List Octet
  | 0, _ => []
  | n + 1, value => (value >>> (8 * n)).setWidth 8 :: bigEndian n value

/-- One operator and its value, with the len code given.
Source: writeToAFI, the body of the loop. -/
def encodePair (t : ComponentType) (afi : Afi) (first last : Bool) (code : BitVec 8)
    (m : FlowMatch) :
    List Octet :=
  (code <<< 4 ||| (if !first && m.and then flowOpAnd else 0#8) |||
    (if last then flowOpEnd else 0#8) |||
    (m.op &&& t.opMask)) :: bigEndian (2 ^ code.toNat) (t.keep afi m.value)

/-- Source: writeToAFI, the loop. -/
def encodeMatches (t : ComponentType) (afi : Afi) (width : BitVec 64 → BitVec 8) (first : Bool) :
    List FlowMatch → List Octet
  | [] => []
  | m :: list =>
    encodePair t afi first list.isEmpty (width (t.keep afi m.value)) m ++
      encodeMatches t afi width false list

def NumericComponent.writeToAFI (c : NumericComponent) (afi : Afi) : List Octet :=
  ofNat 8 c.compType.code :: encodeMatches c.compType afi (lenCode c.compType) true c.list

def NumericComponent.len (c : NumericComponent) : ℕ :=
  if c.compType = .fragment then 1 + 2 * c.list.length
  else 1 + (c.list.map fun m => 1 + operandWidth c.compType m.value).sum

def numericValueOctets (op : Octet) : ℕ := 2 ^ ((op &&& 0x30#8) >>> 4).toNat

def numericComponentEnd (t : ComponentType) : List Octet → Except FlowError ℕ
  | [] => .error .truncated
  | op :: data =>
    let valueLen := numericValueOctets op
    if (t = .tcpFlags ∧ 2 < valueLen) ∨ ((t = .dscp ∨ t = .fragment) ∧ valueLen ≠ 1) then
      .error .truncated
    else if data.length < valueLen then .error .truncated
    else if op &&& flowOpEnd ≠ 0#8 then .ok (1 + valueLen)
    else (numericComponentEnd t (data.drop valueLen)).map (1 + valueLen + ·)
  termination_by data => data.length
  decreasing_by simp only [length_drop, length_cons]; omega

/-- Source: parseNumericComponent, value<<8 | uint64(data[offset+i]). -/
def pushOctet (value : BitVec 64) (b : Octet) : BitVec 64 := value <<< 8 ||| b.setWidth 64

/-- Source: parseNumericComponent, the value. -/
def readValue (octets : List Octet) : BitVec 64 := octets.foldl pushOctet 0#64

/-- Source: parseNumericComponent, the loop. -/
def decodeMatches (t : ComponentType) (afi : Afi) (first : Bool) : List Octet → List FlowMatch
  | [] => []
  | op :: data =>
    let valueLen := numericValueOctets op
    ⟨op &&& t.opMask, !first && decide (op &&& flowOpAnd ≠ 0#8),
        t.keep afi (readValue (data.take valueLen))⟩ ::
      decodeMatches t afi false (data.drop valueLen)
  termination_by data => data.length
  decreasing_by simp only [length_drop, length_cons]; omega

def parseNumericComponent (t : ComponentType) (ht : t.isPrefix = false) (data : List Octet)
    (afi : Afi) :
    Except FlowError (FlowComponent × List Octet) :=
  (numericComponentEnd t data).map fun n =>
    (.numeric ⟨t, ht, decodeMatches t afi true (data.take n)⟩, data.drop n)

/-! ## Prefixes -/

/-- An octet of an address. Source: net/netip Addr.As4, Addr.As16. -/
def octetAt {w : ℕ} (x : BitVec w) (i : ℕ) : Octet := (x >>> (w - 8 * (i + 1))).setWidth 8

/-- Source: net/netip Addr.As16. -/
def as16 : Addr → BitVec 128
  | .zero => 0#128
  | .v4 bits => 0xFFFF#96 ++ bits
  | .v6 bits _ => bits

/-- The prefix without the bits before the offset: the octets before the one that the offset falls
into are cleared, and so are the first bits of that one. Source: types_prefix.go. -/
def flowPrefixPattern (p : Prefix) (offset : UInt8) : Prefix :=
  if offset = 0 then p.masked
  else
    (Prefix.mk (.v6 ((as16 p.addr <<< offset.toNat) >>> offset.toNat) []) p.bits).masked

def PrefixComponent.len (c : PrefixComponent) : ℕ :=
  if c.pfx.addr.is6 then 3 + (c.pfx.bits - c.offset.toNat + 7) / 8 else 2 + (c.pfx.bits + 7) / 8

/-- An octet of an IPv6 pattern. Source: types_prefix.go WriteTo, the loop. -/
def patternOctet (ip : BitVec 128) (offset i : ℕ) : Octet :=
  let start := offset / 8
  let shift := offset % 8
  octetAt ip (start + i) <<< shift |||
    if shift ≠ 0 ∧ start + i + 1 < 16 then octetAt ip (start + i + 1) >>> (8 - shift) else 0#8

/-- The octets of an IPv6 pattern, the unused bits of the last one cleared.
Source: types_prefix.go WriteTo. -/
def patternOctets (ip : BitVec 128) (offset patternBits : ℕ) : List Octet :=
  let size := (patternBits + 7) / 8
  (range size).map fun i =>
    if i + 1 = size ∧ patternBits % 8 ≠ 0 then
      patternOctet ip offset i &&& (0xFF#8 <<< (8 - patternBits % 8))
    else patternOctet ip offset i

/-- What follows the type octet. Source: types_prefix.go WriteTo. -/
def PrefixComponent.parameter (c : PrefixComponent) : List Octet :=
  ofNat 8 c.pfx.bits ::
    match c.pfx.masked.addr with
    | .v6 ip _ =>
      c.offset.toBitVec :: patternOctets ip c.offset.toNat (c.pfx.bits - c.offset.toNat)
    | .v4 ip => (range ((c.pfx.bits + 7) / 8)).map (octetAt ip)
    | .zero => []

def PrefixComponent.writeTo (c : PrefixComponent) : List Octet :=
  ofNat 8 c.compType.code :: c.parameter

/-- The layout of a prefix component: the bits, the offset, the octets of the header and of the
prefix. Source: types_prefix.go. -/
structure PrefixShape where
  prefixLen : ℕ
  offset : Octet
  headerLen : ℕ
  prefixBytes : ℕ

/-- The checks on what the header announces. Source: types_prefix.go prefixComponentShape, the
second part. -/
def checkShape (octets prefixLen : ℕ) (offset : Octet) (headerLen maximum : ℕ) :
    Except FlowError PrefixShape :=
  if maximum < prefixLen ∨ (offset ≠ 0#8 ∧ prefixLen ≤ offset.toNat) then
    .error (.invalidLength prefixLen offset.toNat)
  else
    let prefixBytes := (prefixLen - offset.toNat + 7) / 8
    if octets < headerLen + prefixBytes then .error .truncated
    else .ok ⟨prefixLen, offset, headerLen, prefixBytes⟩

def prefixComponentShape (data : List Octet) (afi : Afi) : Except FlowError PrefixShape :=
  match afi, data with
  | _, [] => .error .truncated
  | .ipv4, len :: _ => checkShape data.length len.toNat 0#8 1 32
  | .ipv6, [_] => .error .truncated
  | .ipv6, len :: offset :: _ => checkShape data.length len.toNat offset 2 128

/-- Or an octet into octet `i`. Source: ip[i] |= b. -/
def orOctet {w : ℕ} (x : BitVec w) (i : ℕ) (b : Octet) : BitVec w :=
  x ||| (b.setWidth w <<< (w - 8 * (i + 1)))

/-- The octets of an IPv6 pattern, put back in their places. Source: types_prefix.go
parsePrefixComponent, the loop. -/
def readPattern (offset : ℕ) : ℕ → List Octet → BitVec 128 → BitVec 128
  | _, [], ip => ip
  | i, b :: octets, ip =>
    let start := offset / 8
    let shift := offset % 8
    let ip := orOctet ip (start + i) (b >>> shift)
    let ip :=
      if shift ≠ 0 ∧ start + i + 1 < 16 then orOctet ip (start + i + 1) (b <<< (8 - shift)) else ip
    readPattern offset (i + 1) octets ip

/-- The octets of an IPv4 prefix. Source: types_prefix.go parsePrefixComponent, the copy. -/
def readAddr4 : ℕ → List Octet → BitVec 32 → BitVec 32
  | _, [], ip => ip
  | i, b :: octets, ip => readAddr4 (i + 1) octets (orOctet ip i b)

/-- The address that the octets of a prefix make. Source: types_prefix.go parsePrefixComponent.
-/
def readAddr (afi : Afi) (offset : ℕ) (octets : List Octet) : Addr :=
  match afi with
  | .ipv4 => .v4 (readAddr4 0 octets 0#32)
  | .ipv6 => .v6 (readPattern offset 0 octets 0#128) []

/-- The prefix of a layout and its octets. Source: types_prefix.go parsePrefixComponent. -/
def readPrefix (afi : Afi) (shape : PrefixShape) (octets : List Octet) : Prefix :=
  flowPrefixPattern (Prefix.mk (readAddr afi shape.offset.toNat octets) shape.prefixLen).masked
    (ofBitVec shape.offset)

def parsePrefixComponent (t : ComponentType) (ht : t.isPrefix = true) (data : List Octet)
    (afi : Afi) :
    Except FlowError (FlowComponent × List Octet) :=
  (prefixComponentShape data afi).map fun shape =>
    let octets := (data.drop shape.headerLen).take shape.prefixBytes
    (.pfx ⟨t, ht, readPrefix afi shape octets, ofBitVec shape.offset⟩,
      data.drop (shape.headerLen + shape.prefixBytes))

/-! ## Rules -/

/-- The types in the order of their octets. Source: types.go FlowComponentType. -/
def ComponentType.all : List ComponentType :=
  [.destPrefix, .sourcePrefix, .ipProtocol, .port, .destPort, .sourcePort, .icmpType, .icmpCode,
    .tcpFlags, .packetLength, .dscp, .fragment, .flowLabel]

/-- The type of an octet. Source: types.go classifyComponent. -/
def ComponentType.ofCode (b : Octet) : Option ComponentType :=
  ComponentType.all.find? fun t => t.code = b.toNat

/-- Source: types.go classifyComponent, parseFlowComponent. -/
def parseFlowComponent (data : List Octet) (afi : Afi) :
    Except FlowError (FlowComponent × List Octet) :=
  match data with
  | [] => .error .truncated
  | b :: data =>
    match ComponentType.ofCode b with
    | none => .error .invalidType
    | some t =>
      if t = .flowLabel ∧ afi ≠ .ipv6 then .error .invalidType
      else if ht : t.isPrefix = true then parsePrefixComponent t ht data afi
      else parseNumericComponent t (Bool.not_eq_true _ ▸ ht) data afi

/-- Source: types.go checkComponentOrder; there is no type before the first. -/
def checkComponentOrder (previous : Option ComponentType) (current : ComponentType) :
    Except FlowError Unit :=
  match previous with
  | none => .ok ()
  | some previous =>
    if current = previous then .error (.duplicateType current)
    else if current.code < previous.code then .error (.typeOrder current previous)
    else .ok ()

/-- Source: types.go FlowComponent, WriteTo, as writeComponentsSorted calls it. -/
def FlowComponent.writeTo (afi : Afi) : FlowComponent → List Octet
  | pfx c => c.writeTo
  | numeric c => c.writeToAFI afi

/-- Source: types.go FlowComponent, Len. -/
def FlowComponent.len : FlowComponent → ℕ
  | pfx c => c.len
  | numeric c => c.len

/-- Source: types.go. -/
def FlowSpec.componentLen (f : FlowSpec) : ℕ := (f.components.map FlowComponent.len).sum

/-- Source: types.go. -/
def FlowSpec.len (f : FlowSpec) : ℕ :=
  if f.componentLen < 240 then 1 + f.componentLen else 2 + f.componentLen

/-- The components in the order of their types. Source: types.go writeComponentsSorted. -/
def FlowSpec.sorted (f : FlowSpec) : List FlowComponent :=
  ComponentType.all.filterMap f.componentOfType

/-- Source: types.go. -/
def FlowSpec.writeComponentsSorted (f : FlowSpec) : List Octet :=
  f.sorted.flatMap (FlowComponent.writeTo f.afi)

/-- Source: types.go. -/
def FlowSpec.writeTo (f : FlowSpec) : List Octet :=
  let dataLen := f.componentLen
  if dataLen < 240 then ofNat 8 dataLen :: f.writeComponentsSorted
  else
    (0xF0#8 ||| ofNat 8 (dataLen >>> 8)) :: ofNat 8 dataLen :: f.writeComponentsSorted

/-- Source: types.go. -/
def flowSpecValue (data : List Octet) : Except FlowError (List Octet) :=
  match data with
  | [] => .error .truncated
  | b :: rest =>
    if b.toNat < 240 then
      if rest.length < b.toNat then .error .truncated else .ok (rest.take b.toNat)
    else
      match rest with
      | [] => .error .truncated
      | b' :: rest =>
        let nlriLen := (b &&& 0x0F#8).toNat <<< 8 ||| b'.toNat
        if rest.length < nlriLen then .error .truncated else .ok (rest.take nlriLen)

/-! ## Parsing a rule -/

section

variable {t : ComponentType} {data rest : List Octet} {afi : Afi} {c : FlowComponent}

lemma map_eq_ok {ε α β : Type} {f : α → β} {x : Except ε α} {b : β}
    (h : x.map f = .ok b) : ∃ a, x = .ok a ∧ f a = b := by
  rcases x with e | a
  · cases h
  · exact ⟨a, rfl, ok.inj h⟩

lemma checkShape_eq_ok {octets prefixLen : ℕ} {offset : Octet} {headerLen maximum : ℕ}
    {shape : PrefixShape} :
    checkShape octets prefixLen offset headerLen maximum = .ok shape ↔
      prefixLen ≤ maximum ∧ (offset ≠ 0#8 → offset.toNat < prefixLen) ∧
        headerLen + (prefixLen - offset.toNat + 7) / 8 ≤ octets ∧
        shape = ⟨prefixLen, offset, headerLen, (prefixLen - offset.toNat + 7) / 8⟩ := by
  unfold checkShape
  by_cases hbad : maximum < prefixLen ∨ (offset ≠ 0#8 ∧ prefixLen ≤ offset.toNat)
  · rw [if_pos hbad]
    constructor
    · intro h
      cases h
    · rintro ⟨h1, h2, -, -⟩
      rcases hbad with h | ⟨h3, h4⟩
      · omega
      · have := h2 h3
        omega
  · rw [if_neg hbad]
    push Not at hbad
    simp only
    split_ifs with hshort
    · constructor
      · intro h
        cases h
      · rintro ⟨-, -, h, -⟩
        omega
    · rw [ok.injEq]
      constructor
      · rintro rfl
        exact ⟨hbad.1, fun h => hbad.2 h, by omega, rfl⟩
      · rintro ⟨-, -, -, h⟩
        exact h.symm

lemma parseFlowComponent_length (h : parseFlowComponent data afi = .ok (c, rest)) :
    rest.length < data.length := by
  unfold parseFlowComponent at h
  split at h
  · cases h
  · split at h
    · cases h
    · split_ifs at h
      · obtain ⟨shape, -, heq⟩ := map_eq_ok h
        cases heq
        simp only [length_drop, length_cons]
        omega
      · obtain ⟨n, -, heq⟩ := map_eq_ok h
        cases heq
        simp only [length_drop, length_cons]
        omega

end

/-- Source: types.go. -/
def parseComponents (afi : Afi) (previous : Option ComponentType) (data : List Octet) :
    Except FlowError (List FlowComponent) :=
  if data = [] then .ok []
  else
    match _h : parseFlowComponent data afi with
    | .error e => .error e
    | .ok (c, rest) =>
      match checkComponentOrder previous c.type with
      | .error e => .error e
      | .ok () => (parseComponents afi (some c.type) rest).map (c :: ·)
  termination_by data.length
  decreasing_by exact parseFlowComponent_length _h

section

variable {data rest : List Octet} {afi : Afi} {c : FlowComponent}

lemma isPrefix_ne_flowLabel {t : ComponentType} (h : t.isPrefix) : t ≠ .flowLabel := by
  rintro rfl
  cases h

variable {shape : PrefixShape} {previous : Option ComponentType} {cs : List FlowComponent}

lemma prefixComponentShape_spec
    (h : prefixComponentShape data afi = .ok shape) :
    shape.prefixLen ≤ afi.bitLen ∧ (shape.offset ≠ 0#8 → shape.offset.toNat < shape.prefixLen) ∧
      (afi = .ipv4 → shape.offset = 0#8) := by
  unfold prefixComponentShape at h
  split at h
  · cases h
  · obtain ⟨h1, h2, -, rfl⟩ := checkShape_eq_ok.1 h
    exact ⟨h1, h2, fun _ => rfl⟩
  · cases h
  · obtain ⟨h1, h2, -, rfl⟩ := checkShape_eq_ok.1 h
    exact ⟨h1, h2, fun h => by cases h⟩

lemma ofBitVec_eq_zero {b : Octet} : ofBitVec b = 0 ↔ b = 0#8 := by
  rw [← UInt8.toBitVec_inj]
  rfl

lemma flowPrefixPattern_spec {p : Prefix} {offset : UInt8} (hvalid : p.isValid)
    (h6 : offset ≠ 0 → p.addr.bitLen = 128) :
    (flowPrefixPattern p offset).isValid ∧
      (flowPrefixPattern p offset).addr.bitLen = p.addr.bitLen ∧
      (flowPrefixPattern p offset).bits = p.bits := by
  unfold flowPrefixPattern
  split_ifs with hz
  · exact ⟨by rw [Prefix.isValid_masked, hvalid], Addr.bitLen_mask .., rfl⟩
  · refine ⟨?_, (h6 hz).symm, rfl⟩
    rw [Prefix.isValid_masked]
    unfold Prefix.isValid at hvalid ⊢
    simp only [Bool.and_eq_true, decide_eq_true_eq] at hvalid ⊢
    have hbits := hvalid.2
    rw [h6 hz] at hbits
    exact ⟨⟨rfl, rfl⟩, hbits⟩

lemma validate_readPrefix {t : ComponentType} {ht : t.isPrefix = true}
    (h : prefixComponentShape data afi = .ok shape) (octets : List Octet) :
    PrefixComponent.validate
      ⟨t, ht, readPrefix afi shape octets, ofBitVec shape.offset⟩ afi = .ok () := by
  obtain ⟨hlen, hoff, h4⟩ := prefixComponentShape_spec h
  have hne : ofBitVec shape.offset ≠ 0 → shape.offset ≠ 0#8 :=
    fun h h' => h (ofBitVec_eq_zero.2 h')
  have h6 : ofBitVec shape.offset ≠ 0 → afi = .ipv6 := by
    intro hz
    cases hafi : afi with
    | ipv4 => exact absurd (h4 hafi) (hne hz)
    | ipv6 => rfl
  have hbit : (readAddr afi shape.offset.toNat octets).bitLen = afi.bitLen := by
    cases afi <;> rfl
  have hvalid : (Prefix.mk (readAddr afi shape.offset.toNat octets) shape.prefixLen).masked.isValid
      := by
    rw [Prefix.isValid_masked]
    unfold Prefix.isValid
    simp only [hbit, Bool.and_eq_true, decide_eq_true_eq]
    refine ⟨⟨?_, ?_⟩, hlen⟩ <;> cases afi <;> rfl
  have h128 : ofBitVec shape.offset ≠ 0 →
      (Prefix.mk (readAddr afi shape.offset.toNat octets) shape.prefixLen).masked.addr.bitLen
        = 128 := by
    intro h
    rw [Prefix.masked, Addr.bitLen_mask, hbit, h6 h]
    rfl
  have hspec := flowPrefixPattern_spec hvalid h128
  refine PrefixComponent.validate_eq_ok.2 ⟨hspec.1, ?_, fun h => ⟨h6 h, ?_⟩⟩
  · exact hspec.2.1.trans ((Addr.bitLen_mask ..).trans hbit)
  · show (ofBitVec shape.offset).toNat < (readPrefix afi shape octets).bits
    rw [readPrefix, hspec.2.2]
    exact hoff (hne h)

lemma parseFlowComponent_spec (h : parseFlowComponent data afi = .ok (c, rest)) :
    (c.type = .flowLabel → afi = .ipv6) ∧ ∀ p, c = .pfx p → p.validate afi = .ok () := by
  unfold parseFlowComponent at h
  split at h
  · cases h
  · split at h
    · cases h
    · rename_i t _
      split_ifs at h with hlabel ht
      · obtain ⟨shape, hshape, heq⟩ := map_eq_ok h
        cases heq
        refine ⟨fun htype => ?_, ?_⟩
        · change t = .flowLabel at htype
          rw [htype] at ht
          cases ht
        · rintro p hp
          obtain rfl := FlowComponent.pfx.inj hp
          exact validate_readPrefix hshape _
      · obtain ⟨n, -, heq⟩ := map_eq_ok h
        cases heq
        refine ⟨fun htype => ?_, by rintro p ⟨⟩⟩
        change t = .flowLabel at htype
        by_contra h6
        exact hlabel ⟨htype, h6⟩

lemma checkComponentOrder_eq_ok {current : ComponentType} :
    checkComponentOrder previous current = .ok () ↔
      ∀ p, previous = some p → p.code < current.code := by
  unfold checkComponentOrder
  rcases previous with _ | p
  · simp
  · simp only [Option.some.injEq, forall_eq']
    split_ifs with h1 h2
    · simp [h1]
    · simp only [false_iff]
      omega
    · simp only [true_iff]
      have : current.code ≠ p.code := fun h => h1 (ComponentType.code_injective h)
      omega

lemma parseComponents_eq_ok :
    parseComponents afi previous data = .ok cs ↔
      (data = [] ∧ cs = []) ∨
      ∃ c rest cs', parseFlowComponent data afi = .ok (c, rest) ∧
        (∀ p, previous = some p → p.code < c.type.code) ∧
        parseComponents afi (some c.type) rest = .ok cs' ∧ cs = c :: cs' := by
  rw [parseComponents]
  by_cases hnil : data = []
  · have hno : parseFlowComponent ([] : List Octet) afi = .error .truncated := rfl
    subst hnil
    rw [if_pos rfl, ok.injEq, hno]
    simp [eq_comm]
  · rw [if_neg hnil]
    simp only [hnil, false_and, false_or]
    split
    · rename_i e he
      simp [he]
    · rename_i c rest hc
      simp only [hc, ok.injEq, Prod.mk.injEq]
      rcases ho : checkComponentOrder previous c.type with e | ⟨⟩
      · have hnot : ¬ ∀ p, previous = some p → p.code < c.type.code := by
          rw [← checkComponentOrder_eq_ok, ho]
          simp
        simp only [reduceCtorEq, false_iff]
        rintro ⟨c', rest', cs', ⟨rfl, rfl⟩, h, -⟩
        exact hnot h
      · have hord := checkComponentOrder_eq_ok.1 ho
        constructor
        · intro h
          obtain ⟨cs', hcs', rfl⟩ := map_eq_ok h
          exact ⟨c, rest, cs', ⟨rfl, rfl⟩, hord, hcs', rfl⟩
        · rintro ⟨c', rest', cs', ⟨rfl, rfl⟩, -, hcs', rfl⟩
          simp only [hcs']
          rfl

/-- The components that are accepted come in increasing order of their types and fit the family. -/
lemma parseComponents_spec
    (h : parseComponents afi previous data = .ok cs) :
    cs.Pairwise (fun a b => a.type.code < b.type.code) ∧
      (∀ c ∈ cs, ∀ p, previous = some p → p.code < c.type.code) ∧
      (∀ c ∈ cs, c.type = .flowLabel → afi = .ipv6) ∧
      ∀ p, FlowComponent.pfx p ∈ cs → p.validate afi = .ok () := by
  induction cs generalizing previous data with
  | nil => simp
  | cons c cs ih =>
    rcases parseComponents_eq_ok.1 h with ⟨-, hnil⟩ | ⟨c', rest, cs', hc, hord, hrest, heq⟩
    · cases hnil
    · obtain ⟨rfl, rfl⟩ := cons.inj heq
      obtain ⟨hlabel, hpattern⟩ := parseFlowComponent_spec hc
      obtain ⟨h1, h2, h3, h4⟩ := ih hrest
      refine ⟨pairwise_cons.2 ⟨fun b hb => h2 b hb _ rfl, h1⟩, ?_, ?_, ?_⟩
      · intro b hb p hp
        rcases mem_cons.1 hb with rfl | hb
        · exact hord p hp
        · exact (hord p hp).trans (h2 b hb _ rfl)
      · intro b hb
        rcases mem_cons.1 hb with rfl | hb
        · exact hlabel
        · exact h3 b hb
      · intro p hp
        rcases mem_cons.1 hp with hp | hp
        · exact hpattern p hp.symm
        · exact h4 p hp

end

/-- Source: types.go. -/
def parseFlowSpec (afi : Afi) (data : List Octet) : Except FlowError FlowSpec :=
  match flowSpecValue data with
  | .error e => .error e
  | .ok value =>
    match h : parseComponents afi none value with
    | .error e => .error e
    | .ok cs =>
      .ok
        { afi := afi
          components := cs
          nodup := by
            refine List.Pairwise.map _ (fun a b hab => ?_) (parseComponents_spec h).1
            exact fun heq => absurd (congrArg ComponentType.code heq) hab.ne
          label := (parseComponents_spec h).2.2.1
          prefixes := (parseComponents_spec h).2.2.2 }

end Ze.Flow
