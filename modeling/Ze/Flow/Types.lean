import Mathlib.Data.List.Nodup
import Ze.Net.Prefix

/-!
# FlowSpec rules

`internal/core/bgp/nlri/flowspec/types.go` and the component types of `types_prefix.go` and
`types_numeric.go`: a rule is an address family and a list of components, each of its own type.

Default file: `types.go`.
-/

namespace Ze.Flow

open Ze.Net List

/-! ## Components -/

/-- Source: AFIIPv4, AFIIPv6. -/
inductive Afi
  | ipv4
  | ipv6
  deriving DecidableEq

/-- Source: net/netip Addr.BitLen. -/
def Afi.bitLen : Afi → ℕ
  | ipv4 => 32
  | ipv6 => 128

/-- Source: FlowComponentType. -/
inductive ComponentType
  | destPrefix
  | sourcePrefix
  | ipProtocol
  | port
  | destPort
  | sourcePort
  | icmpType
  | icmpCode
  | tcpFlags
  | packetLength
  | dscp
  | fragment
  | flowLabel
  deriving DecidableEq

namespace ComponentType

/-- The octet of a type. Source: FlowComponentType. -/
def code : ComponentType → ℕ
  | destPrefix => 1
  | sourcePrefix => 2
  | ipProtocol => 3
  | port => 4
  | destPort => 5
  | sourcePort => 6
  | icmpType => 7
  | icmpCode => 8
  | tcpFlags => 9
  | packetLength => 10
  | dscp => 11
  | fragment => 12
  | flowLabel => 13

/-- Types 1 and 2; the others have an operator list.
Source: componentClass, classifyComponent. -/
def isPrefix : ComponentType → Bool
  | destPrefix => true
  | sourcePrefix => true
  | _ => false

/-- The types whose operators are bitmask operators. Source: the bitmask operator flags. -/
def isBitmask : ComponentType → Bool
  | tcpFlags => true
  | fragment => true
  | _ => false

/-- Source: types.go FlowComponentType.String; vocabulary.go the keywords. -/
def string : ComponentType → String
  | destPrefix => "destination-ipv4"
  | sourcePrefix => "source-ipv4"
  | ipProtocol => "protocol"
  | port => "port"
  | destPort => "destination-port"
  | sourcePort => "source-port"
  | icmpType => "icmp-type"
  | icmpCode => "icmp-code"
  | tcpFlags => "tcp-flags"
  | packetLength => "packet-length"
  | dscp => "dscp"
  | fragment => "fragment"
  | flowLabel => "flow-label"

lemma code_injective : Function.Injective code := by
  intro a b h
  cases a <;> cases b <;> first | rfl | exact absurd h (by decide)

end ComponentType

def flowOpAnd : BitVec 8 := 0x40#8

def flowOpEnd : BitVec 8 := 0x80#8

def flowOpLess : BitVec 8 := 0x04#8

def flowOpGreater : BitVec 8 := 0x02#8

def flowOpEqual : BitVec 8 := 0x01#8

def flowOpNot : BitVec 8 := 0x02#8

def flowOpMatch : BitVec 8 := 0x01#8

structure FlowMatch where
  op : BitVec 8
  and : Bool := false
  value : BitVec 64
  deriving DecidableEq

def fragmentMask (afi : Afi) : BitVec 64 := if afi = .ipv6 then 0x0e#64 else 0x0f#64

structure PrefixComponent where
  compType : ComponentType
  isPrefix : compType.isPrefix = true
  pfx : Prefix
  offset : UInt8 := 0
  deriving DecidableEq

structure NumericComponent where
  compType : ComponentType
  isNumeric : compType.isPrefix = false
  list : List FlowMatch
  deriving DecidableEq

inductive FlowComponent
  | pfx (c : PrefixComponent)
  | numeric (c : NumericComponent)
  deriving DecidableEq

/-- Source: FlowComponent, Type. -/
def FlowComponent.type : FlowComponent → ComponentType
  | pfx c => c.compType
  | numeric c => c.compType

/-- The refusals of `types.go` and `types_prefix.go`. Source: types.go ErrFlowSpecTruncated and
the others; types_prefix.go validate, prefixComponentShape. -/
inductive FlowError
  | truncated
  | invalidType
  | duplicateType (t : ComponentType)
  | typeOrder (t after : ComponentType)
  | invalidPrefix
  | otherFamily
  | offsetOnIPv4
  | offsetPastLength
  | invalidLength (prefixLen offset : ℕ)
  deriving DecidableEq

def PrefixComponent.validate (c : PrefixComponent) (afi : Afi) : Except FlowError Unit :=
  if c.pfx.isValid = false then .error .invalidPrefix
  else if (decide (c.pfx.addr.bitLen = 32)) ≠ decide (afi = .ipv4) then .error .otherFamily
  else if c.offset = 0 then .ok ()
  else if afi ≠ .ipv6 then .error .offsetOnIPv4
  else if c.pfx.bits ≤ c.offset.toNat then .error .offsetPastLength
  else .ok ()

lemma PrefixComponent.validate_eq_ok {c : PrefixComponent} {afi : Afi} :
    c.validate afi = .ok () ↔
      c.pfx.isValid ∧ c.pfx.addr.bitLen = afi.bitLen ∧
        (c.offset ≠ 0 → afi = .ipv6 ∧ c.offset.toNat < c.pfx.bits) := by
  have hfam : c.pfx.isValid →
      (decide (c.pfx.addr.bitLen = 32) = decide (afi = .ipv4) ↔
        c.pfx.addr.bitLen = afi.bitLen) := by
    intro hvalid
    unfold Prefix.isValid at hvalid
    cases afi <;> cases ha : c.pfx.addr <;> simp_all [Addr.bitLen, Afi.bitLen, Addr.isValid]
  unfold PrefixComponent.validate
  by_cases hvalid : c.pfx.isValid = false
  · simp [hvalid]
  rw [Bool.not_eq_false] at hvalid
  rw [if_neg (by simp [hvalid]), ← hfam hvalid]
  simp only [hvalid, true_and]
  split_ifs with h1 h2 h3 h4
  · simp [h1]
  · simp only [ne_eq, not_not] at h1
    simp [h1, h2]
  · simp [h2, h3]
  · simp only [false_iff]
    rintro ⟨-, h⟩
    have := (h h2).2
    omega
  · simp only [ne_eq, not_not] at h1 h3
    simp only [true_iff]
    exact ⟨h1, fun _ => ⟨h3, by omega⟩⟩

/-! ## Rules -/

/-- A rule: components of different types, a flow label only for IPv6, and prefixes that fit the
family. -/
structure FlowSpec where
  afi : Afi
  components : List FlowComponent
  nodup : (components.map FlowComponent.type).Nodup
  label : ∀ c ∈ components, c.type = .flowLabel → afi = .ipv6
  prefixes : ∀ c, FlowComponent.pfx c ∈ components → c.validate afi = .ok ()

def newFlowSpec (afi : Afi) : FlowSpec where
  afi := afi
  components := []
  nodup := nodup_nil
  label := by simp
  prefixes := by simp

def FlowSpec.componentOfType (f : FlowSpec) (t : ComponentType) : Option FlowComponent :=
  f.components.find? fun c => c.type = t

def FlowSpec.hasComponent (f : FlowSpec) (t : ComponentType) : Bool := (f.componentOfType t).isSome

/-- The operator list of a type; the source is asked only about a numeric type that is there, and
panics elsewhere. Source: unmatchable.go. -/
def FlowSpec.componentMatches (f : FlowSpec) (t : ComponentType) : List FlowMatch :=
  match f.componentOfType t with
  | some (.numeric c) => c.list
  | _ => []

section

variable {f : FlowSpec} {c : FlowComponent} {t : ComponentType}

lemma FlowSpec.componentOfType_eq_some :
    f.componentOfType t = some c ↔ c ∈ f.components ∧ c.type = t := by
  unfold FlowSpec.componentOfType
  constructor
  · intro h
    refine ⟨mem_of_find?_eq_some h, ?_⟩
    have := find?_some h
    simpa using this
  · rintro ⟨hmem, rfl⟩
    rcases hfind : f.components.find? (fun x => x.type = c.type) with _ | c'
    · have := find?_eq_none.1 hfind c hmem
      simp at this
    · have hmem' := mem_of_find?_eq_some hfind
      have htype : c'.type = c.type := by
        have := find?_some hfind
        simpa using this
      exact hfind.trans (congrArg some (inj_on_of_nodup_map f.nodup hmem' hmem htype))

lemma FlowSpec.hasComponent_iff : f.hasComponent t ↔ ∃ c ∈ f.components, c.type = t := by
  unfold FlowSpec.hasComponent
  rw [Option.isSome_iff_exists]
  simp only [FlowSpec.componentOfType_eq_some]

end

end Ze.Flow
