import Mathlib.Algebra.Order.Ring.Int
import Ze.Flow.Types
import Ze.Lib.AndOr

/-!
# The check for rules that match no packet

`internal/core/bgp/nlri/flowspec/unmatchable.go` and `unmatchable_values.go`, function by function:
`checkMatchable` and what it asks.

Default file: `unmatchable_values.go`.
-/

namespace Ze.Flow

open Ze.Lib
open BitVec (allOnes ofNat)

def errFlowSpecUnmatchable : String :=
  "flowspec: the flow route matches no packet, " ++
    "and RFC 8955 Section 4.2 says such a route SHOULD NOT be propagated"

/-! ## Operator lists -/

def termAdmits (op : BitVec 8) (value data : BitVec 64) (bitmask : Bool) : Bool :=
  if bitmask then
    let hit :=
      if op &&& flowOpMatch ≠ 0#8 then decide (data &&& value = value)
      else decide (data &&& value ≠ 0#64)
    hit != decide (op &&& flowOpNot ≠ 0#8)
  else
    decide (op &&& flowOpLess ≠ 0#8 ∧ data < value) ||
      decide (op &&& flowOpGreater ≠ 0#8 ∧ value < data) ||
      decide (op &&& flowOpEqual ≠ 0#8 ∧ data = value)

def expressionAdmits (list : List FlowMatch) (data : BitVec 64) (bitmask : Bool)
    (valueMask : BitVec 64) : Bool :=
  AndOr.eval FlowMatch.and or and false
    (fun m => termAdmits m.op (m.value &&& valueMask) data bitmask) list

/-! ## Protocols -/

abbrev ProtocolSet := BitVec 256

/-- The set of the bits that satisfy a predicate, one after the other.
Source: the loops of protocolsAdmitted and lowBitmaskWords. -/
def bitsWhere (w : ℕ) (p : ℕ → Bool) : BitVec w :=
  (List.range w).foldl (fun s i => if p i then s ||| (1#w <<< i) else s) 0#w

def protocolsOf (protocols : List ℕ) : ProtocolSet :=
  protocols.foldl (fun s p => s ||| (1#256 <<< p)) 0#256

def protocolName : ℕ → String
  | 1 => "ICMP"
  | 6 => "TCP"
  | 17 => "UDP"
  | 58 => "ICMPv6"
  | _ => ""

def names (s : ProtocolSet) : String :=
  " or ".intercalate (((List.range 256).filter s.getLsbD).map protocolName)

def ipv6ExtensionHeaders : ProtocolSet := protocolsOf [0, 43, 44, 50, 51, 60]

def protocolsAdmitted (list : List FlowMatch) : ProtocolSet :=
  bitsWhere 256 fun p => expressionAdmits list (ofNat 64 p) false (allOnes 64)

def upperLayerProtocols (afi : Afi) (list : List FlowMatch) : ProtocolSet :=
  if afi = .ipv6 then protocolsAdmitted list &&& ~~~ipv6ExtensionHeaders
  else protocolsAdmitted list

def transportTypes : List ComponentType :=
  [.port, .destPort, .sourcePort, .icmpType, .icmpCode, .tcpFlags]

def transportProtocols (t : ComponentType) (afi : Afi) : ProtocolSet :=
  match t with
  | .port | .destPort | .sourcePort => protocolsOf [6, 17]
  | .icmpType | .icmpCode => if afi = .ipv6 then protocolsOf [58] else protocolsOf [1]
  | .tcpFlags => protocolsOf [6]
  | _ => 0#256

def transportField (t : ComponentType) : String := if t = .tcpFlags then "TCP flags" else "ports"

/-! ## Ranges -/

structure ValueRange where
  lo : BitVec 64
  hi : BitVec 64

def maxUint64 : BitVec 64 := allOnes 64

def termRange (value : BitVec 64) (less greater equal : Bool) : Option (BitVec 64 × BitVec 64) :=
  if less then
    if equal then some (0#64, value)
    else if value = 0#64 then none
    else some (0#64, value - 1)
  else if greater then
    if equal then some (value, maxUint64)
    else if value = maxUint64 then none
    else some (value + 1, maxUint64)
  else if equal then some (value, value)
  else none

/-- The interval of a group and the values taken out of it, none where the terms leave nothing.
Source: appendGroupRanges, the first loop. -/
def groupBounds : List FlowMatch → BitVec 64 → BitVec 64 → List (BitVec 64) →
    Option (BitVec 64 × BitVec 64 × List (BitVec 64))
  | [], lo, hi, excluded => some (lo, hi, excluded)
  | m :: group, lo, hi, excluded =>
    let less := decide (m.op &&& flowOpLess ≠ 0#8)
    let greater := decide (m.op &&& flowOpGreater ≠ 0#8)
    let equal := decide (m.op &&& flowOpEqual ≠ 0#8)
    if less && greater then
      groupBounds group lo hi (if equal then excluded else excluded ++ [m.value])
    else
      match termRange m.value less greater equal with
      | none => none
      | some (termLo, termHi) =>
        let lo := if lo < termLo then termLo else lo
        let hi := if termHi < hi then termHi else hi
        if hi < lo then none else groupBounds group lo hi excluded

/-- What is left from `next` to `hi` without the excluded values, which are in increasing order.
Source: appendGroupRanges, the second loop. -/
def cutExcluded (hi : BitVec 64) : List (BitVec 64) → BitVec 64 → List ValueRange
  | [], next => [⟨next, hi⟩]
  | value :: excluded, next =>
    if value < next then cutExcluded hi excluded next
    else if hi < value then [⟨next, hi⟩]
    else
      let before := if next < value then [⟨next, value - 1⟩] else []
      if value = hi then before else before ++ cutExcluded hi excluded (value + 1)

def appendGroupRanges (group : List FlowMatch) (valueMax : BitVec 64) : List ValueRange :=
  match groupBounds group 0#64 valueMax [] with
  | none => []
  | some (lo, hi, excluded) => cutExcluded hi (excluded.mergeSort fun a b => decide (a ≤ b)) lo

/-- Source: mergeRanges, the loop. -/
def joinRanges (last : ValueRange) : List ValueRange → List ValueRange
  | [] => [last]
  | r :: ranges =>
    if last.hi = maxUint64 then [last]
    else if r.lo ≤ last.hi + 1 then
      joinRanges ⟨last.lo, if last.hi < r.hi then r.hi else last.hi⟩ ranges
    else last :: joinRanges r ranges

def mergeRanges (ranges : List ValueRange) : List ValueRange :=
  match ranges.mergeSort fun a b => decide (a.lo ≤ b.lo) with
  | [] => []
  | r :: rest => joinRanges r rest

def admittedRanges (list : List FlowMatch) (valueMax : BitVec 64) : List ValueRange :=
  mergeRanges ((AndOr.runs FlowMatch.and list).flatMap fun group =>
    appendGroupRanges group valueMax)

def rangesMeet : List ValueRange → List ValueRange → Bool
  | [], _ => false
  | _ :: _, [] => false
  | a :: as, b :: bs =>
    if a.hi < b.lo then rangesMeet as (b :: bs)
    else if b.hi < a.lo then rangesMeet (a :: as) bs
    else true
  termination_by as bs => as.length + bs.length

/-! ## Bitmasks -/

/-- Source: lowAllSet, lowBitmaskWords. -/
def lowAllSet (value : BitVec 64) : BitVec 64 :=
  bitsWhere 64 fun low => decide (ofNat 64 low &&& value = value)

/-- Source: lowAnySet, lowBitmaskWords. -/
def lowAnySet (value : BitVec 64) : BitVec 64 :=
  bitsWhere 64 fun low => decide (ofNat 64 low &&& value ≠ 0#64)

def termWord (m : FlowMatch) (high : BitVec 64) : BitVec 64 :=
  let valueHigh := m.value >>> 6
  let valueLow := m.value &&& 0x3F#64
  let hit :=
    if m.op &&& flowOpMatch = 0#8 then
      if high &&& valueHigh ≠ 0#64 then maxUint64 else lowAnySet valueLow
    else if high &&& valueHigh = valueHigh then lowAllSet valueLow
    else 0#64
  if m.op &&& flowOpNot ≠ 0#8 then ~~~hit else hit

def expressionWord (list : List FlowMatch) (high : BitVec 64) : BitVec 64 :=
  AndOr.eval FlowMatch.and (· ||| ·) (· &&& ·) 0#64 (fun m => termWord m high) list

def tcpFlagsAdmitted (list : List FlowMatch) : Bool :=
  (List.range (2 ^ 10)).any fun high => expressionWord list (ofNat 64 high) ≠ 0#64

/-- Source: types.go. -/
def flowFragDontFragment : BitVec 64 := 0x01#64

/-- Source: types.go. -/
def flowFragIsFragment : BitVec 64 := 0x02#64

/-- Source: types.go. -/
def flowFragFirstFragment : BitVec 64 := 0x04#64

/-- Source: types.go. -/
def flowFragLastFragment : BitVec 64 := 0x08#64

def transportFragmentStates : List (BitVec 64) := [0#64, flowFragFirstFragment]

def packetFragmentStates : List (BitVec 64) :=
  [0#64, flowFragFirstFragment, flowFragIsFragment, flowFragIsFragment ||| flowFragLastFragment]

/-- The value bits that the fragment component defines. Source: fragmentAdmitted, defined. -/
def fragmentDefined (afi : Afi) : BitVec 64 :=
  let defined := flowFragDontFragment ||| flowFragIsFragment ||| flowFragFirstFragment |||
    flowFragLastFragment
  if afi = .ipv6 then defined &&& ~~~flowFragDontFragment else defined

def fragmentAdmitted (afi : Afi) (list : List FlowMatch) (states : List (BitVec 64)) : Bool :=
  states.any fun state =>
    expressionAdmits list state true (fragmentDefined afi) ||
      (afi != .ipv6 && expressionAdmits list (state ||| flowFragDontFragment) true
        (fragmentDefined afi))

/-! ## The check -/

/-- A refusal where the condition holds. Source: the if statements of both files that return an
error. -/
def refuse (c : Bool) (text : String) : Except String Unit := if c then .error text else .ok ()

/-- A check that is made only where the condition holds. Source: the if statements that guard one.
-/
def when (c : Bool) (check : Except String Unit) : Except String Unit := if c then check else .ok ()

def valueComponentTypes : List ComponentType :=
  [.port, .destPort, .sourcePort, .icmpType, .icmpCode, .packetLength, .dscp, .flowLabel]

def componentValueMax (t : ComponentType) (afi : Afi) : BitVec 64 :=
  match t with
  | .port | .destPort | .sourcePort => 0xFFFF#64
  | .icmpType | .icmpCode => 0xFF#64
  | .packetLength => if afi = .ipv6 then maxUint64 else 0xFFFF#64
  | .dscp => 0x3F#64
  | .flowLabel => 0xFFFFF#64
  | _ => 0#64

def checkUpperLayerValues (afi : Afi) (list : List FlowMatch) : Except String Unit :=
  if protocolsAdmitted list = 0#256 then
    .error (errFlowSpecUnmatchable ++ ": the " ++ ComponentType.ipProtocol.string ++
      " match admits no value from 0 to 255, the values its field can hold; widen the " ++
      ComponentType.ipProtocol.string ++ " match or remove it")
  else if upperLayerProtocols afi list = 0#256 then
    .error (errFlowSpecUnmatchable ++ ": the " ++ ComponentType.ipProtocol.string ++
      " match admits only IPv6 extension headers, and RFC 8956 Section 3.3 matches the first Next "
        ++
      "Header that is not one; match the upper-layer protocol instead, or remove the " ++
      ComponentType.ipProtocol.string ++ " match")
  else .ok ()

section

variable (afi : Afi) (has : ComponentType → Bool) (lists : ComponentType → List FlowMatch)

/-- One component judged by its values. Source: checkComponentValues, the body of the loop. -/
def checkValues (t : ComponentType) : Except String Unit :=
  let valueMax := componentValueMax t afi
  refuse (has t && (admittedRanges (lists t) valueMax).isEmpty)
    (errFlowSpecUnmatchable ++ ": the " ++ t.string ++ " match admits no value from 0 to " ++
      toString valueMax.toNat ++ ", the values its field can hold; widen the " ++ t.string ++
      " match or remove it")

def checkComponentValues : Except String Unit := do
  when (has .ipProtocol) (checkUpperLayerValues afi (lists .ipProtocol))
  valueComponentTypes.forM (checkValues afi has lists)
  refuse (has .tcpFlags && !tcpFlagsAdmitted (lists .tcpFlags))
    (errFlowSpecUnmatchable ++ ": the " ++ ComponentType.tcpFlags.string ++
      " match admits no combination of TCP flags, because its terms contradict each other; widen the " ++
      ComponentType.tcpFlags.string ++ " match or remove it")
  refuse (has .fragment && !fragmentAdmitted afi (lists .fragment) packetFragmentStates)
    (errFlowSpecUnmatchable ++ ": the " ++ ComponentType.fragment.string ++
      " match admits no packet: an unfragmented packet sets none of is-fragment, first-fragment and " ++
      "last-fragment, a first fragment sets first-fragment alone, and a later fragment sets " ++
      "is-fragment, with last-fragment on the last one; widen the " ++
      ComponentType.fragment.string ++ " match or remove it")

def checkPortValues : Except String Unit :=
  if !has .port then .ok ()
  else if !has .destPort then .ok ()
  else if !has .sourcePort then .ok ()
  else
    let port := admittedRanges (lists .port) 0xFFFF#64
    if rangesMeet port (admittedRanges (lists .destPort) 0xFFFF#64) then .ok ()
    else if rangesMeet port (admittedRanges (lists .sourcePort) 0xFFFF#64) then .ok ()
    else
      .error (errFlowSpecUnmatchable ++ ": the " ++ ComponentType.port.string ++
        " match admits no port the " ++ ComponentType.destPort.string ++ " match or the " ++
        ComponentType.sourcePort.string ++ " match admits, and a packet matches the " ++
        ComponentType.port.string ++
        " match only through its destination or its source port; widen the " ++
        ComponentType.port.string ++ " match or remove it")

/-- The refusal of two components that no protocol serves. Source: unmatchable.go
CheckMatchable, the first return. -/
def conflictText (first : ComponentType) (required : ProtocolSet) (t : ComponentType)
    (need : ProtocolSet) : String :=
  let swap := first = .icmpType ∨ first = .icmpCode
  let icmp := if swap then names required else names need
  let other := if swap then t else first
  errFlowSpecUnmatchable ++ ": the " ++ first.string ++ " match needs " ++ names required ++
    " packets and the " ++ t.string ++ " match needs " ++ names need ++ " packets, and " ++ icmp ++
    " has no " ++ transportField other ++ "; remove one of the two matches"

/-- The first transport component and the protocols that serve every one of them. Source:
unmatchable.go CheckMatchable, the loop. -/
def narrowProtocols : List ComponentType → Option (ComponentType × ProtocolSet) →
    Except String (Option (ComponentType × ProtocolSet))
  | [], acc => .ok acc
  | t :: types, acc =>
    if !has t then narrowProtocols types acc
    else
      let need := transportProtocols t afi
      match acc with
      | none => narrowProtocols types (some (t, need))
      | some (first, required) =>
        let narrowed := required &&& need
        if narrowed = 0#256 then .error (conflictText first required t need)
        else narrowProtocols types (some (first, narrowed))

/-- The protocol and the fragment lists beside a transport component. Source: unmatchable.go
CheckMatchable, the part after the values. -/
def checkTransport (first : ComponentType) (required : ProtocolSet) : Except String Unit := do
  refuse (has .ipProtocol && required &&& upperLayerProtocols afi (lists .ipProtocol) = 0#256)
    (errFlowSpecUnmatchable ++ ": the " ++ first.string ++ " match needs " ++ names required ++
      " packets and the " ++ ComponentType.ipProtocol.string ++
      " match admits none of them; widen the " ++ ComponentType.ipProtocol.string ++
      " match or remove the " ++ first.string ++ " match")
  refuse (has .fragment && !fragmentAdmitted afi (lists .fragment) transportFragmentStates)
    (errFlowSpecUnmatchable ++ ": the " ++ first.string ++
      " match reads the transport header, which only an unfragmented packet or a first fragment " ++
      "carries, and the " ++ ComponentType.fragment.string ++
      " match admits neither; remove the " ++ ComponentType.fragment.string ++ " match or the " ++
      first.string ++ " match")

end

/-- Without the operator lists only the combination of types is judged. Source: unmatchable.go. -/
def checkMatchable (afi : Afi) (has : ComponentType → Bool)
    (lists : Option (ComponentType → List FlowMatch)) : Except String Unit := do
  let acc ← narrowProtocols afi has transportTypes none
  match lists with
  | none => return
  | some lists =>
    checkComponentValues afi has lists
    checkPortValues has lists
    match acc with
    | none => return
    | some (first, required) => checkTransport afi has lists first required

def FlowSpec.checkMatchable (f : FlowSpec) : Except String Unit :=
  Ze.Flow.checkMatchable f.afi f.hasComponent (some f.componentMatches)

end Ze.Flow
