import Ze.Net.Prefix

/-!
# The DHCP server of one subnet

`DhcpHandler` answers the packets of one subnet out of an address pool and a lease table. This file
follows it from the octets of a packet to the change of its tables.

Default file: `pool.go`.
-/

namespace Ze.Dhcp

open Ze.Net
open Function (update)

/-- An octet. Source: byte. -/
abbrev Octet := BitVec 8

/-- An IPv4 address; every address of the server is one. Source: net/netip Addr. -/
abbrev IPv4 := BitVec 32

/-- A hardware address. Source: net.HardwareAddr. -/
abbrev Mac := List Octet

/-! ## Reading a packet -/

/-- Source: net/netip AddrFrom4. -/
def addrFrom4 (octets : List Octet) : IPv4 :=
  octets.foldl (fun value b => value <<< 8 ||| b.setWidth 32) 0#32

/-- The octets `[start, stop)`. Source: a slice of the packet. -/
def slice (pkt : List Octet) (start stop : ℕ) : List Octet :=
  (pkt.drop start).take (stop - start)

/-- One octet; the callers have checked the length. Source: an index into the packet. -/
def octetAt (pkt : List Octet) (i : ℕ) : Octet :=
  (pkt[i]?).getD 0#8

/-- The walk over one field. Each pass moves on, so as many passes as the field has octets are
enough. Source: dhcpserver/options.go findFieldOption. -/
def walkField (code : Octet) : ℕ → List Octet → Option (List Octet)
  | 0, _ => none
  | _, [] => none
  | passes + 1, current :: rest =>
    if current = 255#8 then none
    else if current = 0#8 then walkField code passes rest
    else
      match rest with
      | [] => none
      | len :: data =>
        if data.length < len.toNat then none
        else if current = code then some (data.take len.toNat)
        else walkField code passes (data.drop len.toNat)

/-- The first option `code` of one field. Source: options.go. -/
def findFieldOption (code : Octet) (field : List Octet) : Option (List Octet) :=
  walkField code field.length field

/-- The option overload value, 0 when there is none. Source: options.go. -/
def overloadValue (options : List Octet) : Octet :=
  match findFieldOption 52#8 options with
  | some [value] => value
  | _ => 0#8

/-- The first option `code` of the fields in use. Source: options.go. -/
def findOption (pkt : List Octet) (code : Octet) : Option (List Octet) :=
  if pkt.length < 240 then none
  else
    match findFieldOption code (pkt.drop 240) with
    | some data => some data
    | none =>
      let overload := overloadValue (pkt.drop 240)
      let inFile :=
        if overload = 1#8 ∨ overload = 3#8 then findFieldOption code (slice pkt 108 236) else none
      match inFile with
      | some data => some data
      | none =>
        if overload = 2#8 ∨ overload = 3#8 then findFieldOption code (slice pkt 44 108) else none

/-- The message type, 0 when there is none. Source: dhcpserver/handler.go. -/
def parseMsgType (pkt : List Octet) : Octet :=
  match findOption pkt 53#8 with
  | some [value] => value
  | _ => 0#8

/-- Source: handler.go. -/
def parseOptionAddr (pkt : List Octet) (code : Octet) : Option IPv4 :=
  match findOption pkt code with
  | none => none
  | some data => if data.length ≠ 4 then none else some (addrFrom4 data)

/-- Source: handler.go. -/
def extractMAC (pkt : List Octet) : Mac :=
  slice pkt 28 (28 + min (octetAt pkt 2).toNat 16)

/-! ## The address pool -/

/-- Source: dhcpserver/pool.go. -/
structure PoolSegment where
  start : IPv4
  size : BitVec 32
  allocated : BitVec 32
  bitmap : List Bool
  staticSet : List IPv4

structure Pool where
  segments : List PoolSegment
  /-- The address last given to a client. -/
  macToAddr : List (Mac × IPv4)

/-- Source: dhcpserver/config.go. -/
structure StaticMapping where
  mac : Mac
  ip : IPv4

namespace PoolSegment

/-- Source: findSegment, a >= s && a < s+size. -/
def has (seg : PoolSegment) (addr : IPv4) : Bool :=
  decide (seg.start ≤ addr) && decide (addr < seg.start + seg.size)

/-- The bit of an address of the segment. Source: seg.bitmap[word]&(1<<bit). -/
def isSet (seg : PoolSegment) (addr : IPv4) : Bool :=
  (seg.bitmap[(addr - seg.start).toNat]?).getD false

/-- Sets the bit of an address unless it is set. Source: reserve. -/
def set (seg : PoolSegment) (addr : IPv4) : PoolSegment :=
  if seg.isSet addr then seg
  else { seg with
    bitmap := seg.bitmap.set (addr - seg.start).toNat true
    allocated := seg.allocated + 1#32 }

/-- Clears the bit of an address. Source: release. -/
def clear (seg : PoolSegment) (addr : IPv4) : PoolSegment :=
  { seg with
    bitmap := seg.bitmap.set (addr - seg.start).toNat false
    allocated := seg.allocated - 1#32 }

/-- A segment for a range, with the static mappings in it taken. A mapping that is configured twice
counts twice.
Source: newPool. -/
def new (start stop : IPv4) (statics : List StaticMapping) : PoolSegment :=
  statics.foldl
    (fun seg sm =>
      if start ≤ sm.ip ∧ sm.ip ≤ stop then
        { seg with
          staticSet := sm.ip :: seg.staticSet
          bitmap := seg.bitmap.set (sm.ip - start).toNat true
          allocated := seg.allocated + 1#32 }
      else seg)
    { start := start
      size := stop - start + 1#32
      allocated := 0#32
      bitmap := List.replicate (stop - start + 1#32).toNat false
      staticSet := [] }

end PoolSegment

namespace Pool

/-- Source: newPool. -/
def new (ranges : List (IPv4 × IPv4)) (statics : List StaticMapping) : Pool where
  segments := ranges.map fun r => PoolSegment.new r.1 r.2 statics
  macToAddr := []

/-- The first free address of the segments, which is taken. Source: allocate. -/
def allocateIn : List PoolSegment → Option (IPv4 × List PoolSegment)
  | [] => none
  | seg :: segs =>
    let rest := (allocateIn segs).map fun (addr, segs) => (addr, seg :: segs)
    if seg.size ≤ seg.allocated then rest
    else
      match seg.bitmap.findIdx? (!·) with
      | none => rest
      | some idx =>
        let addr := seg.start + BitVec.ofNat 32 idx
        some (addr, seg.set addr :: segs)

/-- Records the address of a client. Source: p.macToAddr[string(mac)] = addr. -/
def record (p : Pool) (mac : Mac) (addr : IPv4) : Pool :=
  { p with macToAddr := (mac, addr) :: p.macToAddr.filter fun e => e.1 ≠ mac }

def allocate (p : Pool) (mac : Mac) : Option (IPv4 × Pool) :=
  match p.macToAddr.lookup mac with
  | some addr => some (addr, p)
  | none => (allocateIn p.segments).map fun (addr, segs) =>
    (addr, { p with segments := segs }.record mac addr)

def findSegment (p : Pool) (addr : IPv4) : Option PoolSegment :=
  p.segments.find? fun seg => seg.has addr

/-- Changes the segment of an address. Source: findSegment. -/
def onSegment (p : Pool) (addr : IPv4) (f : PoolSegment → PoolSegment) : Pool :=
  match p.segments.findIdx? fun seg => seg.has addr with
  | none => p
  | some i => { p with segments := p.segments.modify i f }

def reserve (p : Pool) (addr : IPv4) (mac : Mac) : Pool :=
  (p.onSegment addr fun seg => seg.set addr).record mac addr

def markUnavailable (p : Pool) (addr : IPv4) : Pool :=
  p.onSegment addr fun seg =>
    { seg.set addr with staticSet := addr :: seg.staticSet }

/-- Forgets one client recorded under the address. Source: release, the loop over macToAddr. -/
def forget (p : Pool) (addr : IPv4) (pick : ℕ) : Pool :=
  let holders := p.macToAddr.filter fun e => e.2 = addr
  match holders[pick % holders.length]? with
  | none => p
  | some victim => { p with macToAddr := p.macToAddr.filter fun e => e.1 ≠ victim.1 }

def release (p : Pool) (addr : IPv4) (pick : ℕ) : Pool :=
  match p.findSegment addr with
  | none => p
  | some seg =>
    if addr ∈ seg.staticSet then p
    else if seg.isSet addr then (p.onSegment addr fun seg => seg.clear addr).forget addr pick
    else p

end Pool

/-! ## The lease table -/

/-- Source: dhcpserver/lease.go. -/
structure Lease where
  mac : Mac
  addr : IPv4
  /-- In nanoseconds. -/
  expiry : ℕ
  deriving DecidableEq

/-- Source: lease.go. -/
structure LeaseTable where
  byMAC : Mac → Option Lease
  byAddr : IPv4 → Option Lease
  pool : Pool

namespace LeaseTable

/-- Source: lease.go newLeaseTable. -/
def new (p : Pool) : LeaseTable where
  byMAC := fun _ => none
  byAddr := fun _ => none
  pool := p

/-- A lease of `leaseSec` seconds; the client's earlier one goes. Source: lease.go. -/
def add (lt : LeaseTable) (now : ℕ) (mac : Mac) (addr : IPv4) (leaseSec : BitVec 32) (pick : ℕ) :
    LeaseTable :=
  let lt :=
    match lt.byMAC mac with
    | none => lt
    | some existing => { lt with
        byAddr := update lt.byAddr existing.addr none
        pool := if existing.addr ≠ addr then lt.pool.release existing.addr pick else lt.pool }
  let l : Lease := ⟨mac, addr, now + leaseSec.toNat * 1000000000⟩
  { lt with
    byMAC := update lt.byMAC mac (some l)
    byAddr := update lt.byAddr addr (some l) }

/-- Source: lease.go release, expire. -/
def release (lt : LeaseTable) (mac : Mac) (pick : ℕ) : LeaseTable :=
  match lt.byMAC mac with
  | none => lt
  | some l =>
    { byMAC := update lt.byMAC mac none
      byAddr := update lt.byAddr l.addr none
      pool := lt.pool.release l.addr pick }

end LeaseTable

/-! ## The handler -/

/-- The configuration of a subnet, as far as bindings depend on it.
Source: handler.go dhcpHandler; config.go subnetConfig -/
structure Subnet where
  net : Prefix
  ranges : List (IPv4 × IPv4)
  leaseTimeSec : BitVec 32
  staticMappings : List StaticMapping
  serverIP : IPv4

/-- A reply, as far as the client's binding goes. Source: handler.go buildReply,
buildNak. -/
inductive Reply where
  | offer (mac : Mac) (yiaddr : IPv4)
  | ack (mac : Mac) (yiaddr : IPv4)
  | nak (mac : Mac)
  deriving DecidableEq

namespace Subnet

variable (h : Subnet)

/-- The static mapping of a hardware address: the last one configured.
Source: handler.go newDHCPHandlerWithTables. -/
def staticByMAC (mac : Mac) : Option IPv4 :=
  ((h.staticMappings.reverse.find? fun sm => sm.mac = mac).map StaticMapping.ip)

/-- Source: handler.go. -/
def contains (addr : IPv4) : Bool :=
  h.net.covers (.v4 addr)

/-- Source: handler.go. -/
def matchesSubnet (pkt : List Octet) : Bool :=
  let giaddr := addrFrom4 (slice pkt 24 28)
  if giaddr ≠ 0#32 then h.contains giaddr
  else
    let ciaddr := addrFrom4 (slice pkt 12 16)
    if ciaddr ≠ 0#32 then h.contains ciaddr
    else
      match parseOptionAddr pkt 50#8 with
      | some requestedIP => h.contains requestedIP
      | none => true

/-- What a DHCPREQUEST comes to: nothing, a refusal, or the binding of an address.
Source: handler.go handleRequest -/
inductive Verdict where
  | silent
  | refuse
  | commit (addr : IPv4)
  deriving DecidableEq

/-- The form of a DHCPREQUEST: selecting, init-reboot or renewing.
Source: handler.go handleRequest. -/
def request (pkt : List Octet) : Verdict :=
  match parseOptionAddr pkt 54#8, parseOptionAddr pkt 50#8 with
  | some serverID, requestedIP =>
    if serverID ≠ h.serverIP then .silent
    else
      match requestedIP with
      | none => .refuse
      | some addr => .commit addr
  | none, some addr => if !h.contains addr then .refuse else .commit addr
  | none, none =>
    let ciaddr := addrFrom4 (slice pkt 12 16)
    if ciaddr ≠ 0#32 then .commit ciaddr else .refuse

/-- Source: handler.go allocateForClient, handleDiscover. -/
def handleDiscover (lt : LeaseTable) (mac : Mac) : LeaseTable × Option Reply :=
  match h.staticByMAC mac with
  | some ip => (lt, some (.offer mac ip))
  | none =>
    match lt.pool.allocate mac with
    | none => (lt, none)
    | some (addr, pool) => ({ lt with pool := pool }, some (.offer mac addr))

/-- Source: handler.go. -/
def commitBinding (lt : LeaseTable) (now : ℕ) (mac : Mac) (addr : IPv4) (pick : ℕ) :
    LeaseTable × Option Reply :=
  let lt := { lt with pool := lt.pool.reserve addr mac }
  (lt.add now mac addr h.leaseTimeSec pick, some (.ack mac addr))

/-- Source: handler.go. -/
def handleRequest (lt : LeaseTable) (now : ℕ) (pkt : List Octet) (mac : Mac) (pick : ℕ) :
    LeaseTable × Option Reply :=
  match h.request pkt with
  | .silent => (lt, none)
  | .refuse => (lt, some (.nak mac))
  | .commit addr => h.commitBinding lt now mac addr pick

/-- Source: handler.go. -/
def handleDecline (lt : LeaseTable) (pkt : List Octet) (mac : Mac) (pick : ℕ) : LeaseTable :=
  let lt :=
    match parseOptionAddr pkt 50#8 with
    | none => lt
    | some declined => { lt with pool := lt.pool.markUnavailable declined }
  lt.release mac pick

/-- A packet that is not dropped before its message type is looked at.
Source: handler.go handle. -/
def accepts (pkt : List Octet) : Bool :=
  decide (244 ≤ pkt.length) && decide (octetAt pkt 0 = 1#8) &&
    decide (addrFrom4 (slice pkt 236 240) = 0x63825363#32) && decide (octetAt pkt 2 ≠ 0#8) &&
    h.matchesSubnet pkt

/-- Source: handler.go. -/
def handle (lt : LeaseTable) (now : ℕ) (pkt : List Octet) (pick : ℕ) : LeaseTable × Option Reply :=
  if !h.accepts pkt then (lt, none)
  else
    let mac := extractMAC pkt
    let msgType := parseMsgType pkt
    if msgType = 1#8 then h.handleDiscover lt mac
    else if msgType = 3#8 then h.handleRequest lt now pkt mac pick
    else if msgType = 7#8 then (lt.release mac pick, none)
    else if msgType = 4#8 then (handleDecline lt pkt mac pick, none)
    else (lt, none)

end Subnet

end Ze.Dhcp
