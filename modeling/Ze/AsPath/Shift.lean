import Ze.AsPath.Edits

/-!
# The AS path family of a forwarded UPDATE

`ASPathEdit.Record` of `internal/component/bgp/wireu/aspath_slot.go` and `recordComposed` of
`aspath_compose.go` record what one destination needs done to the AS path family of an UPDATE. A
single AS number before a leading sequence with room is put there by a shift of the octets; every
other edit decodes the path and writes it again.

Default file: `aspath_slot.go`.
-/

namespace Ze.AsPath

/-! ## The edit -/

structure ASPathIntent where
  prepend : List Asn
  srcASN4 : Bool
  dstASN4 : Bool
  overridePeerAS : Asn
  overrideLocalAS : Asn

/-- Why nothing is recorded. Source: aspath_slot.go, aspath_compose.go the errors of Record.
-/
inductive RecordError
  | updateTruncated
  | indexAttributes
  | intentEmpty
  | generatedLength (n : ℕ)
  | parseExisting (e : PathError)
  | transcodeParse (e : PathError)
  | effectivePath (e : PathError)
  | policyPrepend (e : PathError)
  deriving DecidableEq, Repr

/-- Source: aspath.go ASPath.Prepend. -/
def prependAsn (p : Path) (asn : Asn) : Path :=
  match p with
  | ⟨.asSequence, asns⟩ :: rest =>
    if maxASPathSegmentLength ≤ asns.length then ⟨.asSequence, [asn]⟩ :: p
    else ⟨.asSequence, asn :: asns⟩ :: rest
  | _ => ⟨.asSequence, [asn]⟩ :: p

/-- The AS numbers of a segment with those of a peer replaced, the first `skip` excepted. Source:
aspath_compose.go overrideASPathValue, the inner loop. -/
def overrideNumbers (peerAS localAS : Asn) (asn4 : Bool) : ℕ → ℕ → List Octet → List Octet
  | 0, _, _ => []
  | n + 1, skip + 1, data =>
    data.take (asnSize asn4) ++
      overrideNumbers peerAS localAS asn4 n skip (data.drop (asnSize asn4))
  | n + 1, 0, data =>
    (if readAsns asn4 1 data = [peerAS] then
      (if asn4 then putUint32 localAS else putUint16 (localAS.toNat % 65536))
    else data.take (asnSize asn4)) ++
      overrideNumbers peerAS localAS asn4 n 0 (data.drop (asnSize asn4))

/-- Source: aspath_compose.go overrideASPathValue, the loop over the segments. -/
def overrideSegments (peerAS localAS : Asn) (asn4 : Bool) (skip : ℕ) : List Octet → List Octet
  | t :: count :: rest =>
    if rest.length / asnSize asn4 < count.toNat then t :: count :: rest
    else
      [t, count] ++ overrideNumbers peerAS localAS asn4 count.toNat skip rest ++
        overrideSegments peerAS localAS asn4 (skip - count.toNat)
    (rest.drop (count.toNat * asnSize asn4))
  | data => data
termination_by data => data.length
decreasing_by
  simp only [List.length_drop, List.length_cons]
  omega

def overrideASPathValue (value : List Octet) (peerAS localAS : Asn) (asn4 : Bool) (skip : ℕ) :
    List Octet :=
  if peerAS = 0#32 then value else overrideSegments peerAS localAS asn4 skip value

/-- The value of an AS_PATH with one AS number put before its leading sequence, if that has room.
Source: tryShift, asPathShiftGen. -/
def tryShift (value : List Octet) (intent : ASPathIntent) : Option (List Octet) :=
  match intent.prepend, value with
  | [asn], t :: count :: tail =>
    if intent.srcASN4 ≠ intent.dstASN4 then none
    else if intent.dstASN4 = false ∧ isNonMappable asn = true then none
    else if t ≠ SegmentType.asSequence.octet ∨ maxASPathSegmentLength ≤ count.toNat then none
    else
      some (overrideASPathValue
        ([t, BitVec.ofNat 8 (count.toNat + 1)] ++
          (if intent.dstASN4 then putUint32 asn else putUint16 asn.toNat) ++ tail)
        intent.overridePeerAS intent.overrideLocalAS intent.dstASN4 1)
  | _, _ => none

/-- The path that is decoded and written anew never shifts. -/
def noShift (_ : List Octet) (_ : ASPathIntent) : Option (List Octet) := none

def asPathValueContains (asn : Asn) (asn4 : Bool) : List Octet → Bool
  | _ :: count :: rest =>
    if rest.length < count.toNat * asnSize asn4 then false
    else decide (asn ∈ readAsns asn4 count.toNat rest) ||
      asPathValueContains asn asn4 (rest.drop (count.toNat * asnSize asn4))
  | _ => false
termination_by data => data.length
decreasing_by
  simp only [List.length_drop, List.length_cons]
  omega

/-! ## The AS4 attributes -/

/-- Source: aspath_as4.go as4PathForPath; as4.go AS4PathFor, ASPathNeedsAS4. -/
def as4PathForPath (path : Option Path) (dstASN4 : Bool) : Option Path :=
  if dstASN4 then none else as4PathFor path

/-- One segment after those that are joined already. Source: aspath_as4.go joinSequences, the
loop. -/
def joinSegment (joined : Path) (s : Segment) : Path :=
  match joined.getLast? with
  | none => joined ++ [s]
  | some l =>
    if s.type ≠ .asSequence ∨ l.type ≠ .asSequence ∨
      maxASPathSegmentLength < l.asns.length + s.asns.length then
      joined ++ [s]
    else joined.dropLast ++ [⟨l.type, l.asns ++ s.asns⟩]

def joinSequences (p : Path) : Path := p.foldl joinSegment []

def as4PathForRewrite (prepended : Path) (recvAS4 : Option Path) (srcASN4 dstASN4 : Bool) :
    Option Path :=
  if dstASN4 then none
  else if srcASN4 = true ∨ recvAS4 = none then as4PathForPath (some prepended) dstASN4
  else as4PathForPath ((mergeAS4Path (some prepended) recvAS4).map joinSequences) dstASN4

def recordAS4Path (attrs : List Attr) (derived : Option Path) (ops : List AttrOp) : List AttrOp :=
  match derived with
  | some q => ops ++ [generatedOp attrAS4Path (writeAS4Path q)]
  | none => if (lastAttr attrAS4Path attrs).isSome then ops ++ [suppressOp attrAS4Path] else ops

/-- The AGGREGATOR at the destination's width. Source: aggregatorGen.GenWrite. -/
def aggregatorValue (asn : Asn) (ip : List Octet) (wide : Bool) : List Octet :=
  writeAsn wide asn ++ ip

def recordAggregator (attrs : List Attr) (intent : ASPathIntent) (ops : List AttrOp) :
    List AttrOp :=
  if intent.srcASN4 = intent.dstASN4 then ops
  else
    match valueOf attrAggregator attrs with
    | none => ops
    | some value =>
      if value.length = asnSize intent.srcASN4 + 4 then
        match readAsns intent.srcASN4 1 value with
        | asn :: _ =>
          let ip := value.drop (asnSize intent.srcASN4)
          let ops := ops ++ [generatedOp attrAggregator (aggregatorValue asn ip intent.dstASN4)]
          if intent.dstASN4 = true ∨ isNonMappable asn = false then
            if (lastAttr attrAS4Aggregator attrs).isSome then ops ++
              [suppressOp attrAS4Aggregator] else ops
          else ops ++ [generatedOp attrAS4Aggregator (putUint32 asn ++ ip)]
        | [] => ops
      else ops

def recordAggregatorDiscard (attrs : List Attr) (ops : List AttrOp) : List AttrOp :=
  match valueOf attrAggregator attrs with
  | none => ops
  | some value =>
    if value.length = 6 ∨ value.length = 8 then ops
    else ops ++ [suppressOp attrAggregator,
      ⟨attrTombstone, .set, [attrAggregator, tombstoneInvalidLength], false⟩]

/-! ## What is recorded -/

/-- Source: advertise.go. -/
def payloadAdvertisesNLRI (attrs : List Attr) (nlri : List Octet) : Bool :=
  !nlri.isEmpty || (lastAttr attrMPReachNLRI attrs).isSome

def pendingASPathFamily (ops : List AttrOp) : Bool :=
  ops.any fun op => op.code == attrASPath || op.code == attrAS4Path

/-- The value of a type after the operations so far, if it has one. Source: aspath_compose.go. -/
def effectiveASPathValue (attrs : List Attr) (ops : List AttrOp) (code : Octet) :
    Except RecordError (Option (List Octet)) :=
  match lastSetOrSuppress (opsOf code ops) with
  | none => .ok (valueOf code attrs)
  | some (op, _) =>
    if op.action = .suppress then .ok none
    else if op.generated = true ∧ 65535 < op.value.length then .error
      (.generatedLength op.value.length)
    else .ok (some op.value)

/-- An operation that prepends policy AS numbers. Source: aspath_compose.go policyPrepend. -/
def AttrOp.policyPrepends (op : AttrOp) : Bool :=
  op.code == attrASPath && op.action == .prepend && !op.buf.isEmpty

/-- A path with the AS number of a peer replaced. Source: aspath_compose.go recordComposed, the
loop over path.Segments. -/
def overridePath (peerAS localAS : Asn) (p : Path) : Path :=
  if peerAS = 0#32 then p
  else p.map fun s => ⟨s.type, s.asns.map fun asn => if asn = peerAS then localAS else asn⟩

section

variable (shift : List Octet → ASPathIntent → Option (List Octet)) (attrs : List Attr)
  (nlri : List Octet)
  (intent : ASPathIntent) (ops : List AttrOp)

def recordTranscode : Except RecordError (List AttrOp × Bool) :=
  if intent.srcASN4 = intent.dstASN4 then .ok (ops, false)
  else
    match valueOf attrASPath attrs with
    | none =>
      if valueOf attrAggregator attrs = none then .ok (ops, false)
      else
        .ok (recordAggregator attrs intent
          (recordAS4Path attrs (as4PathForPath none intent.dstASN4) ops), true)
    | some value =>
      match parseASPath value intent.srcASN4 with
      | .error e => .error (.transcodeParse e)
      | .ok path =>
        .ok (recordAggregator attrs intent
          (recordAS4Path attrs (as4PathForPath (some path) intent.dstASN4)
            (ops ++ [generatedOp attrASPath (writeToWithASN4 path intent.dstASN4)])), true)

def recordWithdrawOnly : Except RecordError (List AttrOp × Bool) :=
  match recordTranscode attrs intent ops with
  | .error e => .error e
  | .ok (ops, changed) =>
    if intent.srcASN4 = intent.dstASN4 ∧ intent.dstASN4 = true ∧
      (lastAttr attrAS4Path attrs).isSome = true then
      .ok (ops ++ [suppressOp attrAS4Path], true)
    else .ok (ops, changed)

def recordPrepend : Except RecordError (List AttrOp × Bool) :=
  if intent.prepend = [] then .error .intentEmpty
  else
    match (valueOf attrASPath attrs).bind fun value => shift value intent with
    | some shifted => .ok (ops ++ [generatedOp attrASPath shifted], true)
    | none =>
      match (valueOf attrASPath attrs).elim (.ok []) fun value =>
        parseASPath value intent.srcASN4 with
      | .error e => .error (.parseExisting e)
      | .ok path =>
        let recvAS4 := (valueOf attrAS4Path attrs).bind fun value => (parseAS4Path value).toOption
        let path := intent.prepend.foldl prependAsn path
        .ok (recordAggregator attrs intent
          (recordAS4Path attrs (as4PathForRewrite path recvAS4 intent.srcASN4 intent.dstASN4)
            (ops ++ [generatedOp attrASPath (writeToWithASN4 path intent.dstASN4)])), true)

/-- The path that a composed edit ends with, and its operations. Source: aspath_compose.go
recordComposed, from path.Prepend on. -/
def recordPath (path : Option Path) : List AttrOp :=
  let ops := removeOps attrAS4Path (removeOps attrASPath ops)
  let ops :=
    match path with
    | some p => ops ++ [generatedOp attrASPath (writeToWithASN4 p intent.dstASN4)]
    | none => if (lastAttr attrASPath attrs).isSome then ops ++ [suppressOp attrASPath] else ops
  recordAggregator attrs intent (recordAS4Path attrs (as4PathForPath path intent.dstASN4) ops)

/-- The path that a composed edit starts from: the effective one, with the prepended policy AS
numbers before it, completed by the AS4_PATH of an old speaker. Source: aspath_compose.go
recordComposed, the second half. -/
def composedPath (value as4Value : Option (List Octet)) (prepends : Bool) :
    Except RecordError (Option Path) := do
  let policy := ops.filter AttrOp.policyPrepends
  let suppressed := (lastSetOrSuppress (opsOf attrASPath ops)).any fun e => e.1.action == .suppress
  let path : Option Path ←
    match value with
    | some value =>
      match parseASPath value intent.srcASN4 with
      | .error e => .error (.effectivePath e)
      | .ok p => pure (some p)
    | none => pure (if suppressed = false ∧ (policy ≠ [] ∨ prepends = true) then some [] else none)
  let path ←
    match path with
    | none => pure none
    | some p => do
      let segments ← policy.mapM fun op =>
        match parseASPath op.buf intent.srcASN4 with
        | .error e => (.error (.policyPrepend e) : Except RecordError Path)
        | .ok q => pure q
      pure (some (segments.flatten ++ p))
  match path, as4Value with
  | some p, some v =>
    if intent.srcASN4 = true then return some p
    match parseAS4Path v with
    | .error _ => return some p
    | .ok q => return mergeAS4Path (some p) (some q)
  | path, _ => return path

def recordComposed : Except RecordError (List AttrOp × Bool) := do
  let value ← effectiveASPathValue attrs ops attrASPath
  let as4Value ← effectiveASPathValue attrs ops attrAS4Path
  let advertises := payloadAdvertisesNLRI attrs nlri
  let intent := if advertises then intent else { intent with prepend := [], overridePeerAS := 0#32 }
  let policyPrepend := ops.any AttrOp.policyPrepends
  let anew : Except RecordError (List AttrOp × Bool) := do
    let path ← composedPath intent ops value as4Value (advertises && !intent.prepend.isEmpty)
    let path := path.map fun p =>
      intent.prepend.foldl prependAsn (overridePath intent.overridePeerAS intent.overrideLocalAS p)
    return (recordPath attrs intent ops path, true)
  match value with
  | none => anew
  | some v =>
    if policyPrepend = false ∧ as4Value = none ∧ intent.srcASN4 = intent.dstASN4 ∧
        (intent.dstASN4 = true ∨ intent.overrideLocalAS.toNat ≤ 65535) then
      if intent.prepend = [] then
        if intent.overridePeerAS = 0#32 ∨
          asPathValueContains intent.overridePeerAS intent.srcASN4 v = false then
          return (ops, false)
        else
          return (removeOps attrASPath ops ++ [generatedOp attrASPath (overrideASPathValue v
            intent.overridePeerAS intent.overrideLocalAS intent.dstASN4 0)], true)
      else
        match shift v intent with
        | some shifted => return (ops ++ [generatedOp attrASPath shifted], true)
        | none => anew
    else anew

/-- Whether an edit composes with others: with an AS override, or with operations on the AS path
family.
Source: Record, the first case. -/
def composes : Bool := intent.overridePeerAS != 0#32 || pendingASPathFamily ops

/-- Source: Record, from the span index on. -/
def recordAttrs : Except RecordError (List AttrOp) :=
  let ops := recordAggregatorDiscard attrs ops
  Prod.fst <$>
    if composes intent ops then recordComposed shift attrs nlri intent ops
    else if intent.prepend = [] then recordTranscode attrs intent ops
    else if payloadAdvertisesNLRI attrs nlri = false then recordWithdrawOnly attrs intent ops
    else recordPrepend shift attrs intent ops

end

/-- Source: span.go. -/
def buildSpanIndex (octets : List Octet) : Option (List Attr) :=
  match scanAttrs 0 octets with
  | .error _ => none
  | .ok attrs => if (attrs.map Attr.code).Nodup then some attrs else none

def record (shift : List Octet → ASPathIntent → Option (List Octet)) (payload : List Octet)
    (intent : ASPathIntent) (ops : List AttrOp) : Except RecordError (List AttrOp) :=
  match splitUpdate payload with
  | .error _ => .error .updateTruncated
  | .ok (_, octets, nlri) =>
    match buildSpanIndex octets with
    | none => .error .indexAttributes
    | some attrs => recordAttrs shift attrs nlri intent ops

end Ze.AsPath
