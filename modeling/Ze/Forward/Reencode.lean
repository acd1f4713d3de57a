import Ze.Forward.PathIds
import Ze.Nlri.Registry
import Ze.Attribute.MpNlri
import Ze.Attribute.Span

/-!
# Re-encoding the NLRI of the MP attributes

`fwdReencodeMPAttributes` of `reactor/forward_body.go` gives the NLRI of MP_REACH_NLRI and
MP_UNREACH_NLRI the framing of the destination: the Path Identifiers of the source go, and where the
destination negotiated ADD-PATH each NLRI has one of `FwdPathIDTable`. An attribute that is
re-framed is decoded and encoded again.
-/

namespace Ze.Forward

open Ze.AsPath (Octet putUint32 uint32 writeHeader)
open Ze.Attribute
open Ze.Nlri
open Ze.LocRib (Family)

/-! ## Runs -/

/-- Why the attributes are not re-encoded. Source: forward_body.go fwdReencodeMPAttributes,
fwdReencodeNLRIs; forward_path_id.go fwdPathKeyFor, the errors. -/
inductive ReencodeError
  | attribute (err : MPError)
  | exceedsBuffer (code : Octet)
  | unsupported
  | split (err : SplitError)
  | prefixKey
  | keyTooLong (length : ℕ)
  deriving DecidableEq, Repr

/-- The key of a path. The octets of the route key are in `nlri`, or in `overflow` when there are
more than `nlri` holds. Source: forward_path_id.go. -/
structure FwdPathKey where
  family : Family
  received : BitVec 32
  nlri : List Octet
  deriving DecidableEq

/-- Source: forward_path_id.go fwdPathIDMemo, fwdPathIDs. -/
structure FwdPathIDMemo (Src : Type) where
  source : Src
  /-- The identifier received last and the one generated for it. -/
  last : Option (BitVec 32 × BitVec 32)
  table : FwdPathIDTable Src FwdPathKey

/-- Source: the functions that take the memo. -/
abbrev FwdM (Src : Type) := ExceptT ReencodeError (StateT (FwdPathIDMemo Src) Option)

section

variable {Src : Type} {α β : Type}

/-- Source: Go, a slice out of range. -/
def panics : FwdM Src α := fun _ => none

def Gives (x : FwdM Src α) (m : FwdPathIDMemo Src) (a : α) (m' : FwdPathIDMemo Src) : Prop :=
  x m = some (.ok a, m')

variable {m m' : FwdPathIDMemo Src} {a b : α}

@[simp] lemma gives_pure : Gives (pure a : FwdM Src α) m b m' ↔ a = b ∧ m = m' := by
  constructor
  · intro h
    obtain ⟨hab, hm⟩ := Prod.mk.inj (Option.some.inj h)
    exact ⟨Except.ok.inj hab, hm⟩
  · rintro ⟨rfl, rfl⟩
    rfl

@[simp] lemma not_gives_panics : ¬ Gives (panics : FwdM Src α) m a m' := by
  intro h
  cases h

lemma gives_bind {x : FwdM Src α} {f : α → FwdM Src β} {c : β} :
    Gives (x >>= f) m c m' ↔ ∃ a m₁, Gives x m a m₁ ∧ Gives (f a) m₁ c m' := by
  have hrun : (x >>= f) m = (x m).bind fun r => match r.1 with
      | .ok a => f a r.2
      | .error err => some (.error err, r.2) := by
    change (x m).bind _ = _
    congr 1
    funext r
    rcases r with ⟨_ | _, _⟩ <;> rfl
  unfold Gives
  rw [hrun, Option.bind_eq_some_iff]
  constructor
  · rintro ⟨⟨err | a, m₁⟩, hx, h⟩
    · cases (Prod.mk.inj (Option.some.inj h)).1
    · exact ⟨a, m₁, hx, h⟩
  · rintro ⟨a, m₁, hx, h⟩
    exact ⟨(.ok a, m₁), hx, h⟩

end

/-! ## Identifiers -/

def extMsgLen : ℕ := 65535

def fwdPathKeyFor (fam : Family) (received : BitVec 32) (raw : List Octet) (withdraw : Bool) :
    Except ReencodeError FwdPathKey :=
  match getPrefixKey fam raw prefixKeyScratchSize withdraw with
  | none => .error .prefixKey
  | some key =>
    if extMsgLen < key.length then .error (.keyTooLong key.length)
    else .ok ⟨fam, received, key⟩

section

variable {Src : Type} [DecidableEq Src]

def unframed (received : BitVec 32) (withdraw : Bool) : FwdM Src (BitVec 32) := fun m =>
  match m.last.filter (·.1 = received) with
  | some (_, generated) => some (.ok generated, m)
  | none =>
    if withdraw then some (.ok ((m.table.bySource.lookup (m.source, received)).getD 0#32), m)
    else
      (m.table.generate m.source received).map fun (id, table) =>
        (.ok id, { m with last := some (received, id), table := table })

/-- Source: forward_path_id.go framed, lookupPath. -/
def framed (fam : Family) (received : BitVec 32) (raw : List Octet) (withdraw : Bool) :
    FwdM Src (BitVec 32) := fun m =>
  match fwdPathKeyFor fam received raw withdraw with
  | .error err => some (.error err, m)
  | .ok key =>
    if withdraw then some (.ok ((m.table.byPath.lookup (m.source, key)).getD 0#32), m)
    else
      (m.table.generatePath m.source key).map fun (id, table) =>
        (.ok id, { m with table := table })

/-! ## The NLRI -/

/-- What decides the framing of an NLRI field.
Source: fwdReencodeNLRIs, the arguments, with what the contexts say of the family. -/
structure Framing where
  fam : Family
  srcAddPath : Bool
  destAddPath : Bool
  withdraw : Bool
  deriving DecidableEq

/-- The Path Identifier that a slice begins with.
Source: fwdReencodeNLRIs, binary.BigEndian.Uint32(raw[:4]). -/
def received (raw : List Octet) : BitVec 32 :=
  uint32 (raw.getD 0 0#8) (raw.getD 1 0#8) (raw.getD 2 0#8) (raw.getD 3 0#8)

namespace Framing

/-- The identifier for a slice. Source: fwdReencodeNLRIs. -/
def pathID (f : Framing) (raw : List Octet) : FwdM Src (BitVec 32) :=
  if f.srcAddPath then framed f.fam (received raw) (raw.drop 4) f.withdraw
  else unframed 0#32 f.withdraw

/-- The identifier, written behind `out` into a buffer of `size` octets.
Source: fwdReencodeNLRIs. -/
def writeID (f : Framing) (size : ℕ) (raw out : List Octet) : FwdM Src (List Octet) :=
  if f.destAddPath then do
    let id ← f.pathID raw
    if size < out.length + 4 then panics else pure (out ++ putUint32 id)
  else pure out

/-- The second walk over the slices of a field: `out` is what is written of a buffer of `size`
octets. Once an NLRI has no key the others are passed over.
Source: fwdReencodeNLRIs, the visitor. -/
def reframe (f : Framing) (size : ℕ) : List (List Octet) → List Octet → FwdM Src (List Octet)
  | [], out => pure out
  | raw :: rest, out =>
    if raw.length < head f.srcAddPath then panics
    else do
      let out ← f.writeID size raw out
      f.reframe size rest (out ++ (raw.drop (head f.srcAddPath)).take (size - out.length))

/-- The length of a field of `count` NLRI in the framing of the destination.
Source: fwdReencodeNLRIs, size. -/
def resize (f : Framing) (length count : ℕ) : ℕ :=
  length - count * head f.srcAddPath + count * head f.destAddPath

end Framing

/-- The field in the framing of the destination; `none` is the field itself. -/
def fwdReencodeNLRIs (data : List Octet) (f : Framing) : FwdM Src (Option (List Octet)) :=
  if data = [] ∨ f.srcAddPath = false ∧ f.destAddPath = false then pure none
  else
    match splitterFor f.fam f.withdraw with
    | none => throw .unsupported
    | some split =>
      match split data f.srcAddPath Visitor.goOn with
      | ⟨_, some err⟩ => throw (.split err)
      | ⟨visited, none⟩ => do
        let size := f.resize data.length visited.length
        let out ← f.reframe size (visited.map (slice data)) []
        pure (some (out ++ List.replicate (size - out.length) 0#8))

/-! ## The attributes -/

def attrMPReachNLRI : Octet := 14#8

def attrMPUnreachNLRI : Octet := 15#8

/-- What decides the framing of the NLRI of a family, between two contexts.
Source: core/bgp/context EncodingContext.AddPath. -/
def framing (srcCtx destCtx : Family → Bool) (fam : Family) (withdraw : Bool) : Framing :=
  ⟨fam, srcCtx fam, destCtx fam, withdraw⟩

/-- The value that takes the place of the value of an attribute; `none` is the value itself.
Source: fwdReencodeMPAttributes, newValue. -/
def newValue (srcCtx destCtx : Family → Bool) (code : Octet) (value : List Octet) :
    FwdM Src (Option (List Octet)) :=
  if code = attrMPReachNLRI then
    match parseMPReachNLRI value with
    | .error err => throw (.attribute err)
    | .ok mp => do
      let reencoded ← fwdReencodeNLRIs mp.nlri (framing srcCtx destCtx mp.fam false)
      pure (reencoded.map fun nlri => { mp with nlri := nlri }.writeTo)
  else if code = attrMPUnreachNLRI then
    match parseMPUnreachNLRI value with
    | .error err => throw (.attribute err)
    | .ok mp => do
      let reencoded ← fwdReencodeNLRIs mp.nlri (framing srcCtx destCtx mp.fam true)
      pure (reencoded.map fun nlri => { mp with nlri := nlri }.writeTo)
  else pure none

/-- The loop over a section from `off` on. `out` is what is written, once an attribute has changed.
The length of a value is cut to sixteen bits.
Source: fwdReencodeMPAttributes. -/
def reencodeFrom (srcCtx destCtx : Family → Bool) (attrs : List Octet) :
    ℕ → ℕ → Option (List Octet) → FwdM Src (Option (List Octet))
  | 0, _, out => pure out
  | turns + 1, off, out =>
    if attrs.length ≤ off then pure out
    else
      match parseHeader (attrs.drop off) with
      | none => throw (.attribute .shortData)
      | some (flags, code, length, hdrLen) =>
        let stop := off + hdrLen + length
        if attrs.length < stop then throw (.exceedsBuffer code)
        else do
          match ← newValue srcCtx destCtx code (slice attrs (off + hdrLen, stop)) with
          | none =>
            reencodeFrom srcCtx destCtx attrs turns stop (out.map (· ++ slice attrs (off, stop)))
          | some value =>
            reencodeFrom srcCtx destCtx attrs turns stop (some (out.getD (attrs.take off) ++
              (writeHeader flags code (value.length % 65536) ++ value)))

def fwdReencodeMPAttributes (srcCtx destCtx : Family → Bool) (attrs : List Octet) :
    FwdM Src (List Octet) := do
  let out ← reencodeFrom srcCtx destCtx attrs (attrs.length + 1) 0 none
  pure (out.getD attrs)

end

end Ze.Forward
