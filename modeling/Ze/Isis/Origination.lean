import Ze.Isis.Lsdb

/-!
# The system's own LSPs

`Originator` of `internal/plugins/isis/lsdb/origination.go`: the sequence numbers that it assigns,
the suspension of an identifier whose number has run out, and what it stores at the two levels.
-/

namespace Ze.Isis

open Ze.Lib
open Function (update)

/-! ## Numbers and identifiers -/

def maxSequenceNumber : ℕ := 2 ^ 32 - 1

/-- Source: sequence.go. -/
def nextChecked (s : ℕ) : ℕ × Bool := if s = maxSequenceNumber then (1, true) else (s + 1, false)

/-- Source: aging.go. -/
def defaultMaxAge : ℕ := 1200

def maxFragments : ℕ := 256

/-- The identifier of a fragment of the router's own LSP. Source: types/lspid.go NewLSPID;
types/sourceid.go NewSourceID, with pseudonode 0. -/
def fragmentId (systemID : Fin (2 ^ 48)) (num : ℕ) : LspId :=
  ⟨systemID.val * 2 ^ 16 + num % 256, by have := systemID.isLt; omega⟩

def lspTypeBlock (level : Level) (overload fragmentZero : Bool) : ℕ :=
  (match level with
    | .l1 => 1
    | .l2 => 3) + if overload && fragmentZero then 4 else 0

def Level.other : Level → Level
  | l1 => l2
  | l2 => l1

/-! ## The originator -/

/-- An LSP that was stored, when, and whether it is the purge of an identifier whose numbers have
run out. -/
structure Write where
  lsp : Lsp
  wrap : Bool
  time : ℕ

/-- Source: Originator, with the database it writes into. -/
structure Originator where
  checksumOf : Lsp → ℕ
  now : ℕ := 0
  db : Level → Db := fun _ => SortedMap.empty
  lastSeq : LspId → Option ℕ := fun _ => none
  suspendUntil : LspId → Option ℕ := fun _ => none
  answeredClaim : LspId → Option ℕ := fun _ => none
  writes : List Write := []

/-- What one call of `Originate` is given: the identity of the node and the fragments of its state.
Source: NodeInfo, fragmentTLVs. -/
structure Pass where
  level : Level
  systemID : Fin (2 ^ 48)
  overload : Bool := false
  maxLifetime : ℕ := 0
  fragments : List (List UInt8)
  nonempty : fragments ≠ []
  bounded : fragments.length ≤ maxFragments

structure OriginateResult where
  originated : List LspId := []
  purged : List LspId := []
  wrapped : Bool := false

/-- What a pass notes of a fragment. Source: Originate, the loop. -/
def OriginateResult.report (res : OriginateResult) (id : LspId) (wrote wrapped : Bool) :
    OriginateResult :=
  if wrapped then { res with wrapped := true, purged := res.purged ++ [id] }
  else if wrote then { res with originated := res.originated ++ [id] }
  else res

/-- Source: Originate, the default. -/
def Pass.lifetime (pass : Pass) : ℕ :=
  if pass.maxLifetime = 0 then defaultMaxAge else pass.maxLifetime

/-- The identifiers of a pass. Source: Originate. -/
def Pass.id (pass : Pass) (num : ℕ) : LspId := fragmentId pass.systemID num

namespace Originator

/-- Source: NewOriginator. -/
def new (checksumOf : Lsp → ℕ) : Originator := { checksumOf }

/-- Encode an LSP and store it. Source: origination.go encodeAndSign; lsdb.go Insert. -/
def store (o : Originator) (lsp : Lsp) (wrap : Bool) : Originator :=
  let lsp := { lsp with checksum := o.checksumOf lsp }
  { o with
    db := update o.db lsp.level ((o.db lsp.level).insert lsp o.now)
    writes := ⟨lsp, wrap, o.now⟩ :: o.writes }

/-- An empty LSP with no lifetime left. Source: purgeFragmentLocked. -/
def purgeFragment (o : Originator) (level : Level) (id : LspId) (typeBlock seq : ℕ) (wrap : Bool) :
    Originator :=
  o.store
    { level, lspId := id, sequence := seq, lifetime := 0, checksum := 0, typeBlock, tlvs :=
      [] } wrap

/-- The numbers of an identifier have run out: purge it at the last one, and leave it alone for a
while.
Source: originateFragmentLocked, the wraparound. -/
def wrapFragment (o : Originator) (level : Level) (id : LspId) (typeBlock : ℕ) : Originator :=
  let o := o.purgeFragment level id typeBlock maxSequenceNumber true
  { o with
    suspendUntil := update o.suspendUntil id
      (some (o.now + (defaultMaxAge + zeroAgeLifetime)))
    lastSeq := update o.lastSeq id none
    answeredClaim := update o.answeredClaim id none }

/-- The end of a suspension. Source: originateFragmentLocked, the elapsed window. -/
def release (o : Originator) (id : LspId) : Originator :=
  { o with
    suspendUntil := update o.suspendUntil id none
    lastSeq := update o.lastSeq id none
    answeredClaim := update o.answeredClaim id none }

/-- Assign the next number and store the fragment: what is left, whether it was written and whether
the numbers ran out.
Source: originateFragmentLocked, after the suspension. -/
def issueFragment (o : Originator) (level : Level) (id : LspId) (typeBlock lifetime : ℕ)
    (tlvs : List UInt8) : Originator × Bool × Bool :=
  let (next, didWrap) := nextChecked ((o.lastSeq id).getD 0)
  if didWrap then (o.wrapFragment level id typeBlock, false, true)
  else
    let o := o.store
      { level, lspId := id, sequence := next, lifetime, checksum := 0, typeBlock, tlvs } false
    ({ o with lastSeq := update o.lastSeq id (some next) }, true, false)

/-- Source: originateFragmentLocked. -/
def originateFragment (o : Originator) (level : Level) (id : LspId) (typeBlock lifetime : ℕ)
    (tlvs : List UInt8) : Originator × Bool × Bool :=
  match o.suspendUntil id with
  | some until' =>
    if o.now < until' then (o, false, false)
    else (o.release id).issueFragment level id typeBlock lifetime tlvs
  | none => o.issueFragment level id typeBlock lifetime tlvs

/-- The fragments of a pass from one on. Source: Originate, the loop. -/
def originateFragments (pass : Pass) :
    ℕ → List (List UInt8) → Originator → OriginateResult → Originator × OriginateResult
  | _, [], o, res => (o, res)
  | num, tlvs :: rest, o, res =>
    let r := o.originateFragment pass.level (pass.id num)
      (lspTypeBlock pass.level pass.overload (num == 0)) pass.lifetime tlvs
    originateFragments pass (num + 1) rest r.1 (res.report (pass.id num) r.2.1 r.2.2)

/-- Purge a fragment that is no longer produced.
Source: purgeStaleFragmentsLocked, the body of the loop. -/
def purgeStale (o : Originator) (level : Level) (id : LspId) (typeBlock : ℕ) : Originator :=
  let (next, didWrap) := nextChecked ((o.lastSeq id).getD 0)
  let next := if didWrap then maxSequenceNumber else next
  let o := o.purgeFragment level id typeBlock next false
  { o with lastSeq := update o.lastSeq id (some next) }

/-- Purge what is stored from a number on, up to the first that is not; the second number counts the
rounds that are left.
Source: purgeStaleFragmentsLocked. -/
def purgeStaleFragments (pass : Pass) : ℕ → ℕ → Originator → Originator × List LspId
  | _, 0, o => (o, [])
  | num, n + 1, o =>
    match (o.db pass.level).lookup (pass.id num) with
    | none => (o, [])
    | some _ =>
      let r := purgeStaleFragments pass (num + 1) n
        (o.purgeStale pass.level (pass.id num) (lspTypeBlock pass.level false (num == 0)))
      (r.1, pass.id num :: r.2)

def originate (o : Originator) (pass : Pass) : Originator × OriginateResult :=
  let produced := pass.fragments.length
  let r := originateFragments pass 0 pass.fragments o {}
  let s := purgeStaleFragments pass produced (maxFragments - produced) r.1
  (s.1, { r.2 with purged := r.2.purged ++ s.2 })

def raiseSequenceFloor (o : Originator) (id : LspId) (seq : ℕ) : Originator × Bool :=
  match o.lastSeq id with
  | none => (o, false)
  | some prev =>
    if seq < prev then (o, false)
    else if (o.answeredClaim id).any (seq ≤ ·) then (o, false)
    else
      ({ o with
          answeredClaim := update o.answeredClaim id (some seq)
          lastSeq := update o.lastSeq id (some seq) }, true)

/-- Source: aging.go. -/
def tick (o : Originator) : Originator := { o with db := fun level => ((o.db level).tick o.now).1 }

/-! ## Runs -/

/-- What can happen. Source: origination.go Originate, RaiseSequenceFloor; aging.go
Tick; the clock. -/
inductive Op
  | originate (pass : Pass)
  | raiseSequenceFloor (id : LspId) (seq : Fin (2 ^ 32))
  | tick
  | wait (seconds : ℕ)

def step (o : Originator) : Op → Option Originator
  | .originate pass => some (o.originate pass).1
  | .raiseSequenceFloor id seq => some (o.raiseSequenceFloor id seq).1
  | .tick => some o.tick
  | .wait seconds => some { o with now := o.now + seconds }

end Originator

end Ze.Isis
