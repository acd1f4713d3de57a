import Mathlib.Order.Fin.Basic
import Ze.Lib.SortedMap

/-!
# The link-state database

`LSDB` of `internal/plugins/isis/lsdb/lsdb.go` and `aging.go` at one level: its entries, the compare
of a received LSP with the copy that is held, the write, and the tick of the clock.

Default file: `lsdb.go`.
-/

namespace Ze.Isis

open Ze.Lib

/-! ## Identifiers and PDUs -/

inductive Level
  | l1
  | l2
  deriving DecidableEq

abbrev LspId := Fin (2 ^ 64)

/-- Source: lspid.go. -/
def LspId.systemID (id : LspId) : ℕ := id.val / 2 ^ 16

/-- Source: snp.go. -/
def minLSPID : LspId := ⟨0, by decide⟩

/-- Source: snp.go. -/
def maxLSPID : LspId := ⟨2 ^ 64 - 1, by decide⟩

lemma minLSPID_le (id : LspId) : minLSPID ≤ id := Nat.zero_le _

lemma le_maxLSPID (id : LspId) : id ≤ maxLSPID := by
  show id.val ≤ 2 ^ 64 - 1
  omega

structure Lsp where
  level : Level
  lspId : LspId
  sequence : ℕ
  lifetime : ℕ
  checksum : ℕ
  typeBlock : ℕ
  tlvs : List UInt8
  deriving DecidableEq

/-- Source: entry.go. -/
abbrev CircuitId := ℕ

/-! ## Entries -/

/-- Source: entry.go. -/
structure Entry where
  raw : Lsp
  sequence : ℕ
  lifetime : ℕ
  checksum : ℕ
  own : Bool
  purged : Bool := false
  receivedPurge : Bool := false
  recvPurgeReflooded : Bool := false
  deleteAt : Option ℕ := none
  srm : Finset CircuitId := ∅
  ssn : Finset CircuitId := ∅
  heard : ℕ
  aged : ℕ := 0

/-- Source: entry.go. -/
inductive Freshness
  | older
  | equal
  | newer
  deriving DecidableEq

/-- Source: entry.go. -/
def Entry.compareFreshness (e : Entry) (inSeq inLifetime inChecksum : ℕ) : Freshness :=
  if e.sequence < inSeq then .newer
  else if inSeq < e.sequence then .older
  else if inLifetime = 0 ∧ e.lifetime ≠ 0 then .newer
  else if inLifetime ≠ 0 ∧ e.lifetime = 0 then .older
  else if inChecksum = e.checksum then .equal
  else .older

/-- Source: entry.go. -/
def Entry.setLifetime (e : Entry) (lifetime : ℕ) : Entry :=
  { e with lifetime, heard := lifetime, aged := 0 }

/-! ## The database of a level -/

abbrev Db := SortedMap LspId Entry

def maxLSPsPerLevel : ℕ := 16384

/-- Source: aging.go. -/
def zeroAgeLifetime : ℕ := 60

structure ReceiveResult where
  freshness : Freshness
  stored : Bool
  ownConflict : Bool := false
  conflictSequence : ℕ := 0
  deriving DecidableEq

namespace Db

def replaceLocked (d : Db) (lsp : Lsp) (own received : Bool) (now : ℕ) : Db :=
  let prev := d.lookup lsp.lspId
  let purge := decide (lsp.lifetime = 0)
  d.put lsp.lspId
    { raw := lsp
      sequence := lsp.sequence
      lifetime := lsp.lifetime
      checksum := lsp.checksum
      own
      purged := purge
      receivedPurge := purge && (received || prev.any (·.receivedPurge))
      deleteAt := if purge then some (now + zeroAgeLifetime) else none
      heard := lsp.lifetime }

/-- Whether a received copy of one of the system's own LSPs contradicts it.
Source: ownConflictResult -/
def ownConflict (existing : Option Entry) (lsp : Lsp) : Bool :=
  match existing with
  | none => true
  | some e =>
    if e.purged then false
    else if e.sequence < lsp.sequence then true
    else if lsp.sequence < e.sequence then false
    else decide (lsp.lifetime = 0 ∨ lsp.checksum ≠ e.checksum)

def receive (d : Db) (lsp : Lsp) (own : Bool) (now : ℕ) : Db × ReceiveResult :=
  let existing := d.lookup lsp.lspId
  if own && ownConflict existing lsp then
    (d, { freshness := .older, stored := false, ownConflict := true,
          conflictSequence := lsp.sequence })
  else
    match existing with
    | some e =>
      match e.compareFreshness lsp.sequence lsp.lifetime lsp.checksum with
      | .newer => (d.replaceLocked lsp own true now, { freshness := .newer, stored := true })
      | .equal =>
        (d.modify lsp.lspId (·.setLifetime lsp.lifetime), { freshness := .equal, stored := false })
      | .older => (d, { freshness := .older, stored := false })
    | none =>
      if maxLSPsPerLevel ≤ d.size then (d, { freshness := .older, stored := false })
      else (d.replaceLocked lsp own true now, { freshness := .newer, stored := true })

def insert (d : Db) (lsp : Lsp) (now : ℕ) : Db := d.replaceLocked lsp true false now

def setSRM (d : Db) (id : LspId) (cid : CircuitId) : Db :=
  d.modify id fun e => { e with srm := Insert.insert cid e.srm }

def clearSRM (d : Db) (id : LspId) (cid : CircuitId) : Db :=
  d.modify id fun e => { e with srm := e.srm.erase cid }

def setSSN (d : Db) (id : LspId) (cid : CircuitId) : Db :=
  d.modify id fun e => { e with ssn := Insert.insert cid e.ssn }

def srm (d : Db) (id : LspId) (cid : CircuitId) : Bool :=
  (d.lookup id).any fun e => decide (cid ∈ e.srm)

def ssn (d : Db) (id : LspId) (cid : CircuitId) : Bool :=
  (d.lookup id).any fun e => decide (cid ∈ e.ssn)

def clearCircuit (d : Db) (cid : CircuitId) : Db :=
  d.filterMap fun e => some { e with srm := e.srm.erase cid, ssn := e.ssn.erase cid }

end Db

/-! ## Aging -/

/-- An entry becomes a purge. Source: aging.go markPurgedLocked. -/
def Entry.markPurged (e : Entry) (now : ℕ) : Entry :=
  if e.purged then e
  else { e with lifetime := 0, purged := true, deleteAt := some (now + zeroAgeLifetime) }

/-- One second of an entry: what is left of it, and whether it is reported as a purge.
Source: aging.go tickLevelLocked -/
def Entry.tick (e : Entry) (now : ℕ) : Option Entry × Bool :=
  let e := { e with aged := e.aged + 1 }
  if e.purged then
    if e.deleteAt.any (· ≤ now) then (none, false)
    else if e.receivedPurge && !e.recvPurgeReflooded then
      (some { e with recvPurgeReflooded := true }, true)
    else (some e, false)
  else if e.lifetime = 0 then (some (e.markPurged now), true)
  else if e.lifetime - 1 = 0 then (some ({ e with lifetime := 0 }.markPurged now), true)
  else (some { e with lifetime := e.lifetime - 1 }, false)

/-- One second of a level: the database, and the purges that the engine floods.
Source: aging.go tickLevelLocked -/
def Db.tick (d : Db) (now : ℕ) : Db × List LspId :=
  (d.filterMap fun e => (e.tick now).1, (d.items.filter fun x => (x.2.tick now).2).map Prod.fst)

end Ze.Isis
