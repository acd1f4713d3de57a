import Mathlib.Data.List.Sort
import Ze.Isis.Lsdb

/-!
# The flooder

`Flooder` of `internal/plugins/isis/lsdb/flooding.go` and `snp.go`: a received LSP becomes SRM and
SSN flags, the flags become PDUs, and complete and partial sequence-number PDUs reconcile two
databases. A PDU touches the database of its level and the requests and acknowledgements of its
circuit and level: `Link` is these three. The source of a sequence-number PDU, which no handler
reads, is left out.

Default file: `snp.go`.
-/

namespace Ze.Isis

open Ze.Lib
open Function (update)

/-! ## Sequence-number PDUs -/

structure LspEntry where
  lifetime : ℕ
  lspId : LspId
  sequence : ℕ
  checksum : ℕ
  deriving DecidableEq

structure Csnp where
  level : Level
  startLSPID : LspId
  endLSPID : LspId
  entries : List LspEntry
  deriving DecidableEq

structure Psnp where
  level : Level
  entries : List LspEntry
  deriving DecidableEq

structure PendingReq where
  seq : ℕ
  lifetime : ℕ
  checksum : ℕ

def maxLSPEntriesPerSNP : ℕ := 15

def maxPendingPerCircuit : ℕ := 4096

/-- How an entry of a sequence-number PDU compares with the copy that is held: `gt` when the
neighbour's is newer. -/
def compareSNPEntry (e : LspEntry) (held : Entry) : Ordering :=
  if held.sequence < e.sequence then .gt
  else if e.sequence < held.sequence then .lt
  else if e.lifetime = 0 ∧ held.lifetime ≠ 0 then .gt
  else if e.lifetime ≠ 0 ∧ held.lifetime = 0 then .lt
  else .eq

/-- What an entry of the database looks like in a sequence-number PDU. Source: lsdb.go
lSPEntries; snp.go buildPSNP. -/
def Entry.snp (e : Entry) (id : LspId) : LspEntry :=
  { lifetime := e.lifetime, lspId := id, sequence := e.sequence, checksum := e.checksum }

/-- All LSPs of a level in order. Source: lsdb.go. -/
def Db.lspEntries (d : Db) : List LspEntry := d.items.map fun x => x.2.snp x.1

/-- The pieces of a list of entries that go into one PDU each.
Source: the loops of buildCSNPs and buildPSNP. -/
def chunks (entries : List LspEntry) : List (List LspEntry) :=
  (List.range ((entries.length + (maxLSPEntriesPerSNP - 1)) / maxLSPEntriesPerSNP)).map fun k =>
    (entries.drop (k * maxLSPEntriesPerSNP)).take maxLSPEntriesPerSNP

/-- The first identifier of a chunk. Source: chunk[0].LSPID. -/
def firstId (chunk : List LspEntry) : LspId := (chunk.head?.map (·.lspId)).getD minLSPID

/-- The last identifier of a chunk. Source: chunk[len(chunk)-1].LSPID. -/
def lastId (chunk : List LspEntry) : LspId := (chunk.getLast?.map (·.lspId)).getD maxLSPID

/-- The complete PDUs of a database: one for every fifteen entries, in order. -/
def Db.buildCSNPs (d : Db) (level : Level) : List Csnp :=
  let entries := d.lspEntries
  if entries.isEmpty then
    [{ level, startLSPID := minLSPID, endLSPID := maxLSPID, entries := [] }]
  else
    (chunks entries).mapIdx fun k chunk =>
      { level
        startLSPID := if k = 0 then minLSPID else firstId chunk
        endLSPID := if entries.length ≤ (k + 1) * maxLSPEntriesPerSNP then maxLSPID
          else lastId chunk
        entries := chunk }

/-! ## One circuit and level -/

/-- The database of a level, and the requests and the acknowledgements of a circuit.
Source: flooding.go Flooder -/
structure Link where
  db : Db
  pending : SortedMap LspId PendingReq := .empty
  ackOnly : SortedMap LspId LspEntry := .empty

namespace Link

def recordPending (l : Link) (id : LspId) (req : PendingReq) : Link :=
  if (l.pending.lookup id).isNone ∧ maxPendingPerCircuit ≤ l.pending.size then l
  else { l with pending := l.pending.put id req }

def recordAckOnly (l : Link) (id : LspId) (e : LspEntry) : Link :=
  if (l.ackOnly.lookup id).isNone ∧ maxPendingPerCircuit ≤ l.ackOnly.size then l
  else { l with ackOnly := l.ackOnly.put id e }

def clearPending (l : Link) (id : LspId) : Link := { l with pending := l.pending.erase id }

/-! ### Complete sequence numbers -/

def reconcileCSNPEntry (cid : CircuitId) (l : Link) (e : LspEntry) : Link :=
  let req : PendingReq := { seq := e.sequence, lifetime := e.lifetime, checksum := e.checksum }
  match l.db.lookup e.lspId with
  | none => l.recordPending e.lspId req
  | some held =>
    match compareSNPEntry e held with
    | .gt =>
      let l := l.recordPending e.lspId req
      { l with db := l.db.setSSN e.lspId cid }
    | .lt => { l with db := l.db.setSRM e.lspId cid }
    | .eq => { l with db := l.db.clearSRM e.lspId cid }.clearPending e.lspId

/-- The LSPs in the range of a complete PDU that it does not list. -/
def reconcileCSNPRange (cid : CircuitId) (l : Link) (start stop : LspId) (listed : List LspId) :
    Link :=
  let flood (d : Db) (id : LspId) : Db :=
    if id < start ∨ stop < id then d
    else if id ∈ listed then d
    else d.setSRM id cid
  { l with db := l.db.keys.foldl flood l.db }

def receiveCSNP (cid : CircuitId) (l : Link) (csnp : Csnp) : Link :=
  (csnp.entries.foldl (reconcileCSNPEntry cid) l).reconcileCSNPRange cid csnp.startLSPID
    csnp.endLSPID (csnp.entries.map (·.lspId))

/-! ### Partial sequence numbers -/

/-- One entry of a partial PDU. Source: ReceivePSNP, the loop. -/
def reconcilePSNPEntry (cid : CircuitId) (l : Link) (e : LspEntry) : Link :=
  match l.db.lookup e.lspId with
  | none => l
  | some held =>
    match compareSNPEntry e held with
    | .lt => { l with db := l.db.setSRM e.lspId cid }
    | _ => { l with db := l.db.clearSRM e.lspId cid }

def receivePSNP (cid : CircuitId) (l : Link) (psnp : Psnp) : Link :=
  psnp.entries.foldl (reconcilePSNPEntry cid) l

/-- What a request looks like on the wire. Source: pendingFor. -/
def request (id : LspId) : LspEntry := { lifetime := 0, lspId := id, sequence := 0, checksum := 0 }

/-- The entries of the next partial PDUs before they are sorted: the LSPs with SSN, the requests and
the acknowledgements of LSPs that are not held.
Source: buildPSNP. -/
def psnpEntries (cid : CircuitId) (l : Link) : List LspEntry :=
  (l.db.items.filter fun x => decide (cid ∈ x.2.ssn)).map (fun x => x.2.snp x.1) ++
    l.pending.keys.map request ++ l.ackOnly.items.map Prod.snd

/-- Entries sorted by identifier. `sort.Slice` is not stable: it may swap two entries of one
identifier, which stay as they came here. Source: buildPSNP, sort.Slice. -/
def sortEntries (entries : List LspEntry) : List LspEntry :=
  entries.insertionSort fun a b => a.lspId ≤ b.lspId

/-- The next partial PDUs. SSN is cleared and the acknowledgements are drained; the requests stay.
-/
def buildPSNP (cid : CircuitId) (l : Link) (level : Level) : List Psnp × Link :=
  ((chunks (sortEntries (l.psnpEntries cid))).map fun entries => { level, entries }, { l with
      db := l.db.filterMap fun e => some { e with ssn := e.ssn.erase cid }
      ackOnly := .empty })

end Link

/-! ## The flooder -/

/-- Source: flooding.go. -/
structure FloodCircuit where
  id : CircuitId
  p2p : Bool
  passive : Bool
  formsL1 : Bool
  formsL2 : Bool

/-- Source: flooding.go. -/
def FloodCircuit.formsLevel (c : FloodCircuit) : Level → Bool
  | .l1 => c.formsL1
  | .l2 => c.formsL2

/-- Source: flooding.go. -/
def Db.armSRMExcept (circuits : List FloodCircuit) (level : Level) (id : LspId)
    (skip : CircuitId) (d : Db) : Db :=
  circuits.foldl (fun d c => if c.id = skip ∨ c.passive ∨ ¬ c.formsLevel level then d
    else d.setSRM id c.id) d

namespace Link

/-- Source: flooding.go. -/
def handleOlderLSP (cid : CircuitId) (l : Link) (lsp : Lsp) : Link :=
  match l.db.lookup lsp.lspId with
  | none => l
  | some held =>
    if lsp.sequence = held.sequence then { l with db := l.db.setSSN lsp.lspId cid }
    else { l with db := l.db.setSRM lsp.lspId cid }

/-- Source: flooding.go. -/
def receiveLSP (circuits : List FloodCircuit) (systemID : ℕ) (cid : CircuitId) (p2p : Bool)
    (l : Link) (lsp : Lsp) (now : ℕ) : Link :=
  let out := l.db.receive lsp (decide (lsp.lspId.systemID = systemID)) now
  let l := { l with db := out.1 }
  if out.2.ownConflict then
    let l := match l.db.lookup lsp.lspId with
      | some _ => { l with db := l.db.setSSN lsp.lspId cid }
      | none => l.recordAckOnly lsp.lspId
          { lifetime := lsp.lifetime, lspId := lsp.lspId, sequence := lsp.sequence,
            checksum := lsp.checksum }
    l.clearPending lsp.lspId
  else
    match out.2.freshness with
    | .newer =>
      { l with
        db := (l.db.armSRMExcept circuits lsp.level lsp.lspId cid).setSSN lsp.lspId
          cid }.clearPending lsp.lspId
    | .equal => if p2p then l else { l with db := l.db.setSSN lsp.lspId cid }
    | .older => l.handleOlderLSP cid lsp

end Link

/-- Source: flooding.go Flooder; lsdb.go LSDB. -/
structure Flooder where
  systemID : ℕ
  circuits : List FloodCircuit
  db : Level → Db := fun _ => .empty
  pending : CircuitId → Level → SortedMap LspId PendingReq := fun _ _ => .empty
  ackOnly : CircuitId → Level → SortedMap LspId LspEntry := fun _ _ => .empty

namespace Flooder

def link (f : Flooder) (cid : CircuitId) (level : Level) : Link :=
  { db := f.db level, pending := f.pending cid level, ackOnly := f.ackOnly cid level }

def withLink (f : Flooder) (cid : CircuitId) (level : Level) (l : Link) : Flooder :=
  { f with
    db := update f.db level l.db
    pending := update f.pending cid (update (f.pending cid) level l.pending)
    ackOnly := update f.ackOnly cid (update (f.ackOnly cid) level l.ackOnly) }

/-- Source: flooding.go. -/
def receiveLSP (f : Flooder) (cid : CircuitId) (p2p : Bool) (lsp : Lsp) (now : ℕ) : Flooder :=
  f.withLink cid lsp.level
    ((f.link cid lsp.level).receiveLSP f.circuits f.systemID cid p2p lsp now)

def receiveCSNP (f : Flooder) (cid : CircuitId) (csnp : Csnp) : Flooder :=
  f.withLink cid csnp.level ((f.link cid csnp.level).receiveCSNP cid csnp)

def receivePSNP (f : Flooder) (cid : CircuitId) (psnp : Psnp) : Flooder :=
  f.withLink cid psnp.level ((f.link cid psnp.level).receivePSNP cid psnp)

def sendPSNP (f : Flooder) (c : FloodCircuit) (level : Level) : List Psnp × Flooder :=
  if ¬ c.formsLevel level ∨ c.passive then ([], f)
  else
    let out := (f.link c.id level).buildPSNP c.id level
    (out.1, f.withLink c.id level out.2)

def sendCSNP (f : Flooder) (c : FloodCircuit) (level : Level) : List Csnp :=
  if ¬ c.formsLevel level ∨ c.passive then [] else (f.db level).buildCSNPs level

/-- Source: flooding.go. -/
def floodCircuitLevel (f : Flooder) (c : FloodCircuit) (level : Level) : List Lsp :=
  ((f.db level).items.filter fun x => decide (c.id ∈ x.2.srm)).map fun x => x.2.raw

/-- What a tick of the flood timer sends on a circuit. Source: flooding.go FloodTick. -/
def floodOn (f : Flooder) (c : FloodCircuit) : List Lsp :=
  if c.passive then []
  else
    (if c.formsLevel .l1 then f.floodCircuitLevel c .l1 else []) ++
      if c.formsLevel .l2 then f.floodCircuitLevel c .l2 else []

/-- Source: flooding.go. -/
def floodTick (f : Flooder) : List (CircuitId × Lsp) :=
  f.circuits.flatMap fun c => (f.floodOn c).map fun lsp => (c.id, lsp)

def armFlood (f : Flooder) (level : Level) (id : LspId) : Flooder :=
  { f with
    db := update f.db level
      (f.circuits.foldl (fun d c => if c.formsLevel level then d.setSRM id c.id else d)
        (f.db level)) }

/-- An LSP of the system is stored; `armFlood` follows. Source: lsdb.go. -/
def insert (f : Flooder) (lsp : Lsp) (now : ℕ) : Flooder :=
  { f with db := update f.db lsp.level ((f.db lsp.level).insert lsp now) }

/-- Source: lsdb_wiring.go ageOnce, refloodPurge. -/
def ageOnce (f : Flooder) (now : ℕ) : Flooder :=
  let l1 := (f.db .l1).tick now
  let l2 := (f.db .l2).tick now
  let f : Flooder := { f with db := fun | .l1 => l1.1 | .l2 => l2.1 }
  l2.2.foldl (fun f id => f.armFlood .l2 id) (l1.2.foldl (fun f id => f.armFlood .l1 id) f)

/-- A circuit closes. Source: lsdb_wiring.go clearCircuitFlags. -/
def clearCircuit (f : Flooder) (cid : CircuitId) : Flooder :=
  { f with db := fun level => (f.db level).clearCircuit cid }

end Flooder

end Ze.Isis
