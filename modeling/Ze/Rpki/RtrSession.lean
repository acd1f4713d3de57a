import Ze.Rpki.Aspa
import Ze.Rpki.RoaCache

/-!
# A session with an RTR cache

`RTRSession` of `rpki/rtr_session.go` and the data lease of `rpki/rtr_expire.go`. The session
collects the records of a response in four lists, and End of Data applies them: to the empty set
when the query was a Reset Query (`fullSync`), else as a delta to the set that the lease has
published, unless that set has expired in between.

The callbacks of End of Data, its log line and the gauge are left out; a step is given the PDU that
was read and the time in nanoseconds.

Default file: `rtr_pdu.go`.
-/

namespace Ze.Rpki

open Ze.Net Ze.Lib List
open Changeset (adds)
open Prod (snd)

/-! ## PDUs -/

structure RTRHeader where
  version : UInt8
  type : UInt8
  sessionID : UInt16
  length : UInt32
deriving DecidableEq, Repr

/-- Source: rtr_pdu.go. -/
def rtrVersionMax : UInt8 := 2
/-- Source: rtr_pdu.go. -/
def rtrVersionMin : UInt8 := 1

/-- Source: PDU type constants. -/
def pduSerialNotify : UInt8 := 0
/-- Source: PDU type constants. -/
def pduCacheResp : UInt8 := 3
/-- Source: PDU type constants. -/
def pduIPv4Prefix : UInt8 := 4
/-- Source: PDU type constants. -/
def pduIPv6Prefix : UInt8 := 6
/-- Source: PDU type constants. -/
def pduEndOfData : UInt8 := 7
/-- Source: PDU type constants. -/
def pduCacheReset : UInt8 := 8
/-- Source: PDU type constants. -/
def pduRouterKey : UInt8 := 9
/-- Source: PDU type constants. -/
def pduErrorRpt : UInt8 := 10
/-- Source: PDU type constants. -/
def pduASPA : UInt8 := 11

/-- Source: RTR error codes. -/
def errNoDataAvail : UInt16 := 2
/-- Source: RTR error codes. -/
def errUnsupportedVersion : UInt16 := 4

def isFatalError (code : UInt16) : Bool := code != errNoDataAvail

structure EndOfDataParams where
  sessionID : UInt16
  serialNumber : UInt32
  refreshInterval : UInt32
  retryInterval : UInt32
  expireInterval : UInt32
deriving DecidableEq, Repr

/-- What an ASPA PDU is refused for. Source: parseASPAPDU. -/
inductive AspaPduError
  | tooShort (len : ℕ)
  | lengthMismatch
  | reservedCustomer (customerAS : UInt32)
  | withdrawalWithProviders
  | emptyOrUnaligned
  | asZeroAlongside
  | reservedOrSelf (provider : UInt32)
  | notSorted
deriving DecidableEq, Repr

def errASPAProviderList : String := "rtr: ASPA provider list error"

/-- Source: parseASPAPDU, the texts of its errors. -/
def AspaPduError.text : AspaPduError → String
  | tooShort len => "rtr: ASPA PDU too short: " ++ toString len
  | lengthMismatch => "rtr: ASPA PDU length does not match framing"
  | reservedCustomer customerAS => "rtr: ASPA PDU reserved customer AS: " ++ toString customerAS
  | withdrawalWithProviders => errASPAProviderList ++ ": withdrawal contains providers"
  | emptyOrUnaligned => errASPAProviderList ++ ": empty or unaligned provider list"
  | asZeroAlongside => errASPAProviderList ++ ": AS 0 alongside other providers"
  | reservedOrSelf provider =>
    errASPAProviderList ++ ": reserved or self provider AS " ++ toString provider
  | notSorted => errASPAProviderList ++ ": providers not sorted or unique"

/-- The 32-bit number at an offset. Source: encoding/binary BigEndian.Uint32. -/
def uint32At (buf : List UInt8) (off : ℕ) : UInt32 :=
  UInt32.ofNat (bigEndian ((buf.drop off).take 4))

/-- The provider list of an announcement; `previous` is the provider before.
Source: parseASPAPDU, its loop -/
def parseProviders (buf : List UInt8) (customerAS : UInt32) (count : ℕ) :
    List ℕ → Option UInt32 → Except AspaPduError (List UInt32)
  | [], _ => .ok []
  | i :: is, previous => do
    let provider := uint32At buf (12 + i * 4)
    if provider = 0 ∧ 1 < count then throw .asZeroAlongside
    if provider = customerAS ∨ provider = 0xFFFFFFFF then throw (.reservedOrSelf provider)
    if previous.any fun p => decide (provider ≤ p) then throw .notSorted
    let rest ← parseProviders buf customerAS count is (some provider)
    return provider :: rest

def parseASPAPDU (buf : List UInt8) : Except AspaPduError (ASPARecord × Bool) :=
  if buf.length < 12 then .error (.tooShort buf.length)
  else if (uint32At buf 4).toNat ≠ buf.length then .error .lengthMismatch
  else
    let customerAS := uint32At buf 8
    if customerAS = 0 ∨ customerAS = 0xFFFFFFFF then .error (.reservedCustomer customerAS)
    else
      let providerBytes := buf.length - 12
      if buf.getD 2 0 &&& 1 = 0 then
        if providerBytes ≠ 0 then .error .withdrawalWithProviders
        else .ok (⟨customerAS, []⟩, false)
      else if providerBytes = 0 ∨ providerBytes % 4 ≠ 0 then .error .emptyOrUnaligned
      else
        let count := providerBytes / 4
        (parseProviders buf customerAS count (range count) none).map
          fun providers => (⟨customerAS, providers⟩, true)

/-- What `handlePDU` fails with. Source: rtr_session.go. -/
inductive RtrError
  | unsupportedProtocol
  | cacheReset
  | versionDowngrade
  | dataExpired
  | noDataAvailable
  | badPrefix (e : PduError)
  | aspaInVersion (version : UInt8)
  | badASPA (e : AspaPduError)
  | endOfDataTooShort (len : ℕ)
  | noCommonVersion (version : UInt8)
  | fatal (code : UInt16)
  | unknownType (type : UInt8)
deriving DecidableEq, Repr

/-- Source: rtr_session.go, the texts of its errors. -/
def RtrError.text : RtrError → String
  | unsupportedProtocol => "rtr: unrecognized protocol version"
  | cacheReset => "rtr: cache reset received, will do full sync"
  | versionDowngrade => "rtr: version downgrade required"
  | dataExpired => "rtr: serial response cannot update expired data"
  | noDataAvailable => "rtr: cache has no data available"
  | badPrefix e => e.text
  | aspaInVersion version =>
    "rtr: ASPA PDU received in v" ++ toString version ++ " session (protocol violation)"
  | badASPA e => e.text
  | endOfDataTooShort len => "rtr: End of Data PDU too short: " ++ toString len
  | noCommonVersion version =>
    "rtr: no supported common version with cache version " ++ toString version
  | fatal code => "rtr: fatal error code " ++ toString code ++ " from cache"
  | unknownType type => "rtr: unknown PDU type " ++ toString type

def parseEndOfData (buf : List UInt8) : Except RtrError EndOfDataParams :=
  if buf.length < 24 then .error (.endOfDataTooShort buf.length)
  else .ok {
    sessionID := UInt16.ofNat (bigEndian ((buf.drop 2).take 2))
    serialNumber := uint32At buf 8
    refreshInterval := uint32At buf 12
    retryInterval := uint32At buf 16
    expireInterval := uint32At buf 20 }

/-! ## The session and the lease -/

/-- Source: rtr_session.go, RTR session states. -/
inductive RTRState
  | idle
  | connect
  | establish
deriving DecidableEq, Repr

def second : ℕ := 1000000000

/-- Source: rtr_session.go RTRSession, without the connection and its settings. -/
structure RTRSession where
  state : RTRState
  sessionID : UInt16
  serial : UInt32
  version : UInt8
  synced : Bool
  fullSync : Bool
  refreshInterval : ℕ
  retryInterval : ℕ
  expireInterval : ℕ
  pendingVRPs : List VRP
  pendingDels : List VRP
  pendingASPAs : List ASPARecord
  pendingASPADels : List UInt32
  dataGeneration : ℕ

def newRTRSession : RTRSession where
  state := .idle
  sessionID := 0
  serial := 0
  version := rtrVersionMax
  synced := false
  fullSync := false
  refreshInterval := 3600 * second
  retryInterval := 600 * second
  expireInterval := 7200 * second
  pendingVRPs := []
  pendingDels := []
  pendingASPAs := []
  pendingASPADels := []
  dataGeneration := 0

/-- Source: rtr_expire.go rtrDataLease, without its timer and callbacks. -/
structure RtrDataLease where
  deadline : Option ℕ
  generation : ℕ
  stopped : Bool

/-- A session, the lease of the published payloads, and the caches they are published in. -/
structure Rtr where
  session : RTRSession
  lease : RtrDataLease
  cache : ROACache
  aspaCache : Option ASPACache

/-- A new session over empty caches. Source: rtr_expire.go newRTRDataLease. -/
def Rtr.new (aspaCache : Option ASPACache) : Rtr :=
  ⟨newRTRSession, ⟨none, 0, false⟩, ROACache.new, aspaCache⟩

structure EndOfDataApplied where
  announced : ℕ
  withdrawn : ℕ
  aspaAnnounced : ℕ
  aspaWithdrawn : ℕ
  aspaChanged : Finset UInt32
  fullSync : Bool

namespace Rtr

/-- The published set cannot be the base of a delta: it is not the one the session last saw, or its
lifetime has ended.
Source: rtr_session.go applyEndOfData, its first test -/
def Stale (r : Rtr) (received : ℕ) : Prop :=
  r.session.dataGeneration ≠ r.lease.generation ∨ ∃ d ∈ r.lease.deadline, d ≤ received

instance (r : Rtr) (received : ℕ) : Decidable (r.Stale received) :=
  inferInstanceAs (Decidable (_ ∨ _))

/-- An interval of End of Data; zero keeps the one before. Source: rtr_session.go
applyEndOfData. -/
def interval (before : ℕ) (seconds : UInt32) : ℕ :=
  if 0 < seconds then seconds.toNat * second else before

/-- Source: rtr_session.go applyEndOfData, the ASPA records. -/
def applyASPA (r : Rtr) : Option ASPACache × Finset UInt32 :=
  match r.aspaCache with
  | none => (none, ∅)
  | some aspa =>
    if r.session.fullSync then
      let replaced := aspa.replace r.session.pendingASPAs
      (some replaced.1, replaced.2)
    else if r.session.pendingASPAs ≠ [] ∨ r.session.pendingASPADels ≠ [] then
      (some (aspa.applyDelta r.session.pendingASPADels r.session.pendingASPAs),
        ASPACache.changedCustomers r.session.pendingASPADels r.session.pendingASPAs)
    else (some aspa, ∅)

def applyEndOfData (r : Rtr) (params : EndOfDataParams) (received : ℕ) :
    Rtr × Except RtrError EndOfDataApplied :=
  let s := r.session
  if ¬ s.fullSync ∧ r.Stale received then
    ({ r with session := { s with serial := 0, fullSync := true } }, .error .dataExpired)
  else
    let expireInterval := interval s.expireInterval params.expireInterval
    let generation := if s.fullSync then r.lease.generation + 1 else r.lease.generation
    let aspa := r.applyASPA
    ({ session := { s with
        serial := params.serialNumber
        synced := true
        refreshInterval := interval s.refreshInterval params.refreshInterval
        retryInterval := interval s.retryInterval params.retryInterval
        expireInterval := expireInterval
        fullSync := false
        pendingVRPs := []
        pendingDels := []
        pendingASPAs := []
        pendingASPADels := []
        dataGeneration := generation }
       lease := { r.lease with
        generation := generation
        deadline := some (received + expireInterval) }
       cache := if s.fullSync then r.cache.replace s.pendingVRPs
        else r.cache.applyDelta s.pendingDels s.pendingVRPs
       aspaCache := aspa.1 },
      .ok ⟨s.pendingVRPs.length, s.pendingDels.length, s.pendingASPAs.length,
        s.pendingASPADels.length, aspa.2, s.fullSync⟩)

/-- Files a prefix record under the announced or the withdrawn payloads.
Source: rtr_session.go handlePDU, the two prefix cases -/
def handlePrefix (r : Rtr) (parsed : Except PduError (VRP × Bool)) : Rtr × Except RtrError Bool :=
  match parsed with
  | .error e => (r, .error (.badPrefix e))
  | .ok (vrp, announce) =>
    let s := r.session
    let s' := if announce then { s with pendingVRPs := s.pendingVRPs ++ [vrp] }
      else { s with pendingDels := s.pendingDels ++ [vrp] }
    ({ r with session := s' }, .ok false)

/-- Source: rtr_session.go handlePDU, the ASPA case. -/
def handleASPA (r : Rtr) (buf : List UInt8) : Rtr × Except RtrError Bool :=
  if r.session.version < 2 then (r, .error (.aspaInVersion r.session.version))
  else match parseASPAPDU buf with
    | .error e => (r, .error (.badASPA e))
    | .ok (rec, announce) =>
      let s := r.session
      let s' := if announce then { s with pendingASPAs := s.pendingASPAs ++ [rec] }
        else { s with pendingASPADels := s.pendingASPADels ++ [rec.customerAS] }
      ({ r with session := s' }, .ok false)

/-- Source: rtr_session.go handlePDU, the End of Data case. -/
def handleEndOfData (r : Rtr) (buf : List UInt8) (now : ℕ) : Rtr × Except RtrError Bool :=
  match parseEndOfData buf with
  | .error e => (r, .error e)
  | .ok params =>
    match r.applyEndOfData params now with
    | (r', .error e) => (r', .error e)
    | (r', .ok _) => (r', .ok true)

def startFullSync (r : Rtr) : Rtr :=
  { r with session := { r.session with serial := 0, fullSync := true } }

/-- Source: rtr_session.go handlePDU, the Error Report case. -/
def handleErrorRpt (r : Rtr) (hdr : RTRHeader) : Rtr × Except RtrError Bool :=
  let errCode := hdr.sessionID
  if errCode = errUnsupportedVersion then
    if hdr.version < rtrVersionMin ∨ r.session.version ≤ hdr.version then
      (r, .error (.noCommonVersion hdr.version))
    else
      ({ r with session := { r.session with version := hdr.version, serial := 0, fullSync :=
        true } }, .error .versionDowngrade)
  else if errCode = errNoDataAvail then (r.startFullSync, .error .noDataAvailable)
  else if isFatalError errCode then (r, .error (.fatal errCode))
  else (r, .ok false)

/-- Handles one PDU; `true` when the sync is complete. Source: rtr_session.go. -/
def handlePDU (r : Rtr) (hdr : RTRHeader) (buf : List UInt8) (now : ℕ) :
    Rtr × Except RtrError Bool :=
  if hdr.type ≠ pduSerialNotify ∧ hdr.type ≠ pduErrorRpt ∧
      (hdr.version < rtrVersionMin ∨ rtrVersionMax < hdr.version) then
    (r, .error .unsupportedProtocol)
  else if hdr.type = pduCacheResp then
    ({ r with session := { r.session with
        sessionID := hdr.sessionID
        state := .establish
        pendingVRPs := []
        pendingDels := []
        pendingASPAs := []
        pendingASPADels := [] } }, .ok false)
  else if hdr.type = pduIPv4Prefix then r.handlePrefix (parseIPv4Prefix buf)
  else if hdr.type = pduIPv6Prefix then r.handlePrefix (parseIPv6Prefix buf)
  else if hdr.type = pduASPA then r.handleASPA buf
  else if hdr.type = pduEndOfData then r.handleEndOfData buf now
  else if hdr.type = pduCacheReset then (r.startFullSync, .error .cacheReset)
  else if hdr.type = pduSerialNotify then (r, .ok false)
  else if hdr.type = pduErrorRpt then r.handleErrorRpt hdr
  else if hdr.type = pduRouterKey then (r, .ok false)
  else (r, .error (.unknownType hdr.type))

/-- The timer of the lease: once the deadline has passed, the caches are emptied.
Source: rtr_expire.go. -/
def expire (r : Rtr) (now : ℕ) : Rtr :=
  match r.lease.deadline with
  | none => r
  | some d =>
    if r.lease.stopped ∨ now < d then r
    else { r with
      lease := { r.lease with deadline := none, generation := r.lease.generation + 1 }
      cache := ROACache.new
      aspaCache := r.aspaCache.map fun _ => ASPACache.new }

def current (r : Rtr) (generation now : ℕ) : Bool :=
  !r.lease.stopped && decide (generation = r.lease.generation) &&
    r.lease.deadline.any fun d => decide (now < d)

def prepareQuery (r : Rtr) (now : ℕ) : Rtr :=
  let serial := if r.current r.session.dataGeneration now then r.session.serial else 0
  { r with session := { r.session with serial := serial, fullSync := decide (serial = 0) } }

def stop (r : Rtr) : Rtr := { r with lease := { r.lease with stopped := true } }

end Rtr

/-! ## Runs of a session -/

inductive RtrEvent
  | startFullSync
  | prepareQuery (now : ℕ)
  | pdu (hdr : RTRHeader) (buf : List UInt8) (now : ℕ)
  | expire (now : ℕ)
  | stop

namespace RtrEvent

/-- Source: rtr_session.go, rtr_expire.go. -/
def apply (r : Rtr) : RtrEvent → Rtr
  | startFullSync => r.startFullSync
  | prepareQuery now => r.prepareQuery now
  | pdu hdr buf now => (r.handlePDU hdr buf now).1
  | expire now => r.expire now
  | stop => r.stop

def IsCacheResp : RtrEvent → Prop
  | pdu hdr _ _ => hdr.type = pduCacheResp
  | _ => False

instance : (e : RtrEvent) → Decidable e.IsCacheResp
  | pdu hdr _ _ => inferInstanceAs (Decidable (hdr.type = pduCacheResp))
  | startFullSync => isFalse id
  | prepareQuery _ => isFalse id
  | expire _ => isFalse id
  | stop => isFalse id

/-- The payload that a Prefix PDU announces (`true`) or withdraws. -/
def change : RtrEvent → Option (VRP × Bool)
  | pdu hdr buf _ =>
    if hdr.type = pduIPv4Prefix then (parseIPv4Prefix buf).toOption
    else if hdr.type = pduIPv6Prefix then (parseIPv6Prefix buf).toOption
    else none
  | _ => none

/-- The prefix PDUs of a response, in the order received. -/
def changes (body : List RtrEvent) : List (VRP × Bool) := body.filterMap change

end RtrEvent

namespace Rtr

variable {r r' r₁ : Rtr} {e : RtrEvent} {s : Finset VRP}

/-- The states that a session with its lease reaches. -/
def Reached (r : Rtr) : Prop :=
  ∃ aspaCache, ∃ es : List RtrEvent, r = es.foldl RtrEvent.apply (new aspaCache)

/-- The cache counts what it holds, the collected payloads came out of the parsers, and the session
has not seen a later set than the published one. -/
structure Inv (r : Rtr) : Prop where
  counts : ∃ s, r.cache.Counts s
  vrps : ∀ v ∈ r.session.pendingVRPs, v.WellFormed
  dels : ∀ v ∈ r.session.pendingDels, v.WellFormed
  generation : r.session.dataGeneration ≤ r.lease.generation

variable {parsed : Except PduError (VRP × Bool)} {hdr : RTRHeader}

lemma handlePrefix_ok {c : VRP × Bool} (h : parsed = .ok c) :
    r.handlePrefix parsed = ({ r with session := { r.session with
      pendingVRPs := r.session.pendingVRPs ++ adds [c]
      pendingDels := r.session.pendingDels ++ Changeset.dels [c] } }, .ok false) := by
  obtain ⟨v, announce⟩ := c
  subst h
  cases announce <;> simp [handlePrefix, adds, Changeset.dels]

lemma Inv.handlePrefix (h : r.Inv) (hwf : ∀ v announce, parsed = .ok (v, announce) → v.WellFormed) :
    (r.handlePrefix parsed).1.Inv := by
  cases hp : parsed with
  | error e => exact h
  | ok c =>
    obtain ⟨v, announce⟩ := c
    have hv := hwf v announce hp
    rw [handlePrefix_ok rfl]
    refine ⟨h.counts, ?_, ?_, h.generation⟩
    · intro u hu
      rcases mem_append.1 hu with hu | hu
      · exact h.vrps u hu
      · rw [Changeset.mem_adds, mem_singleton] at hu
        exact (Prod.mk.inj hu).1 ▸ hv
    · intro u hu
      rcases mem_append.1 hu with hu | hu
      · exact h.dels u hu
      · rw [Changeset.mem_dels, mem_singleton] at hu
        exact (Prod.mk.inj hu).1 ▸ hv

lemma Inv.counts_applied (h : r.Inv) (hs : r.cache.Counts s) :
    (r.cache.replace r.session.pendingVRPs).Counts
      (r.session.pendingVRPs.foldl (Changeset.addCapped maxVRPs.toNat) ∅) ∧
    (r.cache.applyDelta r.session.pendingDels r.session.pendingVRPs).Counts
      (r.session.pendingVRPs.foldl (Changeset.addCapped maxVRPs.toNat)
        (s \ r.session.pendingDels.toFinset)) := by
  refine ⟨ROACache.counts_new.addAll _ h.vrps, ?_⟩
  rw [← Changeset.foldl_erase]
  exact (hs.removeAll _ h.dels).addAll _ h.vrps

lemma Inv.applyEndOfData (h : r.Inv) (params : EndOfDataParams) (received : ℕ) :
    (r.applyEndOfData params received).1.Inv := by
  obtain ⟨s, hs⟩ := h.counts
  have happ := h.counts_applied hs
  simp only [Rtr.applyEndOfData]
  by_cases hstale : ¬ r.session.fullSync ∧ r.Stale received
  · rw [if_pos hstale]
    exact ⟨h.counts, h.vrps, h.dels, h.generation⟩
  · rw [if_neg hstale]
    refine ⟨?_, by simp, by simp, le_refl _⟩
    dsimp only
    split_ifs with hfull
    · exact ⟨_, happ.1⟩
    · exact ⟨_, happ.2⟩

lemma Inv.handlePDU (h : r.Inv) (hdr : RTRHeader) (buf : List UInt8) (now : ℕ) :
    (r.handlePDU hdr buf now).1.Inv := by
  have hreset : r.startFullSync.Inv := ⟨h.counts, h.vrps, h.dels, h.generation⟩
  have hite : ∀ {c : Prop} [Decidable c] {x y : Rtr × Except RtrError Bool}, x.1.Inv → y.1.Inv →
      (if c then x else y).1.Inv :=
    fun hx hy => iteInduction (motive := fun p : Rtr × _ => p.1.Inv) (fun _ => hx) fun _ => hy
  rw [Rtr.handlePDU]
  refine hite h (hite ?_ (hite ?_ (hite ?_ (hite ?_ (hite ?_ (hite ?_ (hite h (hite ?_
    (hite h h)))))))))
  · exact ⟨h.counts, by simp, by simp, h.generation⟩
  · exact h.handlePrefix fun v a hp => Parsed.wellFormed ⟨buf, a, .inl hp⟩
  · exact h.handlePrefix fun v a hp => Parsed.wellFormed ⟨buf, a, .inr hp⟩
  · rw [handleASPA]
    split_ifs
    · exact h
    · split
      · exact h
      · dsimp only
        split_ifs <;> exact ⟨h.counts, h.vrps, h.dels, h.generation⟩
  · rw [handleEndOfData]
    split
    · exact h
    · rename_i params _
      have hend := h.applyEndOfData params now
      split <;> simp_all
  · exact hreset
  · rw [handleErrorRpt]
    dsimp only
    split_ifs
    · exact h
    · exact ⟨h.counts, h.vrps, h.dels, h.generation⟩
    · exact hreset
    · exact h
    · exact h

lemma Inv.expire (h : r.Inv) (now : ℕ) : (r.expire now).Inv := by
  rw [Rtr.expire]
  split
  · exact h
  · split_ifs
    · exact h
    · refine ⟨⟨∅, ROACache.counts_new⟩, h.vrps, h.dels, ?_⟩
      exact le_trans h.generation (Nat.le_succ _)

lemma Inv.apply (h : r.Inv) (e : RtrEvent) : (e.apply r).Inv := by
  cases e with
  | startFullSync | prepareQuery now => exact ⟨h.counts, h.vrps, h.dels, h.generation⟩
  | pdu hdr buf now => exact h.handlePDU hdr buf now
  | expire now => exact h.expire now
  | stop => exact ⟨h.counts, h.vrps, h.dels, h.generation⟩

/-- Every state that a session reaches meets the invariant. -/
lemma Reached.inv (h : r.Reached) : r.Inv := by
  obtain ⟨aspaCache, es, rfl⟩ := h
  have hnew : (new aspaCache).Inv := ⟨⟨∅, ROACache.counts_new⟩, by simp [new, newRTRSession],
    by simp [new, newRTRSession], le_refl _⟩
  induction es using reverseRecOn with
  | nil => exact hnew
  | append_singleton es e ih =>
    rw [foldl_append]
    exact ih.apply e

/-! ## A response -/

/-- One event of a response that goes on: a PDU that is handled without an error and does not
complete the sync, or the timer of the lease.
Source: rtr_session.go readLoop -/
def receive (r : Rtr) : RtrEvent → Option Rtr
  | .pdu hdr buf now =>
    match r.handlePDU hdr buf now with
    | (r', .ok false) => some r'
    | _ => none
  | .expire now => some (r.expire now)
  | _ => none

/-- What the events between a Cache Response and End of Data do: the session collects the prefix
records, and the published set stays as it is or expires.
Source: rtr_session.go handlePDU -/
structure Collects (r r' : Rtr) (cs : List (VRP × Bool)) : Prop where
  vrps : r'.session.pendingVRPs = r.session.pendingVRPs ++ adds cs
  dels : r'.session.pendingDels = r.session.pendingDels ++ Changeset.dels cs
  fullSync : r'.session.fullSync = r.session.fullSync
  dataGeneration : r'.session.dataGeneration = r.session.dataGeneration
  published : (r'.cache = r.cache ∧ r'.lease.generation = r.lease.generation) ∨
    r.lease.generation < r'.lease.generation

lemma Collects.refl (r : Rtr) : r.Collects r [] where
  vrps := by simp [adds]
  dels := by simp [Changeset.dels]
  fullSync := rfl
  dataGeneration := rfl
  published := .inl ⟨rfl, rfl⟩

lemma Collects.trans {cs cs' : List (VRP × Bool)} (h : r.Collects r₁ cs)
    (h' : r₁.Collects r' cs') : r.Collects r' (cs ++ cs') where
  vrps := by rw [h'.vrps, h.vrps]; simp [adds]
  dels := by rw [h'.dels, h.dels]; simp [Changeset.dels]
  fullSync := h'.fullSync.trans h.fullSync
  dataGeneration := h'.dataGeneration.trans h.dataGeneration
  published := by
    rcases h.published with ⟨hc, hg⟩ | hlt <;> rcases h'.published with ⟨hc', hg'⟩ | hlt'
    · exact .inl ⟨hc'.trans hc, hg'.trans hg⟩
    · exact .inr (hg ▸ hlt')
    · exact .inr (hg' ▸ hlt)
    · exact .inr (hlt.trans hlt')

lemma collects_of_receive (h : r.receive e = some r') (hresp : ¬ e.IsCacheResp) :
    r.Collects r' (RtrEvent.changes [e]) := by
  have hpattern : ∀ {parsed : Except PduError (VRP × Bool)},
      r.handlePrefix parsed = (r', .ok false) → r.Collects r' parsed.toOption.toList := by
    intro parsed hp
    cases parsed with
    | error e => cases congrArg snd hp
    | ok c =>
      rw [handlePrefix_ok rfl] at hp
      obtain rfl := (Prod.mk.inj hp).1
      exact ⟨rfl, rfl, rfl, rfl, .inl ⟨rfl, rfl⟩⟩
  cases e with
  | startFullSync | prepareQuery now | stop => cases h
  | expire now =>
    cases h
    rw [RtrEvent.changes, filterMap_cons_none rfl, filterMap_nil]
    rw [expire]
    split
    · exact Collects.refl r
    · split_ifs
      · exact Collects.refl r
      · exact ⟨by simp [adds], by simp [Changeset.dels], rfl, rfl, .inr (Nat.lt_succ_self _)⟩
  | pdu hdr buf now =>
    have hok : r.handlePDU hdr buf now = (r', .ok false) := by
      rw [receive] at h
      split at h
      · rename_i heq
        rw [heq, Option.some.inj h]
      · cases h
    have hchanges : RtrEvent.changes [.pdu hdr buf now] =
        (RtrEvent.change (.pdu hdr buf now)).toList := by
      rw [RtrEvent.changes]
      cases hc : RtrEvent.change (.pdu hdr buf now) with
      | none => rw [filterMap_cons_none hc]; rfl
      | some c => rw [filterMap_cons_some hc]; rfl
    rw [hchanges, RtrEvent.change]
    rw [handlePDU] at hok
    -- the branches one after the other: `split_ifs` would simplify what is left at each of them
    rcases ite_eq_iff.1 hok with ⟨-, hok⟩ | ⟨-, hok⟩
    · cases congrArg snd hok
    rcases ite_eq_iff.1 hok with ⟨h₂, -⟩ | ⟨-, hok⟩
    · exact absurd h₂ hresp
    rcases ite_eq_iff.1 hok with ⟨h₃, hok⟩ | ⟨h₃, hok⟩
    · rw [if_pos h₃]
      exact hpattern hok
    rw [if_neg h₃]
    rcases ite_eq_iff.1 hok with ⟨h₄, hok⟩ | ⟨h₄, hok⟩
    · rw [if_pos h₄]
      exact hpattern hok
    rw [if_neg h₄, Option.toList_none]
    rcases ite_eq_iff.1 hok with ⟨-, hok⟩ | ⟨-, hok⟩
    · rw [handleASPA] at hok
      split_ifs at hok
      · cases congrArg snd hok
      · split at hok
        · cases congrArg snd hok
        · obtain rfl := (Prod.mk.inj hok).1
          have hrefl := Collects.refl r
          split_ifs <;>
            exact ⟨hrefl.vrps, hrefl.dels, rfl, rfl, hrefl.published⟩
    rcases ite_eq_iff.1 hok with ⟨-, hok⟩ | ⟨-, hok⟩
    · rw [handleEndOfData] at hok
      split at hok
      · cases congrArg snd hok
      · split at hok <;> cases congrArg snd hok
    rcases ite_eq_iff.1 hok with ⟨-, hok⟩ | ⟨-, hok⟩
    · cases congrArg snd hok
    rcases ite_eq_iff.1 hok with ⟨-, hok⟩ | ⟨-, hok⟩
    · obtain rfl := (Prod.mk.inj hok).1
      exact Collects.refl r
    rcases ite_eq_iff.1 hok with ⟨-, hok⟩ | ⟨-, hok⟩
    · rw [handleErrorRpt] at hok
      dsimp only at hok
      split_ifs at hok with _ _ hdata hfatal
      · cases congrArg snd hok
      · cases congrArg snd hok
      · cases congrArg snd hok
      · cases congrArg snd hok
      · rw [isFatalError, bne_iff_ne, not_not] at hfatal
        exact absurd hfatal hdata
    rcases ite_eq_iff.1 hok with ⟨-, hok⟩ | ⟨-, hok⟩
    · obtain rfl := (Prod.mk.inj hok).1
      exact Collects.refl r
    · cases congrArg snd hok

lemma collects_of_run : (body : List RtrEvent) → ∀ {r : Rtr},
    (∀ e ∈ body, ¬ e.IsCacheResp) → run receive r body = some r' →
    r.Collects r' (RtrEvent.changes body)
  | [], r, _, h => by
      obtain rfl := Option.some.inj h
      exact Collects.refl r
  | e :: body, r, hresp, h => by
      rw [run_cons] at h
      obtain ⟨r₁, h₁, h₂⟩ := Option.bind_eq_some_iff.1 h
      have hrest := collects_of_run body (fun e he => hresp e (mem_cons_of_mem _ he)) h₂
      have hsplit : RtrEvent.changes (e :: body) =
          RtrEvent.changes [e] ++ RtrEvent.changes body := filterMap_append (l := [e])
      rw [hsplit]
      exact (collects_of_receive h₁ (hresp e mem_cons_self)).trans hrest

lemma Inv.receive (h : r.Inv) (hstep : r.receive e = some r') : r'.Inv := by
  cases e with
  | pdu hdr buf now =>
    have hpdu := h.handlePDU hdr buf now
    rw [Rtr.receive] at hstep
    split at hstep
    · rename_i heq
      rw [heq] at hpdu
      exact Option.some.inj hstep ▸ hpdu
    · cases hstep
  | expire now => exact Option.some.inj hstep ▸ h.expire now
  | startFullSync | prepareQuery now | stop => cases hstep

lemma receive_cacheResp {buf : List UInt8} {now : ℕ}
    (hresp : hdr.type = pduCacheResp) (h : r.receive (.pdu hdr buf now) = some r') :
    r' = { r with session := { r.session with
      sessionID := hdr.sessionID, state := .establish, pendingVRPs := [], pendingDels := [],
      pendingASPAs := [], pendingASPADels := [] } } := by
  rw [receive, handlePDU, hresp] at h
  by_cases hv : hdr.version < rtrVersionMin ∨ rtrVersionMax < hdr.version
  · rw [if_pos ⟨by decide, by decide, hv⟩] at h
    cases h
  · rw [if_neg (fun h => hv h.2.2), if_pos rfl] at h
    exact (Option.some.inj h).symm

lemma handlePDU_endOfData (h : hdr.type = pduEndOfData) (buf : List UInt8) (now : ℕ) :
    r.handlePDU hdr buf now = if hdr.version < rtrVersionMin ∨ rtrVersionMax < hdr.version then
      (r, .error .unsupportedProtocol) else r.handleEndOfData buf now := by
  rw [handlePDU, h]
  by_cases hv : hdr.version < rtrVersionMin ∨ rtrVersionMax < hdr.version
  · rw [if_pos hv, if_pos ⟨by decide, by decide, hv⟩]
  · rw [if_neg hv, if_neg (fun h => hv h.2.2)]
    rfl

lemma handleEndOfData_cases (h : hdr.type = pduEndOfData) (buf : List UInt8) (now : ℕ) :
    if rtrVersionMin ≤ hdr.version ∧ hdr.version ≤ rtrVersionMax ∧ 24 ≤ buf.length ∧
        (r.session.fullSync ∨ ¬ r.Stale now) then
      (r.handlePDU hdr buf now).2 = .ok true ∧
        (r.handlePDU hdr buf now).1.cache =
          if r.session.fullSync then r.cache.replace r.session.pendingVRPs
          else r.cache.applyDelta r.session.pendingDels r.session.pendingVRPs
    else (r.handlePDU hdr buf now).2 ≠ .ok true ∧ (r.handlePDU hdr buf now).1.cache = r.cache := by
  rw [handlePDU_endOfData h]
  by_cases hv : hdr.version < rtrVersionMin ∨ rtrVersionMax < hdr.version
  · rw [if_pos hv, if_neg]
    · exact ⟨fun hc => (by cases hc), rfl⟩
    · rintro ⟨h₁, h₂, -⟩
      rcases hv with hv | hv
      · exact absurd hv (UInt8.not_lt.2 h₁)
      · exact absurd hv (UInt8.not_lt.2 h₂)
  · rw [if_neg hv]
    rw [not_or, UInt8.not_lt, UInt8.not_lt] at hv
    rw [handleEndOfData, parseEndOfData]
    by_cases hlen : buf.length < 24
    · rw [if_pos hlen, if_neg (fun hc => absurd hc.2.2.1 (not_le.2 hlen))]
      exact ⟨fun hc => (by cases hc), rfl⟩
    · rw [if_neg hlen]
      simp only [applyEndOfData]
      by_cases hstale : ¬ r.session.fullSync ∧ r.Stale now
      · rw [if_pos hstale, if_neg]
        · exact ⟨fun hc => (by cases hc), rfl⟩
        · rintro ⟨-, -, -, hc | hc⟩
          · exact hstale.1 hc
          · exact hc hstale.2
      · rw [if_neg hstale, if_pos]
        · exact ⟨rfl, rfl⟩
        · refine ⟨hv.1, hv.2, not_lt.1 hlen, ?_⟩
          by_cases hfull : r.session.fullSync
          · exact .inl hfull
          · exact .inr fun hc => hstale ⟨hfull, hc⟩

/-- **A response makes its changes in the order received, but for what it withdraws after an
announcement.** In every state that a session reaches, take a Cache Response, any events up to End
of Data (prefix records of either kind in any order, other PDUs, an expiry), and End of Data. It is
accepted exactly when its version and length are right and the response is full or the published set
is still the one it is a delta of; if it is not accepted, the cache is left as it is. If it is,
every payload is held exactly if the records made one after the other of the set before (of the
empty set in a full response) leave it, except one that the response announces and that has a
withdrawal as its last record. So it is as long as that set fits together with what the response
announces; else the cache is full, with nothing else in it. -/
theorem endOfData_applyAll {hdr : RTRHeader} {buf : List UInt8} {now : ℕ} {body : List RtrEvent}
    (hr : r.Reached) (hs : r.cache.Holds s) (hresp : hdr.type = pduCacheResp)
    (hbody : ∀ e ∈ body, ¬ e.IsCacheResp)
    (hrun : run receive r (.pdu hdr buf now :: body) = some r₁)
    (hdrEnd : RTRHeader) (bufEnd : List UInt8) (nowEnd : ℕ) (hend : hdrEnd.type = pduEndOfData) :
    ((r₁.handlePDU hdrEnd bufEnd nowEnd).2 = .ok true ↔
      rtrVersionMin ≤ hdrEnd.version ∧ hdrEnd.version ≤ rtrVersionMax ∧ 24 ≤ bufEnd.length ∧
        (r.session.fullSync ∨ ¬ r₁.Stale nowEnd)) ∧
    ((r₁.handlePDU hdrEnd bufEnd nowEnd).2 ≠ .ok true →
      (r₁.handlePDU hdrEnd bufEnd nowEnd).1.cache = r₁.cache) ∧
    ((r₁.handlePDU hdrEnd bufEnd nowEnd).2 = .ok true →
      ∃ held, (r₁.handlePDU hdrEnd bufEnd nowEnd).1.cache.Holds held ∧
        let changes := RtrEvent.changes body
        let after := Changeset.applyAll (if r.session.fullSync then ∅ else s) changes
        let offered := after ∪ (adds changes).toFinset
        ((offered.card : ℤ) ≤ maxVRPs → ∀ v, ¬ Changeset.Undone changes v →
          (v ∈ held ↔ v ∈ after)) ∧
        (maxVRPs < (offered.card : ℤ) → (held.card : ℤ) = maxVRPs ∧
          ∀ v ∈ held, ¬ Changeset.Undone changes v → v ∈ after)) := by
  -- the state after the Cache Response
  rw [run_cons] at hrun
  obtain ⟨r₀, hr₀, hrun⟩ := Option.bind_eq_some_iff.1 hrun
  have hfirst := receive_cacheResp hresp hr₀
  have hinv₀ : r₀.Inv := hr.inv.receive hr₀
  have hinv₁ : r₁.Inv := run_inv (fun _ _ _ ht hstep => ht.receive hstep) body r₀ r₁ hinv₀ hrun
  have hcol := collects_of_run body hbody hrun
  have hfull : r₁.session.fullSync = r.session.fullSync := by rw [hcol.fullSync, hfirst]
  have hvrps : r₁.session.pendingVRPs = adds (RtrEvent.changes body) := by
    rw [hcol.vrps, hfirst]
    rfl
  have hdels : r₁.session.pendingDels = Changeset.dels (RtrEvent.changes body) := by
    rw [hcol.dels, hfirst]
    rfl
  have hcases := handleEndOfData_cases (r := r₁) hend bufEnd nowEnd
  rw [hfull] at hcases
  by_cases hok : rtrVersionMin ≤ hdrEnd.version ∧ hdrEnd.version ≤ rtrVersionMax ∧
      24 ≤ bufEnd.length ∧ (r.session.fullSync ∨ ¬ r₁.Stale nowEnd)
  · rw [if_pos hok] at hcases
    refine ⟨⟨fun _ => hok, fun _ => hcases.1⟩, fun hc => absurd hcases.1 hc, fun _ => ?_⟩
    -- what the additions start from, and what they add
    obtain ⟨s₁, hs₁⟩ := hinv₁.counts
    have happ := hinv₁.counts_applied hs₁
    dsimp only
    have hbase : ∃ ds : List VRP,
        (∀ v ∈ (if r.session.fullSync then ∅ else s), v ∈ ds ↔
          v ∈ Changeset.dels (RtrEvent.changes body)) ∧
        (((if r.session.fullSync then ∅ else s) \ ds.toFinset).card : ℤ) ≤ maxVRPs ∧
        (r₁.handlePDU hdrEnd bufEnd nowEnd).1.cache.Counts
          ((adds (RtrEvent.changes body)).foldl (Changeset.addCapped maxVRPs.toNat)
            ((if r.session.fullSync then ∅ else s) \ ds.toFinset)) := by
      rw [hcases.2, ← hvrps, ← hdels]
      by_cases hf : r.session.fullSync
      · rw [if_pos hf, if_pos hf]
        exact ⟨[], fun v hv => absurd hv (Finset.notMem_empty v), by decide, happ.1⟩
      · rw [if_neg hf, if_neg hf]
        -- the published set is still the one before the response
        have hpub : r₁.cache = r.cache := by
          have hgen := hok.2.2.2.resolve_left hf
          rw [Stale, not_or, not_not, hcol.dataGeneration] at hgen
          rcases hcol.published with ⟨hc, -⟩ | hlt
          · rw [hc, hfirst]
          · have := hinv₀.generation
            omega
        obtain rfl : s₁ = s := (hpub ▸ hs₁.holds).unique hs
        have hle := Finset.card_le_card
          (Finset.sdiff_subset (s := s₁) (t := r₁.session.pendingDels.toFinset))
        have hlimit := hs₁.limit
        exact ⟨r₁.session.pendingDels, fun v _ => Iff.rfl, by omega, happ.2⟩
    obtain ⟨ds, hds, hlimit, hcounts⟩ := hbase
    refine ⟨_, hcounts.holds, ?_⟩
    rw [← Changeset.batch_eq hds]
    refine ⟨fun hfits v hv => ?_, fun hover => ?_⟩
    · rw [Changeset.foldl_addCapped_of_le (by omega)]
      exact Changeset.mem_batch_iff hv hds
    · have hsmall := (Int.le_toNat (by decide)).2 hlimit
      have hlarge := (Int.toNat_lt (by decide)).2 hover
      obtain ⟨hsub, hcard⟩ := Changeset.foldl_addCapped_of_lt hsmall hlarge
      refine ⟨by omega, fun v hheld hv => ?_⟩
      exact (Changeset.mem_batch_iff hv hds).1 (hsub.1 hheld)
  · rw [if_neg hok] at hcases
    exact ⟨⟨fun hc => absurd hc hcases.1, fun hc => absurd hc hok⟩, fun _ => hcases.2,
      fun hc => absurd hc hcases.1⟩

def header (type : UInt8) (length : UInt32) : RTRHeader := ⟨1, type, 0, length⟩

/-- An End of Data PDU of serial 1 with intervals of 3600, 600 and 7200 seconds. -/
def pduEnd : List UInt8 :=
  [1, 7, 0, 0, 0, 0, 0, 24, 0, 0, 0, 1, 0, 0, 14, 16, 0, 0, 2, 88, 0, 0, 28, 32]

/-- The Prefix PDU that announces (`1`) or withdraws (`0`) a `/8` up to `/16` for 64496. -/
def pduPrefix (net flags : UInt8) : RtrEvent :=
  .pdu (header pduIPv4Prefix 20)
    [1, 4, 0, 0, 0, 0, 0, 20, flags, 8, 16, 0, net, 0, 0, 0, 0, 0, 251, 240] 0

/-- The session before its second poll: the first one was answered with an empty set, so the next
answer is a delta. -/
def polled : Rtr :=
  [RtrEvent.prepareQuery 0, .pdu (header pduCacheResp 8) [] 0,
    .pdu (header pduEndOfData 24) pduEnd 0, .prepareQuery 0].foldl RtrEvent.apply (new none)

def vrp10 : VRP := ⟨⟨.four 0x0A000000#32, 8⟩, 16, 64496⟩

lemma holds_polled : polled.cache.Holds ∅ := by
  have : polled.cache = ROACache.new := rfl
  rw [this]
  exact ROACache.holds_new

lemma reached_polled : polled.Reached := ⟨none, _, rfl⟩

def accepted (r₁ : Rtr) : Bool :=
  match (r₁.handlePDU (header pduEndOfData 24) pduEnd 0).2 with
  | .ok b => b
  | .error _ => false

lemma accepted_eq_true (h : accepted r₁) :
    (r₁.handlePDU (header pduEndOfData 24) pduEnd 0).2 = .ok true := by
  rw [accepted] at h
  split at h
  · rename_i heq
    rw [heq, h]
  · cases h

/-- A delta that withdraws a payload and then announces it, and announces another one and then
withdraws it: the first is held. -/
theorem endOfData_applyAll_reannounced :
    ∃ r₁ held, run receive polled (.pdu (header pduCacheResp 8) [] 0 ::
        [pduPrefix 10 0, pduPrefix 10 1, pduPrefix 11 1, pduPrefix 11 0]) = some r₁ ∧
      (r₁.handlePDU (header pduEndOfData 24) pduEnd 0).1.cache.Holds held ∧ vrp10 ∈ held := by
  have hany : (run receive polled (.pdu (header pduCacheResp 8) [] 0 ::
      [pduPrefix 10 0, pduPrefix 10 1, pduPrefix 11 1, pduPrefix 11 0])).any accepted := by
    decide +kernel
  obtain ⟨r₁, hrun, hacc⟩ := (Option.any_eq_true _ _).1 hany
  obtain ⟨held, hholds, hfits, -⟩ := (endOfData_applyAll reached_polled holds_polled rfl
    (by decide +kernel) hrun (header pduEndOfData 24) pduEnd 0 rfl).2.2 (accepted_eq_true hacc)
  exact ⟨r₁, held, hrun, hholds,
    (hfits (by decide +kernel) vrp10 (by decide +kernel)).2 (by decide +kernel)⟩

/-- A delta that announces a payload and then withdraws it: the records one after the other leave
nothing, the cache holds the payload. -/
theorem endOfData_keeps_withdrawn :
    ∃ r₁, polled.Reached ∧ polled.cache.Holds ∅ ∧ polled.session.fullSync = false ∧
      run receive polled (.pdu (header pduCacheResp 8) [] 0 :: [pduPrefix 10 1, pduPrefix 10 0]) =
        some r₁ ∧
      (r₁.handlePDU (header pduEndOfData 24) pduEnd 0).2 = .ok true ∧
      Changeset.applyAll ∅ (RtrEvent.changes [pduPrefix 10 1, pduPrefix 10 0]) = ∅ ∧
      ¬ (r₁.handlePDU (header pduEndOfData 24) pduEnd 0).1.cache.Holds
        (Changeset.applyAll ∅ (RtrEvent.changes [pduPrefix 10 1, pduPrefix 10 0])) := by
  have hany : (run receive polled
      (.pdu (header pduCacheResp 8) [] 0 :: [pduPrefix 10 1, pduPrefix 10 0])).any
        (fun r₁ => accepted r₁ && decide (vrp10.entry ∈
          (r₁.handlePDU (header pduEndOfData 24) pduEnd 0).1.cache.table vrp10.isV4
            vrp10.pfx.string)) = true := by
    decide +kernel
  obtain ⟨r₁, hrun, hacc⟩ := (Option.any_eq_true _ _).1 hany
  rw [Bool.and_eq_true, decide_eq_true_eq] at hacc
  have hnone : Changeset.applyAll ∅ (RtrEvent.changes [pduPrefix 10 1, pduPrefix 10 0]) = ∅ := by
    decide +kernel
  refine ⟨r₁, reached_polled, holds_polled, rfl, hrun, accepted_eq_true hacc.1, hnone, fun hholds =>
    ?_⟩
  rw [hnone] at hholds
  obtain ⟨v, hv, -⟩ := hholds.only _ _ _ hacc.2
  exact absurd hv (Finset.notMem_empty v)

end Rtr

end Ze.Rpki
