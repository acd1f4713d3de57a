import Mathlib.Data.Finmap

/-!
# ASPA records and the verification of an AS path

`aSPACache` of `rpki/aspa_cache.go`, from a customer AS to the providers it authorises, without its
lock and log lines, and the procedures of `rpki/aspa_verify.go`.

Default file: `aspa_cache.go`.
-/

namespace Ze.Rpki

open List

/-! ## The states and the hop results -/

/-- An ASPA validation state; `none` marks a route that ASPA does not apply to.
Source: aspa_verify.go ASPAValid, ASPAInvalid, ASPAUnknown, aspaStateNone -/
inductive ASPAState where
  | valid
  | invalid
  | unknown
  | none
deriving DecidableEq, Repr

inductive HopResult where
  | providerPlus
  | notProviderPlus
  | noAttestation
deriving DecidableEq, Repr

inductive ASPAMode where
  | unspecified
  | upstream
  | downstream
deriving DecidableEq, Repr

/-! ## The cache -/

structure ASPARecord where
  customerAS : UInt32
  providers : List UInt32
deriving DecidableEq, Repr

def maxASPARecords : ℕ := 1000000

structure ASPACache where
  records : Finmap fun _ : UInt32 => Finset UInt32

namespace ASPACache

/-- Source: newASPACache. -/
def new : ASPACache := ⟨∅⟩

def count (c : ASPACache) : ℕ := c.records.keys.card

/-- The cache with the record of a customer written. Source: the provSet loop. -/
def store (c : ASPACache) (rec : ASPARecord) : ASPACache :=
  ⟨c.records.insert rec.customerAS rec.providers.toFinset⟩

def checkPair (c : ASPACache) (providerCandidate customerAS : UInt32) : HopResult :=
  match c.records.lookup customerAS with
  | none => .noAttestation
  | some providers =>
    if providerCandidate ∈ providers then .providerPlus else .notProviderPlus

/-- One record of a delta: a new customer is dropped once the cache is full.
Source: ApplyDelta, second loop -/
def addRecord (c : ASPACache) (rec : ASPARecord) : ASPACache :=
  if maxASPARecords ≤ c.count ∧ rec.customerAS ∉ c.records then c else c.store rec

def applyDelta (c : ASPACache) (dels : List UInt32) (adds : List ASPARecord) : ASPACache :=
  adds.foldl addRecord (dels.foldl (fun c customerAS => ⟨c.records.erase customerAS⟩) c)

/-- The customers a delta names; the order a map range gives them in is not kept. -/
def changedCustomers (dels : List UInt32) (adds : List ASPARecord) : Finset UInt32 :=
  dels.toFinset ∪ (adds.map ASPARecord.customerAS).toFinset

/-- One record of a full set: any record is dropped once the new cache is full, also one of a
customer already in it.
Source: Replace, the loop over recs -/
def replaceRecord (acc : ASPACache × Finset UInt32) (rec : ASPARecord) :
    ASPACache × Finset UInt32 :=
  if maxASPARecords ≤ acc.1.count then acc
  else (acc.1.store rec, insert rec.customerAS acc.2)

def replace (c : ASPACache) (recs : List ASPARecord) : ASPACache × Finset UInt32 :=
  if recs = [] then (new, c.records.keys)
  else recs.foldl replaceRecord (new, c.records.keys)

variable {c c' : ASPACache} {asn : UInt32}

lemma lookup_store {rec : ASPARecord} (h : asn ≠ rec.customerAS) :
    (c.store rec).records.lookup asn = c.records.lookup asn :=
  Finmap.lookup_insert_of_ne _ h

lemma lookup_foldl_erase :
    (dels : List UInt32) → (c : ASPACache) → asn ∉ dels →
      (dels.foldl (fun c customerAS => (⟨c.records.erase customerAS⟩ : ASPACache)) c).records.lookup
        asn = c.records.lookup asn
  | [], _, _ => rfl
  | d :: dels, c, h => by
      rw [mem_cons, not_or] at h
      rw [foldl_cons, lookup_foldl_erase dels _ h.2]
      exact Finmap.lookup_erase_ne h.1

lemma lookup_foldl_addRecord :
    (adds : List ASPARecord) → (c : ASPACache) → asn ∉ adds.map ASPARecord.customerAS →
      (adds.foldl addRecord c).records.lookup asn = c.records.lookup asn
  | [], _, _ => rfl
  | rec :: adds, c, h => by
      rw [map_cons, mem_cons, not_or] at h
      rw [foldl_cons, lookup_foldl_addRecord adds _ h.2]
      unfold addRecord
      split_ifs
      · rfl
      · exact lookup_store h.1

lemma lookup_applyDelta {dels : List UInt32} {adds : List ASPARecord}
    (h : asn ∉ changedCustomers dels adds) :
    (c.applyDelta dels adds).records.lookup asn = c.records.lookup asn := by
  simp only [changedCustomers, Finset.mem_union, mem_toFinset, not_or] at h
  unfold applyDelta
  rw [lookup_foldl_addRecord adds _ h.2, lookup_foldl_erase dels _ h.1]

lemma foldl_replaceRecord_reports :
    (recs : List ASPARecord) → (acc : ASPACache × Finset UInt32) →
      asn ∉ (recs.foldl replaceRecord acc).2 →
      asn ∉ acc.2 ∧ (recs.foldl replaceRecord acc).1.records.lookup asn =
        acc.1.records.lookup asn
  | [], _, h => ⟨h, rfl⟩
  | rec :: recs, acc, h => by
      rw [foldl_cons] at h ⊢
      obtain ⟨hnot, heq⟩ := foldl_replaceRecord_reports recs (replaceRecord acc rec) h
      rw [heq]
      unfold replaceRecord at hnot ⊢
      split_ifs at hnot ⊢ with hfull
      · exact ⟨hnot, rfl⟩
      · rw [Finset.mem_insert, not_or] at hnot
        exact ⟨hnot.2, lookup_store hnot.1⟩

lemma lookup_replace {recs : List ASPARecord} (h : asn ∉ (c.replace recs).2) :
    (c.replace recs).1.records.lookup asn = c.records.lookup asn := by
  have hgone : asn ∉ c.records.keys →
      (new.records.lookup asn : Option (Finset UInt32)) = c.records.lookup asn := by
    intro hkeys
    rw [Finmap.mem_keys] at hkeys
    rw [Finmap.lookup_eq_none.2 hkeys]
    exact Finmap.lookup_empty asn
  unfold replace at h ⊢
  split_ifs at h ⊢
  · exact hgone h
  · obtain ⟨hkeys, heq⟩ := foldl_replaceRecord_reports recs _ h
    rw [heq]
    exact hgone hkeys

lemma checkPair_congr (h : c.records.lookup asn = c'.records.lookup asn) (p : UInt32) :
    c.checkPair p asn = c'.checkPair p asn := by
  unfold checkPair
  rw [h]

end ASPACache

/-! ## The verification procedures -/

section

/-- The hops from the neighbour to the origin, with the flag for a hop without a record.
Source: aspa_verify.go verifyASPA, the loop -/
def verifyHops (cache : ASPACache) : Bool → List UInt32 → ASPAState
  | hasUnknown, providerCandidate :: customerAS :: rest =>
    match cache.checkPair providerCandidate customerAS with
    | .providerPlus => verifyHops cache hasUnknown (customerAS :: rest)
    | .notProviderPlus => .invalid
    | .noAttestation => verifyHops cache true (customerAS :: rest)
  | hasUnknown, _ => if hasUnknown then .unknown else .valid

def verifyASPA (cache : ASPACache) (path : List UInt32) : ASPAState :=
  if path = [] then .invalid
  else if path.length ≤ 1 then .valid
  else verifyHops cache false path

/-- The loop of one ramp over a path of `len` ASes: `i` is the loop's count, `low` the first length
at which a hop was not attested (`len` while there is none). The result is that length and the one
of the first denial, which ends the loop.
Source: aspa_verify.go verifyASPADownstream, the two loops -/
def rampLoop (cache : ASPACache) (len : ℕ) : ℕ → ℕ → List UInt32 → ℕ × ℕ
  | i, low, customerAS :: providerCandidate :: rest =>
    let hop := cache.checkPair providerCandidate customerAS
    let low' := if hop ≠ .providerPlus ∧ low = len then i + 1 else low
    if hop = .notProviderPlus then (low', i + 1)
    else rampLoop cache len (i + 1) low' (providerCandidate :: rest)
  | _, low, _ => (low, len)

/-- The two lengths of the ramp that starts at the head of the list. -/
def ramp (cache : ASPACache) (path : List UInt32) : ℕ × ℕ :=
  rampLoop cache path.length 0 path.length path

/-- The up ramp runs from the origin, so over the reversed path: the source's loop counts `i` down
from `len(path) - 1` and writes `len(path) - i`. Source: aspa_verify.go. -/
def verifyASPADownstream (cache : ASPACache) (path : List UInt32) : ASPAState :=
  if path = [] then .invalid
  else
    let up := ramp cache path.reverse
    let down := ramp cache path
    if up.2 + down.2 < path.length then .invalid
    else if up.1 + down.1 < path.length then .unknown
    else .valid

def verifyASPAPath (cache : ASPACache) (path : List UInt32) (mode : ASPAMode) : ASPAState :=
  if path = [] then .invalid
  else
    match mode with
    | .upstream => verifyASPA cache path
    | .downstream => verifyASPADownstream cache path
    | .unspecified => .unknown

variable {c c' : ASPACache}

lemma verifyHops_congr :
    (path : List UInt32) → (hasUnknown : Bool) →
      (∀ asn ∈ path, c.records.lookup asn = c'.records.lookup asn) →
      verifyHops c hasUnknown path = verifyHops c' hasUnknown path
  | [], _, _ => rfl
  | [_], _, _ => rfl
  | p :: a :: rest, hasUnknown, h => by
      have htail : ∀ asn ∈ a :: rest, c.records.lookup asn = c'.records.lookup asn :=
        fun asn hasn => h asn (mem_cons_of_mem p hasn)
      have hhop : c.checkPair p a = c'.checkPair p a :=
        ASPACache.checkPair_congr (htail a mem_cons_self) p
      simp only [verifyHops]
      rw [hhop, verifyHops_congr (a :: rest) hasUnknown htail,
        verifyHops_congr (a :: rest) true htail]

lemma rampLoop_congr {len : ℕ} :
    (path : List UInt32) → (i low : ℕ) →
      (∀ asn ∈ path, c.records.lookup asn = c'.records.lookup asn) →
      rampLoop c len i low path = rampLoop c' len i low path
  | [], _, _, _ => rfl
  | [_], _, _, _ => rfl
  | a :: p :: rest, i, low, h => by
      have hhop : c.checkPair p a = c'.checkPair p a :=
        ASPACache.checkPair_congr (h a mem_cons_self) p
      simp only [rampLoop]
      rw [hhop, rampLoop_congr (p :: rest) (i + 1) _ fun asn hasn => h asn (mem_cons_of_mem a hasn)]

/-- A verification reads the records of the ASes of the path, no other. -/
lemma verifyASPAPath_congr {path : List UInt32} {mode : ASPAMode}
    (h : ∀ asn ∈ path, c.records.lookup asn = c'.records.lookup asn) :
    verifyASPAPath c path mode = verifyASPAPath c' path mode := by
  have hrev : ∀ asn ∈ path.reverse, c.records.lookup asn = c'.records.lookup asn :=
    fun asn hasn => h asn (mem_reverse.1 hasn)
  have hup : ramp c path.reverse = ramp c' path.reverse := rampLoop_congr _ _ _ hrev
  have hdown : ramp c path = ramp c' path := rampLoop_congr _ _ _ h
  unfold verifyASPAPath verifyASPA verifyASPADownstream
  rw [hup, hdown, verifyHops_congr path false h]

end

/-! ## The neighbour step -/

structure ASPANeighbor where
  as : UInt32
  check : Bool
deriving DecidableEq, Repr

namespace ASPANeighbor

def confirms (n : ASPANeighbor) (path : List UInt32) : Bool :=
  if n.check = false then true else decide (path.head? = some n.as)

def verify (n : ASPANeighbor) (state : ASPAState) (path : List UInt32) : ASPAState :=
  if n.confirms path then state else .invalid

end ASPANeighbor

end Ze.Rpki
