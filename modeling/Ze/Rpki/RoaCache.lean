import Ze.Lib.Changeset
import Ze.Lib.Run
import Ze.Rpki.Vrp

/-!
# The ROA cache

`ROACache` of `rpki/roa_cache.go` and `Validate` of `rpki/validate.go`: two tables, one for each
address family, from the text of a network to the payloads announced for it. The cache files a
payload by `IP.To4`, so that an IPv6 payload in `::ffff:0:0/96` ends up in the IPv4 table and is
taken for another payload, `VRP.filed`. The lock and the log line of a payload dropped because the
cache is full are left out.

Default file: `roa_cache.go`.
-/

namespace Ze.Rpki

open Ze.Net Ze.Lib List
open Finset (mem_erase mem_image mem_image_of_mem mem_insert notMem_empty)
open UInt8 (ofNat size)

structure VrpEntry where
  maxLength : UInt8
  asn : UInt32
deriving DecidableEq, Repr

/-- A table from the text of a network to the entries for it; an absent key has none.
Source: map[string][]vrpEntry -/
abbrev Table := NetText → List VrpEntry

structure ROACache where
  ipv4 : Table
  ipv6 : Table
  total : ℤ

def maxVRPs : ℤ := 1000000

namespace VRP

/-- The test `vrp.Prefix.IP.To4() != nil`. Source: addLocked. -/
def isV4 (v : VRP) : Bool := v.pfx.ip.to4.isSome

/-- Source: addLocked. -/
def entry (v : VRP) : VrpEntry := ⟨v.maxLength, v.asn⟩

end VRP

namespace ROACache

/-- Source: newROACache. -/
def new : ROACache := ⟨fun _ => [], fun _ => [], 0⟩

def table (c : ROACache) (isV4 : Bool) : Table := if isV4 then c.ipv4 else c.ipv6

/-- The cache with the entries under a key of one table replaced. -/
def setEntries (c : ROACache) (isV4 : Bool) (key : NetText) (entries : List VrpEntry) : ROACache :=
  if isV4 then { c with ipv4 := Function.update c.ipv4 key entries }
  else { c with ipv6 := Function.update c.ipv6 key entries }

/-- Source: addLocked; Add does the same under the lock. -/
def addLocked (c : ROACache) (vrp : VRP) : ROACache :=
  let key := vrp.pfx.string
  let entries := c.table vrp.isV4 key
  if entries.any fun e => e.asn == vrp.entry.asn && e.maxLength == vrp.entry.maxLength then c
  else if maxVRPs ≤ c.total then c
  else { c.setEntries vrp.isV4 key (entries ++ [vrp.entry]) with total := c.total + 1 }

def removeEntry (entries : List VrpEntry) (target : VrpEntry) : List VrpEntry :=
  entries.eraseP fun e => e.asn == target.asn && e.maxLength == target.maxLength

/-- Source: removeLocked; Remove does the same under the lock. -/
def removeLocked (c : ROACache) (vrp : VRP) : ROACache :=
  let key := vrp.pfx.string
  let entries := c.table vrp.isV4 key
  let entries' := removeEntry entries vrp.entry
  { c.setEntries vrp.isV4 key entries' with
    total := c.total - ((entries.length : ℤ) - entries'.length) }

def applyDelta (c : ROACache) (dels adds : List VRP) : ROACache :=
  adds.foldl addLocked (dels.foldl removeLocked c)

def replace (_c : ROACache) (vrps : List VRP) : ROACache :=
  vrps.foldl addLocked new

/-- The entries of the networks that cover the given one, from the most specific to `/0`. -/
def findCovering (c : ROACache) (ipnet : IPNet) : List VrpEntry :=
  let table := c.table (decide (ipnet.ip.bitLen = 32))
  (range (ipnet.ones + 1)).reverse.flatMap fun pl =>
    table (⟨ipnet.ip.mask pl, pl⟩ : IPNet).string

/-- Validates a route, given what `net.ParseCIDR` makes of its text. Source: validate.go. -/
def validate (c : ROACache) (parsed : Option IPNet) (originAS : UInt32) : Validation :=
  match parsed with
  | none => .invalid
  | some ipnet =>
    let covering := c.findCovering ipnet
    if covering = [] then .notFound
    else if originAS = originNone then .invalid
    else if covering.any fun e => decide (ofNat ipnet.ones ≤ e.maxLength) &&
        e.asn == originAS && e.asn != 0 then .valid
    else .invalid

end ROACache

/-! ## Runs -/

/-- The operations that change the cache. Source: roa_cache.go. -/
inductive Op
  | add (vrp : VRP)
  | remove (vrp : VRP)
  | applyDelta (dels adds : List VRP)
  | replace (vrps : List VRP)

namespace Op

def vrps : Op → List VRP
  | add vrp => [vrp]
  | remove vrp => [vrp]
  | applyDelta dels adds => dels ++ adds
  | replace vrps => vrps

def apply (s : Finset VRP) : Op → Finset VRP
  | add vrp => insert vrp s
  | remove vrp => s.erase vrp
  | applyDelta dels adds => adds.foldl (fun s v => insert v s) (dels.foldl (fun s v => s.erase v) s)
  | replace vrps => vrps.foldl (fun s v => insert v s) ∅

/-- The set of payloads that a run of operations builds. -/
def built (ops : List Op) : Finset VRP := ops.foldl apply ∅

end Op

namespace ROACache

/-- One operation on the cache. Source: roa_cache.go. -/
def step (c : ROACache) : Op → ROACache
  | .add vrp => c.addLocked vrp
  | .remove vrp => c.removeLocked vrp
  | .applyDelta dels adds => c.applyDelta dels adds
  | .replace vrps => c.replace vrps

/-- The cache is below its limit each time one of the payloads is added. -/
def RoomFor : ROACache → List VRP → Prop
  | _, [] => True
  | c, v :: vs => c.total < maxVRPs ∧ RoomFor (c.addLocked v) vs

/-- The cache is below its limit each time the operation adds a payload. -/
def Room (c : ROACache) : Op → Prop
  | .add vrp => c.RoomFor [vrp]
  | .remove _ => True
  | .applyDelta dels adds => RoomFor (dels.foldl removeLocked c) adds
  | .replace vrps => RoomFor new vrps

/-- A run of operations keeps below the limit of the cache. -/
def RunRoom : ROACache → List Op → Prop
  | _, [] => True
  | c, o :: os => c.Room o ∧ RunRoom (c.step o) os

instance decidableRoomFor : (c : ROACache) → (vs : List VRP) → Decidable (c.RoomFor vs)
  | _, [] => isTrue trivial
  | c, v :: vs =>
    have := decidableRoomFor (c.addLocked v) vs
    inferInstanceAs (Decidable (_ ∧ _))

instance (c : ROACache) : (o : Op) → Decidable (c.Room o)
  | .add vrp => inferInstanceAs (Decidable (c.RoomFor [vrp]))
  | .remove _ => isTrue trivial
  | .applyDelta dels adds => inferInstanceAs (Decidable (RoomFor (dels.foldl removeLocked c) adds))
  | .replace vrps => inferInstanceAs (Decidable (RoomFor new vrps))

instance decidableRunRoom : (c : ROACache) → (os : List Op) → Decidable (c.RunRoom os)
  | _, [] => isTrue trivial
  | c, o :: os =>
    have := decidableRunRoom (c.step o) os
    inferInstanceAs (Decidable (_ ∧ _))

end ROACache

/-! ## What the cache holds -/

namespace VRP

variable {u v : VRP}

/-- The payload that the cache takes `v` for: the one whose network the text of `v` names.
Source: addLocked, its key -/
def filed (v : VRP) : VRP := ⟨⟨v.pfx.string.addr, v.pfx.string.len⟩, v.maxLength, v.asn⟩

lemma filed_of_not_mapped (h : v.pfx.ip.mapped = false) : v.filed = v := by
  obtain ⟨⟨ip, n⟩, max, asn⟩ := v
  cases ip with
  | four bits => rfl
  | sixteen bits => simp only [filed, IPNet.string_sixteen h]

lemma isV4_eq (v : VRP) : v.isV4 = decide (v.filed.pfx.ip.bitLen = 32) := by
  obtain ⟨⟨ip, n⟩, max, asn⟩ := v
  cases ip with
  | four bits => rfl
  | sixteen bits =>
    cases h : (IP.sixteen bits).mapped with
    | true => simp [isV4, IP.isSome_to4, h, filed, IPNet.string_mapped h, IP.bitLen]
    | false => simp [isV4, IP.isSome_to4, h, filed, IPNet.string_sixteen h, IP.bitLen]

/-- Key and entry determine a well-formed payload. -/
lemma eq_of_filed (hu : u.WellFormed) (hv : v.WellFormed) (hkey : u.pfx.string = v.pfx.string)
    (hentry : u.entry = v.entry) : u = v := by
  have hmax : u.maxLength = v.maxLength := congrArg VrpEntry.maxLength hentry
  have hasn : u.asn = v.asn := congrArg VrpEntry.asn hentry
  have hlen : u.pfx.ip.bitLen = v.pfx.ip.bitLen := by
    -- a mapped payload has a maximum length that no IPv4 payload has
    have hmapped : ∀ w : VRP, w.WellFormed → w.pfx.ip.mapped → 96 ≤ w.maxLength.toNat :=
      fun w hw h => (hw.masked.ones_le h).trans hw.le_max
    have hfour := congrArg (fun x : NetText => x.addr.bitLen) hkey
    obtain ⟨⟨ip, n⟩, max, asn⟩ := u
    obtain ⟨⟨ip', n'⟩, max', asn'⟩ := v
    have hu' := hu.max_le
    have hv' := hv.max_le
    simp only at hmax hu' hv' hfour
    subst hmax
    cases ip with
    | four b =>
      cases ip' with
      | four b' => rfl
      | sixteen b' =>
        cases h : (IP.sixteen b').mapped with
        | true =>
          have := hmapped _ hv h
          simp only [IP.bitLen] at this hu'
          omega
        | false =>
          rw [IPNet.string_four, IPNet.string_sixteen h] at hfour
          cases hfour
    | sixteen b =>
      cases ip' with
      | sixteen b' => rfl
      | four b' =>
        cases h : (IP.sixteen b).mapped with
        | true =>
          have := hmapped _ hu h
          simp only [IP.bitLen] at this hv'
          omega
        | false =>
          rw [IPNet.string_four, IPNet.string_sixteen h] at hfour
          cases hfour
  have hpfx := IPNet.eq_of_string_eq hu.masked hv.masked hlen hkey
  obtain ⟨pfx, max, asn⟩ := u
  simp only at hpfx hmax hasn
  rw [hpfx, hmax, hasn]

end VRP

namespace ROACache

variable {c : ROACache} {s : Finset VRP} {v : VRP}

lemma table_setEntries (c : ROACache) (b b' : Bool) (k k' : NetText) (es : List VrpEntry) :
    (c.setEntries b k es).table b' k' = if b' = b ∧ k' = k then es else c.table b' k' := by
  cases b <;> cases b' <;> by_cases hk : k' = k <;> simp [setEntries, table, hk]

/-- The cache holds exactly the payloads of `s`, each once, under its text. -/
structure Holds (c : ROACache) (s : Finset VRP) : Prop where
  wellFormed : ∀ v ∈ s, v.WellFormed
  filed : ∀ v ∈ s, v.entry ∈ c.table v.isV4 v.pfx.string
  only : ∀ b k e, e ∈ c.table b k → ∃ v ∈ s, v.isV4 = b ∧ v.pfx.string = k ∧ v.entry = e
  nodup : ∀ b k, (c.table b k).Nodup

lemma Holds.mem_iff (h : c.Holds s) (hv : v.WellFormed) :
    v.entry ∈ c.table v.isV4 v.pfx.string ↔ v ∈ s := by
  constructor
  · intro hmem
    obtain ⟨u, hu, -, hkey, hentry⟩ := h.only _ _ _ hmem
    rwa [← VRP.eq_of_filed (h.wellFormed u hu) hv hkey hentry]
  · exact h.filed v

lemma same_entry_iff (e f : VrpEntry) : (e.asn == f.asn && e.maxLength == f.maxLength) ↔ e = f := by
  rw [Bool.and_eq_true, beq_iff_eq, beq_iff_eq, VrpEntry.mk.injEq]
  exact and_comm

lemma removeEntry_eq (es : List VrpEntry) (e : VrpEntry) : removeEntry es e = es.erase e := by
  rw [removeEntry, erase_eq_eraseP']
  congr 1
  funext f
  rw [Bool.eq_iff_iff, same_entry_iff, beq_iff_eq]

lemma Holds.any_same_iff (h : c.Holds s) (hv : v.WellFormed) :
    ((c.table v.isV4 v.pfx.string).any fun e =>
      e.asn == v.entry.asn && e.maxLength == v.entry.maxLength) ↔ v ∈ s := by
  rw [← h.mem_iff hv, any_eq_true]
  constructor
  · rintro ⟨e, he, heq⟩
    rwa [← (same_entry_iff e v.entry).1 heq]
  · exact fun he => ⟨v.entry, he, (same_entry_iff _ _).2 rfl⟩

lemma Holds.addLocked (h : c.Holds s) (hv : v.WellFormed) (hroom : c.total < maxVRPs) :
    (c.addLocked v).Holds (insert v s) := by
  have hdup := h.any_same_iff hv
  rw [ROACache.addLocked]
  split_ifs with hmem hfull
  · rw [Finset.insert_eq_of_mem (hdup.1 hmem)]
    exact h
  · omega
  · have hnew : v.entry ∉ c.table v.isV4 v.pfx.string := by
      rw [h.mem_iff hv, ← hdup]
      exact hmem
    have htable : ∀ b k, ({ c.setEntries v.isV4 v.pfx.string
        (c.table v.isV4 v.pfx.string ++ [v.entry]) with total :=
          c.total + 1 } : ROACache).table b k =
        if b = v.isV4 ∧ k = v.pfx.string then c.table v.isV4 v.pfx.string ++ [v.entry]
        else c.table b k := fun b k => table_setEntries c _ b _ k _
    refine ⟨?_, ?_, ?_, ?_⟩
    · intro u hu
      rcases mem_insert.1 hu with rfl | hu
      · exact hv
      · exact h.wellFormed u hu
    · intro u hu
      rw [htable]
      split_ifs with heq
      · rcases mem_insert.1 hu with rfl | hu
        · exact mem_append_right _ (mem_singleton.2 rfl)
        · have := h.filed u hu
          rw [heq.1, heq.2] at this
          exact mem_append_left _ this
      · rcases mem_insert.1 hu with rfl | hu
        · exact absurd ⟨rfl, rfl⟩ heq
        · exact h.filed u hu
    · intro b k e he
      rw [htable] at he
      split_ifs at he with heq
      · rcases mem_append.1 he with he | he
        · obtain ⟨u, hu, hrest⟩ := h.only _ _ _ he
          exact ⟨u, Finset.mem_insert_of_mem hu, by rw [heq.1, heq.2]; exact hrest⟩
        · rw [mem_singleton] at he
          exact ⟨v, Finset.mem_insert_self v s, heq.1.symm, heq.2.symm, he.symm⟩
      · obtain ⟨u, hu, hrest⟩ := h.only _ _ _ he
        exact ⟨u, Finset.mem_insert_of_mem hu, hrest⟩
    · intro b k
      rw [htable]
      split_ifs with heq
      · rw [nodup_append]
        refine ⟨h.nodup _ _, nodup_singleton _, ?_⟩
        intro e he f hf hef
        rw [mem_singleton] at hf
        exact hnew (hf ▸ hef ▸ he)
      · exact h.nodup b k

lemma Holds.removeLocked (h : c.Holds s) (hv : v.WellFormed) :
    (c.removeLocked v).Holds (s.erase v) := by
  have htable : ∀ b k, (c.removeLocked v).table b k = if b = v.isV4 ∧ k = v.pfx.string then
      (c.table v.isV4 v.pfx.string).erase v.entry else c.table b k := by
    intro b k
    rw [← removeEntry_eq]
    exact table_setEntries c _ b _ k _
  refine ⟨fun u hu => h.wellFormed u (Finset.mem_of_mem_erase hu), ?_, ?_, ?_⟩
  · intro u hu
    obtain ⟨hne, hu⟩ := mem_erase.1 hu
    rw [htable]
    split_ifs with heq
    · have hin := h.filed u hu
      rw [heq.1, heq.2] at hin
      refine (List.Nodup.mem_erase_iff (h.nodup _ _)).2 ⟨fun hentry => hne ?_, hin⟩
      exact VRP.eq_of_filed (h.wellFormed u hu) hv heq.2 hentry
    · exact h.filed u hu
  · intro b k e he
    rw [htable] at he
    split_ifs at he with heq
    · obtain ⟨hne, he⟩ := (List.Nodup.mem_erase_iff (h.nodup _ _)).1 he
      obtain ⟨u, hu, hb, hk, hentry⟩ := h.only _ _ _ he
      refine ⟨u, mem_erase.2 ⟨?_, hu⟩, hb.trans heq.1.symm, hk.trans heq.2.symm, hentry⟩
      rintro rfl
      exact hne hentry.symm
    · obtain ⟨u, hu, hb, hk, hentry⟩ := h.only _ _ _ he
      refine ⟨u, mem_erase.2 ⟨?_, hu⟩, hb, hk, hentry⟩
      rintro rfl
      exact heq ⟨hb.symm, hk.symm⟩
  · intro b k
    rw [htable]
    split_ifs
    · exact (h.nodup _ _).erase _
    · exact h.nodup b k

lemma Holds.addAll : (vs : List VRP) → ∀ {c : ROACache} {s : Finset VRP}, c.Holds s →
    (∀ v ∈ vs, v.WellFormed) → c.RoomFor vs →
    (vs.foldl ROACache.addLocked c).Holds (vs.foldl (fun s v => insert v s) s)
  | [], _, _, h, _, _ => h
  | v :: vs, c, s, h, hwf, hroom => by
      rw [foldl_cons, foldl_cons]
      exact Holds.addAll vs (h.addLocked (hwf v mem_cons_self) hroom.1)
        (fun u hu => hwf u (mem_cons_of_mem _ hu)) hroom.2

lemma Holds.removeAll (h : c.Holds s) (vs : List VRP) (hwf : ∀ v ∈ vs, v.WellFormed) :
    (vs.foldl ROACache.removeLocked c).Holds (vs.foldl (fun s v => s.erase v) s) :=
  foldl_rel h fun v hv _ _ h => h.removeLocked (hwf v hv)

lemma holds_new : new.Holds ∅ where
  wellFormed := fun v hv => absurd hv (notMem_empty v)
  filed := fun v hv => absurd hv (notMem_empty v)
  only := fun b k e he => by cases b <;> cases he
  nodup := fun b k => by cases b <;> exact nodup_nil

lemma Holds.step (h : c.Holds s) (o : Op) (hwf : ∀ v ∈ o.vrps, v.WellFormed) (hroom : c.Room o) :
    (c.step o).Holds (o.apply s) := by
  cases o with
  | add vrp => exact h.addLocked (hwf vrp mem_cons_self) hroom.1
  | remove vrp => exact h.removeLocked (hwf vrp mem_cons_self)
  | applyDelta dels adds =>
    have hdels := h.removeAll dels fun v hv => hwf v (mem_append_left _ hv)
    exact hdels.addAll adds (fun v hv => hwf v (mem_append_right _ hv)) hroom
  | replace vrps => exact holds_new.addAll vrps hwf hroom

lemma Holds.run : (ops : List Op) → ∀ {c : ROACache} {s : Finset VRP}, c.Holds s →
    (∀ o ∈ ops, ∀ v ∈ o.vrps, v.WellFormed) → c.RunRoom ops →
    (ops.foldl ROACache.step c).Holds (ops.foldl Op.apply s)
  | [], _, _, h, _, _ => h
  | o :: os, c, s, h, hwf, hroom => by
      rw [foldl_cons, foldl_cons]
      exact Holds.run os (h.step o (hwf o mem_cons_self) hroom.1)
        (fun o' ho' => hwf o' (mem_cons_of_mem _ ho')) hroom.2

/-! ## How much the cache holds -/

/-- The cache holds the payloads of `s` and counts them, and they are no more than it may hold.
Source: the field total and the limit maxVRPs -/
structure Counts (c : ROACache) (s : Finset VRP) : Prop where
  holds : c.Holds s
  total : c.total = s.card
  limit : (s.card : ℤ) ≤ maxVRPs

lemma counts_new : new.Counts ∅ := ⟨holds_new, rfl, by decide⟩

lemma Counts.addLocked (h : c.Counts s) (hv : v.WellFormed) :
    (c.addLocked v).Counts (Changeset.addCapped maxVRPs.toNat s v) := by
  have hdup := h.holds.any_same_iff hv
  have htotal := h.total
  by_cases hmem : v ∈ s
  · have hsame : c.addLocked v = c := by rw [ROACache.addLocked, if_pos (hdup.2 hmem)]
    rw [hsame, Changeset.addCapped, if_pos hmem]
    exact h
  · by_cases hfull : maxVRPs ≤ c.total
    · have hsame : c.addLocked v = c := by
        rw [ROACache.addLocked, if_neg (mt hdup.1 hmem), if_pos hfull]
      rw [hsame, Changeset.addCapped, if_neg hmem, if_pos (by omega)]
      exact h
    · have hcard := Finset.card_insert_of_notMem hmem
      rw [Changeset.addCapped, if_neg hmem, if_neg (by omega)]
      refine ⟨h.holds.addLocked hv (by omega), ?_, by omega⟩
      rw [ROACache.addLocked, if_neg (mt hdup.1 hmem), if_neg hfull]
      show c.total + 1 = _
      omega

lemma Counts.removeLocked (h : c.Counts s) (hv : v.WellFormed) :
    (c.removeLocked v).Counts (s.erase v) := by
  have hle := Finset.card_le_card (Finset.erase_subset v s)
  have hlimit := h.limit
  refine ⟨h.holds.removeLocked hv, ?_, by omega⟩
  show c.total - (((c.table v.isV4 v.pfx.string).length : ℤ) -
    (removeEntry (c.table v.isV4 v.pfx.string) v.entry).length) = _
  rw [removeEntry_eq, h.total]
  by_cases hmem : v ∈ s
  · have hin := (h.holds.mem_iff hv).2 hmem
    have hlen := length_erase_of_mem hin
    have hpos := length_pos_of_mem hin
    have hcard := Finset.card_erase_add_one hmem
    omega
  · rw [erase_of_not_mem (mt (h.holds.mem_iff hv).1 hmem), Finset.erase_eq_of_notMem hmem]
    omega

lemma Counts.addAll (h : c.Counts s) (vs : List VRP) (hwf : ∀ v ∈ vs, v.WellFormed) :
    (vs.foldl ROACache.addLocked c).Counts (vs.foldl (Changeset.addCapped maxVRPs.toNat) s) :=
  foldl_rel h fun v hv _ _ h => h.addLocked (hwf v hv)

lemma Counts.removeAll (h : c.Counts s) (vs : List VRP) (hwf : ∀ v ∈ vs, v.WellFormed) :
    (vs.foldl ROACache.removeLocked c).Counts (vs.foldl (fun s v => s.erase v) s) :=
  foldl_rel h fun v hv _ _ h => h.removeLocked (hwf v hv)

lemma Holds.unique {s' : Finset VRP} (h : c.Holds s) (h' : c.Holds s') : s = s' := by
  ext v
  constructor
  · intro hv
    exact (h'.mem_iff (h.wellFormed v hv)).1 (h.filed v hv)
  · intro hv
    exact (h.mem_iff (h'.wellFormed v hv)).1 (h'.filed v hv)

/-! ## What the cache answers -/

variable {r : IPNet} {origin : UInt32}

lemma key_iff_covers (v : VRP) (r : IPNet) :
    (v.isV4 = decide (r.ip.bitLen = 32) ∧
      ∃ pl ≤ r.ones, v.pfx.string = (⟨r.ip.mask pl, pl⟩ : IPNet).string) ↔ v.filed.Covers r := by
  rw [VRP.isV4_eq]
  have hlen : v.filed.pfx.ip.bitLen = 32 ∨ v.filed.pfx.ip.bitLen = 128 := by
    cases v.filed.pfx.ip with
    | four _ => exact .inl rfl
    | sixteen _ => exact .inr rfl
  obtain ⟨ip, n⟩ := r
  unfold VRP.Covers
  cases ip with
  | four x =>
    constructor
    · rintro ⟨hfam, pl, hpl, hkey⟩
      rw [decide_eq_decide] at hfam
      simp only [VRP.filed, hkey]
      exact ⟨rfl, hpl, rfl⟩
    · rintro ⟨hfam, hpl, hmask⟩
      have htext : v.pfx.string = ⟨v.filed.pfx.ip, v.filed.pfx.ones⟩ := rfl
      refine ⟨by rw [hfam], _, hpl, ?_⟩
      rw [htext, ← hmask]
      rfl
  | sixteen x =>
    constructor
    · rintro ⟨hfam, pl, hpl, hkey⟩
      have hsix : v.filed.pfx.ip.bitLen = 128 := by
        refine hlen.resolve_left fun h => ?_
        rw [h] at hfam
        cases hfam
      -- a mapped network is looked up under an IPv4 text, which no IPv6 payload has
      have hnot : (IP.mask pl (.sixteen x)).mapped = false := by
        by_contra h
        rw [Bool.not_eq_false] at h
        simp only [IP.mask] at h hkey
        rw [IPNet.string_mapped h] at hkey
        simp only [VRP.filed, hkey] at hsix
        cases hsix
      simp only [IP.mask] at hnot hkey ⊢
      rw [IPNet.string_sixteen hnot] at hkey
      simp only [VRP.filed, hkey]
      exact ⟨rfl, hpl, trivial⟩
    · rintro ⟨hfam, hpl, hmask⟩
      refine ⟨by rw [hfam], v.filed.pfx.ones, hpl, ?_⟩
      have hnot : v.pfx.ip.mapped = false := by
        by_contra h
        rw [Bool.not_eq_false] at h
        obtain ⟨⟨ip, k⟩, max, asn⟩ := v
        cases ip with
        | four b => cases h
        | sixteen b =>
          simp only [VRP.filed, IPNet.string_mapped h] at hfam
          cases hfam
      have hself := VRP.filed_of_not_mapped hnot
      rw [hself] at hmask ⊢
      simp only at hmask
      rw [hmask]

/-- The entries that a route is validated over are those of the payloads whose filed network covers
it. -/
lemma Holds.mem_findCovering (h : c.Holds s) (r : IPNet) (e : VrpEntry) :
    e ∈ c.findCovering r ↔ ∃ v ∈ s, v.filed.Covers r ∧ v.entry = e := by
  rw [findCovering, mem_flatMap]
  constructor
  · rintro ⟨pl, hpl, he⟩
    rw [mem_reverse, mem_range, Nat.lt_succ_iff] at hpl
    obtain ⟨v, hv, hfam, hkey, hentry⟩ := h.only _ _ _ he
    exact ⟨v, hv, (key_iff_covers v r).1 ⟨hfam, pl, hpl, hkey⟩, hentry⟩
  · rintro ⟨v, hv, hcovers, rfl⟩
    obtain ⟨hfam, pl, hpl, hkey⟩ := (key_iff_covers v r).2 hcovers
    refine ⟨pl, ?_, ?_⟩
    · rw [mem_reverse, mem_range, Nat.lt_succ_iff]
      exact hpl
    · rw [← hfam, ← hkey]
      exact h.filed v hv

lemma authorizes_iff (hr : r.ones ≤ 128) (horigin : origin ≠ originNone) (v : VRP) :
    (decide (ofNat r.ones ≤ v.entry.maxLength) && v.entry.asn == origin &&
      v.entry.asn != 0) ↔ v.filed.Authorizes r origin := by
  have hle : ofNat r.ones ≤ v.maxLength ↔ r.ones ≤ v.maxLength.toNat := by
    rw [UInt8.le_iff_toNat_le, UInt8.toNat_ofNat_of_lt' (by rw [size]; omega)]
  simp only [VRP.entry, VRP.Authorizes, VRP.filed, Bool.and_eq_true, decide_eq_true_eq, beq_iff_eq,
    bne_iff_ne, hle]
  constructor
  · rintro ⟨⟨hlen, rfl⟩, hzero⟩
    exact ⟨hlen, rfl, hzero, horigin⟩
  · rintro ⟨hlen, rfl, hzero, -⟩
    exact ⟨⟨hlen, rfl⟩, hzero⟩

lemma Holds.validate_eq (h : c.Holds s) (hr : r.ones ≤ 128) :
    c.validate (some r) origin = rfc6811 (s.image VRP.filed) r origin := by
  have hcov : (¬ ∃ v ∈ s.image VRP.filed, v.Covers r) ↔ c.findCovering r = [] := by
    rw [eq_nil_iff_forall_not_mem]
    constructor
    · intro hnone e he
      obtain ⟨v, hv, hcovers, -⟩ := (h.mem_findCovering r e).1 he
      exact hnone ⟨v.filed, mem_image_of_mem _ hv, hcovers⟩
    · rintro hnil ⟨u, hu, hcovers⟩
      obtain ⟨v, hv, rfl⟩ := mem_image.1 hu
      exact hnil v.entry ((h.mem_findCovering r _).2 ⟨v, hv, hcovers, rfl⟩)
  have hauth : (∃ v ∈ s.image VRP.filed, v.Covers r ∧ v.Authorizes r origin) ↔
      origin ≠ originNone ∧ ((c.findCovering r).any fun e =>
        decide (ofNat r.ones ≤ e.maxLength) && e.asn == origin && e.asn != 0) := by
    rw [any_eq_true]
    constructor
    · rintro ⟨u, hu, hcovers, hauth⟩
      obtain ⟨v, hv, rfl⟩ := mem_image.1 hu
      exact ⟨hauth.2.2.2, v.entry, (h.mem_findCovering r _).2 ⟨v, hv, hcovers, rfl⟩,
        (authorizes_iff hr hauth.2.2.2 v).2 hauth⟩
    · rintro ⟨horigin, e, he, htest⟩
      obtain ⟨v, hv, hcovers, rfl⟩ := (h.mem_findCovering r e).1 he
      exact ⟨v.filed, mem_image_of_mem _ hv, hcovers, (authorizes_iff hr horigin v).1 htest⟩
  rw [rfc6811]
  simp only [validate, hcov, hauth]
  split_ifs <;> simp_all

/-- No misfiled payload decides the state of the route: whenever one covers the route, or is filed
under a network that does, a payload that is not mapped covers it too, and likewise for payloads
that authorize the origin. -/
def Undisturbed (s : Finset VRP) (r : IPNet) (origin : UInt32) : Prop :=
  ∀ v ∈ s, v.pfx.ip.mapped = true → (v.Covers r ∨ v.filed.Covers r) →
    (∃ u ∈ s, u.pfx.ip.mapped = false ∧ u.Covers r) ∧
    (v.Authorizes r origin →
      ∃ u ∈ s, u.pfx.ip.mapped = false ∧ u.Covers r ∧ u.Authorizes r origin)

instance (s : Finset VRP) (r : IPNet) (origin : UInt32) : Decidable (Undisturbed s r origin) :=
  inferInstanceAs (Decidable (∀ v ∈ s, _ → _ → _ ∧ (_ → _)))

lemma rfc6811_eq_iff (a b : Finset VRP) (r : IPNet) (origin : UInt32) :
    rfc6811 a r origin = rfc6811 b r origin ↔
      ((∃ v ∈ a, v.Covers r) ↔ ∃ v ∈ b, v.Covers r) ∧
      ((∃ v ∈ a, v.Covers r ∧ v.Authorizes r origin) ↔
        ∃ v ∈ b, v.Covers r ∧ v.Authorizes r origin) := by
  have hsub : ∀ x : Finset VRP, (∃ v ∈ x, v.Covers r ∧ v.Authorizes r origin) →
      ∃ v ∈ x, v.Covers r := fun x ⟨v, hv, hc, _⟩ => ⟨v, hv, hc⟩
  have ha := hsub a
  have hb := hsub b
  unfold rfc6811
  by_cases h₁ : ∃ v ∈ a, v.Covers r <;> by_cases h₂ : ∃ v ∈ b, v.Covers r <;>
    by_cases h₃ : ∃ v ∈ a, v.Covers r ∧ v.Authorizes r origin <;>
    by_cases h₄ : ∃ v ∈ b, v.Covers r ∧ v.Authorizes r origin <;>
    simp [h₁, h₂, h₃, h₄] at ha hb ⊢

lemma not_covers_of_ne {v : VRP} (h : v.pfx.ip.bitLen ≠ r.ip.bitLen) : ¬ v.Covers r :=
  fun hc => h hc.1

lemma bitLen_of_mapped (h : v.pfx.ip.mapped) :
    v.pfx.ip.bitLen = 128 ∧ v.filed.pfx.ip.bitLen = 32 := by
  obtain ⟨⟨ip, n⟩, max, asn⟩ := v
  cases ip with
  | four b => cases h
  | sixteen b =>
    simp only [VRP.filed, IPNet.string_mapped h]
    exact ⟨rfl, rfl⟩

lemma exists_filed_iff (s : Finset VRP) (p : VRP → Prop) :
    (∃ v ∈ s.image VRP.filed, p v) ↔ (∃ u ∈ s, u.pfx.ip.mapped = false ∧ p u) ∨
      ∃ v ∈ s, v.pfx.ip.mapped ∧ p v.filed := by
  constructor
  · rintro ⟨w, hw, hp⟩
    obtain ⟨v, hv, rfl⟩ := mem_image.1 hw
    cases hm : v.pfx.ip.mapped with
    | false => exact .inl ⟨v, hv, hm, VRP.filed_of_not_mapped hm ▸ hp⟩
    | true => exact .inr ⟨v, hv, hm, hp⟩
  · rintro (⟨v, hv, hm, hp⟩ | ⟨v, hv, -, hp⟩)
    · exact ⟨v.filed, mem_image_of_mem _ hv, (VRP.filed_of_not_mapped hm).symm ▸ hp⟩
    · exact ⟨v.filed, mem_image_of_mem _ hv, hp⟩

lemma exists_iff (s : Finset VRP) (p : VRP → Prop) :
    (∃ v ∈ s, p v) ↔ (∃ u ∈ s, u.pfx.ip.mapped = false ∧ p u) ∨
      ∃ v ∈ s, v.pfx.ip.mapped ∧ p v := by
  constructor
  · rintro ⟨v, hv, hp⟩
    cases hm : v.pfx.ip.mapped with
    | false => exact .inl ⟨v, hv, hm, hp⟩
    | true => exact .inr ⟨v, hv, hm, hp⟩
  · rintro (⟨v, hv, -, hp⟩ | ⟨v, hv, -, hp⟩) <;> exact ⟨v, hv, hp⟩

/-- Filing the payloads changes the state of a route exactly when a misfiled one decides it. -/
lemma rfc6811_filed_iff (s : Finset VRP) (r : IPNet) (origin : UInt32) :
    rfc6811 (s.image VRP.filed) r origin = rfc6811 s r origin ↔ Undisturbed s r origin := by
  rw [rfc6811_eq_iff, exists_filed_iff, exists_filed_iff, exists_iff s (fun v => v.Covers r),
    exists_iff s (fun v => v.Covers r ∧ v.Authorizes r origin)]
  have hsame : ∀ v : VRP, v.filed.Authorizes r origin ↔ v.Authorizes r origin := fun _ => Iff.rfl
  by_cases hfam : r.ip.bitLen = 32
  · -- an IPv4 route: mapped payloads do not cover it, but the networks they are filed under may
    have hnone : ∀ v : VRP, v.pfx.ip.mapped → ¬ v.Covers r := fun v hm =>
      not_covers_of_ne (by rw [(bitLen_of_mapped hm).1, hfam]; decide)
    constructor
    · rintro ⟨hcov, hauth⟩ v hv hm hc
      have hfc := hc.resolve_left (hnone v hm)
      refine ⟨?_, fun ha => ?_⟩
      · rcases hcov.1 (.inr ⟨v, hv, hm, hfc⟩) with h | ⟨u, -, hm', hc'⟩
        · exact h
        · exact absurd hc' (hnone u hm')
      · rcases hauth.1 (.inr ⟨v, hv, hm, hfc, (hsame v).2 ha⟩) with h | ⟨u, -, hm', hc', -⟩
        · exact h
        · exact absurd hc' (hnone u hm')
    · intro hund
      refine ⟨⟨?_, ?_⟩, ⟨?_, ?_⟩⟩
      · rintro (h | ⟨v, hv, hm, hc⟩)
        · exact .inl h
        · exact .inl (hund v hv hm (.inr hc)).1
      · rintro (h | ⟨v, -, hm, hc⟩)
        · exact .inl h
        · exact absurd hc (hnone v hm)
      · rintro (h | ⟨v, hv, hm, hc, ha⟩)
        · exact .inl h
        · exact .inl ((hund v hv hm (.inr hc)).2 ((hsame v).1 ha))
      · rintro (h | ⟨v, -, hm, hc, -⟩)
        · exact .inl h
        · exact absurd hc (hnone v hm)
  · -- an IPv6 route: mapped payloads may cover it, but the networks they are filed under do not
    have hnone : ∀ v : VRP, v.pfx.ip.mapped → ¬ v.filed.Covers r := fun v hm =>
      not_covers_of_ne (by rw [(bitLen_of_mapped hm).2]; exact Ne.symm hfam)
    constructor
    · rintro ⟨hcov, hauth⟩ v hv hm hc
      have hvc := hc.resolve_right (hnone v hm)
      refine ⟨?_, fun ha => ?_⟩
      · rcases hcov.2 (.inr ⟨v, hv, hm, hvc⟩) with h | ⟨u, -, hm', hc'⟩
        · exact h
        · exact absurd hc' (hnone u hm')
      · rcases hauth.2 (.inr ⟨v, hv, hm, hvc, ha⟩) with h | ⟨u, -, hm', hc', -⟩
        · exact h
        · exact absurd hc' (hnone u hm')
    · intro hund
      refine ⟨⟨?_, ?_⟩, ⟨?_, ?_⟩⟩
      · rintro (h | ⟨v, -, hm, hc⟩)
        · exact .inl h
        · exact absurd hc (hnone v hm)
      · rintro (h | ⟨v, hv, hm, hc⟩)
        · exact .inl h
        · exact .inl (hund v hv hm (.inl hc)).1
      · rintro (h | ⟨v, -, hm, hc, -⟩)
        · exact .inl h
        · exact absurd hc (hnone v hm)
      · rintro (h | ⟨v, hv, hm, hc, ha⟩)
        · exact .inl h
        · exact .inl ((hund v hv hm (.inl hc)).2 ha)

/-- **The cache validates as RFC 6811 does, where no misfiled payload decides.** After every run of
operations on parsed payloads that keeps below the limit, and for every route of either family and
every origin, the answer is that of RFC 6811 over the payloads of the route's own family if and only
if the route is undisturbed. -/
theorem validate_eq_rfc6811_iff (ops : List Op) (hparsed : ∀ o ∈ ops, ∀ v ∈ o.vrps, Parsed v)
    (hroom : new.RunRoom ops) (ip : IP) (n : ℕ) (hroute : IPNet.parseCIDR ip n = some r)
    (origin : UInt32) :
    (ops.foldl step new).validate (IPNet.parseCIDR ip n) origin =
        rfc6811 (Op.built ops) r origin ↔
      Undisturbed (Op.built ops) r origin := by
  have hones : r.ones ≤ 128 := by
    rw [IPNet.parseCIDR] at hroute
    split_ifs at hroute with hn
    cases hroute
    cases ip with
    | four _ => exact le_trans hn (show 32 ≤ 128 by decide)
    | sixteen _ => exact hn
  have hholds := holds_new.run ops (fun o ho v hv => (hparsed o ho v hv).wellFormed) hroom
  rw [hroute, hholds.validate_eq hones]
  exact rfc6811_filed_iff _ r origin

/-- The Prefix PDU of `10.0.0.0/8` up to `/16`, origin 64496. -/
def pduIPv4 : List UInt8 := [1, 4, 0, 0, 0, 0, 0, 20, 1, 8, 16, 0, 10, 0, 0, 0, 0, 0, 251, 240]

/-- The Prefix PDU of `::ffff:0:0/96` up to `/96`, origin 64496. -/
def pduMapped : List UInt8 :=
  [1, 6, 0, 0, 0, 0, 0, 32, 1, 96, 96, 0, 0, 0, 0, 0, 0, 0, 0, 0, 0, 0, 255, 255, 0, 0, 0, 0,
    0, 0, 251, 240]

/-- A run with both payloads, of which the mapped one is removed again, and a route that it does not
disturb. -/
theorem validate_eq_rfc6811_iff_removed :
    ∃ a b r, parseIPv4Prefix pduIPv4 = .ok (a, true) ∧ parseIPv6Prefix pduMapped = .ok (b, true) ∧
      IPNet.parseCIDR (.four 0x0A010000#32) 16 = some r ∧
      (([.add a, .applyDelta [] [b], .remove b] : List Op).foldl step new).validate
          (IPNet.parseCIDR (.four 0x0A010000#32) 16) 64496 =
        rfc6811 (Op.built [.add a, .applyDelta [] [b], .remove b]) r 64496 := by
  refine ⟨_, _, _, rfl, rfl, rfl, ?_⟩
  refine (validate_eq_rfc6811_iff _ ?_ (by decide +kernel) _ _ rfl _).2 (by decide +kernel)
  intro o ho v hv
  have hboth : v = ⟨⟨.four 0x0A000000#32, 8⟩, 16, 64496⟩ ∨
      v = ⟨⟨.sixteen 0xFFFF00000000#128, 96⟩, 96, 64496⟩ := by
    simp only [mem_cons, not_mem_nil, or_false] at ho
    rcases ho with rfl | rfl | rfl <;> simp only [Op.vrps, nil_append, mem_singleton] at hv
    · exact .inl (by rw [hv]; decide +kernel)
    · exact .inr (by rw [hv]; decide +kernel)
    · exact .inr (by rw [hv]; decide +kernel)
  rcases hboth with rfl | rfl
  · exact ⟨pduIPv4, true, .inl (by decide +kernel)⟩
  · exact ⟨pduMapped, true, .inr (by decide +kernel)⟩

/-- A cache with the one payload `::ffff:0:0/96`: every IPv4 route of its origin is valid although
no IPv4 payload exists, and the payload's own network is not found. -/
theorem validate_mapped_misfiled :
    ∃ v r r', parseIPv6Prefix pduMapped = .ok (v, true) ∧
      IPNet.parseCIDR (.four 0xC0000200#32) 24 = some r ∧
      IPNet.parseCIDR (.sixteen 0xFFFF00000000#128) 96 = some r' ∧
      new.RunRoom [.add v] ∧
      (([.add v] : List Op).foldl step new).validate (some r) 64496 = .valid ∧
      rfc6811 (Op.built [.add v]) r 64496 = .notFound ∧
      (([.add v] : List Op).foldl step new).validate (some r') 64496 = .notFound ∧
      rfc6811 (Op.built [.add v]) r' 64496 = .valid := by
  refine ⟨_, _, _, rfl, rfl, rfl, by decide +kernel, by decide +kernel, by decide +kernel,
    by decide +kernel, by decide +kernel⟩

end ROACache

end Ze.Rpki
