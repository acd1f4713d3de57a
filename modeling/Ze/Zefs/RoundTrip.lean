import Ze.Zefs.Decode
import Mathlib.Algebra.Order.BigOperators.Group.List

/-!
# Encoding and decoding a store

Every store that accepted operations reach is sound (`sound_of_run`), and a sound store is read back
exactly when the decoder has room for it (`roundTrips_iff_fits`): `roundTrips_iff_of_run`.
-/

namespace Ze.Zefs

open Ze.Lib List
open RawEntry (octets)
open Option (any_eq_true bind_some map_none map_some none_or some.inj)

/-! ## Sound stores -/

/-- Every file has a valid name that stands in the key list, and a slot that holds its name and its
data. Source: store.go BlobStore. -/
def Decoded.Sound (d : Decoded) : Prop :=
  ∀ n data, d.root.get n = some data →
    n ∈ d.keys ∧ (validPath n = true ∧ n ≠ dot) ∧
      n.length ≤ (d.slots n).name.capacity ∧ data.length ≤ (d.slots n).data.capacity

lemma sound_of_decodeInto {file : List Octet} {d : Decoded} (h : decodeInto file = .ok d) :
    d.Sound := by
  obtain ⟨magicRaw, _, _, cap, _, es, _, -, -, -, -, hall⟩ := exists_of_decodeInto h
  intro n data hget
  rw [get_of_addAll hall n] at hget
  rcases hlast : lastOf n 0 es with _ | p <;> rw [hlast] at hget
  · rw [map_none, none_or] at hget
    exact absurd (hget.symm.trans (Dir.get_nil n)) (by simp)
  · obtain rfl : p.2.data = data := some.inj hget
    obtain ⟨hmem, rfl⟩ := mem_of_lastOf hlast
    rw [keys_of_addAll hall, slots_of_addAll hall, hlast]
    refine ⟨mem_append_right _ (mem_map_of_mem hmem), valid_of_addAll hall _ hmem, ?_, ?_⟩
    · exact p.2.nameFrame.length_le
    · exact p.2.dataFrame.length_le

@[simp] lemma Slots.put_self (slots : Slots) (name : Name) (sl : SlotInfo) :
    slots.put name sl name = sl := if_pos rfl

lemma Slots.put_of_ne (slots : Slots) {name n : Name} (hn : n ≠ name) (sl : SlotInfo) :
    slots.put name sl n = slots n := if_neg hn

namespace BlobStore

variable {s s' : BlobStore}

lemma le_capacity (s : BlobStore) (used : ℕ) : used ≤ s.capacity used := Nat.le_add_right _ _

lemma place_spec (hs : s.Sound) (name : Name) (data : List Octet) :
    (∀ n ∈ s.keys, n ∈ (s.place name data).keys) ∧ name ∈ (s.place name data).keys ∧
      (∀ n ≠ name, (s.place name data).slots n = s.slots n) ∧
      name.length ≤ ((s.place name data).slots name).name.capacity ∧
      data.length ≤ ((s.place name data).slots name).data.capacity := by
  unfold place
  rcases hhas : s.root.has name with _ | _
  · simp only [Bool.false_eq_true, if_false]
    refine ⟨fun n hn => mem_append_left _ hn, mem_append_right _ (mem_singleton.2 rfl),
      fun n hn => Slots.put_of_ne _ hn _, ?_, ?_⟩
    · simp only [Slots.put_self]
      exact s.le_capacity _
    · simp only [Slots.put_self]
      exact s.le_capacity _
  · obtain ⟨d, hd⟩ := Option.isSome_iff_exists.mp hhas
    obtain ⟨hmem, -, hname, -⟩ := hs name d hd
    simp only [if_true]
    by_cases hgrow : (s.slots name).data.capacity < data.length
    · simp only [if_pos hgrow]
      refine ⟨fun n hn => hn, hmem, fun n hn => Slots.put_of_ne _ hn _, ?_, ?_⟩
      · simp only [Slots.put_self]
        exact hname
      · simp only [Slots.put_self]
        exact s.le_capacity _
    · simp only [if_neg hgrow]
      exact ⟨fun n hn => hn, hmem, fun n _ => trivial, hname, Nat.not_lt.1 hgrow⟩

variable {name : Name}

lemma sound_of_write {data : List Octet} (hs : s.Sound)
    (h : s.writeFileNoFlush name data = .ok s') : s'.Sound := by
  obtain ⟨hvalid, h⟩ := ite_error_eq_ok.1 h
  rw [not_or, Bool.not_eq_false] at hvalid
  rcases hset : Dir.set data s.root (split name).1 (split name).2 with e | root <;> rw [hset] at h
  · cases h
  cases h
  intro n d hget
  obtain ⟨hkeep, hkey, hother, hname, hdata⟩ := place_spec hs name data
  rw [Dir.get_of_set hset] at hget
  by_cases hn : n = name
  · subst hn
    rw [if_pos rfl] at hget
    cases hget
    exact ⟨hkey, hvalid, hname, hdata⟩
  · rw [if_neg hn] at hget
    obtain ⟨hmem, hvalid', hname', hdata'⟩ := hs n d hget
    refine ⟨hkeep n hmem, hvalid', ?_, ?_⟩
    · simpa only [hother n hn] using hname'
    · simpa only [hother n hn] using hdata'

lemma sound_of_remove (hs : s.Sound) (h : s.removeNoFlush name = .ok s') : s'.Sound := by
  rw [removeNoFlush] at h
  rcases hrem : Dir.removeRecursive s.root (split name).1 (split name).2 with _ | root <;> rw
    [hrem] at h
  · cases h
  cases h
  intro n d hget
  simp only [Dir.get_of_remove hrem] at hget
  split_ifs at hget with hout
  have hne : n ≠ name := fun hn => hout (.inl hn)
  obtain ⟨hmem, hvalid, hname, hdata⟩ := hs n d hget
  have hslot := s.slots.put_of_ne hne {}
  refine ⟨(mem_erase_of_ne hne).2 hmem, hvalid, ?_, ?_⟩
  · simpa only [hslot] using hname
  · simpa only [hslot] using hdata

lemma sound_of_flushFull (h : s.flushFull = .ok s') : s'.Sound := by
  rw [flushFull] at h
  rcases he : s.encode with _ | file <;> rw [he] at h
  · cases h
  simp only at h
  rcases hd : decodeInto file with e | d <;> rw [hd] at h
  · cases h
  cases h
  exact sound_of_decodeInto hd

lemma sound_of_flushInPlace {names : List Name} {file : List Octet}
    (h : s.flushInPlace names file = .ok s') : s'.Sound := by
  rw [flushInPlace] at h
  rcases hp : s.patched names file with e | file' <;> rw [hp] at h
  · cases h
  simp only at h
  rcases hd : decodeInto file' with e | d <;> rw [hd] at h
  · cases h
  cases h
  exact sound_of_decodeInto hd

lemma sound_of_flush {range : List Name → List Name} (h : s.flush range = .ok s') : s'.Sound := by
  rw [flush] at h
  rcases hb : s.backing with _ | file <;> rw [hb] at h
  · exact sound_of_flushFull h
  simp only at h
  split_ifs at h
  · rcases hp : s.flushInPlace (range s.dirty) file with e | s₁ <;> rw [hp] at h
    · exact sound_of_flushFull h
    · cases h
      have hsound : s₁.Sound := sound_of_flushInPlace hp
      exact hsound
  · exact sound_of_flushFull h

end BlobStore

lemma toOption_eq_some {ε α : Type*} {x : Except ε α} {a : α} :
    x.toOption = some a ↔ x = .ok a := by
  rcases x with e | b
  · exact ⟨fun h => (by cases h), fun h => (by cases h)⟩
  · exact ⟨fun h => congrArg _ (some.inj h), fun h => congrArg _ (Except.ok.inj h)⟩

variable {range : List Name → List Name}

lemma sound_of_step {s s' : BlobStore} {op : Op} (hs : s.Sound)
    (h : step range s op = some s') : s'.Sound := by
  have hflush : ∀ {x : Except StoreError BlobStore}, (x.bind (·.flush range)).toOption = some s' →
      s'.Sound := by
    intro x hx
    obtain ⟨s₁, -, hflushed⟩ := bind_eq_ok.1 (toOption_eq_some.1 hx)
    exact BlobStore.sound_of_flush hflushed
  rcases op with ⟨name, data⟩ | name | data | _ | ⟨name, data⟩ | name | _ <;>
    rcases hl : s.lock with _ | _ | _ <;> simp only [step, hl, reduceCtorEq] at h
  case writeFile.none => exact hflush h
  case remove.none => exact hflush h
  case importFrom.none => exact hflush h
  case lock.none =>
    cases h
    exact hs
  case lockWriteFile.some.false | lockWriteFile.some.true =>
    obtain ⟨s₁, hwrite, rfl⟩ := Dir.map_eq_ok (toOption_eq_some.1 h)
    have hsound : s₁.Sound := BlobStore.sound_of_write hs hwrite
    exact hsound
  case lockRemove.some.false | lockRemove.some.true =>
    obtain ⟨s₁, hremove, rfl⟩ := Dir.map_eq_ok (toOption_eq_some.1 h)
    have hsound : s₁.Sound := BlobStore.sound_of_remove hs hremove
    exact hsound
  case release.some.false =>
    cases h
    exact hs
  case release.some.true =>
    obtain ⟨s₁, hflushed, rfl⟩ := Dir.map_eq_ok (toOption_eq_some.1 h)
    have hsound : s₁.Sound := BlobStore.sound_of_flush hflushed
    exact hsound

/-! ## Round trips -/

namespace BlobStore

/-- A store is read back from its encoding: the decoder accepts it and finds the same files. Source:
store.go encode, decodeInto. -/
def RoundTrips (s : BlobStore) : Prop :=
  ∃ file d, s.encode = some file ∧ decodeInto file = .ok d ∧ ∀ n, d.root.get n = s.root.get n

/-- The keys of the list that the tree holds, repetitions included, are within the limit of the
decoder, and the slots take no more room than an `int` can say. Source: store.go maxEntryCount,
encode. -/
def Fits (s : BlobStore) : Prop :=
  (s.keys.filter s.root.has).length ≤ maxEntryCount ∧ s.totalSize ≤ maxInt

variable {s : BlobStore}

instance (s : BlobStore) : Decidable s.Fits := inferInstanceAs (Decidable (_ ∧ _))

lemma map_key_entries (s : BlobStore) : s.entries.map Entry.key = s.keys.filter s.root.has := by
  rw [entries]
  induction s.keys with
  | nil => rfl
  | cons key keys ih =>
    rw [filterMap_cons, filter_cons, Dir.has]
    rcases s.root.get key with _ | data
    · exact ih
    · simp only [map_some, Option.isSome_some, if_true, map_cons, ih]

lemma length_entries (s : BlobStore) : s.entries.length = (s.keys.filter s.root.has).length := by
  rw [← map_key_entries, length_map]

variable {e : Entry}

lemma mem_entries : e ∈ s.entries ↔
    e.key ∈ s.keys ∧ s.root.get e.key = some e.data ∧ e.slot = s.slots e.key := by
  rw [entries, mem_filterMap]
  constructor
  · rintro ⟨key, hkey, he⟩
    obtain ⟨data, hdata, rfl⟩ := Option.map_eq_some_iff.mp he
    exact ⟨hkey, hdata, rfl⟩
  · rintro ⟨hkey, hdata, hslot⟩
    refine ⟨e.key, hkey, ?_⟩
    rw [hdata, map_some, ← hslot]

lemma totalLen_le_containerCapacity (he : e ∈ s.entries) :
    e.slot.name.totalLen + e.slot.data.totalLen ≤ s.containerCapacity := by
  have hle := le_sum_of_mem (mem_map_of_mem (f := fun e : Entry =>
    e.slot.name.totalLen + e.slot.data.totalLen) he)
  exact Nat.le_succ_of_le hle

lemma fits_of_mem_entries (hs : s.Sound) (he : e ∈ s.entries) :
    e.key.length ≤ e.slot.name.capacity ∧ e.data.length ≤ e.slot.data.capacity := by
  obtain ⟨-, hdata, hslot⟩ := mem_entries.1 he
  obtain ⟨-, -, hname, hfits⟩ := hs e.key e.data hdata
  rw [hslot]
  exact ⟨hname, hfits⟩

lemma length_container (hs : s.Sound) : s.container.length = s.containerCapacity := by
  have hlen : ∀ es : List Entry, (∀ e ∈ es, e.key.length ≤ e.slot.name.capacity ∧
      e.data.length ≤ e.slot.data.capacity) → (es.flatMap Entry.octets).length =
        (es.map fun e => e.slot.name.totalLen + e.slot.data.totalLen).sum := by
    intro es hes
    induction es with
    | nil => rfl
    | cons e es ih =>
      obtain ⟨hname, hdata⟩ := hes e mem_cons_self
      rw [flatMap_cons, length_append, ih fun x hx => hes x (mem_cons_of_mem _ hx),
        Entry.octets, length_append, length_netcapstring hname, length_netcapstring hdata,
        map_cons, sum_cons]
      rfl
  rw [container, length_append, hlen _ fun e he => fits_of_mem_entries hs he]
  rfl

/-- A raw entry is what the writer writes for an entry. Source: store.go encode. -/
structure Writes (e : Entry) (r : RawEntry) : Prop where
  key : r.key = e.key
  data : r.data = e.data
  nameCap : r.nameCap = e.slot.name.capacity
  dataCap : r.dataCap = e.slot.data.capacity
  nameRaw : r.nameRaw = netcapstring e.key e.slot.name.capacity
  dataRaw : r.dataRaw = netcapstring e.data e.slot.data.capacity

variable {es : List Entry}

lemma exists_raws (hes : ∀ e ∈ es,
    (e.key.length ≤ e.slot.name.capacity ∧ e.slot.name.capacity ≤ maxInt) ∧
      e.data.length ≤ e.slot.data.capacity ∧ e.slot.data.capacity ≤ maxInt) :
    ∃ raws : List RawEntry, List.Forall₂ Writes es raws := by
  induction es with
  | nil => exact ⟨[], .nil⟩
  | cons e es ih =>
    obtain ⟨⟨hname, hnameInt⟩, hdata, hdataInt⟩ := hes e mem_cons_self
    obtain ⟨raws, hraws⟩ := ih fun x hx => hes x (mem_cons_of_mem _ hx)
    let r : RawEntry := ⟨_, e.key, _, _, e.data, _, isFrame_netcapstring hname hnameInt,
      isFrame_netcapstring hdata hdataInt⟩
    exact ⟨r :: raws, .cons ⟨rfl, rfl, rfl, rfl, rfl, rfl⟩ hraws⟩

lemma octets_of_writes {raws : List RawEntry} (h : List.Forall₂ Writes es raws) :
    raws.flatMap octets = es.flatMap Entry.octets ∧
      raws.map (fun r => (r.key, r.data)) = es.map fun e => (e.key, e.data) := by
  induction h with
  | nil => exact ⟨rfl, rfl⟩
  | cons hw _ ih =>
    rw [flatMap_cons, flatMap_cons, map_cons, map_cons, ih.1, ih.2, hw.key, hw.data,
      octets, hw.nameRaw, hw.dataRaw]
    exact ⟨rfl, rfl⟩

lemma exists_encode (hs : s.Sound) (hsize : s.totalSize ≤ maxInt) :
    ∃ raws : List RawEntry, List.Forall₂ Writes s.entries raws ∧
      (raws.flatMap octets ++ [newline]).length = s.containerCapacity ∧
      IsHeader (netcapstringHeaderOf s.containerCapacity s.containerCapacity (checksum s.container))
        s.containerCapacity (raws.flatMap octets ++ [newline]).length
        (checksum (raws.flatMap octets ++ [newline])) ∧
      s.encode = some (netcapstring magic magic.length ++
        (netcapstringHeaderOf s.containerCapacity s.containerCapacity (checksum s.container) ++
          (raws.flatMap octets ++ ([newline] ++ [newline])))) := by
  have hcap : s.containerCapacity ≤ maxInt := by
    rw [totalSize, netcapstringTotalLen, netcapstringTotalLen] at hsize
    omega
  have hint : ∀ e ∈ s.entries, (e.key.length ≤ e.slot.name.capacity ∧
      e.slot.name.capacity ≤ maxInt) ∧
      e.data.length ≤ e.slot.data.capacity ∧ e.slot.data.capacity ≤ maxInt := by
    intro e he
    obtain ⟨hname, hdata⟩ := fits_of_mem_entries hs he
    have hle := totalLen_le_containerCapacity he
    rw [NetcapSlot.totalLen, NetcapSlot.totalLen, netcapstringTotalLen, netcapstringTotalLen] at hle
    exact ⟨⟨hname, by omega⟩, hdata, by omega⟩
  obtain ⟨raws, hwrites⟩ := exists_raws hint
  have hocts : raws.flatMap octets ++ [newline] = s.container := by
    rw [(octets_of_writes hwrites).1, container]
  refine ⟨raws, hwrites, ?_, ?_, ?_⟩
  · rw [hocts, length_container hs]
  · rw [hocts, length_container hs]
    exact isHeader_netcapstringHeaderOf (Nat.le_refl _) hcap _
  · rw [encode, if_neg (Nat.not_lt.2 hsize), ← hocts, append_assoc]

lemma isFrame_magic : IsFrame (netcapstring magic magic.length) magic magic.length :=
  isFrame_netcapstring (Nat.le_refl _) (by decide)

lemma stopped_newline : Stopped [newline] := by
  intro c hc
  cases hc
  rfl

/-- The encoding of a sound store is decoded into its entries. -/
lemma decodeInto_encode (hs : s.Sound) (hsize : s.totalSize ≤ maxInt) :
    ∃ file raws base, s.encode = some file ∧ decodeInto file = addAll base 0 raws {} ∧
      raws.map (fun r => (r.key, r.data)) = s.entries.map fun e => (e.key, e.data) := by
  obtain ⟨raws, hwrites, hlen, hheader, hencode⟩ := exists_encode hs hsize
  have hcontainer : IsFrame (netcapstringHeaderOf s.containerCapacity s.containerCapacity
      (checksum s.container) ++ ((raws.flatMap octets ++ [newline]) ++ ([] ++ [newline])))
      (raws.flatMap octets ++ [newline]) s.containerCapacity :=
    ⟨_, [], rfl, hlen, hheader⟩
  refine ⟨_, raws, (netcapstring magic magic.length).length + netcapstringHeaderLen
    s.containerCapacity, hencode, ?_, (octets_of_writes hwrites).2⟩
  have hdecode := decodeInto_octets isFrame_magic hcontainer stopped_newline []
  rwa [append_nil, append_assoc] at hdecode

lemma fits_of_decodeInto (hs : s.Sound) {file : List Octet} {d : Decoded}
    (hencode : s.encode = some file) (hdecode : decodeInto file = .ok d) : s.Fits := by
  have hsize : s.totalSize ≤ maxInt := by
    rw [encode] at hencode
    split_ifs at hencode with h
    exact Nat.not_lt.1 h
  obtain ⟨file', raws, base, hencode', haddAll, hmap⟩ := decodeInto_encode hs hsize
  obtain rfl := some.inj (hencode'.symm.trans hencode)
  rw [haddAll] at hdecode
  have hcount := length_keys_of_addAll (Nat.zero_le _) hdecode
  rw [keys_of_addAll hdecode, nil_append, length_map] at hcount
  have hlen := congrArg length hmap
  rw [length_map, length_map] at hlen
  rw [Fits, ← length_entries, ← hlen]
  exact ⟨hcount, hsize⟩

/-- A sound store is read back from its encoding exactly when its entries are within the limit of
the decoder and its size is an `int`. -/
lemma roundTrips_iff_fits (hs : s.Sound) : s.RoundTrips ↔ s.Fits := by
  constructor
  · rintro ⟨file, d, hencode, hdecode, -⟩
    exact fits_of_decodeInto hs hencode hdecode
  · rintro ⟨hcount, hsize⟩
    rw [← length_entries] at hcount
    obtain ⟨file, raws, base, hencode, haddAll, hmap⟩ := decodeInto_encode hs hsize
    have hdata : ∀ r ∈ raws, s.root.get r.key = some r.data := by
      intro r hr
      have hmem : (r.key, r.data) ∈ s.entries.map fun e => (e.key, e.data) :=
        hmap ▸ mem_map_of_mem (f := fun r : RawEntry => (r.key, r.data)) hr
      obtain ⟨e, he, heq⟩ := mem_map.1 hmem
      obtain ⟨hkey, hd⟩ := Prod.mk.inj heq
      rw [← hkey, ← hd]
      exact (mem_entries.1 he).2.1
    have hlen := congrArg length hmap
    rw [length_map, length_map] at hlen
    have hroom : ([] : List Name).length + raws.length ≤ maxEntryCount := by
      rwa [length_nil, hlen, Nat.zero_add]
    obtain ⟨d, hd⟩ := @addAll_of_refines base 0 raws {} s.root (Dir.refines_nil _)
      (fun r hr => by rw [hdata r hr]; rfl) (fun r hr => (hs r.key r.data (hdata r hr)).2.1) hroom
    refine ⟨file, d, hencode, haddAll.trans hd, fun n => ?_⟩
    rw [get_of_addAll hd n]
    rcases hlast : lastOf n 0 raws with _ | p
    · rw [map_none, none_or]
      -- a file would stand in the key list, and so among the entries
      rcases hfile : s.root.get n with _ | data
      · exact Dir.get_nil n
      · have hmem : (⟨n, data, s.slots n⟩ : Entry) ∈ s.entries :=
          mem_entries.2 ⟨(hs n data hfile).1, hfile, rfl⟩
        have hpair : (n, data) ∈ raws.map fun r => (r.key, r.data) :=
          hmap ▸ mem_map_of_mem (f := fun e : Entry => (e.key, e.data)) hmem
        obtain ⟨r, hr, heq⟩ := mem_map.1 hpair
        have hkey : n ∈ raws.map RawEntry.key := (Prod.mk.inj heq).1 ▸ mem_map_of_mem hr
        rw [← lastOf_isSome 0, hlast] at hkey
        cases hkey
    · obtain ⟨hmem, rfl⟩ := mem_of_lastOf hlast
      rw [hdata p.2 hmem]
      rfl

lemma exists_flushFull_iff (hs : s.Sound) : (∃ s', s.flushFull = .ok s') ↔ s.Fits := by
  constructor
  · rintro ⟨s', h⟩
    rw [flushFull] at h
    rcases hencode : s.encode with _ | file <;> rw [hencode] at h
    · cases h
    simp only at h
    rcases hdecode : decodeInto file with e | d <;> rw [hdecode] at h
    · cases h
    · exact fits_of_decodeInto hs hencode hdecode
  · intro hfits
    obtain ⟨file, d, hencode, hdecode, -⟩ := (roundTrips_iff_fits hs).2 hfits
    refine ⟨(s.install file d).resetDirty, ?_⟩
    rw [flushFull, hencode]
    simp only [hdecode]

lemma get_of_flushFull (hs : s.Sound) {s' : BlobStore} (h : s.flushFull = .ok s') (n : Name) :
    s'.root.get n = s.root.get n := by
  obtain ⟨file, d, hencode, hdecode, hsame⟩ :=
    (roundTrips_iff_fits hs).2 ((exists_flushFull_iff hs).1 ⟨s', h⟩)
  rw [flushFull, hencode] at h
  simp only [hdecode] at h
  cases h
  exact hsame n

end BlobStore

/-! ## Reachable stores -/

variable {sparePercent n : ℕ}

lemma sound_of_create {s : BlobStore} (h : create sparePercent range = some s) : s.Sound :=
  BlobStore.sound_of_flush (toOption_eq_some.1 h)

/-- Every store that accepted operations reach is sound. -/
lemma sound_of_run {ops : List Op}
    {s₀ s : BlobStore} (hcreate : create sparePercent range = some s₀)
    (hrun : run (step range) s₀ ops = some s) : s.Sound := by
  refine run_inv (I := fun s : BlobStore => s.Sound) ?_ ops s₀ s (sound_of_create hcreate) hrun
  intro s op s' hI hstep
  exact sound_of_step hI hstep

/-- A store that accepted operations reach from an empty one is read back from its encoding exactly
when its keys are within the limit of the decoder and its size is an `int`. -/
theorem roundTrips_iff_of_run (sparePercent : ℕ) (range : List Name → List Name) (ops : List Op)
    (s₀ s : BlobStore) (hcreate : create sparePercent range = some s₀)
    (hrun : run (step range) s₀ ops = some s) : s.RoundTrips ↔ s.Fits :=
  BlobStore.roundTrips_iff_fits (sound_of_run hcreate hrun)

/-- Two files, one of them in a batch. -/
theorem roundTrips_of_two_files : ∃ s₀ s, create 10 id = some s₀ ∧
    run (step id) s₀ [.writeFile [97#8] [1#8], .lock, .lockWriteFile [98#8, slash, 99#8] [],
      .release] =
      some s ∧ s.RoundTrips := by
  have hfits : ((create 10 id).bind fun s₀ => run (step id) s₀ [.writeFile [97#8] [1#8], .lock,
      .lockWriteFile [98#8, slash, 99#8] [], .release]).any (fun s => decide s.Fits) := by
    decide +kernel
  obtain ⟨s, hs, hfit⟩ := (any_eq_true _ _).1 hfits
  obtain ⟨s₀, hcreate, hrun⟩ := Option.bind_eq_some_iff.mp hs
  exact ⟨s₀, s, hcreate, hrun,
    (roundTrips_iff_of_run 10 id _ s₀ s hcreate hrun).2 (of_decide_eq_true hfit)⟩

/-! ## A batch beyond the limit -/

def letters (i : ℕ) : Name := replicate (i + 1) 97#8

/-- A batch that writes empty files under the names from `letters i` on. Source: lock.go
WriteFile. -/
def batch : ℕ → ℕ → List Op
  | _, 0 => []
  | i, n + 1 => .lockWriteFile (letters i) [] :: batch (i + 1) n

lemma split_letters (i : ℕ) : split (letters i) = (letters i, []) := by
  have hsplit : ∀ n, split (replicate n 97#8) = (replicate n 97#8, []) := by
    intro n
    induction n with
    | zero => rfl
    | succ n ih =>
      rw [replicate_succ, split, ih]
      rfl
  exact hsplit (i + 1)

lemma validPath_letters (i : ℕ) : validPath (letters i) ∧ letters i ≠ dot := by
  have hcons : letters i = 97#8 :: replicate i 97#8 := replicate_succ
  have hutf : ∀ n, validUTF8 (replicate n 97#8) := by
    intro n
    induction n with
    | zero => rfl
    | succ n ih =>
      rw [replicate_succ, validUTF8.eq_def]
      simp only [ih]
      rfl
  have hsegment : validSegment (letters i) := by
    rw [validSegment, hcons]
    simp [dot]
  refine ⟨?_, ?_⟩
  · rw [validPath, split_letters, hsegment, letters, hutf]
    simp
  · rw [hcons]
    simp [dot]

/-- A store in a batch whose files are those under the names before `letters n`, each listed once.
Source: lock.go WriteLock. -/
structure Batched (n : ℕ) (s : BlobStore) : Prop where
  locked : s.lock.isSome = true
  files : ∀ p node, s.root.lookup p = some node → node = .file []
  old : ∀ i < n, s.root.get (letters i) = some []
  new : ∀ i, n ≤ i → s.root.get (letters i) = none
  keys : s.keys.length = n ∧ ∀ k ∈ s.keys, s.root.has k = true

lemma letters_injective {i j : ℕ} (h : letters i = letters j) : i = j := by
  have hlen := congrArg length h
  rw [letters, letters, length_replicate, length_replicate] at hlen
  omega

lemma Batched.step {s : BlobStore} (h : Batched n s) (range : List Name → List Name) :
    ∃ s', step range s (.lockWriteFile (letters n) []) = some s' ∧ Batched (n + 1) s' := by
  obtain ⟨b, hlock⟩ := Option.isSome_iff_exists.mp h.locked
  have hset : Dir.set [] s.root (letters n) [] = .ok (Dir.put s.root (letters n) (.file [])) := by
    rw [Dir.set]
    rcases hl : s.root.lookup (letters n) with _ | d | c
    · rfl
    · rfl
    · exact absurd (h.files _ _ hl) (by simp)
  have hset' : Dir.set [] s.root (split (letters n)).1 (split (letters n)).2 =
      .ok (Dir.put s.root (letters n) (.file [])) := by
    rw [split_letters]
    exact hset
  have hhas : s.root.has (letters n) = false := by
    rw [Dir.has, h.new n (Nat.le_refl n)]
    rfl
  have hwrite : s.writeFileNoFlush (letters n) [] =
      .ok { s.place (letters n) [] with root := Dir.put s.root (letters n) (.file []) } := by
    obtain ⟨hvalid, hdot⟩ := validPath_letters n
    rw [BlobStore.writeFileNoFlush, if_neg (by simp [hvalid, hdot]), hset']
  have hplace : (s.place (letters n) []).keys = s.keys ++ [letters n] := by
    rw [BlobStore.place, hhas]
    rfl
  have hget := Dir.get_of_set hset'
  refine ⟨{ s.place (letters n) [] with
    root := Dir.put s.root (letters n) (.file []), lock := some true }, ?_, rfl, ?_, ?_, ?_, ?_, ?_⟩
  · simp only [Zefs.step, hlock, hwrite]
    rfl
  · intro p node hnode
    rw [Dir.lookup_put] at hnode
    split_ifs at hnode with hp
    · exact (some.inj hnode).symm
    · exact h.files p node hnode
  · intro i hi
    rw [hget]
    split_ifs with heq
    · rfl
    · exact h.old i (Nat.lt_of_le_of_ne (Nat.le_of_lt_succ hi) fun hin => heq (congrArg _ hin))
  · intro i hi
    rw [hget, if_neg fun heq => ?_]
    · exact h.new i (Nat.le_of_succ_le hi)
    · exact absurd (letters_injective heq) (by omega)
  · simp only [hplace, length_append, length_singleton, h.keys.1]
  · intro k hk
    simp only [hplace] at hk
    rw [Dir.has, hget]
    split_ifs with heq
    · rfl
    · rcases mem_append.1 hk with hk | hk
      · exact h.keys.2 k hk
      · exact absurd (mem_singleton.1 hk) heq

lemma Batched.run {s : BlobStore} (h : Batched n s) (range : List Name → List Name) (m : ℕ) :
    ∃ s', run (Zefs.step range) s (batch n m) = some s' ∧ Batched (n + m) s' := by
  induction m generalizing n s with
  | zero => exact ⟨s, rfl, h⟩
  | succ m ih =>
    obtain ⟨s₁, hstep, h₁⟩ := h.step range
    obtain ⟨s', hrun, h'⟩ := ih h₁
    refine ⟨s', ?_, ?_⟩
    · rw [batch, run_cons, hstep, bind_some, hrun]
    · rwa [Nat.succ_add_eq_add_succ] at h'

lemma exists_run_batch {m : ℕ} (hm : maxEntryCount < m) : ∃ s₀ s, create 10 id = some s₀ ∧
    run (step id) s₀ (.lock :: batch 0 m) = some s ∧ ¬ s.RoundTrips := by
  have hempty : (create 10 id).any (fun s => s.root.isEmpty && s.keys.isEmpty && s.lock.isNone) =
      true := by
    decide +kernel
  obtain ⟨s₀, hcreate, hs₀⟩ := (any_eq_true _ _).mp hempty
  simp only [Bool.and_eq_true, List.isEmpty_iff, Option.isNone_iff_eq_none] at hs₀
  obtain ⟨⟨hroot, hkeys⟩, hlock⟩ := hs₀
  have hstart : Batched 0 { s₀ with lock := some false } := by
    refine ⟨rfl, ?_, fun i hi => absurd hi (Nat.not_lt_zero i), fun i _ => ?_, ?_, ?_⟩
    · intro p node hnode
      simp only [hroot] at hnode
      cases hnode
    · simp only [hroot]
      exact Dir.get_nil _
    · simp only [hkeys, length_nil]
    · intro k hk
      simp only [hkeys] at hk
      cases hk
  obtain ⟨s, hrun, h⟩ := hstart.run id m
  have hall : run (step id) s₀ (.lock :: batch 0 m) = some s := by
    rw [run_cons]
    simp only [step, hlock, bind_some]
    exact hrun
  refine ⟨s₀, s, hcreate, hall, fun htrip => ?_⟩
  obtain ⟨hcount, -⟩ := (BlobStore.roundTrips_iff_fits (sound_of_run hcreate hall)).mp htrip
  rw [filter_eq_self.mpr h.keys.2, h.keys.1] at hcount
  omega

/-- A batch of 100001 new names is accepted, and the store is not read back: the writer does not
enforce the limit of the decoder. -/
theorem batch_not_roundTrips : ∃ s₀ s, create 10 id = some s₀ ∧
    run (step id) s₀ (.lock :: batch 0 100001) = some s ∧ ¬ s.RoundTrips :=
  exists_run_batch (by decide)

end Ze.Zefs
