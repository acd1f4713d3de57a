import Ze.Zefs.RoundTrip

/-!
# Flushing in place

When every write of a batch fits the slot it goes to, `flush` patches the file: it rewrites the data
frames at their offsets and then the header of the container, with widths and lengths that it
computes from the capacities alone.
-/

namespace Ze.Zefs

open Ze.Lib List
open RawEntry (octets)
open Option (any_eq_true isSome_iff_exists map_or map_some none_or or_none some.inj)
open Prod (fst mk)

/-! ## Layouts -/

/-- How an accepted file is made up. `tail` are the used octets of the container behind its entries,
`pad` its unused ones. Source: store.go decodeInto. -/
structure Layout (file : List Octet) where
  magicRaw : List Octet
  magicCap : ℕ
  header : List Octet
  capacity : ℕ
  entries : List RawEntry
  tail : List Octet
  pad : List Octet
  post : List Octet
  file_eq : file = magicRaw ++ (header ++
    (entries.flatMap octets ++ ((tail ++ pad) ++ newline :: post)))
  magicFrame : IsFrame magicRaw magic magicCap
  isHeader : IsHeader header capacity (entries.flatMap octets ++ tail).length
    (checksum (entries.flatMap octets ++ tail))
  length_eq : (entries.flatMap octets ++ tail).length + pad.length = capacity
  stopped : Stopped tail

namespace Layout

variable {file : List Octet}

/-- Where the entries of a file begin, as the decoder computes it. Source: store.go decodeInto,
containerDataBase. -/
def base (l : Layout file) : ℕ := l.magicRaw.length + netcapstringHeaderLen l.capacity

lemma decodeInto_eq (l : Layout file) : decodeInto file = addAll l.base 0 l.entries {} := by
  have hcontainer : IsFrame (l.header ++ ((l.entries.flatMap octets ++ l.tail) ++
      (l.pad ++ [newline]))) (l.entries.flatMap octets ++ l.tail) l.capacity :=
    ⟨_, _, rfl, l.length_eq, l.isHeader⟩
  have hdecode := decodeInto_octets l.magicFrame hcontainer l.stopped l.post
  rw [base, ← hdecode]
  nth_rewrite 1 [l.file_eq]
  simp only [append_assoc, cons_append, nil_append]

/-- The widths and lengths of a file are those that `flushInPlace` computes from the capacities, for
the names that are written: the magic frame and the header of the container have the widths of this
writer, the container has no room but for the frames of its entries and a newline, no entry begins
behind the last one, and the data frame of each name has the width of this writer.
Source: store.go flushInPlace, containerCapacity; netcapstring.go netcapstringHeaderLen.
-/
structure Canonical (l : Layout file) (d : Decoded) (names : List Name) : Prop where
  magic_length : l.magicRaw.length = netcapstringTotalLen magic.length
  header_length : l.header.length = netcapstringHeaderLen l.capacity
  capacity_eq : l.capacity = BlobStore.containerCapacity { toDecoded := d }
  stopped : Stopped (l.tail ++ l.pad)
  frames : ∀ n ∈ names, ∀ p, lastOf n 0 l.entries = some p →
    p.2.dataRaw.length = netcapstringTotalLen p.2.dataCap

end Layout

/-! ## Entries of one shape -/

/-- What the offsets of the entries depend on. Source: store.go slotInfo. -/
def RawEntry.shape (e : RawEntry) : Name × ℕ × ℕ × ℕ :=
  (e.key, e.nameRaw.length, e.dataRaw.length, e.dataCap)

lemma RawEntry.length_octets (e : RawEntry) :
    e.octets.length = e.nameRaw.length + e.dataRaw.length := length_append

lemma lastOf_shape (n : Name) {es es' : List RawEntry}
    (h : es'.map RawEntry.shape = es.map RawEntry.shape) (off : ℕ) :
    (lastOf n off es').map (fun p => (p.1, p.2.shape)) = (lastOf n off es).map fun p => (p.1,
      p.2.shape) := by
  induction es generalizing es' off with
  | nil =>
    rw [map_nil, map_eq_nil_iff] at h
    rw [h]
  | cons e es ih =>
    rcases es' with _ | ⟨e', es'⟩
    · cases h
    rw [map_cons, map_cons, cons.injEq] at h
    obtain ⟨hshape, hrest⟩ := h
    have hlen : e'.octets.length = e.octets.length := by
      simp only [RawEntry.shape, mk.injEq] at hshape
      rw [RawEntry.length_octets, RawEntry.length_octets, hshape.2.1, hshape.2.2.1]
    have hkey : e'.key = e.key := congrArg fst hshape
    have hih := ih hrest (off + e.octets.length)
    rw [lastOf, lastOf, hlen, hkey, map_or, map_or, hih]
    split_ifs
    · rw [map_some, map_some, hshape]
    · rfl

lemma split_of_lastOf {n : Name} {off : ℕ} {es : List RawEntry} {p : ℕ × RawEntry}
    (h : lastOf n off es = some p) : ∃ pre post, es = pre ++ p.2 :: post ∧
      p.1 = off + (pre.flatMap octets).length ∧ n ∉ post.map RawEntry.key := by
  induction es generalizing off with
  | nil => cases h
  | cons e es ih =>
    rw [lastOf] at h
    rcases hrest : lastOf n (off + e.octets.length) es with _ | q <;> rw [hrest] at h
    · rw [none_or] at h
      split_ifs at h with hn
      cases h
      refine ⟨[], es, rfl, rfl, fun hmem => ?_⟩
      rw [← lastOf_isSome (off + e.octets.length), hrest] at hmem
      cases hmem
    · cases h
      obtain ⟨pre, post, rfl, hoff, hnot⟩ := ih hrest
      refine ⟨e :: pre, post, rfl, ?_, hnot⟩
      rw [hoff, flatMap_cons, length_append, Nat.add_assoc]

lemma lastOf_append (n : Name) (off : ℕ) (es es' : List RawEntry) :
    lastOf n off (es ++ es') =
      (lastOf n (off + (es.flatMap octets).length) es').or (lastOf n off es) := by
  induction es generalizing off with
  | nil =>
    rw [nil_append, flatMap_nil, lastOf]
    exact (or_none).symm
  | cons e es ih =>
    rw [cons_append, lastOf, ih, lastOf, flatMap_cons, length_append, Option.or_assoc,
      Nat.add_assoc]

/-! ## Patching -/

lemma pwrite_append {region data : List Octet} (before behind : List Octet)
    (h : data.length = region.length) :
    BlobStore.pwrite (before ++ (region ++ behind)) before.length data =
      before ++ (data ++ behind) := by
  have hgap : before.length - (before ++ (region ++ behind)).length = 0 := by
    rw [length_append]
    omega
  rw [BlobStore.pwrite, hgap, replicate_zero, append_nil, take_left, h, ← drop_drop,
    drop_left, drop_left]

lemma exists_of_patch {s : BlobStore} {start rest : List Octet} {es : List RawEntry} {n : Name}
    {p : ℕ × RawEntry} {data : List Octet} (hlast : lastOf n 0 es = some p)
    (hframe : p.2.dataRaw.length = netcapstringTotalLen p.2.dataCap)
    (hget : s.root.get n = some data)
    (hoff : (s.slots n).data.offset = start.length + (p.1 + p.2.nameRaw.length))
    (hcap : (s.slots n).data.capacity = p.2.dataCap) (hfits : data.length ≤ p.2.dataCap)
    (hint : p.2.dataCap ≤ maxInt) :
    ∃ es' : List RawEntry, s.patch (start ++ (es.flatMap octets ++ rest)) n =
        start ++ (es'.flatMap octets ++ rest) ∧
      es'.map RawEntry.shape = es.map RawEntry.shape ∧
      ∀ m, (lastOf m 0 es').map (fun p => p.2.data) =
        if m = n then some data else (lastOf m 0 es).map fun p => p.2.data := by
  obtain ⟨hmem, hkey⟩ := mem_of_lastOf hlast
  obtain ⟨pre, post, hes, hpos, hnot⟩ := split_of_lastOf hlast
  have hlen : (netcapstring data p.2.dataCap).length = p.2.dataRaw.length := by
    rw [length_netcapstring hfits, hframe]
  let e' : RawEntry := ⟨p.2.nameRaw, p.2.key, p.2.nameCap, netcapstring data p.2.dataCap, data,
    p.2.dataCap, p.2.nameFrame, isFrame_netcapstring hfits hint⟩
  have hshape : e'.shape = p.2.shape := by
    simp only [RawEntry.shape, e', hlen]
  refine ⟨pre ++ e' :: post, ?_, ?_, fun m => ?_⟩
  · have hbefore : start ++ (es.flatMap octets ++ rest) =
        (start ++ (pre.flatMap octets ++ p.2.nameRaw)) ++
          (p.2.dataRaw ++ (post.flatMap octets ++ rest)) := by
      rw [hes]
      simp only [flatMap_append, flatMap_cons, octets, append_assoc]
    have hat : (s.slots n).data.offset =
        (start ++ (pre.flatMap octets ++ p.2.nameRaw)).length := by
      rw [hoff, hpos, Nat.zero_add, length_append, length_append]
    rw [BlobStore.patch, hget]
    simp only
    rw [hcap, hat, hbefore, pwrite_append _ _ hlen]
    simp only [flatMap_append, flatMap_cons, octets, append_assoc, e']
  · rw [hes, map_append, map_append, map_cons, map_cons, hshape]
  · have hlast' : ∀ e : RawEntry, e.key = n → (lastOf n 0 (pre ++ e :: post)).map (fun p =>
        p.2.data) =
        some e.data := by
      intro e he
      have hnone : lastOf n (0 + (pre.flatMap octets).length + e.octets.length) post =
          none := by
        rw [← Option.not_isSome_iff_eq_none, lastOf_isSome]
        exact hnot
      rw [lastOf_append, lastOf, hnone, if_pos he]
      rfl
    have hother : ∀ e : RawEntry, ∀ off, m ≠ e.key → lastOf m off (e :: post) =
        lastOf m (off + e.octets.length) post := by
      intro e off hm
      rw [lastOf, if_neg (Ne.symm hm), or_none]
    have hlenOctets : e'.octets.length = p.2.octets.length := by
      rw [RawEntry.length_octets, RawEntry.length_octets]
      exact congrArg (p.2.nameRaw.length + ·) hlen
    by_cases hm : m = n
    · rw [if_pos hm, hm]
      exact hlast' e' hkey
    · have hm' : m ≠ p.2.key := fun heq => hm (heq.trans hkey)
      rw [if_neg hm, hes, lastOf_append, lastOf_append, hother e' _ hm', hother p.2 _ hm',
        hlenOctets]

lemma exists_of_patches {s : BlobStore} {start rest : List Octet} {es : List RawEntry}
    {names : List Name} (h : ∀ n ∈ names, ∃ p data, lastOf n 0 es = some p ∧
      p.2.dataRaw.length = netcapstringTotalLen p.2.dataCap ∧ s.root.get n = some data ∧
      (s.slots n).data.offset = start.length + (p.1 + p.2.nameRaw.length) ∧
      (s.slots n).data.capacity = p.2.dataCap ∧ data.length ≤ p.2.dataCap ∧ p.2.dataCap ≤ maxInt) :
    ∃ es' : List RawEntry, names.foldl s.patch (start ++ (es.flatMap octets ++ rest)) =
        start ++ (es'.flatMap octets ++ rest) ∧
      es'.map RawEntry.shape = es.map RawEntry.shape ∧
      ∀ m, (lastOf m 0 es').map (fun p => p.2.data) =
        if m ∈ names then s.root.get m else (lastOf m 0 es).map fun p => p.2.data := by
  induction names generalizing es with
  | nil => exact ⟨es, rfl, rfl, fun m => (if_neg not_mem_nil).symm⟩
  | cons n names ih =>
    obtain ⟨p, data, hlast, hframe, hget, hoff, hcap, hfits, hint⟩ := h n mem_cons_self
    obtain ⟨es₁, hpatch, hshape, hdata⟩ :=
      @exists_of_patch s start rest es n p data hlast hframe hget hoff
      hcap hfits hint
    -- the other names find their entries where they were
    have hrest : ∀ m ∈ names, ∃ p data, lastOf m 0 es₁ = some p ∧
        p.2.dataRaw.length = netcapstringTotalLen p.2.dataCap ∧ s.root.get m = some data ∧
        (s.slots m).data.offset = start.length + (p.1 + p.2.nameRaw.length) ∧
        (s.slots m).data.capacity = p.2.dataCap ∧ data.length ≤ p.2.dataCap ∧
          p.2.dataCap ≤ maxInt := by
      intro m hm
      obtain ⟨q, data, hq, hrest⟩ := h m (mem_cons_of_mem _ hm)
      have hsame := lastOf_shape m hshape 0
      rw [hq, map_some] at hsame
      obtain ⟨q', hq', heq⟩ := Option.map_eq_some_iff.mp hsame
      simp only [RawEntry.shape, mk.injEq] at heq
      obtain ⟨hpos, -, hname, hraw, hcap⟩ := heq
      refine ⟨q', data, hq', ?_⟩
      rw [hpos, hname, hraw, hcap]
      exact hrest
    obtain ⟨es', hfold, hshape', hdata'⟩ := ih hrest
    refine ⟨es', ?_, hshape'.trans hshape, fun m => ?_⟩
    · rw [foldl_cons, hpatch, hfold]
    · rw [hdata', hdata]
      by_cases hm : m ∈ names
      · rw [if_pos hm, if_pos (mem_cons_of_mem _ hm)]
      · rw [if_neg hm]
        by_cases hn : m = n
        · rw [if_pos hn, if_pos (hn ▸ mem_cons_self), hn, hget]
        · rw [if_neg hn, if_neg fun hmem => (mem_cons.1 hmem).elim hn hm]

/-! ## Writes to existing names -/

/-- The store of a file that was opened. Source: store.go Open, load. -/
def opened (file : List Octet) (d : Decoded) (sparePercent : ℕ) : BlobStore :=
  { toDecoded := d, backing := some file, sparePercent := sparePercent }

/-- Writes, one after another. Source: lock.go WriteLock.WriteFile. -/
def writeAll (s : BlobStore) : List (Name × List Octet) → Except StoreError BlobStore
  | [] => .ok s
  | (name, data) :: ws => (s.writeFileNoFlush name data).bind fun s => writeAll s ws

/-- The names exist and the data fits their slots. Source: store.go writeFileNoFlush. -/
def FitSlots (d : Decoded) (ws : List (Name × List Octet)) : Prop :=
  ∀ w ∈ ws, d.root.has w.1 = true ∧ w.2.length ≤ (d.slots w.1).data.capacity

/-- A store after writes to existing names that fit: the layout is that of the file, and the tree
differs in the dirty names only. Source: store.go writeFileNoFlush. -/
structure Overwritten (d : Decoded) (s : BlobStore) : Prop where
  sound : s.Sound
  keys : s.keys = d.keys
  slots : s.slots = d.slots
  files : ∀ n, s.root.has n = d.root.has n
  clean : ∀ n, n ∉ s.dirty → s.root.get n = d.root.get n
  dirty : ∀ n ∈ s.dirty, d.root.has n = true

lemma Dir.exists_set_of_has {t : Dir} {n : Name} (h : t.has n) (data : List Octet) :
    ∃ t', Dir.set data t (split n).1 (split n).2 = .ok t' := by
  obtain ⟨d, hfile⟩ := Dir.exists_file_of_has h
  have hself : Dir.Refines t t := fun p ps => ⟨fun d hd => ⟨d, hd⟩, fun c hc => ⟨c, hc⟩⟩
  obtain ⟨t', hset, -⟩ := Dir.set_of_refines data hself hfile
  exact ⟨t', hset⟩

lemma Overwritten.write {d : Decoded} {s : BlobStore} (h : Overwritten d s) {name : Name}
    {data : List Octet} (hhas : d.root.has name)
    (hfits : data.length ≤ (d.slots name).data.capacity) :
    ∃ s', s.writeFileNoFlush name data = .ok s' ∧ Overwritten d s' ∧
      ∀ n, n ∈ s'.dirty ↔ n ∈ s.dirty ∨ n = name := by
  have hhas' : s.root.has name := (h.files name).trans hhas
  obtain ⟨old, hold⟩ := isSome_iff_exists.1 hhas'
  obtain ⟨-, ⟨hvalid, hdot⟩, -⟩ := h.sound name old hold
  obtain ⟨root, hset⟩ := Dir.exists_set_of_has hhas' data
  have hgrow : ¬ (s.slots name).data.capacity < data.length := by
    rw [h.slots]
    exact Nat.not_lt.2 hfits
  have hplace : s.place name data =
      { s with dirty := if name ∈ s.dirty then s.dirty else s.dirty ++ [name] } := by
    rw [BlobStore.place, hhas']
    simp only [if_true, if_neg hgrow]
  have hwrite : s.writeFileNoFlush name data = .ok { s.place name data with root := root } := by
    rw [BlobStore.writeFileNoFlush, if_neg (by simp [hvalid, hdot]), hset]
  have hdirty : ∀ n, n ∈ (s.place name data).dirty ↔ n ∈ s.dirty ∨ n = name := by
    intro n
    simp only [hplace]
    split_ifs with hmem
    · exact ⟨.inl, fun hn => hn.elim id fun hn => hn ▸ hmem⟩
    · rw [mem_append, mem_singleton]
  have hget := Dir.get_of_set hset
  refine ⟨_, hwrite, ⟨BlobStore.sound_of_write h.sound hwrite, ?_, ?_, ?_, ?_, ?_⟩, hdirty⟩
  · simp only [hplace]
    exact h.keys
  · simp only [hplace]
    exact h.slots
  · intro n
    rw [Dir.has, hget]
    split_ifs with hn
    · rw [hn, hhas]
      rfl
    · exact h.files n
  · intro n hn
    obtain ⟨hclean, hne⟩ := not_or.1 fun hor => hn ((hdirty n).2 hor)
    rw [hget, if_neg hne]
    exact h.clean n hclean
  · intro n hn
    rcases (hdirty n).1 hn with hmem | rfl
    · exact h.dirty n hmem
    · exact hhas

lemma Overwritten.writeAll {d : Decoded} {s : BlobStore} (h : Overwritten d s)
    {ws : List (Name × List Octet)} (hws : FitSlots d ws) :
    ∃ s', Zefs.writeAll s ws = .ok s' ∧ Overwritten d s' ∧
      ∀ n, n ∈ s'.dirty ↔ n ∈ s.dirty ∨ n ∈ ws.map fst := by
  induction ws generalizing s with
  | nil => exact ⟨s, rfl, h, fun n => by simp⟩
  | cons w ws ih =>
    obtain ⟨hhas, hfits⟩ := hws _ mem_cons_self
    obtain ⟨s₁, hwrite, h₁, hdirty₁⟩ := h.write hhas hfits
    obtain ⟨s', hrest, h', hdirty'⟩ := ih h₁ fun w hw => hws w (mem_cons_of_mem _ hw)
    refine ⟨s', bind_eq_ok.2 ⟨s₁, hwrite, hrest⟩, h', fun n => ?_⟩
    rw [hdirty', hdirty₁, map_cons, mem_cons, or_assoc]

lemma overwritten_opened {file : List Octet} {d : Decoded} (h : decodeInto file = .ok d)
    (sparePercent : ℕ) : Overwritten d (opened file d sparePercent) :=
  ⟨sound_of_decodeInto h, rfl, rfl, fun _ => rfl, fun _ _ => rfl, fun _ hn => (by cases hn)⟩

lemma BlobStore.containerCapacity_eq (s : BlobStore) :
    s.containerCapacity = ((s.keys.filter s.root.has).map fun key =>
      (s.slots key).name.totalLen + (s.slots key).data.totalLen).sum + 1 := by
  rw [containerCapacity, ← BlobStore.map_key_entries, map_map]
  congr 2
  refine map_congr_left fun e he => ?_
  rw [(BlobStore.mem_entries.1 he).2.2]
  rfl

lemma Overwritten.containerCapacity_eq {d : Decoded} {s : BlobStore} (h : Overwritten d s) :
    s.containerCapacity = BlobStore.containerCapacity { toDecoded := d } := by
  have hhas : s.root.has = d.root.has := funext h.files
  rw [BlobStore.containerCapacity_eq, BlobStore.containerCapacity_eq, h.keys, h.slots, hhas]

/-! ## The patched file and the rewritten file -/

/-- The file patched in place is accepted, and so is the file rewritten, with the same contents, in
whatever order the dirty names are met. Source: store.go flushInPlace, flushFull. -/
def BlobStore.InPlaceAgrees (s : BlobStore) (file : List Octet) : Prop :=
  ∀ names : List Name, names.Perm s.dirty → ∃ file₁ d₁ file₂ d₂,
    s.patched names file = .ok file₁ ∧ decodeInto file₁ = .ok d₁ ∧
    s.encode = some file₂ ∧ decodeInto file₂ = .ok d₂ ∧ ∀ n, d₁.root.get n = d₂.root.get n

section

variable {file : List Octet} {d : Decoded} {l : Layout file} {s : BlobStore}

lemma Layout.exists_lastOf (l : Layout file) (hd : decodeInto file = .ok d) {n : Name}
    (hhas : d.root.has n) :
    ∃ p, lastOf n 0 l.entries = some p ∧ d.slots n = p.2.slotAt l.base p.1 := by
  have hall : addAll l.base 0 l.entries {} = .ok d := l.decodeInto_eq.symm.trans hd
  rw [Dir.has, get_of_addAll hall, slots_of_addAll hall] at *
  rcases hlast : lastOf n 0 l.entries with _ | p <;> rw [hlast] at hhas
  · rw [Option.map_none, none_or] at hhas
    exact absurd hhas (by rw [Dir.get_nil]; simp)
  · exact ⟨p, rfl, rfl⟩

lemma Layout.Canonical.patched_eq {names : List Name} (hcanon : l.Canonical d names)
    (hs : Overwritten d s) (hlen : file.length ≤ maxInt) {dirty : List Name} {es : List RawEntry}
    (hfold : dirty.foldl s.patch file = (l.magicRaw ++ l.header) ++
      (es.flatMap octets ++ ((l.tail ++ l.pad) ++ newline :: l.post)))
    (hocts : (es.flatMap octets).length = (l.entries.flatMap octets).length) :
    ∃ file₁, s.patched dirty file = .ok file₁ ∧ decodeInto file₁ = addAll l.base 0 es {} := by
  have hcap : s.containerCapacity = l.capacity :=
    hs.containerCapacity_eq.trans hcanon.capacity_eq.symm
  have hregion : (es.flatMap octets ++ (l.tail ++ l.pad)).length = l.capacity := by
    have hlength := l.length_eq
    rw [length_append] at hlength
    rw [length_append, length_append, hocts]
    omega
  have hint : l.capacity ≤ maxInt := by
    have hfile := congrArg length l.file_eq
    have hlength := l.length_eq
    simp only [length_append] at hfile hlength
    omega
  have hdata : netcapstringTotalLen magic.length + netcapstringHeaderLen l.capacity =
      (l.magicRaw ++ l.header).length := by
    rw [length_append, hcanon.magic_length, hcanon.header_length]
  have hshape : dirty.foldl s.patch file = (l.magicRaw ++ l.header) ++
      ((es.flatMap octets ++ (l.tail ++ l.pad)) ++ newline :: l.post) := by
    rw [hfold]
    simp only [append_assoc]
  have hroom : ¬ (dirty.foldl s.patch file).length <
      (l.magicRaw ++ l.header).length + l.capacity := by
    rw [hshape, length_append, @length_append _ _ (newline :: l.post), hregion]
    omega
  have htake : ((dirty.foldl s.patch file).drop (l.magicRaw ++ l.header).length).take l.capacity =
      es.flatMap octets ++ (l.tail ++ l.pad) := by
    rw [hshape, drop_left, ← hregion, take_left]
  have hheader := isHeader_netcapstringHeaderOf (Nat.le_refl l.capacity) hint
    (checksum (es.flatMap octets ++ (l.tail ++ l.pad)))
  have hwritten : s.patched dirty file = .ok (l.magicRaw ++
      (netcapstringHeaderOf l.capacity l.capacity
        (checksum (es.flatMap octets ++ (l.tail ++ l.pad))) ++
        ((es.flatMap octets ++ (l.tail ++ l.pad)) ++ newline :: l.post))) := by
    rw [BlobStore.patched]
    simp only [hcap, hdata]
    rw [if_neg hroom, htake, hshape, ← hcanon.magic_length, append_assoc, pwrite_append]
    rw [length_netcapstringHeaderOf, hcanon.header_length]
  refine ⟨_, hwritten, ?_⟩
  have hcontainer : IsFrame (netcapstringHeaderOf l.capacity l.capacity
      (checksum (es.flatMap octets ++ (l.tail ++ l.pad))) ++
        ((es.flatMap octets ++ (l.tail ++ l.pad)) ++ ([] ++ [newline])))
      (es.flatMap octets ++ (l.tail ++ l.pad)) l.capacity :=
    ⟨_, [], rfl, hregion, by rw [hregion]; exact hheader⟩
  have hdecode := decodeInto_octets l.magicFrame hcontainer hcanon.stopped l.post
  rw [Layout.base, ← hdecode]
  simp only [append_assoc, cons_append, nil_append]

lemma length_octets_of_shape {es es' : List RawEntry}
    (h : es'.map RawEntry.shape = es.map RawEntry.shape) :
    (es'.flatMap octets).length = (es.flatMap octets).length := by
  have hsum : ∀ l : List RawEntry, (l.flatMap octets).length =
      ((l.map RawEntry.shape).map fun x => x.2.1 + x.2.2.1).sum := by
    intro l
    induction l with
    | nil => rfl
    | cons e l ih =>
      rw [flatMap_cons, length_append, ih, RawEntry.length_octets]
      rfl
  rw [hsum, hsum, h]

lemma Layout.Canonical.exists_entries {names : List Name} (hcanon : l.Canonical d names)
    (hd : decodeInto file = .ok d) (hs : Overwritten d s) (hnames : ∀ n ∈ s.dirty, n ∈ names)
    (hlen : file.length ≤ maxInt) {dirty : List Name} (hperm : dirty.Perm s.dirty) :
    ∃ es : List RawEntry, dirty.foldl s.patch file = (l.magicRaw ++ l.header) ++
        (es.flatMap octets ++ ((l.tail ++ l.pad) ++ newline :: l.post)) ∧
      es.map RawEntry.shape = l.entries.map RawEntry.shape ∧
      ∀ n, (lastOf n 0 es).map (fun p => p.2.data) = s.root.get n := by
  have hstart : (l.magicRaw ++ l.header).length = l.base := by
    rw [length_append, hcanon.header_length, Layout.base]
  have hslots : ∀ n ∈ dirty, ∃ p data, lastOf n 0 l.entries = some p ∧
      p.2.dataRaw.length = netcapstringTotalLen p.2.dataCap ∧ s.root.get n = some data ∧
      (s.slots n).data.offset = (l.magicRaw ++ l.header).length + (p.1 + p.2.nameRaw.length) ∧
      (s.slots n).data.capacity = p.2.dataCap ∧ data.length ≤ p.2.dataCap ∧
        p.2.dataCap ≤ maxInt := by
    intro n hn
    have hdirty : n ∈ s.dirty := hperm.mem_iff.1 hn
    have hhas : d.root.has n := hs.dirty n hdirty
    obtain ⟨p, hlast, hslot⟩ := l.exists_lastOf hd hhas
    obtain ⟨data, hdata⟩ := isSome_iff_exists.1 ((hs.files n).trans hhas)
    have hframe := hcanon.frames n (hnames n hdirty) p hlast
    obtain ⟨-, -, -, hfits⟩ := hs.sound n data hdata
    have hcap : (s.slots n).data.capacity = p.2.dataCap := by
      rw [hs.slots, hslot]
      rfl
    have hint : p.2.dataCap ≤ maxInt := by
      have hmem := le_sum_of_mem (mem_map_of_mem (f := fun e : RawEntry =>
        e.octets.length)
        (mem_of_lastOf hlast).1)
      rw [← length_flatMap] at hmem
      have hfile := congrArg length l.file_eq
      simp only [length_append] at hfile
      rw [RawEntry.length_octets, hframe, netcapstringTotalLen] at hmem
      omega
    refine ⟨p, data, hlast, hframe, hdata, ?_, hcap, hcap ▸ hfits, hint⟩
    rw [hstart, hs.slots, hslot]
    rfl
  obtain ⟨es, hfold, hshape, hdata⟩ := @exists_of_patches s (l.magicRaw ++ l.header)
    ((l.tail ++ l.pad) ++ newline :: l.post) l.entries dirty hslots
  refine ⟨es, ?_, hshape, fun n => ?_⟩
  · rw [← hfold]
    nth_rewrite 1 [l.file_eq]
    simp only [append_assoc]
  · rw [hdata]
    split_ifs with hn
    · rfl
    · have hall : addAll l.base 0 l.entries {} = .ok d := l.decodeInto_eq.symm.trans hd
      rw [hs.clean n fun hmem => hn (hperm.mem_iff.2 hmem), get_of_addAll hall]
      rcases lastOf n 0 l.entries with _ | p
      · exact (Dir.get_nil n).symm
      · rfl

lemma Layout.Canonical.patched_ok {names : List Name} (hcanon : l.Canonical d names)
    (hd : decodeInto file = .ok d) (hs : Overwritten d s) (hnames : ∀ n ∈ s.dirty, n ∈ names)
    (hlen : file.length ≤ maxInt) {dirty : List Name} (hperm : dirty.Perm s.dirty) :
    ∃ file₁ d₁, s.patched dirty file = .ok file₁ ∧ decodeInto file₁ = .ok d₁ ∧
      ∀ n, d₁.root.get n = s.root.get n := by
  obtain ⟨es, hfold, hshape, hdata⟩ := hcanon.exists_entries hd hs hnames hlen hperm
  obtain ⟨file₁, hpatched, hdecode⟩ :=
    hcanon.patched_eq hs hlen hfold (length_octets_of_shape hshape)
  have hall : addAll l.base 0 l.entries {} = .ok d := l.decodeInto_eq.symm.trans hd
  have hkeys : es.map RawEntry.key = l.entries.map RawEntry.key := by
    have hfst := congrArg (map fst) hshape
    rwa [map_map, map_map] at hfst
  have hfiles : ∀ e ∈ es, (s.root.get e.key).isSome := by
    intro e he
    rw [← hdata, Option.isSome_map, lastOf_isSome]
    exact mem_map_of_mem he
  have hvalid : ∀ e ∈ es, validPath e.key ∧ e.key ≠ dot := by
    intro e he
    have hmem : e.key ∈ l.entries.map RawEntry.key := hkeys ▸ mem_map_of_mem he
    obtain ⟨e₀, he₀, hkey⟩ := mem_map.1 hmem
    rw [← hkey]
    exact valid_of_addAll hall e₀ he₀
  have hroom : ([] : List Name).length + es.length ≤ maxEntryCount := by
    have hcount := length_keys_of_addAll (Nat.zero_le _) hall
    rw [keys_of_addAll hall, nil_append, ← hkeys, length_map] at hcount
    rwa [length_nil, Nat.zero_add]
  obtain ⟨d₁, hd₁⟩ := @addAll_of_refines l.base 0 es {} s.root
    (Dir.refines_nil _) hfiles hvalid hroom
  refine ⟨file₁, d₁, hpatched, hdecode.trans hd₁, fun n => ?_⟩
  rw [get_of_addAll hd₁, hdata]
  rcases s.root.get n with _ | data
  · exact Dir.get_nil n
  · rfl

lemma Layout.Canonical.roundTrips {names : List Name} (hcanon : l.Canonical d names)
    (hd : decodeInto file = .ok d) (hs : Overwritten d s) (hlen : file.length ≤ maxInt) :
    s.RoundTrips := by
  have hall : addAll l.base 0 l.entries {} = .ok d := l.decodeInto_eq.symm.trans hd
  refine (BlobStore.roundTrips_iff_fits hs.sound).2 ⟨?_, ?_⟩
  · rw [hs.keys]
    exact Nat.le_trans (length_filter_le _ _) (length_keys_of_addAll (Nat.zero_le _) hall)
  · have hfile := congrArg length l.file_eq
    have hlength := l.length_eq
    simp only [length_append, length_cons] at hfile hlength
    rw [BlobStore.totalSize, hs.containerCapacity_eq, ← hcanon.capacity_eq, ← hcanon.magic_length,
      netcapstringTotalLen, ← hcanon.header_length]
    omega

end

/-! ## Files of this writer -/

lemma exists_of_mem_raws {es : List Entry} {raws : List RawEntry}
    (h : List.Forall₂ BlobStore.Writes es raws) {r : RawEntry} (hr : r ∈ raws) :
    ∃ e ∈ es, BlobStore.Writes e r := by
  induction h with
  | nil => cases hr
  | @cons e r' es raws hw _ ih =>
    rcases mem_cons.1 hr with rfl | hr
    · exact ⟨e, mem_cons_self, hw⟩
    · obtain ⟨e', he', hw'⟩ := ih hr
      exact ⟨e', mem_cons_of_mem _ he', hw'⟩

lemma containerCapacity_of_writes {s : BlobStore} {raws : List RawEntry} {base : ℕ} {d : Decoded}
    (hwrites : List.Forall₂ BlobStore.Writes s.entries raws)
    (hall : addAll base 0 raws {} = .ok d) :
    BlobStore.containerCapacity { toDecoded := d } = s.containerCapacity := by
  have hkeys : d.keys = s.entries.map Entry.key := by
    have hpairs := congrArg (map fst) (BlobStore.octets_of_writes hwrites).2
    rw [map_map, map_map] at hpairs
    rw [keys_of_addAll hall, nil_append]
    exact hpairs
  have hlast : ∀ e ∈ s.entries, ∃ p, lastOf e.key 0 raws = some p := by
    intro e he
    have hmem : e.key ∈ raws.map RawEntry.key := by
      have hk := keys_of_addAll hall
      rw [nil_append] at hk
      rw [← hk, hkeys]
      exact mem_map_of_mem he
    exact isSome_iff_exists.1 ((lastOf_isSome 0).2 hmem)
  have hhas : ∀ k ∈ d.keys, d.root.has k := by
    intro k hk
    rw [hkeys] at hk
    obtain ⟨e, he, rfl⟩ := mem_map.1 hk
    obtain ⟨p, hp⟩ := hlast e he
    rw [Dir.has, get_of_addAll hall, hp]
    rfl
  rw [BlobStore.containerCapacity_eq, filter_eq_self.2 hhas]
  simp only [hkeys, map_map]
  rw [BlobStore.containerCapacity]
  congr 2
  refine map_congr_left fun e he => ?_
  obtain ⟨p, hp⟩ := hlast e he
  obtain ⟨hmem, hkey⟩ := mem_of_lastOf hp
  obtain ⟨e', he', hw⟩ := exists_of_mem_raws hwrites hmem
  have hslot : e'.slot = e.slot := by
    rw [(BlobStore.mem_entries.1 he').2.2, (BlobStore.mem_entries.1 he).2.2, ← hw.key, hkey]
  have hname : (d.slots e.key).name.capacity = e.slot.name.capacity := by
    rw [slots_of_addAll hall, hp, ← hslot, ← hw.nameCap]
    rfl
  have hdata : (d.slots e.key).data.capacity = e.slot.data.capacity := by
    rw [slots_of_addAll hall, hp, ← hslot, ← hw.dataCap]
    rfl
  simp only [Function.comp_apply, NetcapSlot.totalLen, hname, hdata]

/-- A file that this writer wrote is canonical for every name. -/
lemma exists_canonical_of_encode {s : BlobStore} (hs : s.Sound) {file : List Octet} {d : Decoded}
    (hencode : s.encode = some file) (hd : decodeInto file = .ok d) :
    ∃ l : Layout file, ∀ names, l.Canonical d names := by
  have hsize : s.totalSize ≤ maxInt := by
    rw [BlobStore.encode] at hencode
    split_ifs at hencode with h
    exact Nat.not_lt.1 h
  obtain ⟨raws, hwrites, hlen, hheader, hencode'⟩ := BlobStore.exists_encode hs hsize
  have hfile := some.inj (hencode.symm.trans hencode')
  let l : Layout file :=
    { magicRaw := netcapstring magic magic.length
      magicCap := magic.length
      header := netcapstringHeaderOf s.containerCapacity s.containerCapacity (checksum s.container)
      capacity := s.containerCapacity
      entries := raws
      tail := [newline]
      pad := []
      post := []
      file_eq := hfile
      magicFrame := BlobStore.isFrame_magic
      isHeader := hheader
      length_eq := hlen
      stopped := BlobStore.stopped_newline }
  have hall : addAll l.base 0 raws {} = .ok d := l.decodeInto_eq.symm.trans hd
  refine ⟨l, fun names => ⟨length_netcapstring (Nat.le_refl _), length_netcapstringHeaderOf _ _ _,
    (containerCapacity_of_writes hwrites hall).symm, BlobStore.stopped_newline, ?_⟩⟩
  intro n _ p hp
  obtain ⟨e, he, hw⟩ := exists_of_mem_raws hwrites (mem_of_lastOf hp).1
  rw [hw.dataRaw, hw.dataCap, length_netcapstring (BlobStore.fits_of_mem_entries hs he).2]

/-! ## Patched or rewritten -/

/-- Writes to existing names that fit their slots, to a file whose widths and lengths are those that
`flushInPlace` computes, leave the same contents whether the file is patched in place or rewritten.
-/
theorem inPlaceAgrees_of_canonical (file : List Octet) (d : Decoded) (sparePercent : ℕ)
    (ws : List (Name × List Octet)) (hlen : file.length ≤ maxInt) (hd : decodeInto file = .ok d)
    (hws : FitSlots d ws) (l : Layout file) (hcanon : l.Canonical d (ws.map fst)) :
    ∃ s, writeAll (opened file d sparePercent) ws = .ok s ∧ s.InPlaceAgrees file := by
  obtain ⟨s, hwrite, hs, hdirty⟩ := (overwritten_opened hd sparePercent).writeAll hws
  have hnames : ∀ n ∈ s.dirty, n ∈ ws.map fst := by
    intro n hn
    rcases (hdirty n).1 hn with hmem | hmem
    · cases hmem
    · exact hmem
  refine ⟨s, hwrite, fun dirty hperm => ?_⟩
  obtain ⟨file₁, d₁, hpatched, hd₁, hget₁⟩ := hcanon.patched_ok hd hs hnames hlen hperm
  obtain ⟨file₂, d₂, hencode, hd₂, hget₂⟩ := hcanon.roundTrips hd hs hlen
  refine ⟨file₁, d₁, file₂, d₂, hpatched, hd₁, hencode, hd₂, fun n => ?_⟩
  rw [hget₁, hget₂]

/-- A write that fits, to a file that this writer wrote. -/
theorem inPlaceAgrees_of_written : ∃ s₀ s₁ file d s, create 10 id = some s₀ ∧
    run (step id) s₀ [.writeFile [97#8] [1#8, 2#8]] = some s₁ ∧ s₁.encode = some file ∧
    decodeInto file = .ok d ∧ writeAll (opened file d 10) [([97#8], [3#8])] = .ok s ∧
    s.InPlaceAgrees file := by
  have hcheck : ((create 10 id).bind fun s₀ => run (step id) s₀ [.writeFile [97#8] [1#8, 2#8]]).any
      (fun s => s.encode.any fun file => decide (file.length ≤ maxInt) &&
        (decodeInto file).toOption.any fun d => d.root.has [97#8] &&
          decide (1 ≤ (d.slots [97#8]).data.capacity)) := by
    decide +kernel
  obtain ⟨s₁, hs₁, hfile⟩ := (any_eq_true _ _).1 hcheck
  obtain ⟨s₀, hcreate, hrun⟩ := Option.bind_eq_some_iff.mp hs₁
  obtain ⟨file, hencode, hparts⟩ := (any_eq_true _ _).1 hfile
  obtain ⟨hlen, hdecoded⟩ := Bool.and_eq_true_iff.1 hparts
  obtain ⟨d, hd, hslot⟩ := (any_eq_true _ _).1 hdecoded
  obtain ⟨hhas, hcap⟩ := Bool.and_eq_true_iff.1 hslot
  have hws : FitSlots d [([97#8], [3#8])] := by
    intro w hw
    obtain rfl := mem_singleton.1 hw
    exact ⟨hhas, of_decide_eq_true hcap⟩
  have hdecode := toOption_eq_some.1 hd
  obtain ⟨l, hcanon⟩ := exists_canonical_of_encode (sound_of_run hcreate hrun) hencode hdecode
  obtain ⟨s, hwrite, hagrees⟩ := inPlaceAgrees_of_canonical file d 10 [([97#8], [3#8])]
    (of_decide_eq_true hlen) hdecode hws l (hcanon _)
  exact ⟨s₀, s₁, file, d, s, hcreate, hrun, hencode, hdecode, hwrite, hagrees⟩

/-! ## Files with other widths -/

/-- Whether the patched file and the rewritten file hold the same under a name. Source: store.go
flushInPlace, flushFull. -/
def BlobStore.agreesAt (s : BlobStore) (file : List Octet) (n : Name) : Bool :=
  (s.patched s.dirty file).toOption.any fun file₁ => (decodeInto file₁).toOption.any fun d₁ =>
    s.encode.any fun file₂ => (decodeInto file₂).toOption.any fun d₂ => d₁.root.get n ==
      d₂.root.get n

lemma BlobStore.InPlaceAgrees.agreesAt {s : BlobStore} {file : List Octet}
    (h : s.InPlaceAgrees file) (n : Name) : s.agreesAt file n := by
  obtain ⟨file₁, d₁, file₂, d₂, hpatched, hd₁, hencode, hd₂, hget⟩ := h s.dirty (List.Perm.refl _)
  rw [BlobStore.agreesAt, hpatched, hencode]
  simp [Except.toOption, hd₁, hd₂, hget]

/-- A container with one entry and a newline, in a frame with room for one octet more. Source:
docs/architecture/zefs-format.md: "The container may have additional space padding after the
newline". -/
def paddedFile : List Octet :=
  let container := netcapstring [97#8] 1 ++ netcapstring [1#8] 1 ++ [newline]
  netcapstring magic magic.length ++ netcapstring container (container.length + 1)

/-- A container with two entries, the first with a data frame whose numbers have two digits where
one is enough. Source: netcapstring.go netcapstringHeader, which accepts any width up to 19. -/
def wideFile : List Octet :=
  let wide := zeroPadded 1 2 ++ colon :: (zeroPadded 2 1 ++ colon :: (zeroPadded 2 1 ++
    colon :: (writeCRC (checksum [space]) ++ [newline, space, newline])))
  let container := netcapstring [97#8] 1 ++ (wide ++ (netcapstring [98#8] 1 ++ (netcapstring [] 0 ++
    [newline])))
  netcapstring magic magic.length ++ netcapstring container container.length

lemma exists_not_inPlaceAgrees {file : List Octet} {ws : List (Name × List Octet)} {n : Name}
    (h : (decodeInto file).toOption.any (fun d =>
      ws.all (fun w => d.root.has w.1 && decide (w.2.length ≤ (d.slots w.1).data.capacity)) &&
        (writeAll (opened file d 10) ws).toOption.any fun s => !s.agreesAt file n) = true) :
    ∃ d s, decodeInto file = .ok d ∧ FitSlots d ws ∧ writeAll (opened file d 10) ws = .ok s ∧
      ¬ s.InPlaceAgrees file := by
  obtain ⟨d, hd, hparts⟩ := (any_eq_true _ _).1 h
  obtain ⟨hws, hwritten⟩ := Bool.and_eq_true_iff.1 hparts
  obtain ⟨s, hs, hdiffer⟩ := (any_eq_true _ _).1 hwritten
  refine ⟨d, s, toOption_eq_some.1 hd, fun w hw => ?_, toOption_eq_some.1 hs, fun hagrees => ?_⟩
  · obtain ⟨hhas, hfits⟩ := Bool.and_eq_true_iff.1 (all_eq_true.1 hws w hw)
    exact ⟨hhas, of_decide_eq_true hfits⟩
  · rw [hagrees.agreesAt n] at hdiffer
    cases hdiffer

/-- A write of one octet to `a` in a file with a wide header leaves two octets of the old frame
behind the new one, and the patched file is accepted without `b`; a write in a file with a padded
container is refused. -/
theorem flushInPlace_loses_entry :
    (∃ d s, decodeInto wideFile = .ok d ∧ FitSlots d [([97#8], [1#8])] ∧
      writeAll (opened wideFile d 10) [([97#8], [1#8])] = .ok s ∧
      ¬ s.InPlaceAgrees wideFile) ∧
    ∃ d s, decodeInto paddedFile = .ok d ∧ FitSlots d [([97#8], [2#8])] ∧
      writeAll (opened paddedFile d 10) [([97#8], [2#8])] = .ok s ∧
        ¬ s.InPlaceAgrees paddedFile := by
  refine ⟨exists_not_inPlaceAgrees (n := [98#8]) ?_, exists_not_inPlaceAgrees (n := [97#8]) ?_⟩
  · decide +kernel
  · decide +kernel

end Ze.Zefs
