import Ze.Zefs.InPlace

/-!
# Removing a name

What callers of a store can reach when operations are also refused, and what a removal does there.

`step` is the part of `attempt` that is accepted. A flush that fails ends the run: the store then
stands on a mapping that it gave up.
-/

namespace Ze.Zefs

open Ze.Lib List

/-! ## Calls that may be refused -/

namespace BlobStore

variable (s : BlobStore)

/-- The store that a refused write leaves: an invalid name is seen first, a conflict in the tree
only behind the key list and the slots. Source: store.go writeFileNoFlush. -/
def refused (name : Name) (data : List Octet) : BlobStore :=
  if validPath name = false ∨ name = dot then s else s.place name data

/-- Source: lock.go WriteLock.WriteFile. -/
def lockWriteFile (name : Name) (data : List Octet) : Option StoreError × BlobStore :=
  match s.writeFileNoFlush name data with
  | .error e => (some e, s.refused name data)
  | .ok s' => (none, { s' with lock := some true })

/-- Source: lock.go WriteLock.Remove. -/
def lockRemove (name : Name) : Option StoreError × BlobStore :=
  match s.removeNoFlush name with
  | .error e => (some e, s)
  | .ok s' => (none, { s' with lock := some true })

/-- Source: store.go. -/
def remove (range : List Name → List Name) (name : Name) : Except StoreError BlobStore :=
  (s.removeNoFlush name).bind (·.flush range)

end BlobStore

/-- One call and the store it leaves, refused or not; `none` if it has to wait for the lock or needs
it, or if its flush fails. Source: store.go, lock.go. -/
def attempt (range : List Name → List Name) (s : BlobStore) (op : Op) : Option BlobStore :=
  match op, s.lock with
  | .writeFile name data, none =>
    match s.writeFileNoFlush name data with
    | .error _ => some (s.refused name data)
    | .ok s' => (s'.flush range).toOption
  | .remove name, none =>
    match s.removeNoFlush name with
    | .error _ => some s
    | .ok s' => (s'.flush range).toOption
  | .importFrom data, none =>
    match s.importNoFlush data with
    | .error _ => some s
    | .ok s' => (s'.flush range).toOption
  | .lock, none => some { s with lock := some false }
  | .lockWriteFile name data, some _ => some (s.lockWriteFile name data).2
  | .lockRemove name, some _ => some (s.lockRemove name).2
  | .release, some true => ((s.flush range).map ({ · with lock := none })).toOption
  | .release, some false => some { s with lock := none }
  | _, _ => none

/-- The stores that calls reach from a file that was opened. Source: store.go Open, Create.
-/
def Reached (range : List Name → List Name) (s : BlobStore) : Prop :=
  ∃ file d sparePercent ops, decodeInto file = .ok d ∧
    run (attempt range) (opened file d sparePercent) ops = some s

section

variable {range : List Name → List Name} {s s' : BlobStore}

variable {data : List Octet} {e : StoreError} {sparePercent : ℕ}

lemma BlobStore.refused_eq_place {name : Name} (hvalid : ¬ (validPath name = false ∨ name = dot))
    (h : s.writeFileNoFlush name data = .error e) :
    s.refused name data = s.place name data ∧ s.root.has name = false := by
  refine ⟨if_neg hvalid, Bool.eq_false_iff.2 fun hhas => ?_⟩
  obtain ⟨root, hset⟩ := Dir.exists_set_of_has hhas data
  rw [writeFileNoFlush, if_neg hvalid, hset] at h
  cases h

lemma BlobStore.root_place (s : BlobStore) (name : Name) (data : List Octet) :
    (s.place name data).root = s.root := by
  unfold place
  split_ifs <;> rfl

lemma BlobStore.sound_of_refused {name : Name}
    (hs : s.Sound) (h : s.writeFileNoFlush name data = .error e) :
    (s.refused name data).Sound := by
  by_cases hvalid : validPath name = false ∨ name = dot
  · rwa [refused, if_pos hvalid]
  obtain ⟨hplace, hhas⟩ := refused_eq_place hvalid h
  obtain ⟨hkeep, -, hother, -, -⟩ := place_spec hs name data
  rw [hplace]
  intro n d hget
  rw [root_place] at hget
  obtain ⟨hmem, hvalid', hname, hdata⟩ := hs n d hget
  have hne : n ≠ name := by
    rintro rfl
    rw [Dir.has, hget] at hhas
    cases hhas
  rw [hother n hne]
  exact ⟨hkeep n hmem, hvalid', hname, hdata⟩

lemma sound_of_attempt {op : Op} (hs : s.Sound) (h : attempt range s op = some s') : s'.Sound := by
  have hflush : ∀ {x : Except StoreError BlobStore} {r : StoreError → BlobStore},
      (∀ e, x = .error e → (r e).Sound) →
      (match x with | .error e => some (r e) | .ok s₁ => (s₁.flush range).toOption) = some s' →
      s'.Sound := by
    intro x r hr hx
    rcases x with e | s₁
    · cases hx
      exact hr e rfl
    · exact BlobStore.sound_of_flush (toOption_eq_some.1 hx)
  rcases op with ⟨name, data⟩ | name | data | _ | ⟨name, data⟩ | name | _ <;>
    rcases hl : s.lock with _ | _ | _ <;> simp only [attempt, hl, reduceCtorEq] at h
  case writeFile.none => exact hflush (fun e he => BlobStore.sound_of_refused hs he) h
  case remove.none => exact hflush (fun _ _ => hs) h
  case importFrom.none => exact hflush (fun _ _ => hs) h
  case lock.none =>
    cases h
    exact hs
  case lockWriteFile.some.false | lockWriteFile.some.true =>
    cases h
    rw [BlobStore.lockWriteFile]
    rcases hwrite : s.writeFileNoFlush name data with e | s₁
    · exact BlobStore.sound_of_refused hs hwrite
    · have hsound : s₁.Sound := BlobStore.sound_of_write hs hwrite
      exact hsound
  case lockRemove.some.false | lockRemove.some.true =>
    cases h
    rw [BlobStore.lockRemove]
    rcases hremove : s.removeNoFlush name with e | s₁
    · exact hs
    · have hsound : s₁.Sound := BlobStore.sound_of_remove hs hremove
      exact hsound
  case release.some.false =>
    cases h
    exact hs
  case release.some.true =>
    obtain ⟨s₁, hflushed, rfl⟩ := Dir.map_eq_ok (toOption_eq_some.1 h)
    have hsound : s₁.Sound := BlobStore.sound_of_flush hflushed
    exact hsound

lemma sound_of_reached (h : Reached range s) : s.Sound := by
  obtain ⟨file, d, sparePercent, ops, hdecode, hrun⟩ := h
  refine run_inv (I := fun s : BlobStore => s.Sound) ?_ ops _ s (sound_of_decodeInto hdecode) hrun
  intro s op s' hI hattempt
  exact sound_of_attempt hI hattempt

lemma exists_opened_of_create (h : create sparePercent range = some s) :
    ∃ file d, decodeInto file = .ok d ∧ s = opened file d sparePercent := by
  have hfull := toOption_eq_some.1 h
  rw [BlobStore.flush] at hfull
  simp only [BlobStore.flushFull] at hfull
  generalize BlobStore.encode { sparePercent := sparePercent } = encoded at hfull
  rcases encoded with _ | file
  · cases hfull
  simp only at hfull
  rcases hdecode : decodeInto file with e | d <;> rw [hdecode] at hfull
  · cases hfull
  · exact ⟨file, d, hdecode, (Except.ok.inj hfull).symm⟩

lemma reached_of_create {s₀ : BlobStore} {ops : List Op}
    (hcreate : create sparePercent range = some s₀) (hrun : run (attempt range) s₀ ops = some s) :
    Reached range s := by
  obtain ⟨file, d, hdecode, rfl⟩ := exists_opened_of_create hcreate
  exact ⟨file, d, sparePercent, ops, hdecode, hrun⟩

end

/-! ## What a removal leaves -/

/-- Whether a name is a directory of a tree. Source: tree.go node.children. -/
def Dir.IsDir (cs : Dir) (name : Name) : Prop :=
  ∃ children, cs.walk (split name).1 (split name).2 = some (.dir children)

namespace BlobStore

variable {s s₁ : BlobStore} {name : Name}

/-- The entries under the other names. Source: store.go encode. -/
def others (s : BlobStore) (name : Name) : List Entry := s.entries.filter fun e => e.key ≠ name

/-- The entries under the other names are within the limit of the decoder, and their slots take no
more room than an `int` can say. Source: store.go maxEntryCount, encode. -/
def FitsWithout (s : BlobStore) (name : Name) : Prop :=
  (s.others name).length ≤ maxEntryCount ∧
    netcapstringTotalLen magic.length + netcapstringTotalLen (((s.others name).map fun e =>
      e.slot.name.totalLen + e.slot.data.totalLen).sum + 1) ≤ maxInt

instance (s : BlobStore) (name : Name) : Decidable (s.FitsWithout name) :=
  inferInstanceAs (Decidable (_ ∧ _))

lemma exists_removeNoFlush_iff :
    (∃ s₁, s.removeNoFlush name = .ok s₁) ↔ s.root.has name ∨ s.root.IsDir name := by
  have hnode := Dir.isSome_removeRecursive s.root (split name).1 (split name).2
  rw [removeNoFlush]
  rcases hrem : Dir.removeRecursive s.root (split name).1 (split name).2 with _ | root <;>
    rw [hrem] at hnode
  · constructor
    · rintro ⟨s₁, h⟩
      cases h
    · rintro (hhas | ⟨children, hdir⟩)
      · obtain ⟨d, hfile⟩ := Dir.exists_file_of_has hhas
        rw [hfile] at hnode
        cases hnode
      · rw [hdir] at hnode
        cases hnode
  · refine ⟨fun _ => ?_, fun _ => ⟨_, rfl⟩⟩
    obtain ⟨node, hwalk⟩ := Option.isSome_iff_exists.1 hnode.symm
    rcases node with d | children
    · refine .inl ?_
      rw [Dir.has, Dir.get, hwalk]
      rfl
    · exact .inr ⟨children, hwalk⟩

lemma removeNoFlush_eq_ok (h : s.removeNoFlush name = .ok s₁) :
    Dir.removeRecursive s.root (split name).1 (split name).2 = some s₁.root ∧
      s₁.keys = s.keys.erase name ∧ s₁.slots = s.slots.put name {} ∧ s₁.layoutChanged := by
  rw [removeNoFlush] at h
  rcases hrem : Dir.removeRecursive s.root (split name).1 (split name).2 with _ | root <;>
    rw [hrem] at h
  · cases h
  · cases h
    exact ⟨rfl, rfl, rfl, rfl⟩

lemma flush_of_remove (h : s.removeNoFlush name = .ok s₁) (range : List Name → List Name) :
    s₁.flush range = s₁.flushFull := by
  obtain ⟨-, -, -, hlayout⟩ := removeNoFlush_eq_ok h
  rw [flush]
  rcases s₁.backing with _ | file
  · rfl
  · simp only [hlayout, Bool.true_eq_false, false_and, if_false]

lemma entries_of_remove (hfile : s.root.has name) (h : s.removeNoFlush name = .ok s₁) :
    s₁.entries = s.others name := by
  obtain ⟨hrem, hkeys, hslots, -⟩ := removeNoFlush_eq_ok h
  have hget := Dir.get_of_remove_file hfile hrem
  have hsame : ∀ key ≠ name, ((s₁.root.get key).map fun data =>
      (⟨key, data, s₁.slots key⟩ : Entry)) =
        (s.root.get key).map fun data => ⟨key, data, s.slots key⟩ := by
    intro key hkey
    rw [hget, if_neg hkey, hslots, Slots.put_of_ne _ hkey]
  have hgone : ((s₁.root.get name).map fun data => (⟨name, data, s₁.slots name⟩ : Entry)) =
      none := by
    rw [hget, if_pos rfl, Option.map_none]
  have hfilter : ∀ keys : List Name, (keys.filterMap fun key => (s₁.root.get key).map fun data =>
      (⟨key, data, s₁.slots key⟩ : Entry)) = (keys.filterMap fun key => (s.root.get key).map
        fun data => (⟨key, data, s.slots key⟩ : Entry)).filter fun e => e.key ≠ name := by
    intro keys
    induction keys with
    | nil => rfl
    | cons key keys ih =>
      rw [filterMap_cons, filterMap_cons, ih]
      by_cases hkey : key = name
      · rw [hkey, hgone]
        rcases s.root.get name with _ | data
        · rfl
        · simp
      · rw [hsame key hkey]
        rcases s.root.get key with _ | data
        · rfl
        · simp [hkey]
  -- the key that is erased has no entry any more
  have herase : ∀ keys : List Name, ((keys.erase name).filterMap fun key => (s₁.root.get key).map
      fun data => (⟨key, data, s₁.slots key⟩ : Entry)) = keys.filterMap fun key =>
        (s₁.root.get key).map fun data => (⟨key, data, s₁.slots key⟩ : Entry) := by
    intro keys
    induction keys with
    | nil => rfl
    | cons key keys ih =>
      by_cases hkey : key = name
      · rw [hkey, erase_cons_head, filterMap_cons, hgone]
      · rw [erase_cons_tail (by simpa using hkey), filterMap_cons, filterMap_cons, ih]
  rw [entries, hkeys, herase, hfilter]
  rfl

lemma fits_of_remove_iff (hfile : s.root.has name) (h : s.removeNoFlush name = .ok s₁) :
    s₁.Fits ↔ s.FitsWithout name := by
  rw [Fits, FitsWithout, ← length_entries, totalSize, containerCapacity, entries_of_remove hfile h]

/-! ## One file and nothing else -/

/-- A removal, in a batch and with its flush, succeeds exactly when the name is a file, and every
other name then keeps what it had, in memory and in what the flush loads again. Source: store.go
Remove; lock.go Remove. -/
structure RemovesFile (range : List Name → List Name) (s : BlobStore) (name : Name) : Prop where
  batched : (∃ s₁, s.removeNoFlush name = .ok s₁) ↔ s.root.has name = true
  flushed : (∃ s₂, s.remove range name = .ok s₂) ↔ s.root.has name = true
  memory : ∀ s₁, s.removeNoFlush name = .ok s₁ → ∀ n ≠ name, s₁.root.get n = s.root.get n
  reload : ∀ s₂, s.remove range name = .ok s₂ → ∀ n ≠ name, s₂.root.get n = s.root.get n

lemma has_of_isDir (h : s.root.IsDir name) : s.root.has name = false := by
  obtain ⟨children, hwalk⟩ := h
  rw [Dir.has, Dir.get, hwalk]
  rfl

lemma remove_eq_ok {range : List Name → List Name} {s₂ : BlobStore} :
    s.remove range name = .ok s₂ ↔
      ∃ s₁, s.removeNoFlush name = .ok s₁ ∧ s₁.flushFull = .ok s₂ := by
  rw [remove, bind_eq_ok]
  constructor
  · rintro ⟨s₁, hremove, hflush⟩
    exact ⟨s₁, hremove, (flush_of_remove hremove range) ▸ hflush⟩
  · rintro ⟨s₁, hremove, hflush⟩
    exact ⟨s₁, hremove, (flush_of_remove hremove range).trans hflush⟩

lemma removesFile_iff_of_sound (hs : s.Sound) (range : List Name → List Name) (name : Name) :
    RemovesFile range s name ↔
      ¬ s.root.IsDir name ∧ (s.root.has name → s.FitsWithout name) := by
  constructor
  · intro h
    refine ⟨fun hdir => ?_, fun hfile => ?_⟩
    · have hfile := h.batched.1 (exists_removeNoFlush_iff.2 (.inr hdir))
      rw [has_of_isDir hdir] at hfile
      cases hfile
    · obtain ⟨s₂, hremove⟩ := h.flushed.2 hfile
      obtain ⟨s₁, hbatched, hflush⟩ := remove_eq_ok.1 hremove
      rw [← fits_of_remove_iff hfile hbatched]
      exact (exists_flushFull_iff (sound_of_remove hs hbatched)).1 ⟨s₂, hflush⟩
  · rintro ⟨hdir, hfits⟩
    have hfile : ∀ s₁, s.removeNoFlush name = .ok s₁ → s.root.has name :=
      fun s₁ h => (exists_removeNoFlush_iff.1 ⟨s₁, h⟩).resolve_right hdir
    have hmemory : ∀ s₁, s.removeNoFlush name = .ok s₁ → ∀ n ≠ name,
        s₁.root.get n = s.root.get n := by
      intro s₁ h n hn
      rw [Dir.get_of_remove_file (hfile s₁ h) (removeNoFlush_eq_ok h).1, if_neg hn]
    refine ⟨⟨fun ⟨s₁, h⟩ => hfile s₁ h, fun h => exists_removeNoFlush_iff.2 (.inl h)⟩,
      ⟨?_, fun h => ?_⟩, hmemory, ?_⟩
    · rintro ⟨s₂, hremove⟩
      obtain ⟨s₁, hbatched, -⟩ := remove_eq_ok.1 hremove
      exact hfile s₁ hbatched
    · obtain ⟨s₁, hbatched⟩ := exists_removeNoFlush_iff.2 (.inl h)
      have hroom := (fits_of_remove_iff h hbatched).2 (hfits h)
      obtain ⟨s₂, hflush⟩ := (exists_flushFull_iff (sound_of_remove hs hbatched)).2 hroom
      exact ⟨s₂, remove_eq_ok.2 ⟨s₁, hbatched, hflush⟩⟩
    · intro s₂ hremove n hn
      obtain ⟨s₁, hbatched, hflush⟩ := remove_eq_ok.1 hremove
      rw [get_of_flushFull (sound_of_remove hs hbatched) hflush, hmemory s₁ hbatched n hn]

end BlobStore

/-- In every store that calls reach, whether they were accepted or refused, a removal succeeds
exactly for a file and leaves every other name as it was, in memory and on disk, iff the
name is no directory and, where it is a file, the entries under the other names can be written. -/
theorem removesFile_iff (range : List Name → List Name) (s : BlobStore) (name : Name)
    (h : Reached range s) :
    BlobStore.RemovesFile range s name ↔
      ¬ s.root.IsDir name ∧ (s.root.has name → s.FitsWithout name) :=
  BlobStore.removesFile_iff_of_sound (sound_of_reached h) range name

/-- A file is removed beside another one. -/
theorem removesFile_of_two_files : ∃ s, Reached id s ∧ s.root.has [97#8] ∧
    BlobStore.RemovesFile id s [97#8] := by
  have hrun : ((create 10 id).bind fun s₀ => run (attempt id) s₀ [.writeFile [97#8] [1#8],
      .writeFile [98#8, slash, 99#8] [2#8]]).any (fun s => s.root.has [97#8] &&
        decide (s.FitsWithout [97#8])) := by
    decide +kernel
  obtain ⟨s, hs, hcond⟩ := (Option.any_eq_true _ _).1 hrun
  obtain ⟨s₀, hcreate, hrun⟩ := Option.bind_eq_some_iff.1 hs
  obtain ⟨hfile, hfits⟩ := Bool.and_eq_true_iff.1 hcond
  have hreached := reached_of_create hcreate hrun
  refine ⟨s, hreached, hfile, ?_⟩
  apply (removesFile_iff id s [97#8] hreached).2
  refine ⟨fun hdir => ?_, fun _ => of_decide_eq_true hfits⟩
  rw [BlobStore.has_of_isDir hdir] at hfile
  cases hfile

/-- The removal of a directory succeeds, and takes the file below it along, in memory and on disk.
-/
theorem remove_takes_directory : ∃ s s₂, Reached id s ∧ s.root.has [97#8] = false ∧
    s.root.get [97#8, slash, 98#8] = some [1#8] ∧ s.remove id [97#8] = .ok s₂ ∧
    s₂.root.get [97#8, slash, 98#8] = none ∧ ¬ BlobStore.RemovesFile id s [97#8] := by
  have hrun : ((create 10 id).bind fun s₀ => run (attempt id) s₀ [.writeFile [97#8, slash, 98#8]
      [1#8]]).any (fun s => (s.root.has [97#8] == false) &&
        ((s.root.get [97#8, slash, 98#8] == some [1#8]) &&
          (s.remove id [97#8]).toOption.any fun s₂ =>
            s₂.root.get [97#8, slash, 98#8] == none)) := by
    decide +kernel
  obtain ⟨s, hs, hcond⟩ := (Option.any_eq_true _ _).1 hrun
  obtain ⟨s₀, hcreate, hrun⟩ := Option.bind_eq_some_iff.1 hs
  simp only [Bool.and_eq_true, beq_iff_eq, Option.any_eq_true] at hcond
  obtain ⟨hnone, hbelow, s₂, hremove, hgone⟩ := hcond
  have hok := toOption_eq_some.1 hremove
  refine ⟨s, s₂, reached_of_create hcreate hrun, hnone, hbelow, hok, hgone, fun h => ?_⟩
  rw [h.flushed.1 ⟨s₂, hok⟩] at hnone
  cases hnone

end Ze.Zefs
