import Ze.Zefs.Removal

/-!
# A batch of calls under one write lock

The calls of a `WriteLock` between `Lock` and `Release`, whether they succeed or not, and what they
do to the key list and the tree.
-/

namespace Ze.Zefs

open Ze.Lib List

/-! ## Calls -/

/-- A call of a write lock that may change the store. Source: lock.go WriteLock.WriteFile,
WriteLock.Remove. -/
inductive Call
  | writeFile (name : Name) (data : List Octet)
  | remove (name : Name)

/-- The error of a call and the store it leaves. Source: lock.go WriteLock.WriteFile,
WriteLock.Remove. -/
def BlobStore.call (s : BlobStore) : Call → Option StoreError × BlobStore
  | .writeFile name data => s.lockWriteFile name data
  | .remove name => s.lockRemove name

/-- Every call leaves a store. Source: lock.go. -/
def callStep (s : BlobStore) (c : Call) : Option BlobStore := some (s.call c).2

/-! ## Tidy stores -/

/-- The key list has no duplicates and lists the files of the tree. Source: store.go BlobStore.
-/
structure Decoded.Tidy (d : Decoded) : Prop where
  nodup : d.keys.Nodup
  listed : ∀ n, n ∈ d.keys ↔ d.root.has n = true

namespace BlobStore

variable {s s' : BlobStore} {name : Name} {data : List Octet}

lemma keys_place (s : BlobStore) (name : Name) (data : List Octet) :
    (s.place name data).keys = if s.root.has name then s.keys else s.keys ++ [name] := by
  unfold place
  split_ifs <;> rfl

lemma writeFileNoFlush_eq_ok (h : s.writeFileNoFlush name data = .ok s') :
    Dir.set data s.root (split name).1 (split name).2 = .ok s'.root ∧
      s'.keys = (s.place name data).keys := by
  obtain ⟨-, h⟩ := ite_error_eq_ok.1 h
  rcases hset : Dir.set data s.root (split name).1 (split name).2 with e | root <;> rw [hset] at h
  · cases h
  · cases h
    exact ⟨rfl, rfl⟩

lemma tidy_of_write (ht : s.Tidy) (h : s.writeFileNoFlush name data = .ok s') : s'.Tidy := by
  obtain ⟨hset, hkeys⟩ := writeFileNoFlush_eq_ok h
  rw [keys_place] at hkeys
  have hhas : ∀ n, s'.root.has n ↔ n = name ∨ s.root.has n := by
    intro n
    rw [Dir.has, Dir.get_of_set hset]
    by_cases hn : n = name
    · rw [if_pos hn]
      exact iff_of_true rfl (.inl hn)
    · rw [if_neg hn]
      exact ⟨.inr, fun hor => hor.resolve_left hn⟩
  by_cases hold : s.root.has name
  · rw [if_pos hold] at hkeys
    refine ⟨hkeys ▸ ht.nodup, fun n => ?_⟩
    rw [hkeys, ht.listed, hhas]
    refine ⟨.inr, ?_⟩
    rintro (rfl | hn)
    · exact hold
    · exact hn
  · rw [if_neg hold] at hkeys
    have hnew : name ∉ s.keys := fun hmem => hold ((ht.listed name).1 hmem)
    refine ⟨?_, fun n => ?_⟩
    · rw [hkeys]
      exact nodup_append.2 ⟨ht.nodup, by simp, fun a ha b hb hab =>
        hnew (mem_singleton.1 hb ▸ hab ▸ ha)⟩
    · rw [hkeys, mem_append, mem_singleton, ht.listed, hhas, or_comm]

lemma tidy_of_remove (ht : s.Tidy) (hfree : ∀ x, s.root.has x → ¬ Below name x)
    (h : s.removeNoFlush name = .ok s') : s'.Tidy := by
  obtain ⟨hrem, hkeys, -, -⟩ := removeNoFlush_eq_ok h
  refine ⟨?_, fun n => ?_⟩
  · rw [hkeys]
    exact ht.nodup.erase name
  · rw [hkeys, ht.nodup.mem_erase_iff, ht.listed, Dir.has, Dir.has, Dir.get_of_remove hrem]
    by_cases hn : Within name n
    · rw [if_pos hn]
      refine iff_of_false ?_ (by simp)
      rintro ⟨hne, hhas⟩
      exact hfree n hhas (hn.resolve_left hne)
    · rw [if_neg hn]
      exact ⟨fun hc => hc.2, fun hc => ⟨fun hne => hn (.inl hne), hc⟩⟩

lemma isDir_of_below {x : Name} (hx : s.root.has x) (hbelow : Below name x) :
    s.root.IsDir name := by
  obtain ⟨d, hfile⟩ := Dir.exists_file_of_has hx
  obtain ⟨rest, rfl⟩ := hbelow
  rw [append_assoc, singleton_append, split_append_slash] at hfile
  exact Dir.walk_of_append hfile

lemma not_tidy_of_remove (ht : s.Tidy) {x : Name} (hx : s.root.has x)
    (hbelow : Below name x) (h : s.removeNoFlush name = .ok s') : ¬ s'.Tidy := by
  intro ht'
  obtain ⟨hrem, hkeys, -, -⟩ := removeNoFlush_eq_ok h
  have hlisted : x ∈ s'.keys := by
    rw [hkeys, mem_erase_of_ne hbelow.ne]
    exact (ht.listed x).2 hx
  have hgone := (ht'.listed x).1 hlisted
  rw [Dir.has, Dir.get_of_remove hrem, if_pos (.inr hbelow)] at hgone
  cases hgone

end BlobStore

/-! ## Clear calls -/

/-- A name that cannot be set: it is a directory, or a name above it is a file. Source: tree.go
set. -/
def Dir.Clash (cs : Dir) (name : Name) : Prop :=
  cs.IsDir name ∨ ∃ x, Below x name ∧ cs.has x = true

/-- A call that goes well: a write without a conflict, or under an invalid name; a removal with no
file below the name. Source: store.go writeFileNoFlush, removeNoFlush. -/
def Clear (s : BlobStore) : Call → Prop
  | .writeFile name _ => (validPath name = false ∨ name = dot) ∨ ¬ s.root.Clash name
  | .remove name => ∀ x, s.root.has x = true → ¬ Below name x

lemma Dir.exists_error_iff (data : List Octet) (cs : Dir) (name : Name) :
    (∃ e, set data cs (split name).1 (split name).2 = .error e) ↔ cs.Clash name := by
  rw [set_eq_error_iff]
  apply or_congr Iff.rfl
  constructor
  · rintro ⟨qs, r, rs, d, hsplit, hwalk⟩
    obtain ⟨x, hx, hbelow⟩ := exists_above hsplit
    refine ⟨x, hbelow, ?_⟩
    rw [has, get, hx, hwalk]
    rfl
  · rintro ⟨x, ⟨rest, rfl⟩, hhas⟩
    obtain ⟨d, hfile⟩ := exists_file_of_has hhas
    rw [append_assoc, singleton_append, split_append_slash]
    exact ⟨_, _, _, d, rfl, hfile⟩

/-- The key list, the slots, the marks and the tree are the same. Source: store.go BlobStore.
-/
structure Unchanged (s s' : BlobStore) : Prop where
  keys : s'.keys = s.keys
  slots : s'.slots = s.slots
  dirty : s'.dirty = s.dirty
  added : s'.added = s.added
  root : s'.root = s.root

/-- A call that changes nothing if it is a write that is refused. Source: lock.go
WriteLock.WriteFile. -/
def Harmless (s : BlobStore) (c : Call) : Prop :=
  ∀ name data e, c = .writeFile name data → (s.call c).1 = some e → Unchanged s (s.call c).2

lemma clear_writeFile_iff {s : BlobStore} (ht : s.Tidy) (name : Name) (data : List Octet) :
    Clear s (.writeFile name data) ↔ Harmless s (.writeFile name data) ∧
      (s.call (.writeFile name data)).2.Tidy := by
  rw [Clear, BlobStore.call, BlobStore.lockWriteFile]
  have hclash := Dir.exists_error_iff data s.root name
  by_cases hvalid : validPath name = false ∨ name = dot
  · have hwrite : s.writeFileNoFlush name data = .error .invalidName := by
      rw [BlobStore.writeFileNoFlush, if_pos hvalid]
    have hkept : s.refused name data = s := if_pos hvalid
    refine iff_of_true (.inl hvalid) ⟨fun _ _ _ _ _ => ?_, ?_⟩
    · rw [BlobStore.call, BlobStore.lockWriteFile, hwrite, hkept]
      exact ⟨rfl, rfl, rfl, rfl, rfl⟩
    · rw [hwrite, hkept]
      exact ht
  · rcases hwrite : s.writeFileNoFlush name data with e | s'
    · -- the conflict is seen behind the key list
      obtain ⟨hplace, hnew⟩ := BlobStore.refused_eq_place hvalid hwrite
      have herror : ∃ e, Dir.set data s.root (split name).1 (split name).2 = .error e := by
        rw [BlobStore.writeFileNoFlush, if_neg hvalid] at hwrite
        rcases hset : Dir.set data s.root (split name).1 (split name).2 with e' | root
        · exact ⟨e', rfl⟩
        · rw [hset] at hwrite
          cases hwrite
      refine iff_of_false ?_ ?_
      · exact fun hor => hor.elim hvalid fun hno => hno (hclash.1 herror)
      · rintro ⟨hharmless, -⟩
        have hkeys := (hharmless name data e rfl (by
          rw [BlobStore.call, BlobStore.lockWriteFile, hwrite])).keys
        rw [BlobStore.call, BlobStore.lockWriteFile, hwrite, hplace, BlobStore.keys_place, hnew]
          at hkeys
        simp at hkeys
    · have hset := (BlobStore.writeFileNoFlush_eq_ok hwrite).1
      have htidy : s'.Tidy := BlobStore.tidy_of_write ht hwrite
      refine iff_of_true (.inr fun hc => ?_) ⟨fun _ _ e _ he => ?_, htidy⟩
      · obtain ⟨e, he⟩ := hclash.2 hc
        rw [hset] at he
        cases he
      · rw [BlobStore.call, BlobStore.lockWriteFile, hwrite] at he
        cases he

lemma clear_remove_iff {s : BlobStore} (ht : s.Tidy) (name : Name) :
    Clear s (.remove name) ↔ (s.call (.remove name)).2.Tidy := by
  rw [Clear, BlobStore.call, BlobStore.lockRemove]
  rcases hremove : s.removeNoFlush name with e | s'
  · refine iff_of_true (fun x hx hbelow => ?_) ht
    obtain ⟨s', hs'⟩ := BlobStore.exists_removeNoFlush_iff.2
      (.inr (BlobStore.isDir_of_below hx hbelow))
    rw [hs'] at hremove
    cases hremove
  · constructor
    · intro hfree
      have htidy : s'.Tidy := BlobStore.tidy_of_remove ht hfree hremove
      exact htidy
    · intro htidy x hx hbelow
      exact BlobStore.not_tidy_of_remove ht hx hbelow hremove htidy

lemma clear_iff {s : BlobStore} (ht : s.Tidy) (c : Call) :
    Clear s c ↔ Harmless s c ∧ (s.call c).2.Tidy := by
  rcases c with ⟨name, data⟩ | name
  · exact clear_writeFile_iff ht name data
  · rw [clear_remove_iff ht]
    refine ⟨fun htidy => ⟨fun _ _ _ hc _ => (by cases hc), htidy⟩, fun h => h.2⟩

/-! ## Batches -/

/-- In every store that calls of a batch reach the key list has no duplicates and lists the files of
the tree, and every refused write leaves the store unchanged. Source: lock.go WriteLock. -/
structure Orderly (s₀ : BlobStore) (calls : List Call) : Prop where
  tidy : ∀ before rest s, calls = before ++ rest → run callStep s₀ before = some s → s.Tidy
  harmless : ∀ before c rest s, calls = before ++ c :: rest → run callStep s₀ before = some s →
    Harmless s c

lemma orderly_nil (s₀ : BlobStore) : Orderly s₀ [] ↔ s₀.Tidy := by
  constructor
  · intro h
    exact h.tidy [] [] s₀ rfl rfl
  · intro ht
    refine ⟨fun before rest s hcalls hrun => ?_, fun before c rest s hcalls _ => ?_⟩
    · obtain ⟨rfl, -⟩ := append_eq_nil_iff.1 hcalls.symm
      cases hrun
      exact ht
    · simp at hcalls

lemma orderly_cons (s₀ : BlobStore) (c : Call) (calls : List Call) :
    Orderly s₀ (c :: calls) ↔ s₀.Tidy ∧ Harmless s₀ c ∧ Orderly (s₀.call c).2 calls := by
  constructor
  · intro h
    refine ⟨h.tidy [] _ s₀ rfl rfl, h.harmless [] c calls s₀ rfl rfl, ?_, ?_⟩
    · intro before rest s hcalls hrun
      exact h.tidy (c :: before) rest s (by rw [hcalls, cons_append]) hrun
    · intro before c' rest s hcalls hrun
      exact h.harmless (c :: before) c' rest s (by rw [hcalls, cons_append]) hrun
  · rintro ⟨ht, hharmless, hrest⟩
    refine ⟨?_, ?_⟩
    · rintro (_ | ⟨c', before⟩) rest s hcalls hrun
      · cases hrun
        exact ht
      · rw [cons_append] at hcalls
        obtain ⟨rfl, htail⟩ := cons.inj hcalls
        exact hrest.tidy before rest s htail hrun
    · rintro (_ | ⟨c', before⟩) c'' rest s hcalls hrun
      · cases hrun
        obtain ⟨rfl, -⟩ := cons.inj hcalls
        exact hharmless
      · rw [cons_append] at hcalls
        obtain ⟨rfl, htail⟩ := cons.inj hcalls
        exact hrest.harmless before c'' rest s htail hrun

/-- A batch of calls is orderly exactly when it starts with a tidy store and every call is clear in
the store that it meets. -/
theorem orderly_iff (s₀ : BlobStore) (calls : List Call) :
    Orderly s₀ calls ↔ s₀.Tidy ∧ Meets callStep Clear s₀ calls := by
  induction calls generalizing s₀ with
  | nil =>
    rw [orderly_nil]
    exact ⟨fun ht => ⟨ht, trivial⟩, fun h => h.1⟩
  | cons c calls ih =>
    rw [orderly_cons, ih]
    constructor
    · rintro ⟨ht, hharmless, htidy, hmeets⟩
      refine ⟨ht, (clear_iff ht c).2 ⟨hharmless, htidy⟩, fun s' hs' => ?_⟩
      cases hs'
      exact hmeets
    · rintro ⟨ht, hclear, hmeets⟩
      obtain ⟨hharmless, htidy⟩ := (clear_iff ht c).1 hclear
      exact ⟨ht, hharmless, htidy, hmeets _ rfl⟩

/-- A write that meets a directory is refused and leaves its name in the key list: a new store that
is tidy does not stay so. -/
theorem writeFile_leaves_key : ∃ s₀, create 10 id = some s₀ ∧ s₀.Tidy ∧
    ¬ Orderly s₀ [.writeFile [97#8, slash, 98#8] [], .writeFile [97#8] []] := by
  have hrun : (create 10 id).any (fun s₀ => s₀.keys.isEmpty && (s₀.root.isEmpty &&
      (run callStep s₀ [.writeFile [97#8, slash, 98#8] []]).any fun s =>
        (s.keys == [[97#8, slash, 98#8]]) &&
          (((s.call (.writeFile [97#8] [])).1 == some (.tree .isDirectory)) &&
            ((s.call (.writeFile [97#8] [])).2.keys == [[97#8, slash, 98#8], [97#8]])))) =
      true := by
    decide +kernel
  obtain ⟨s₀, hcreate, hcond⟩ := (Option.any_eq_true _ _).mp hrun
  simp only [Bool.and_eq_true, beq_iff_eq, Option.any_eq_true, List.isEmpty_iff] at hcond
  obtain ⟨hkeys, hroot, s, hs, hbefore, hrefused, hafter⟩ := hcond
  refine ⟨s₀, hcreate, ⟨?_, fun n => ?_⟩, fun h => ?_⟩
  · rw [hkeys]
    exact List.Pairwise.nil
  · rw [hkeys, hroot, Dir.has, Dir.get_nil]
    simp
  · have hunchanged := h.harmless [.writeFile [97#8, slash, 98#8] []] _ [] s rfl hs [97#8] [] _ rfl
      hrefused
    have hsame := hunchanged.keys
    rw [hafter, hbefore] at hsame
    simp at hsame

end Ze.Zefs
