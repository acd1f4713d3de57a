import Ze.LocRib.Group

/-!
# The sharded Loc-RIB

`Rib` holds, for each address family, a list of shards; a prefix lives in the shard its hash names.
`Table` is the same content without shards. The sharded Loc-RIB refines the table (`Refines`) as
long as a prefix hashes as its masked form does: a store keys its entries by the masked prefix while
the hash is taken of the prefix as given.
-/

namespace Ze.LocRib

open List

open Ze.Net (Prefix)
open Function (update update_of_ne update_self)

abbrev Store (T : Type) : Type :=
  Prefix → Option T

namespace Store

variable {T : Type}

/-- Source: store_bart.go NewStore. -/
def empty : Store T := fun _ => none

/-- Source: store_bart.go. -/
def lookup (s : Store T) (pfx : Prefix) : Option T :=
  if pfx.isValid then s pfx.masked else none

/-- Source: store_bart.go. -/
def insert (s : Store T) (pfx : Prefix) (v : T) : Store T :=
  if pfx.isValid then update s pfx.masked (some v) else s

/-- Source: store_bart.go. -/
def delete (s : Store T) (pfx : Prefix) : Store T :=
  if pfx.isValid then update s pfx.masked none else s

end Store

/-! ## One store -/

/-- The path goes through the gate and into the group of its prefix.
Source: core/rib/locrib/manager.go insert -/
def insertPath (pub : Published) (fam : Family) (pfx : Prefix) (p : Path)
    (s : Store PathGroup) : Store PathGroup :=
  let stored := admitted pub.snapshot fam pfx p
  let g := (s.lookup pfx).getD PathGroup.empty
  s.insert pfx (g.upsert pub stored)

/-- The path of the key leaves its group; the last one takes the prefix with it.
Source: manager.go Remove -/
def removePath (pfx : Prefix) (k : PathKey) (s : Store PathGroup) : Store PathGroup :=
  match s.lookup pfx with
  | none => s
  | some g =>
    let (g, removed) := g.remove k
    if removed && g.paths.isEmpty then s.delete pfx else s.insert pfx g

/-- Every group judged again. Source: core/rib/locrib/distance.go reselectShard. -/
def reselectStore (pub : Published) (fam : Family) (s : Store PathGroup) : Store PathGroup :=
  fun pfx => (s pfx).map (PathGroup.rejudge pub fam pfx)

/-! ## Operations -/

/-- A call on the Loc-RIB. Source: manager.go. -/
inductive Op where
  | insert (fam : Family) (pfx : Prefix) (p : Path)
  | remove (fam : Family) (pfx : Prefix) (source : ProtocolID) (inst : UInt32)
  | reselect

def Op.pfx? : Op → Option Prefix
  | insert _ pfx _ => some pfx
  | remove _ pfx _ _ => some pfx
  | reselect => none

abbrev Table : Type :=
  Family → Store PathGroup

def Table.empty : Table := fun _ => Store.empty

/-- A call on the table, with what is published while it runs. -/
def Table.step (t : Table) (pub : Published) : Op → Table
  | .insert fam pfx p =>
    if !p.valid || !pfx.isValid then t
    else update t fam (insertPath pub fam pfx p (t fam))
  | .remove fam pfx source inst =>
    if !pfx.isValid then t
    else update t fam (removePath pfx (source, inst) (t fam))
  | .reselect => fun fam => reselectStore pub fam (t fam)

/-- Source: manager.go. -/
structure Rib where
  nShards : ℕ
  /-- The seeded hash of a prefix, as it was given. -/
  hash : Prefix → UInt64
  families : Family → Option (List (Store PathGroup))

/-- Source: manager.go NewRIB. -/
def Rib.new (n : ℕ) (hash : Prefix → UInt64) : Rib :=
  ⟨n, hash, fun _ => none⟩

/-- Source: core/rib/locrib/shard.go. -/
def shardIndex (hash : Prefix → UInt64) (pfx : Prefix) (n : ℕ) : ℕ :=
  if n ≤ 1 then 0 else (hash pfx).toNat % n

/-- Source: shard.go. -/
def newFamilyShards (n : ℕ) : List (Store PathGroup) :=
  replicate (max n 1) Store.empty

namespace Rib

/-- The shards of a family, made when they are first needed. Source: manager.go. -/
def familyShardsFor (r : Rib) (fam : Family) : List (Store PathGroup) :=
  (r.families fam).getD (newFamilyShards r.nShards)

/-- The store of the shard that owns the prefix is replaced.
Source: shard.go shardFor -/
def atShard (r : Rib) (fam : Family) (shards : List (Store PathGroup)) (pfx : Prefix)
    (f : Store PathGroup → Store PathGroup) : Rib :=
  { r with
    families := update r.families fam
      (some (shards.modify (shardIndex r.hash pfx shards.length) f)) }

/-- A call, with what is published while it runs.
Source: manager.go insert, Remove, distance.go Reselect -/
def step (r : Rib) (pub : Published) : Op → Rib
  | .insert fam pfx p =>
    if !p.valid || !pfx.isValid then r
    else r.atShard fam (r.familyShardsFor fam) pfx (insertPath pub fam pfx p)
  | .remove fam pfx source inst =>
    if !pfx.isValid then r
    else
      match r.families fam with
      | none => r
      | some shards => r.atShard fam shards pfx (removePath pfx (source, inst))
  | .reselect =>
    { r with families := fun fam => (r.families fam).map (·.map (reselectStore pub fam)) }

end Rib

/-! ## What one store operation does -/

section

variable {T : Type} {s s' : Store T} {pfx q : Prefix}

lemma Store.insert_apply (s : Store T) (pfx q : Prefix) (v : T) :
    s.insert pfx v q = if pfx.isValid = true ∧ q = pfx.masked then some v else s q := by
  unfold Store.insert
  by_cases hvalid : pfx.isValid
  · by_cases hq : q = pfx.masked
    · rw [if_pos hvalid, if_pos ⟨hvalid, hq⟩, hq, update_self]
    · rw [if_pos hvalid, if_neg (fun h => hq h.2), update_of_ne hq]
  · rw [if_neg hvalid, if_neg (fun h => hvalid h.1)]

lemma Store.delete_apply (s : Store T) (pfx q : Prefix) :
    s.delete pfx q = if pfx.isValid = true ∧ q = pfx.masked then none else s q := by
  unfold Store.delete
  by_cases hvalid : pfx.isValid
  · by_cases hq : q = pfx.masked
    · rw [if_pos hvalid, if_pos ⟨hvalid, hq⟩, hq, update_self]
    · rw [if_pos hvalid, if_neg (fun h => hq h.2), update_of_ne hq]
  · rw [if_neg hvalid, if_neg (fun h => hvalid h.1)]

end

/-- An operation on the entry of one prefix: other entries are kept, and what the entry becomes
depends on what it was. -/
structure Local (pfx : Prefix) (f : Store PathGroup → Store PathGroup) : Prop where
  other : ∀ (s : Store PathGroup) (q : Prefix), q ≠ pfx.masked → f s q = s q
  self : ∀ s s' : Store PathGroup, s pfx.masked = s' pfx.masked → f s pfx.masked = f s' pfx.masked

lemma local_insertPath (pub : Published) (fam : Family) (pfx : Prefix) (p : Path) :
    Local pfx (insertPath pub fam pfx p) := by
  constructor
  · intro s q hq
    unfold insertPath
    rw [Store.insert_apply, if_neg (fun h => hq h.2)]
  · intro s s' h
    unfold insertPath Store.lookup
    rw [Store.insert_apply, Store.insert_apply, h]

lemma local_removePath (pfx : Prefix) (k : PathKey) : Local pfx (removePath pfx k) := by
  constructor
  · intro s q hq
    cases hl : s.lookup pfx with
    | none => simp only [removePath, hl]
    | some g =>
      simp only [removePath, hl]
      split_ifs
      · rw [Store.delete_apply, if_neg (fun h => hq h.2)]
      · rw [Store.insert_apply, if_neg (fun h => hq h.2)]
  · intro s s' h
    have hlookup : s.lookup pfx = s'.lookup pfx := by
      unfold Store.lookup
      rw [h]
    cases hl : s'.lookup pfx with
    | none => simp only [removePath, hlookup, hl, h]
    | some g =>
      simp only [removePath, hlookup, hl]
      split_ifs
      · rw [Store.delete_apply, Store.delete_apply, h]
      · rw [Store.insert_apply, Store.insert_apply, h]

/-! ## The sharded Loc-RIB refines the table -/

lemma shardIndex_lt (hash : Prefix → UInt64) (pfx : Prefix) {n : ℕ} (hn : 1 ≤ n) :
    shardIndex hash pfx n < n := by
  unfold shardIndex
  split_ifs
  · omega
  · exact Nat.mod_lt _ (by omega)

/-- The shards hold the part of the store that hashes to them.
Source: shard.go familyShards -/
def Distributes (hash : Prefix → UInt64) (shards : List (Store PathGroup))
    (s : Store PathGroup) : Prop :=
  ∀ (i : ℕ) (sh : Store PathGroup), shards[i]? = some sh → ∀ q : Prefix,
    sh q = if shardIndex hash q shards.length = i then s q else none

/-- Every family holds the table's entries in its shards, and none when it has no shards yet. -/
def Refines (r : Rib) (t : Table) : Prop :=
  ∀ fam, match r.families fam with
    | none => t fam = Store.empty
    | some shards => shards.length = max r.nShards 1 ∧ Distributes r.hash shards (t fam)

def HashConsistent (hash : Prefix → UInt64) (n : ℕ) (pfx : Prefix) : Prop :=
  shardIndex hash pfx n = shardIndex hash pfx.masked n

lemma hashConsistent_of_masked {pfx : Prefix} (h : pfx.masked = pfx) (hash : Prefix → UInt64)
    (n : ℕ) : HashConsistent hash n pfx := by
  unfold HashConsistent
  rw [h]

variable {r : Rib} {t : Table} {hash : Prefix → UInt64} {fam : Family} {pfx : Prefix}
  {shards : List (Store PathGroup)} {s : Store PathGroup}

lemma distributes_new (hash : Prefix → UInt64) (n : ℕ) :
    Distributes hash (newFamilyShards n) Store.empty := by
  intro i sh hsh q
  have hmem := mem_of_getElem? hsh
  unfold newFamilyShards at hmem
  rw [eq_of_mem_replicate hmem]
  split_ifs <;> rfl

variable {f : Store PathGroup → Store PathGroup}

lemma Distributes.modify (h : Distributes hash shards s)
    (hpfx : HashConsistent hash shards.length pfx) (hf : Local pfx f) :
    Distributes hash (shards.modify (shardIndex hash pfx shards.length) f) (f s) := by
  intro i sh' hsh' q
  rw [getElem?_modify] at hsh'
  rw [length_modify]
  cases hsh : shards[i]? with
  | none => simp [hsh] at hsh'
  | some sh =>
    rw [hsh] at hsh'
    have hself := h i sh hsh
    by_cases hi : shardIndex hash pfx shards.length = i
    · -- the owner: the entry changes as in the whole store
      simp only [Option.map_eq_map, Option.map_some, hi, if_true] at hsh'
      cases hsh'
      by_cases hq : q = pfx.masked
      · subst hq
        rw [if_pos (hpfx ▸ hi)]
        apply hf.self
        rw [hself, if_pos (hpfx ▸ hi)]
      · rw [hf.other sh q hq, hself q, hf.other s q hq]
    · simp only [Option.map_eq_map, Option.map_some, hi, if_false] at hsh'
      cases hsh'
      have hq : shardIndex hash q shards.length = i → q ≠ pfx.masked := by
        rintro hqi rfl
        exact hi (hpfx.trans hqi)
      by_cases hqi : shardIndex hash q shards.length = i
      · rw [hself q, if_pos hqi, if_pos hqi, hf.other s q (hq hqi)]
      · rw [hself q, if_neg hqi, if_neg hqi]

lemma Distributes.reselect (h : Distributes hash shards s) (pub : Published) (fam : Family) :
    Distributes hash (shards.map (reselectStore pub fam)) (reselectStore pub fam s) := by
  intro i sh' hsh' q
  rw [getElem?_map] at hsh'
  rw [length_map]
  cases hsh : shards[i]? with
  | none => simp [hsh] at hsh'
  | some sh =>
    rw [hsh] at hsh'
    cases hsh'
    unfold reselectStore
    rw [h i sh hsh q]
    split_ifs <;> rfl

lemma Refines.atShard (h : Refines r t) (hlen : shards.length = max r.nShards 1)
    (hshards : Distributes r.hash shards (t fam))
    (hpfx : HashConsistent r.hash (max r.nShards 1) pfx) (hf : Local pfx f) :
    Refines (r.atShard fam shards pfx f) (update t fam (f (t fam))) := by
  intro fam'
  unfold Rib.atShard
  dsimp only
  by_cases hfam : fam' = fam
  · subst hfam
    rw [update_self, update_self]
    refine ⟨by rw [length_modify, hlen], hshards.modify (hlen ▸ hpfx) hf⟩
  · rw [update_of_ne hfam, update_of_ne hfam]
    exact h fam'

lemma Refines.step (h : Refines r t) (pub : Published) (op : Op)
    (hop : ∀ pfx, op.pfx? = some pfx → HashConsistent r.hash (max r.nShards 1) pfx) :
    Refines (r.step pub op) (t.step pub op) := by
  cases op with
  | insert fam pfx p =>
    simp only [Rib.step, Table.step]
    split_ifs
    · exact h
    · have hfam := h fam
      unfold Rib.familyShardsFor
      cases hshards : r.families fam with
      | none =>
        rw [hshards] at hfam
        simp only [Option.getD_none]
        apply h.atShard _ _ (hop pfx rfl) (local_insertPath pub fam pfx p)
        · rw [newFamilyShards, length_replicate]
        · rw [show t fam = Store.empty from hfam]
          exact distributes_new _ _
      | some shards =>
        rw [hshards] at hfam
        exact h.atShard hfam.1 hfam.2 (hop pfx rfl) (local_insertPath pub fam pfx p)
  | remove fam pfx source inst =>
    simp only [Rib.step, Table.step]
    split_ifs
    · exact h
    · have hfam := h fam
      cases hshards : r.families fam with
      | none =>
        -- the family has no prefix: there is nothing to remove
        rw [hshards] at hfam
        have hsame : removePath pfx (source, inst) (t fam) = t fam := by
          rw [show t fam = Store.empty from hfam]
          simp [removePath, Store.lookup, Store.empty]
        rw [hsame, Function.update_eq_self]
        exact h
      | some shards =>
        rw [hshards] at hfam
        exact h.atShard hfam.1 hfam.2 (hop pfx rfl) (local_removePath pfx (source, inst))
  | reselect =>
    intro fam
    have hfam := h fam
    simp only [Rib.step, Table.step]
    cases hshards : r.families fam with
    | none =>
      rw [hshards] at hfam
      rw [Option.map_none, show t fam = Store.empty from hfam]
      rfl
    | some shards =>
      rw [hshards] at hfam
      rw [Option.map_some]
      exact ⟨by rw [length_map, hfam.1], hfam.2.reselect pub fam⟩

/-! ## Runs -/

/-- The calls of a run, each with what is published while it runs. -/
abbrev Calls := List (Published × Op)

def Rib.run (r : Rib) (calls : Calls) : Rib :=
  calls.foldl (fun r call => r.step call.1 call.2) r

def Table.run (t : Table) (calls : Calls) : Table :=
  calls.foldl (fun t call => t.step call.1 call.2) t

/-- Every prefix of the run hashes as its masked form does. -/
def Calls.HashConsistent (calls : Calls) (hash : Prefix → UInt64) (n : ℕ) : Prop :=
  ∀ call ∈ calls, ∀ pfx, call.2.pfx? = some pfx → LocRib.HashConsistent hash (max n 1) pfx

lemma Rib.step_config (r : Rib) (pub : Published) (op : Op) :
    (r.step pub op).nShards = r.nShards ∧ (r.step pub op).hash = r.hash := by
  cases op with
  | insert fam pfx p =>
    simp only [Rib.step]
    split_ifs <;> exact ⟨rfl, rfl⟩
  | remove fam pfx source inst =>
    simp only [Rib.step]
    split_ifs
    · exact ⟨rfl, rfl⟩
    · split <;> exact ⟨rfl, rfl⟩
  | reselect => exact ⟨rfl, rfl⟩

lemma Rib.run_config (r : Rib) (calls : Calls) :
    (r.run calls).nShards = r.nShards ∧ (r.run calls).hash = r.hash := by
  induction calls generalizing r with
  | nil => exact ⟨rfl, rfl⟩
  | cons call calls ih =>
    obtain ⟨hn, hhash⟩ := r.step_config call.1 call.2
    obtain ⟨hn', hhash'⟩ := ih (r.step call.1 call.2)
    exact ⟨hn'.trans hn, hhash'.trans hhash⟩

/-- The sharded Loc-RIB refines the table along every run. -/
lemma Refines.run (h : Refines r t) (calls : Calls)
    (hcalls : calls.HashConsistent r.hash r.nShards) : Refines (r.run calls) (t.run calls) := by
  induction calls generalizing r t with
  | nil => exact h
  | cons call calls ih =>
    obtain ⟨hn, hhash⟩ := r.step_config call.1 call.2
    apply ih (h.step call.1 call.2 (hcalls call mem_cons_self))
    rw [hn, hhash]
    exact fun c hc => hcalls c (mem_cons_of_mem _ hc)

lemma refines_new (n : ℕ) (hash : Prefix → UInt64) : Refines (Rib.new n hash) Table.empty :=
  fun _ => rfl

/-! ## What a table holds -/

/-- Every entry is under a valid masked prefix, and its stored index is the selected one. -/
def Store.WellFormed (s : Store PathGroup) : Prop :=
  ∀ pfx g, s pfx = some g → pfx.masked = pfx ∧ pfx.isValid = true ∧ g.Selected

def Table.WellFormed (t : Table) : Prop :=
  ∀ fam, (t fam).WellFormed

lemma Table.wellFormed_update (ht : t.WellFormed) (hs : s.WellFormed) :
    Table.WellFormed (update t fam s) := by
  intro fam'
  by_cases hfam : fam' = fam
  · subst hfam
    rw [update_self]
    exact hs
  · rw [update_of_ne hfam]
    exact ht fam'

lemma Store.WellFormed.insert (hs : s.WellFormed) {g : PathGroup} (hg : g.Selected) :
    (s.insert pfx g).WellFormed := by
  intro q g' hq
  rw [Store.insert_apply] at hq
  split_ifs at hq with h
  · rw [Option.some.injEq] at hq
    rw [h.2, ← hq]
    exact ⟨Prefix.masked_masked pfx, (Prefix.isValid_masked pfx).trans h.1, hg⟩
  · exact hs q g' hq

lemma Table.WellFormed.step (h : t.WellFormed) (pub : Published) (op : Op) :
    (t.step pub op).WellFormed := by
  cases op with
  | insert fam pfx p =>
    simp only [Table.step]
    split_ifs
    · exact h
    · exact Table.wellFormed_update h ((h fam).insert (PathGroup.selected_upsert pub _ _))
  | remove fam pfx source inst =>
    simp only [Table.step]
    split_ifs
    · exact h
    · apply Table.wellFormed_update h
      cases hl : (t fam).lookup pfx with
      | none =>
        simp only [removePath, hl]
        exact h fam
      | some g =>
        have hg : g.Selected := by
          unfold Store.lookup at hl
          split_ifs at hl
          exact (h fam _ g hl).2.2
        simp only [removePath, hl]
        split_ifs
        · intro q g' hq
          rw [Store.delete_apply] at hq
          split_ifs at hq
          exact h fam q g' hq
        · exact (h fam).insert (PathGroup.selected_remove hg _)
  | reselect =>
    intro fam pfx g hg
    simp only [Table.step, reselectStore, Option.map_eq_some_iff] at hg
    obtain ⟨g₀, hg₀, rfl⟩ := hg
    obtain ⟨hmasked, hvalid, -⟩ := h fam pfx g₀ hg₀
    exact ⟨hmasked, hvalid, PathGroup.selected_rejudge pub fam pfx g₀⟩

/-- Every reachable table is well formed. -/
lemma wellFormed_run (calls : Calls) : (Table.empty.run calls).WellFormed := by
  apply foldlRecOn calls
  · intro fam pfx g hg
    cases hg
  · intro t ht call _
    exact ht.step call.1 call.2

end Ze.LocRib
