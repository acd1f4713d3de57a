import Mathlib.Data.BitVec
import Ze.Lib.Run
import Ze.Lib.Holders

/-!
# Path Identifiers of forwarded paths

`FwdPathIDTable` gives every path that is forwarded an identifier of its own. A source that frames
no Path Identifier has one entry for the identifier it is heard under; a source that does has one
for each path. An entry, a recipient slot and a writer's reservation each count as one use, and an
identifier in use is not minted again.

Default file: `forward_path_id.go`.
-/

namespace Ze.Forward

open Ze.Lib List
open Function (update update_of_ne update_self)
open Multiset (coe_add coe_eq_coe mem_add mem_coe)
open Prod (fst snd)

/-! ## The table -/

/-- Source: reactor/forward_path_id.go. -/
structure FwdPathIDTable (Src Key : Type) where
  next : BitVec 32
  /-- Identifiers of the sources that frame none: by source and received identifier. -/
  bySource : List ((Src × BitVec 32) × BitVec 32)
  /-- Identifiers of the paths of the sources that frame one. -/
  byPath : List ((Src × Key) × BitVec 32)
  /-- How often each identifier is in use; `none` when it is not in the map. The source counts in
  uint64: a count is of entries of `bySource` and `byPath`, fewer than memory holds. -/
  used : BitVec 32 → Option ℕ

variable {Src Key : Type}

namespace FwdPathIDTable

/-- Source: newFwdPathIDTable. -/
def new : FwdPathIDTable Src Key where
  next := 0#32
  bySource := []
  byPath := []
  used := fun _ => none

/-- The skip loop of `mintLocked`, from `id` on: the first identifier that is not live. After `2^32`
passes it is back where it began, and the loop of the source never ends.
Source: mintLocked. -/
def mintFrom (used : BitVec 32 → Option ℕ) : ℕ → BitVec 32 → Option (BitVec 32)
  | 0, _ => none
  | passes + 1, id => if (used id).isSome then mintFrom used passes (id + 1#32) else some id

/-- An identifier no live path holds; `none` when the loop does not end. -/
def mintLocked (t : FwdPathIDTable Src Key) : Option (BitVec 32 × FwdPathIDTable Src Key) :=
  (mintFrom t.used (2 ^ 32) t.next).map fun id => (id, { t with next := id + 1#32 })

/-- Source: t.used[id]++. -/
def use (t : FwdPathIDTable Src Key) (id : BitVec 32) : FwdPathIDTable Src Key :=
  { t with used := update t.used id (some ((t.used id).getD 0 + 1)) }

def releaseLocked (t : FwdPathIDTable Src Key) (id : BitVec 32) : FwdPathIDTable Src Key :=
  if (t.used id).getD 0 > 1 then
    { t with used := update t.used id (some ((t.used id).getD 0 - 1)) }
  else { t with used := update t.used id none }

def reserve (t : FwdPathIDTable Src Key) : Option (BitVec 32 × FwdPathIDTable Src Key) := do
  let (id, t) ← t.mintLocked
  return (id, t.use id)

def retain (t : FwdPathIDTable Src Key) (id : BitVec 32) : FwdPathIDTable Src Key :=
  t.use id

def release (t : FwdPathIDTable Src Key) (id : BitVec 32) : FwdPathIDTable Src Key :=
  t.releaseLocked id

section

variable [DecidableEq Src] [DecidableEq Key]

def generate (t : FwdPathIDTable Src Key) (src : Src) (received : BitVec 32) :
    Option (BitVec 32 × FwdPathIDTable Src Key) :=
  match t.bySource.lookup (src, received) with
  | some id => some (id, t)
  | none => do
    let (id, t) ← t.mintLocked
    return (id, { t with bySource := ((src, received), id) :: t.bySource }.use id)

def generatePath (t : FwdPathIDTable Src Key) (src : Src) (key : Key) :
    Option (BitVec 32 × FwdPathIDTable Src Key) :=
  match t.byPath.lookup (src, key) with
  | some id => some (id, t)
  | none => do
    let (id, t) ← t.mintLocked
    return (id, { t with byPath := ((src, key), id) :: t.byPath }.use id)

/-- Frees the mapping of a withdrawn path, unless the validation still retains the path (`retains`).
-/
def releasePath (t : FwdPathIDTable Src Key) (src : Src) (key : Key) (retains : Bool) :
    FwdPathIDTable Src Key :=
  if retains then t
  else
    match t.byPath.lookup (src, key) with
    | none => t
    | some id =>
      let t := t.releaseLocked id
      { t with byPath := t.byPath.filter fun e => e.1 ≠ (src, key) }

/-- The first half of `releaseSource`. Source: releaseSource. -/
def releaseUnframed (t : FwdPathIDTable Src Key) (src : Src) : FwdPathIDTable Src Key :=
  { ((t.bySource.filter fun e => e.1.1 = src).map snd).foldl releaseLocked t with
    bySource := t.bySource.filter fun e => e.1.1 ≠ src }

/-- The second half of `releaseSource`. Source: releaseSource. -/
def releaseFramed (t : FwdPathIDTable Src Key) (src : Src) : FwdPathIDTable Src Key :=
  { ((t.byPath.filter fun e => e.1.1 = src).map snd).foldl releaseLocked t with
    byPath := t.byPath.filter fun e => e.1.1 ≠ src }

def releaseSource (t : FwdPathIDTable Src Key) (src : Src) : FwdPathIDTable Src Key :=
  (t.releaseUnframed src).releaseFramed src

end

end FwdPathIDTable

/-! ## Minting -/

section

variable {used : BitVec 32 → Option ℕ} {t t' : FwdPathIDTable Src Key} {id : BitVec 32}

lemma used_of_mintFrom {passes : ℕ} {start : BitVec 32}
    (h : FwdPathIDTable.mintFrom used passes start = some id) : used id = none := by
  induction passes generalizing start with
  | zero => cases h
  | succ passes ih =>
    rw [FwdPathIDTable.mintFrom] at h
    split_ifs at h with hlive
    · exact ih h
    · cases h
      exact Option.not_isSome_iff_eq_none.1 hlive

lemma mintFrom_isSome {start : BitVec 32} {steps passes : ℕ}
    (hfree : used (start + BitVec.ofNat 32 steps) = none) (hlt : steps < passes) :
    (FwdPathIDTable.mintFrom used passes start).isSome := by
  induction passes generalizing start steps with
  | zero => omega
  | succ passes ih =>
    rw [FwdPathIDTable.mintFrom]
    split_ifs with hlive
    · obtain _ | steps := steps
      · rw [show start + BitVec.ofNat 32 0 = start by simp] at hfree
        rw [hfree] at hlive
        cases hlive
      · refine ih ?_ (show steps < passes by omega)
        rw [← hfree]
        congr 1
        bv_omega
    · rfl

/-- While an identifier is free, minting gives one. -/
lemma mintLocked_isSome (hfree : t.used id = none) : t.mintLocked.isSome := by
  have hstep : t.used (t.next + BitVec.ofNat 32 (id - t.next).toNat) = none := by
    rw [BitVec.ofNat_toNat, BitVec.setWidth_eq, ← hfree]
    congr 1
    bv_omega
  unfold FwdPathIDTable.mintLocked
  rw [Option.isSome_map]
  exact mintFrom_isSome hstep (id - t.next).isLt

lemma mintLocked_spec (h : t.mintLocked = some (id, t')) :
    t.used id = none ∧ t' = { t with next := id + 1#32 } := by
  unfold FwdPathIDTable.mintLocked at h
  obtain ⟨a, ha, heq⟩ := Option.map_eq_some_iff.1 h
  cases heq
  exact ⟨used_of_mintFrom ha, rfl⟩

end

/-! ## Counting -/

/-- How a multiplicity stands in the map of use counts. -/
def entry (n : ℕ) : Option ℕ :=
  if n = 0 then none else some n

/-- The use counts are the multiplicities of `refs`. -/
def Counts (t : FwdPathIDTable Src Key) (refs : Multiset (BitVec 32)) : Prop :=
  ∀ id, t.used id = entry (refs.count id)

section

variable {t : FwdPathIDTable Src Key} {refs : Multiset (BitVec 32)}

lemma getD_entry (n : ℕ) : (entry n).getD 0 = n := by
  unfold entry
  split_ifs with h
  · exact h.symm
  · rfl

lemma Counts.notMem (h : Counts t refs) {id : BitVec 32} (hid : t.used id = none) : id ∉ refs := by
  intro hmem
  rw [h id, entry, if_neg (Multiset.count_ne_zero.2 hmem)] at hid
  cases hid

lemma used_use (t : FwdPathIDTable Src Key) (id x : BitVec 32) :
    (t.use id).used x = if x = id then some ((t.used id).getD 0 + 1) else t.used x := by
  unfold FwdPathIDTable.use
  exact Function.update_apply ..

lemma used_releaseLocked (t : FwdPathIDTable Src Key) (id x : BitVec 32) :
    (t.releaseLocked id).used x
      = if x = id then entry ((t.used id).getD 0 - 1) else t.used x := by
  unfold FwdPathIDTable.releaseLocked entry
  split_ifs with h1 hx h2 hx h2
  · omega
  · rw [hx]
    exact update_self ..
  · exact update_of_ne hx ..
  · rw [hx]
    exact update_self ..
  · omega
  · exact update_of_ne hx ..

lemma Counts.use (h : Counts t refs) (id : BitVec 32) : Counts (t.use id) (id ::ₘ refs) := by
  intro x
  rw [used_use]
  split_ifs with hx
  · rw [hx, h id, getD_entry, Multiset.count_cons_self, entry, if_neg (Nat.succ_ne_zero _)]
  · rw [h x, Multiset.count_cons_of_ne hx]

lemma Counts.releaseLocked (h : Counts t refs) (id : BitVec 32) :
    Counts (t.releaseLocked id) (refs.erase id) := by
  intro x
  rw [used_releaseLocked]
  split_ifs with hx
  · rw [hx, h id, getD_entry, Multiset.count_erase_self]
  · rw [h x, Multiset.count_erase_of_ne hx]

lemma Counts.releaseAll (h : Counts t refs) (ids : List (BitVec 32)) :
    Counts (ids.foldl FwdPathIDTable.releaseLocked t) (refs - (ids : Multiset (BitVec 32))) := by
  induction ids generalizing t refs with
  | nil => simpa using h
  | cons id ids ih =>
    have := ih (h.releaseLocked id)
    rwa [← Multiset.cons_coe, Multiset.sub_cons]

lemma maps_releaseAll (t : FwdPathIDTable Src Key) (ids : List (BitVec 32)) :
    (ids.foldl FwdPathIDTable.releaseLocked t).bySource = t.bySource ∧
      (ids.foldl FwdPathIDTable.releaseLocked t).byPath = t.byPath := by
  induction ids generalizing t with
  | nil => exact ⟨rfl, rfl⟩
  | cons id ids ih =>
    have hone : (t.releaseLocked id).bySource = t.bySource ∧
        (t.releaseLocked id).byPath = t.byPath := by
      unfold FwdPathIDTable.releaseLocked
      split_ifs <;> exact ⟨rfl, rfl⟩
    rw [foldl_cons, (ih _).1, (ih _).2]
    exact hone

end

/-! ## The table and what its callers hold -/

/-- The table with the references its callers hold.
Source: reserve, retain, release: who calls them. -/
structure World (Src Key : Type) where
  table : FwdPathIDTable Src Key
  /-- Writers' reservations, each under the ticket it was taken with. -/
  reserved : List (ℕ × BitVec 32)
  /-- The ticket of the next reservation. -/
  ticket : ℕ
  /-- Identifiers retained for recipient slots and staged proposals. -/
  retained : List (BitVec 32)

/-- The operations on the table. Source: forward_path_id.go. -/
inductive Op (Src Key : Type) where
  | generate (src : Src) (received : BitVec 32)
  | generatePath (src : Src) (key : Key)
  | reserve
  | retain (id : BitVec 32)
  /-- The writer releases the reservation of a ticket. -/
  | releaseReserved (ticket : ℕ)
  /-- A slot or a proposal goes. -/
  | releaseRetained (id : BitVec 32)
  | releasePath (src : Src) (key : Key) (retains : Bool)
  | releaseSource (src : Src)

namespace World

/-- Source: newFwdPathIDTable. -/
def new : World Src Key where
  table := .new
  reserved := []
  ticket := 0
  retained := []

variable [DecidableEq Src] [DecidableEq Key]

/-- One operation; `none` when it does not return, or when it would release a reference nobody
holds. Source: forward_path_id.go. -/
def step (w : World Src Key) : Op Src Key → Option (World Src Key)
  | .generate src received => do
    let (_, t) ← w.table.generate src received
    return { w with table := t }
  | .generatePath src key => do
    let (_, t) ← w.table.generatePath src key
    return { w with table := t }
  | .reserve => do
    let (id, t) ← w.table.reserve
    return { w with table := t, reserved := (w.ticket, id) :: w.reserved, ticket := w.ticket + 1 }
  | .retain id => some { w with table := w.table.retain id, retained := id :: w.retained }
  | .releaseReserved ticket => do
    let id ← w.reserved.lookup ticket
    return { w with
      table := w.table.release id
      reserved := w.reserved.filter fun e => e.1 ≠ ticket }
  | .releaseRetained id =>
    if id ∈ w.retained then
      some { w with table := w.table.release id, retained := w.retained.erase id }
    else none
  | .releasePath src key retains => some { w with table := w.table.releasePath src key retains }
  | .releaseSource src => some { w with table := w.table.releaseSource src }

end World

/-! ## Owners -/

/-- Who has an identifier for itself.
Source: fwdPathIDTable: the source mappings and the reservations. -/
inductive Owner (Src Key : Type) where
  | source (src : Src) (received : BitVec 32)
  | path (src : Src) (key : Key)
  | reservation (ticket : ℕ)
  deriving DecidableEq

namespace World

def owned (w : World Src Key) : List (Owner Src Key × BitVec 32) :=
  w.table.bySource.map (fun e => (.source e.1.1 e.1.2, e.2)) ++
    (w.table.byPath.map (fun e => (.path e.1.1 e.1.2, e.2)) ++
      w.reserved.map fun e => (.reservation e.1, e.2))

def Holds (w : World Src Key) (o : Owner Src Key) (id : BitVec 32) : Prop :=
  (o, id) ∈ w.owned

/-- The live references: one for each owner and one for each retained identifier. -/
def refs (w : World Src Key) : Multiset (BitVec 32) :=
  (w.owned.map snd : Multiset (BitVec 32)) + (w.retained : Multiset (BitVec 32))

/-- What one operation can do: nothing to the references; give a new owner a free identifier; add or
take away a retained reference; take away owners. -/
inductive Change (w w' : World Src Key) : Prop where
  | keep (howned : w'.owned = w.owned) (hretained : w'.retained = w.retained)
      (hcounts : ∀ refs, Counts w.table refs → Counts w'.table refs)
  | give (o : Owner Src Key) (id : BitVec 32) (hfree : w.table.used id = none)
      (hnew : o ∉ w.owned.map fst) (howned : w'.owned.Perm ((o, id) :: w.owned))
      (hretained : w'.retained = w.retained)
      (hcounts : ∀ refs, Counts w.table refs → Counts w'.table (id ::ₘ refs))
  | retain (id : BitVec 32) (howned : w'.owned = w.owned) (hretained : w'.retained =
    id :: w.retained)
      (hcounts : ∀ refs, Counts w.table refs → Counts w'.table (id ::ₘ refs))
  | letGo (id : BitVec 32) (howned : w'.owned = w.owned) (hmem : id ∈ w.retained)
      (hretained : w'.retained = w.retained.erase id)
      (hcounts : ∀ refs, Counts w.table refs → Counts w'.table (refs.erase id))
  | drop (gone : List (Owner Src Key × BitVec 32)) (howned : w.owned.Perm (gone ++ w'.owned))
      (hretained : w'.retained = w.retained)
      (hcounts : ∀ refs, Counts w.table refs →
        Counts w'.table (refs - (gone.map snd : Multiset (BitVec 32))))

/-- The use counts are the live references, owners and identifiers are one to one, and tickets are
used once. -/
structure Inv (w : World Src Key) : Prop where
  counts : Counts w.table w.refs
  owners : (w.owned.map fst).Nodup
  ids : (w.owned.map snd).Nodup
  tickets : ∀ e ∈ w.reserved, e.1 < w.ticket

/-! ## What a change keeps -/

section

variable {w w' : World Src Key} {o o' : Owner Src Key} {id id' : BitVec 32}

lemma Change.keeps (h : Change w w') (hinv : w.Inv) :
    Counts w'.table w'.refs ∧ (w'.owned.map fst).Nodup ∧ (w'.owned.map snd).Nodup := by
  obtain ⟨hcounts, howners, hids, -⟩ := hinv
  cases h with
  | keep howned hretained hc =>
    rw [refs, howned, hretained]
    exact ⟨hc _ hcounts, howners, hids⟩
  | give o id hfree hnew howned hretained hc =>
    have hnot := hcounts.notMem hfree
    have hsnd := howned.map snd
    rw [refs, hretained]
    refine ⟨?_, (howned.map fst).nodup_iff.2 (nodup_cons.2 ⟨hnew, howners⟩),
      hsnd.nodup_iff.2 (nodup_cons.2 ⟨fun hmem => hnot ?_, hids⟩)⟩
    · have := hc _ hcounts
      rw [refs, ← Multiset.cons_add] at this
      rwa [coe_eq_coe.2 hsnd]
    · exact mem_add.2 (.inl (mem_coe.2 hmem))
  | retain id howned hretained hc =>
    rw [refs, howned, hretained]
    refine ⟨?_, howners, hids⟩
    have := hc _ hcounts
    rwa [refs, ← Multiset.add_cons] at this
  | letGo id howned hmem hretained hc =>
    rw [refs, howned, hretained]
    refine ⟨?_, howners, hids⟩
    have := hc _ hcounts
    rwa [refs, Multiset.erase_add_right_pos _ (mem_coe.2 hmem)] at this
  | drop gone howned hretained hc =>
    have hfst := howned.map fst
    have hsnd := howned.map snd
    rw [map_append] at hfst hsnd
    rw [refs, hretained]
    refine ⟨?_, (hfst.nodup_iff.1 howners).of_append_right, (hsnd.nodup_iff.1 hids).of_append_right⟩
    have := hc _ hcounts
    rwa [refs, coe_eq_coe.2 hsnd, ← coe_add, Multiset.add_assoc,
      Multiset.add_comm, Multiset.add_sub_cancel_right] at this

lemma Inv.owner_unique (hinv : w.Inv) (h : w.Holds o id) (h' : w.Holds o' id) : o = o' :=
  congrArg fst (inj_on_of_nodup_map hinv.ids h h' rfl)

lemma Inv.id_unique (hinv : w.Inv) (h : w.Holds o id) (h' : w.Holds o id') : id = id' :=
  congrArg snd (inj_on_of_nodup_map hinv.owners h h' rfl)

lemma Change.steady (h : Change w w') (hinv : w.Inv) (hinv' : w'.Inv) (ho : w.Holds o id)
    (ho' : w'.Holds o id') : id' = id := by
  cases h with
  | keep howned _ _ =>
    rw [Holds, howned] at ho'
    exact hinv.id_unique ho' ho
  | give p i _ _ howned _ _ =>
    have : w'.Holds o id := howned.mem_iff.2 (mem_cons_of_mem _ ho)
    exact hinv'.id_unique ho' this
  | retain _ howned _ _ | letGo _ howned _ _ _ =>
    rw [Holds, howned] at ho'
    exact hinv.id_unique ho' ho
  | drop gone howned _ _ =>
    have : w.Holds o id' := howned.mem_iff.2 (mem_append_right _ ho')
    exact hinv.id_unique this ho

end

/-! ## Every operation is a change -/

section

variable {w w' : World Src Key}

lemma Inv.keys_nodup (hinv : w.Inv) :
    (w.table.bySource.map fst).Nodup ∧ (w.table.byPath.map fst).Nodup ∧
      (w.reserved.map fst).Nodup := by
  have h := hinv.owners
  unfold owned at h
  rw [map_append, map_append, nodup_append, nodup_append] at h
  obtain ⟨hs, ⟨hp, hr, -⟩, -⟩ := h
  simp only [map_map] at hs hp hr
  refine ⟨?_, ?_, ?_⟩
  · refine List.Nodup.of_map (fun k : Src × BitVec 32 => (Owner.source k.1 k.2 : Owner Src Key)) ?_
    rwa [map_map]
  · refine List.Nodup.of_map (fun k : Src × Key => (Owner.path k.1 k.2 : Owner Src Key)) ?_
    rwa [map_map]
  · refine List.Nodup.of_map (fun k : ℕ => (Owner.reservation k : Owner Src Key)) ?_
    rwa [map_map]

lemma mem_owners {o : Owner Src Key} :
    o ∈ w.owned.map fst ↔
      (∃ e ∈ w.table.bySource, .source e.1.1 e.1.2 = o) ∨
        (∃ e ∈ w.table.byPath, .path e.1.1 e.1.2 = o) ∨ ∃ e ∈ w.reserved, .reservation e.1 = o := by
  simp only [owned, map_append, map_map, mem_append, mem_map, Function.comp_apply]

lemma change_reserve [DecidableEq Src] [DecidableEq Key] (hinv : w.Inv)
    (h : w.step .reserve = some w') : Change w w' := by
  simp only [step, FwdPathIDTable.reserve, Option.bind_eq_bind, Option.bind_eq_some_iff,
    Option.pure_def, Option.some.injEq] at h
  obtain ⟨-, ⟨⟨id, t⟩, hmint, rfl⟩, rfl⟩ := h
  obtain ⟨hfree, rfl⟩ := mintLocked_spec hmint
  refine .give (.reservation w.ticket) id hfree ?_ ?_ rfl fun _ hc => Counts.use hc id
  · rw [mem_owners]
    rintro (⟨e, -, he⟩ | ⟨e, -, he⟩ | ⟨e, he, heq⟩)
    · cases he
    · cases he
    · have := hinv.tickets e he
      rw [Owner.reservation.inj heq] at this
      exact lt_irrefl _ this
  · unfold owned
    rw [map_cons]
    exact (perm_middle.append_left _).trans perm_middle

variable [DecidableEq Src] [DecidableEq Key]

variable {src : Src} {op : Op Src Key}

lemma change_generate {received : BitVec 32}
    (h : w.step (.generate src received) = some w') : Change w w' := by
  obtain ⟨⟨id, t⟩, hgen, ⟨⟩⟩ := Option.bind_eq_some_iff.1 h
  unfold FwdPathIDTable.generate at hgen
  split at hgen
  · cases hgen
    exact .keep rfl rfl fun _ hc => hc
  · rename_i hnone
    simp only [Option.bind_eq_bind, Option.bind_eq_some_iff, Option.pure_def,
      Option.some.injEq, Prod.mk.injEq] at hgen
    obtain ⟨⟨id', t'⟩, hmint, rfl, rfl⟩ := hgen
    obtain ⟨hfree, rfl⟩ := mintLocked_spec hmint
    refine .give (.source src received) id' hfree ?_ (List.Perm.refl _) rfl
      fun _ hc => Counts.use hc id'
    rw [mem_owners]
    rintro (⟨e, he, heq⟩ | ⟨e, -, heq⟩ | ⟨e, -, heq⟩)
    · obtain ⟨h1, h2⟩ := Owner.source.inj heq
      exact Table.ne_of_lookup hnone e he (Prod.ext_iff.mpr ⟨h1, h2⟩)
    · cases heq
    · cases heq

lemma change_generatePath {key : Key}
    (h : w.step (.generatePath src key) = some w') : Change w w' := by
  obtain ⟨⟨id, t⟩, hgen, ⟨⟩⟩ := Option.bind_eq_some_iff.1 h
  unfold FwdPathIDTable.generatePath at hgen
  split at hgen
  · cases hgen
    exact .keep rfl rfl fun _ hc => hc
  · rename_i hnone
    simp only [Option.bind_eq_bind, Option.bind_eq_some_iff, Option.pure_def,
      Option.some.injEq, Prod.mk.injEq] at hgen
    obtain ⟨⟨id', t'⟩, hmint, rfl, rfl⟩ := hgen
    obtain ⟨hfree, rfl⟩ := mintLocked_spec hmint
    refine .give (.path src key) id' hfree ?_ ?_ rfl fun _ hc => Counts.use hc id'
    · rw [mem_owners]
      rintro (⟨e, -, heq⟩ | ⟨e, he, heq⟩ | ⟨e, -, heq⟩)
      · cases heq
      · obtain ⟨h1, h2⟩ := Owner.path.inj heq
        exact Table.ne_of_lookup hnone e he (Prod.ext_iff.mpr ⟨h1, h2⟩)
      · cases heq
    · exact perm_middle

lemma change_releaseReserved (hinv : w.Inv) {ticket : ℕ}
    (h : w.step (.releaseReserved ticket) = some w') : Change w w' := by
  obtain ⟨id, hlook, ⟨⟩⟩ := Option.bind_eq_some_iff.1 h
  refine .drop [(.reservation ticket, id)] ?_ rfl fun refs hc => ?_
  · have hperm := (Table.perm_of_lookup hinv.keys_nodup.2.2 hlook).map
      fun e => ((Owner.reservation e.1 : Owner Src Key), e.2)
    have hmaps := maps_releaseAll w.table [id]
    unfold owned
    rw [show (w.table.release id).bySource = w.table.bySource from hmaps.1,
      show (w.table.release id).byPath = w.table.byPath from hmaps.2]
    exact (((hperm.append_left _).trans perm_middle).append_left _).trans perm_middle
  · exact hc.releaseAll [id]

lemma change_releasePath (hinv : w.Inv) {key : Key} {retains : Bool}
    (h : w.step (.releasePath src key retains) = some w') : Change w w' := by
  cases h
  unfold FwdPathIDTable.releasePath
  split_ifs
  · exact .keep rfl rfl fun _ hc => hc
  · split
    · exact .keep rfl rfl fun _ hc => hc
    · rename_i id hlook
      refine .drop [(.path src key, id)] ?_ rfl fun refs hc => hc.releaseAll [id]
      have hperm := (Table.perm_of_lookup hinv.keys_nodup.2.1 hlook).map
        fun e => ((Owner.path e.1.1 e.1.2 : Owner Src Key), e.2)
      have hmaps := maps_releaseAll w.table [id]
      unfold owned
      simp only
      rw [show (w.table.releaseLocked id).bySource = w.table.bySource from hmaps.1,
        show (w.table.releaseLocked id).byPath = w.table.byPath from hmaps.2]
      exact ((hperm.append_right _).append_left _).trans perm_middle

lemma perm_source {A : Type} (l : List ((Src × A) × BitVec 32)) (src : Src) :
    l.Perm ((l.filter fun e => e.1.1 = src) ++ l.filter fun e => e.1.1 ≠ src) := by
  have := (filter_append_perm (fun e : (Src × A) × BitVec 32 => decide (e.1.1 = src)) l).symm
  simpa only [decide_not] using this

lemma change_releaseSource (h : w.step (.releaseSource src) = some w') : Change w w' := by
  cases h
  have hpath : (w.table.releaseUnframed src).byPath = w.table.byPath :=
    (maps_releaseAll w.table _).2
  refine .drop ((w.table.bySource.filter fun e => e.1.1 = src).map
        (fun e => (.source e.1.1 e.1.2, e.2)) ++
      (w.table.byPath.filter fun e => e.1.1 = src).map fun e => (.path e.1.1 e.1.2, e.2))
    ?_ rfl fun refs hc => ?_
  · have hs := (perm_source w.table.bySource src).map
      fun e => ((Owner.source e.1.1 e.1.2 : Owner Src Key), e.2)
    have hp := (perm_source w.table.byPath src).map
      fun e => ((Owner.path e.1.1 e.1.2 : Owner Src Key), e.2)
    have hsource : (w.table.releaseSource src).bySource
        = w.table.bySource.filter fun e => e.1.1 ≠ src :=
      (maps_releaseAll (w.table.releaseUnframed src) _).1
    have hpaths : (w.table.releaseSource src).byPath
        = w.table.byPath.filter fun e => e.1.1 ≠ src := by
      rw [← hpath]
      rfl
    rw [map_append] at hs hp
    unfold owned
    rw [hsource, hpaths]
    refine (hs.append (hp.append_right _)).trans ?_
    simp only [append_assoc]
    exact List.Perm.append_left _ (perm_append_comm_assoc ..)
  · rw [map_append, map_map, map_map, ← coe_add, Multiset.sub_add_eq_sub_sub]
    have hone : Counts (w.table.releaseUnframed src) _ := hc.releaseAll _
    have htwo : Counts ((w.table.releaseUnframed src).releaseFramed src) _ := hone.releaseAll _
    rw [hpath] at htwo
    exact htwo

lemma step_change (hinv : w.Inv) (h : w.step op = some w') : Change w w' := by
  cases op with
  | generate src received => exact change_generate h
  | generatePath src key => exact change_generatePath h
  | reserve => exact change_reserve hinv h
  | retain id =>
    cases h
    exact .retain id rfl rfl fun _ hc => hc.use id
  | releaseReserved ticket => exact change_releaseReserved hinv h
  | releaseRetained id =>
    simp only [step] at h
    split_ifs at h with hmem
    cases h
    have hmaps := maps_releaseAll w.table [id]
    refine .letGo id ?_ hmem rfl fun _ hc => hc.releaseLocked id
    unfold owned
    rw [show (w.table.release id).bySource = w.table.bySource from hmaps.1,
      show (w.table.release id).byPath = w.table.byPath from hmaps.2]
  | releasePath src key retains => exact change_releasePath hinv h
  | releaseSource src => exact change_releaseSource h

lemma step_tickets (hinv : w.Inv) (h : w.step op = some w') :
    ∀ e ∈ w'.reserved, e.1 < w'.ticket := by
  cases op with
  | generate src received | generatePath src key =>
    obtain ⟨-, -, ⟨⟩⟩ := Option.bind_eq_some_iff.1 h
    exact hinv.tickets
  | reserve =>
    obtain ⟨p, -, ⟨⟩⟩ := Option.bind_eq_some_iff.1 h
    intro e he
    rcases mem_cons.1 he with rfl | he
    · exact Nat.lt_succ_self _
    · exact Nat.lt_succ_of_lt (hinv.tickets e he)
  | releaseReserved ticket =>
    obtain ⟨id, -, ⟨⟩⟩ := Option.bind_eq_some_iff.1 h
    exact fun e he => hinv.tickets e (mem_filter.1 he).1
  | releaseRetained id =>
    simp only [step] at h
    split_ifs at h
    cases h
    exact hinv.tickets
  | retain id | releasePath src key retains | releaseSource src =>
    cases h
    exact hinv.tickets

lemma step_inv (hinv : w.Inv) (h : w.step op = some w') : w'.Inv := by
  obtain ⟨hcounts, howners, hids⟩ := (step_change hinv h).keeps hinv
  exact ⟨hcounts, howners, hids, step_tickets hinv h⟩

end

/-! ## Runs -/

section

variable {w w' : World Src Key}

lemma inv_new : (new : World Src Key).Inv where
  counts _ := rfl
  owners := nodup_nil
  ids := nodup_nil
  tickets e he := by cases he

/-- **Identifiers are exclusive, steady and counted.** In the state after any run of operations, in
which callers release only references they hold, two live owners never hold one identifier; the use
count of every identifier is the number of live references to it; and an owner that is live before
and after a further operation holds the same identifier. -/
theorem exclusive_of_run [DecidableEq Src] [DecidableEq Key] {ops : List (Op Src Key)}
    (h : run step new ops = some w) :
    (∀ o o' id, w.Holds o id → w.Holds o' id → o = o') ∧
      (∀ id, (w.table.used id).getD 0 = w.refs.count id) ∧
      ∀ op w' o id id', w.step op = some w' → w.Holds o id → w'.Holds o id' → id' = id := by
  have hinv : w.Inv := run_inv (fun _ _ _ hw hstep => step_inv hw hstep) ops _ _ inv_new h
  refine ⟨fun o o' id => hinv.owner_unique, fun id => ?_, fun op w' o id id' hstep => ?_⟩
  · rw [hinv.counts id, getD_entry]
  · exact (step_change hinv hstep).steady hinv (step_inv hinv hstep)

/-- A run in which an identifier is retained beyond its mapping and another path is numbered. -/
def exampleOps : List (Op ℕ ℕ) :=
  [.generate 1 0#32, .generatePath 2 7, .retain 1#32, .reserve, .releasePath 2 7 false,
    .generatePath 2 7, .releaseReserved 0, .releaseSource 1]

theorem exclusive_of_exampleOps :
    ∃ w : World ℕ ℕ, run step new exampleOps = some w ∧
      (∀ o o' id, w.Holds o id → w.Holds o' id → o = o') ∧
      (∀ id, (w.table.used id).getD 0 = w.refs.count id) ∧
      ∀ op w' o id id', w.step op = some w' → w.Holds o id → w'.Holds o id' → id' = id := by
  have hsome : (run step (new : World ℕ ℕ) exampleOps).isSome := by decide +kernel
  obtain ⟨w, hw⟩ := Option.isSome_iff_exists.1 hsome
  exact ⟨w, hw, exclusive_of_run hw⟩

end

end World

end Ze.Forward
