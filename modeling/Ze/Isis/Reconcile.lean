import Ze.Lib.Ranges
import Ze.Isis.Flooding

/-!
# Reconciling two databases

What complete sequence-number PDUs do to the side that receives them: an entry touches its own
identifier alone, and a range those in it that are not listed. `Ze.Lib.InRange` says which
identifiers the PDUs of a database cover: what lies between the last LSP of a PDU and the first LSP
of the next one is left out.
-/

namespace Ze.Isis

open Ze.Lib List
open SortedMap (mem_keys_iff lookup_modify)
open Option (map_some)

/-! ## Flags and versions -/

def Entry.bare (e : Entry) : Entry := { e with srm := ∅, ssn := ∅ }

/-- Two databases hold the same LSPs, whatever the flags. -/
def Agree (d d' : Db) : Prop :=
  ∀ id, (d'.lookup id).map Entry.bare = (d.lookup id).map Entry.bare

lemma Agree.refl (d : Db) : Agree d d := fun _ => rfl

lemma Agree.trans {d d' d'' : Db} (h : Agree d d') (h' : Agree d' d'') : Agree d d'' :=
  fun id => (h' id).trans (h id)

lemma agree_modify (d : Db) (id : LspId) (f : Entry → Entry)
    (hf : ∀ e, (f e).bare = e.bare) : Agree d (d.modify id f) := by
  intro a
  rw [lookup_modify]
  split_ifs
  · rw [Option.map_map]
    exact Option.map_congr fun e _ => hf e
  · rfl

lemma compareSNPEntry_bare (e : LspEntry) (held : Entry) :
    compareSNPEntry e held.bare = compareSNPEntry e held := rfl

lemma Agree.exists_held {d d' : Db} (h : Agree d d') {id : LspId} {held' : Entry}
    (hd : d'.lookup id = some held') :
    ∃ held, d.lookup id = some held ∧ held.bare = held'.bare := by
  have heq := h id
  rw [hd, map_some] at heq
  obtain ⟨held, hheld, hbare⟩ := Option.map_eq_some_iff.1 heq.symm
  exact ⟨held, hheld, hbare⟩

lemma agree_setSRM (d : Db) (id : LspId) (cid : CircuitId) : Agree d (d.setSRM id cid) :=
  agree_modify d id _ fun _ => rfl

lemma agree_clearSRM (d : Db) (id : LspId) (cid : CircuitId) : Agree d (d.clearSRM id cid) :=
  agree_modify d id _ fun _ => rfl

lemma agree_setSSN (d : Db) (id : LspId) (cid : CircuitId) : Agree d (d.setSSN id cid) :=
  agree_modify d id _ fun _ => rfl

/-! ## One entry -/

section

variable {cid : CircuitId} {l : Link} {e : LspEntry} {id : LspId}

lemma db_recordPending (l : Link) (id : LspId) (req : PendingReq) :
    (l.recordPending id req).db = l.db := by
  unfold Link.recordPending
  split_ifs <;> rfl

lemma lookup_recordPending_of_ne {k : LspId} {req : PendingReq} (h : id ≠ k) :
    (l.recordPending k req).pending.lookup id = l.pending.lookup id := by
  unfold Link.recordPending
  split_ifs
  · rfl
  · rw [SortedMap.lookup_put, if_neg h]

lemma agree_reconcileCSNPEntry (cid : CircuitId) (l : Link) (e : LspEntry) :
    Agree l.db (l.reconcileCSNPEntry cid e).db := by
  unfold Link.reconcileCSNPEntry
  simp only
  split
  · rw [db_recordPending]
    exact Agree.refl _
  · split
    · simp only [db_recordPending]
      exact agree_setSSN _ _ _
    · exact agree_setSRM _ _ _
    · exact agree_clearSRM _ _ _

lemma reconcileCSNPEntry_of_ne (h : id ≠ e.lspId) :
    (l.reconcileCSNPEntry cid e).db.lookup id = l.db.lookup id ∧
      (l.reconcileCSNPEntry cid e).pending.lookup id = l.pending.lookup id := by
  unfold Link.reconcileCSNPEntry
  simp only
  split
  · exact ⟨by rw [db_recordPending], lookup_recordPending_of_ne h⟩
  · split
    · refine ⟨?_, lookup_recordPending_of_ne h⟩
      simp only [db_recordPending, Db.setSSN, lookup_modify, if_neg h]
    · refine ⟨?_, rfl⟩
      simp only [Db.setSRM, lookup_modify, if_neg h]
    · refine ⟨?_, ?_⟩
      · simp only [Link.clearPending, Db.clearSRM, lookup_modify, if_neg h]
      · simp only [Link.clearPending, SortedMap.lookup_erase, if_neg h]

/-- The SRM flag of the LSP that an entry lists. Source: snp.go reconcileCSNPEntry. -/
def flagged (cid : CircuitId) (e : LspEntry) (held : Entry) : Bool :=
  match compareSNPEntry e held with
  | .gt => decide (cid ∈ held.srm)
  | .lt => true
  | .eq => false

lemma srm_reconcileCSNPEntry {held : Entry} (hheld : l.db.lookup e.lspId = some held) :
    ∃ held', (l.reconcileCSNPEntry cid e).db.lookup e.lspId = some held' ∧
      (cid ∈ held'.srm ↔ flagged cid e held) := by
  unfold Link.reconcileCSNPEntry flagged
  simp only [hheld]
  cases compareSNPEntry e held with
  | gt =>
    refine ⟨{ held with ssn := insert cid held.ssn }, ?_, by simp⟩
    simp only [db_recordPending, Db.setSSN, lookup_modify, if_pos, hheld, map_some]
  | lt =>
    refine ⟨{ held with srm := insert cid held.srm }, ?_, by simp⟩
    simp only [Db.setSRM, lookup_modify, if_pos, hheld, map_some]
  | eq =>
    refine ⟨{ held with srm := held.srm.erase cid }, ?_, by simp⟩
    simp only [Link.clearPending, Db.clearSRM, lookup_modify, if_pos, hheld, map_some]

/-- The side wants the LSP that an entry lists: it has none, or an older one.
Source: snp.go reconcileCSNPEntry -/
def wants (e : LspEntry) (held : Option Entry) : Bool :=
  held.all fun h => decide (compareSNPEntry e h = .gt)

lemma pending_of_wants (hw : wants e (l.db.lookup e.lspId))
    (hroom : l.pending.lookup e.lspId = none → l.pending.size < maxPendingPerCircuit) :
    ∃ r, (l.reconcileCSNPEntry cid e).pending.lookup e.lspId = some r := by
  have hrec : ∀ req, ∃ r, (l.recordPending e.lspId req).pending.lookup e.lspId = some r := by
    intro req
    unfold Link.recordPending
    have hnot : ¬ ((l.pending.lookup e.lspId).isNone ∧ maxPendingPerCircuit ≤ l.pending.size) := by
      rintro ⟨hnone, hfull⟩
      exact absurd (hroom (Option.isNone_iff_eq_none.1 hnone)) (Nat.not_lt.2 hfull)
    rw [if_neg hnot]
    exact ⟨req, by rw [SortedMap.lookup_put, if_pos rfl]⟩
  unfold Link.reconcileCSNPEntry
  cases hheld : l.db.lookup e.lspId with
  | none => exact hrec _
  | some held =>
    rw [hheld] at hw
    have hgt : compareSNPEntry e held = .gt := by simpa [wants] using hw
    simp only [hgt]
    exact hrec _

/-- The request for an LSP that is not wanted: it stays if the side has the newer copy, and is
dropped if both are the same. -/
lemma pending_of_not_wants {held : Entry} (hheld : l.db.lookup e.lspId = some held)
    (hne : compareSNPEntry e held ≠ .gt) :
    (l.reconcileCSNPEntry cid e).pending.lookup e.lspId =
      if compareSNPEntry e held = .lt then l.pending.lookup e.lspId else none := by
  unfold Link.reconcileCSNPEntry
  simp only [hheld]
  cases hcmp : compareSNPEntry e held with
  | gt => exact absurd hcmp hne
  | lt => simp
  | eq =>
    simp only [Link.clearPending, SortedMap.lookup_erase]
    simp

lemma mem_of_pending {S : Finset LspId} (hS : ∀ k ∈ l.pending.keys, k ∈ S)
    (hw : wants e (l.db.lookup e.lspId) → e.lspId ∈ S) :
    ∀ k ∈ (l.reconcileCSNPEntry cid e).pending.keys, k ∈ S := by
  intro k hk
  by_cases hke : k = e.lspId
  · subst hke
    by_cases hwant : wants e (l.db.lookup e.lspId)
    · exact hw hwant
    · cases hheld : l.db.lookup e.lspId with
      | none =>
        rw [hheld] at hwant
        exact absurd rfl hwant
      | some held =>
        have hne : compareSNPEntry e held ≠ .gt := by
          intro hgt
          rw [hheld] at hwant
          exact hwant (by simp [wants, hgt])
        obtain ⟨r, hr⟩ := (mem_keys_iff _).1 hk
        rw [pending_of_not_wants hheld hne] at hr
        split_ifs at hr
        exact hS _ ((mem_keys_iff _).2 ⟨r, hr⟩)
  · obtain ⟨r, hr⟩ := (mem_keys_iff _).1 hk
    rw [(reconcileCSNPEntry_of_ne hke).2] at hr
    exact hS k ((mem_keys_iff _).2 ⟨r, hr⟩)

end

/-! ## One PDU -/

section

variable {cid : CircuitId} {l : Link} {id : LspId}

variable {entries : List LspEntry}

lemma foldl_reconcile_of_notMem (h : id ∉ entries.map (·.lspId)) :
    (entries.foldl (Link.reconcileCSNPEntry cid) l).db.lookup id = l.db.lookup id ∧
      (entries.foldl (Link.reconcileCSNPEntry cid) l).pending.lookup id =
        l.pending.lookup id := by
  induction entries generalizing l with
  | nil => exact ⟨rfl, rfl⟩
  | cons e es ih =>
    rw [map_cons, mem_cons, not_or] at h
    rw [foldl_cons, (ih h.2).1, (ih h.2).2]
    exact reconcileCSNPEntry_of_ne h.1

lemma agree_foldl_reconcile (cid : CircuitId) (entries : List LspEntry) (l : Link) :
    Agree l.db (entries.foldl (Link.reconcileCSNPEntry cid) l).db := by
  induction entries generalizing l with
  | nil => exact Agree.refl l.db
  | cons e es ih => exact (agree_reconcileCSNPEntry cid l e).trans (ih _)

lemma Agree.wants {d d' : Db} (h : Agree d d') (e : LspEntry) (a : LspId) :
    Isis.wants e (d'.lookup a) = Isis.wants e (d.lookup a) := by
  have heq := h a
  cases hd : d.lookup a with
  | none =>
    rw [hd] at heq
    rw [Option.map_eq_none_iff.1 heq]
  | some held =>
    rw [hd, map_some] at heq
    obtain ⟨held', hheld', hbare⟩ := Option.map_eq_some_iff.1 heq
    rw [hheld']
    simp only [Isis.wants, Option.all_some, ← compareSNPEntry_bare e held', hbare,
      compareSNPEntry_bare]

lemma mem_of_pending_foldl {S : Finset LspId} (hS : ∀ k ∈ l.pending.keys, k ∈ S)
    (hw : ∀ e ∈ entries, wants e (l.db.lookup e.lspId) → e.lspId ∈ S) :
    ∀ k ∈ (entries.foldl (Link.reconcileCSNPEntry cid) l).pending.keys, k ∈ S := by
  induction entries generalizing l with
  | nil => exact hS
  | cons e es ih =>
    refine ih (mem_of_pending hS (hw e mem_cons_self)) fun e' he' hwant => ?_
    rw [(agree_reconcileCSNPEntry cid l e).wants] at hwant
    exact hw e' (mem_cons_of_mem _ he') hwant

lemma foldl_reconcile_of_mem (cid : CircuitId) (l : Link) (hnd : (entries.map (·.lspId)).Nodup)
    {e : LspEntry} (he : e ∈ entries) :
    ∃ pre ⊆ entries, ∃ l₁, l₁ = pre.foldl (Link.reconcileCSNPEntry cid) l ∧
      l₁.db.lookup e.lspId = l.db.lookup e.lspId ∧
      l₁.pending.lookup e.lspId = l.pending.lookup e.lspId ∧
      (entries.foldl (Link.reconcileCSNPEntry cid) l).db.lookup e.lspId =
        (l₁.reconcileCSNPEntry cid e).db.lookup e.lspId ∧
      (entries.foldl (Link.reconcileCSNPEntry cid) l).pending.lookup e.lspId =
        (l₁.reconcileCSNPEntry cid e).pending.lookup e.lspId := by
  obtain ⟨pre, post, rfl⟩ := append_of_mem he
  rw [map_append, map_cons, nodup_append] at hnd
  obtain ⟨-, hpost, hdisj⟩ := hnd
  have hpre : e.lspId ∉ pre.map (·.lspId) := fun h =>
    hdisj _ h _ mem_cons_self rfl
  refine ⟨pre, subset_append_left _ _, _, rfl, (foldl_reconcile_of_notMem hpre).1,
    (foldl_reconcile_of_notMem hpre).2, ?_⟩
  rw [foldl_append, foldl_cons]
  exact foldl_reconcile_of_notMem (nodup_cons.1 hpost).1

lemma lookup_reconcileCSNPRange (l : Link) (start stop : LspId) (listed : List LspId) (id : LspId) :
    (l.reconcileCSNPRange cid start stop listed).db.lookup id =
      if start ≤ id ∧ id ≤ stop ∧ id ∉ listed then
        (l.db.lookup id).map fun e => { e with srm := insert cid e.srm }
      else l.db.lookup id := by
  have hfold : ∀ (ks : List LspId) (d : Db),
      (ks.foldl (fun (d : Db) k => if k < start ∨ stop < k then d
        else if k ∈ listed then d else d.setSRM k cid) d).lookup id =
      if id ∈ ks ∧ start ≤ id ∧ id ≤ stop ∧ id ∉ listed then
        (d.lookup id).map fun e => { e with srm := insert cid e.srm }
      else d.lookup id := by
    intro ks
    induction ks with
    | nil =>
      intro d
      simp
    | cons k ks ih =>
      intro d
      rw [foldl_cons, ih]
      by_cases hk : k < start ∨ stop < k
      · have hne : start ≤ id ∧ id ≤ stop → id ≠ k := by
          rintro ⟨h₁, h₂⟩ rfl
          rcases hk with hk | hk
          · exact absurd hk (not_lt.2 h₁)
          · exact absurd hk (not_lt.2 h₂)
        rw [if_pos hk]
        refine if_congr ⟨fun h => ⟨mem_cons_of_mem _ h.1, h.2⟩, fun h => ⟨?_, h.2⟩⟩ rfl rfl
        exact mem_of_ne_of_mem (hne ⟨h.2.1, h.2.2.1⟩) h.1
      · rw [if_neg hk]
        by_cases hl : k ∈ listed
        · rw [if_pos hl]
          refine if_congr ⟨fun h => ⟨mem_cons_of_mem _ h.1, h.2⟩, fun h => ⟨?_, h.2⟩⟩ rfl rfl
          refine mem_of_ne_of_mem ?_ h.1
          rintro rfl
          exact h.2.2.2 hl
        · rw [if_neg hl]
          simp only [Db.setSRM, lookup_modify]
          by_cases hik : id = k
          · subst hik
            rw [not_or, not_lt, not_lt] at hk
            have hin : start ≤ id ∧ id ≤ stop ∧ id ∉ listed := ⟨hk.1, hk.2, hl⟩
            rw [if_pos rfl]
            simp only [mem_cons_self, true_and, if_pos hin, Option.map_map]
            split_ifs
            · refine Option.map_congr fun e _ => ?_
              simp
            · rfl
          · simp only [mem_cons, hik, false_or, if_false]
  unfold Link.reconcileCSNPRange
  simp only
  rw [hfold]
  by_cases hin : start ≤ id ∧ id ≤ stop ∧ id ∉ listed
  · rw [if_pos hin]
    by_cases hkey : id ∈ l.db.keys
    · rw [if_pos ⟨hkey, hin⟩]
    · rw [if_neg fun h => hkey h.1]
      cases hl : l.db.lookup id with
      | none => rfl
      | some e => exact absurd ((mem_keys_iff _).2 ⟨e, hl⟩) hkey
  · rw [if_neg hin, if_neg fun h => hin h.2]

end

/-! ## All PDUs -/

/-- The range of a PDU. Source: snp.go reconcileCSNPRange. -/
def Csnp.Spans (c : Csnp) (id : LspId) : Prop := c.startLSPID ≤ id ∧ id ≤ c.endLSPID

def Csnp.ids (c : Csnp) : List LspId := c.entries.map (·.lspId)

section

variable {cid : CircuitId} {l : Link} {id : LspId}

lemma pending_receiveCSNP (c : Csnp) :
    (l.receiveCSNP cid c).pending = (c.entries.foldl (Link.reconcileCSNPEntry cid) l).pending := rfl

lemma agree_receiveCSNP (cid : CircuitId) (l : Link) (c : Csnp) :
    Agree l.db (l.receiveCSNP cid c).db := by
  refine (agree_foldl_reconcile cid c.entries l).trans fun a => ?_
  unfold Link.receiveCSNP
  rw [lookup_reconcileCSNPRange]
  split_ifs
  · rw [Option.map_map]
    exact Option.map_congr fun e _ => rfl
  · rfl

lemma agree_foldl_receive (cid : CircuitId) (cs : List Csnp) (l : Link) :
    Agree l.db (cs.foldl (Link.receiveCSNP cid) l).db := by
  induction cs generalizing l with
  | nil => exact Agree.refl l.db
  | cons c cs ih => exact (agree_receiveCSNP cid l c).trans (ih _)

lemma receiveCSNP_of_notMem (cid : CircuitId) (l : Link) {c : Csnp} (h : id ∉ c.ids)
    [Decidable (c.Spans id)] :
    (l.receiveCSNP cid c).db.lookup id =
        (if c.Spans id then (l.db.lookup id).map fun e => { e with srm := insert cid e.srm }
        else l.db.lookup id) ∧
      (l.receiveCSNP cid c).pending.lookup id = l.pending.lookup id := by
  refine ⟨?_, (foldl_reconcile_of_notMem h).2⟩
  unfold Link.receiveCSNP
  rw [lookup_reconcileCSNPRange, (foldl_reconcile_of_notMem h).1]
  refine if_congr ⟨fun hin => ⟨hin.1, hin.2.1⟩, fun hin => ⟨hin.1, hin.2, h⟩⟩ rfl rfl

lemma receiveCSNP_of_mem {c : Csnp} (h : id ∈ c.ids) :
    (l.receiveCSNP cid c).db.lookup id =
      (c.entries.foldl (Link.reconcileCSNPEntry cid) l).db.lookup id := by
  unfold Link.receiveCSNP
  rw [lookup_reconcileCSNPRange, if_neg fun hin => hin.2.2 h]

variable {cs : List Csnp}

lemma foldl_receive_of_apart (h : ∀ c ∈ cs, id ∉ c.ids ∧ ¬ c.Spans id) :
    (cs.foldl (Link.receiveCSNP cid) l).db.lookup id = l.db.lookup id ∧
      (cs.foldl (Link.receiveCSNP cid) l).pending.lookup id = l.pending.lookup id := by
  classical
  induction cs generalizing l with
  | nil => exact ⟨rfl, rfl⟩
  | cons c cs ih =>
    have ih' := ih (l := l.receiveCSNP cid c) fun c' hc' => h c' (mem_cons_of_mem _ hc')
    obtain ⟨hids, hspans⟩ := h c mem_cons_self
    obtain ⟨hdb, hp⟩ := receiveCSNP_of_notMem cid l hids
    rw [foldl_cons, ih'.1, ih'.2, hdb, if_neg hspans, hp]
    exact ⟨rfl, rfl⟩

lemma foldl_receive_of_notMem (h : ∀ c ∈ cs, id ∉ c.ids) {held : Entry}
    (hheld : l.db.lookup id = some held) :
    ∃ held', (cs.foldl (Link.receiveCSNP cid) l).db.lookup id = some held' ∧
      (cid ∈ held'.srm ↔ cid ∈ held.srm ∨ ∃ c ∈ cs, c.Spans id) := by
  classical
  induction cs generalizing l held with
  | nil => exact ⟨held, hheld, by simp⟩
  | cons c cs ih =>
    have hids := h c mem_cons_self
    have hrest : ∀ c' ∈ cs, id ∉ c'.ids := fun c' hc' => h c' (mem_cons_of_mem _ hc')
    obtain ⟨hdb, -⟩ := receiveCSNP_of_notMem cid l hids
    by_cases hspans : c.Spans id
    · rw [if_pos hspans, hheld, map_some] at hdb
      obtain ⟨held', hheld', hsrm⟩ := ih hrest hdb
      refine ⟨held', hheld', hsrm.trans ?_⟩
      simp [hspans]
    · rw [if_neg hspans, hheld] at hdb
      obtain ⟨held', hheld', hsrm⟩ := ih hrest hdb
      refine ⟨held', hheld', hsrm.trans ?_⟩
      simp [hspans]

lemma pending_foldl_of_notMem (h : ∀ c ∈ cs, id ∉ c.ids) :
    (cs.foldl (Link.receiveCSNP cid) l).pending.lookup id = l.pending.lookup id := by
  induction cs generalizing l with
  | nil => rfl
  | cons c cs ih =>
    rw [foldl_cons, ih fun c' hc' => h c' (mem_cons_of_mem _ hc'), pending_receiveCSNP]
    exact (foldl_reconcile_of_notMem (h c mem_cons_self)).2

lemma mem_of_pending_receive {S : Finset LspId} (hS : ∀ k ∈ l.pending.keys, k ∈ S)
    (hw : ∀ c ∈ cs, ∀ e ∈ c.entries, wants e (l.db.lookup e.lspId) → e.lspId ∈ S) :
    ∀ k ∈ (cs.foldl (Link.receiveCSNP cid) l).pending.keys, k ∈ S := by
  induction cs generalizing l with
  | nil => exact hS
  | cons c cs ih =>
    refine ih (mem_of_pending_foldl hS (hw c mem_cons_self)) fun c' hc' e he hwant => ?_
    rw [(agree_receiveCSNP cid l c).wants] at hwant
    exact hw c' (mem_cons_of_mem _ hc') e he hwant

end

/-! ## The PDUs of a database -/

section

variable {A : Db} {level : Level}

lemma map_lspId_lspEntries (A : Db) : A.lspEntries.map (·.lspId) = A.keys := by
  unfold Db.lspEntries SortedMap.keys
  rw [map_map]
  rfl

lemma length_lspEntries (A : Db) : A.lspEntries.length = A.keys.length := by
  rw [← map_lspId_lspEntries, length_map]

lemma mem_lspEntries_iff {e : LspEntry} :
    e ∈ A.lspEntries ↔ ∃ a, A.lookup e.lspId = some a ∧ e = a.snp e.lspId := by
  unfold Db.lspEntries
  rw [mem_map]
  constructor
  · rintro ⟨x, hx, rfl⟩
    exact ⟨x.2, (SortedMap.mem_items_iff A).1 hx, rfl⟩
  · rintro ⟨a, ha, he⟩
    exact ⟨(e.lspId, a), (SortedMap.mem_items_iff A).2 ha, he.symm⟩

lemma getElem?_chunks (entries : List LspEntry) (k : ℕ) :
    (chunks entries)[k]? = if k * maxLSPEntriesPerSNP < entries.length then
      some ((entries.drop (k * maxLSPEntriesPerSNP)).take maxLSPEntriesPerSNP) else none := by
  unfold chunks maxLSPEntriesPerSNP
  rw [getElem?_map]
  by_cases hk : k * 15 < entries.length
  · rw [if_pos hk, getElem?_range (by omega), map_some]
  · have hlen : (range ((entries.length + (15 - 1)) / 15)).length ≤ k := by
      rw [length_range]
      omega
    rw [if_neg hk, getElem?_eq_none hlen, Option.map_none]

lemma getElem?_piece {α : Type} (xs : List α) (k i : ℕ) :
    ((xs.drop (k * maxLSPEntriesPerSNP)).take maxLSPEntriesPerSNP)[i]? =
      if i < maxLSPEntriesPerSNP then xs[k * maxLSPEntriesPerSNP + i]? else none := by
  rw [getElem?_take, getElem?_drop]

variable {k : ℕ}

lemma firstId_piece {a : LspId} (ha : A.keys[k * maxLSPEntriesPerSNP]? = some a) :
    firstId ((A.lspEntries.drop (k * maxLSPEntriesPerSNP)).take maxLSPEntriesPerSNP) = a := by
  unfold firstId
  rw [head?_eq_getElem?, getElem?_piece, if_pos (by decide), Nat.add_zero,
    ← getElem?_map, map_lspId_lspEntries, ha, Option.getD_some]

lemma lastId_piece {b : LspId} (hb : A.keys[(k + 1) * maxLSPEntriesPerSNP - 1]? = some b) :
    lastId ((A.lspEntries.drop (k * maxLSPEntriesPerSNP)).take maxLSPEntriesPerSNP) = b := by
  have hlt := (List.getElem?_eq_some_iff.mp hb).1
  have hlen : ((A.lspEntries.drop (k * maxLSPEntriesPerSNP)).take
      maxLSPEntriesPerSNP).length = maxLSPEntriesPerSNP := by
    rw [length_take, List.length_drop, length_lspEntries]
    unfold maxLSPEntriesPerSNP at hlt ⊢
    omega
  have hidx : k * maxLSPEntriesPerSNP + (maxLSPEntriesPerSNP - 1) =
      (k + 1) * maxLSPEntriesPerSNP - 1 := by
    unfold maxLSPEntriesPerSNP
    omega
  unfold lastId
  rw [getLast?_eq_getElem?, hlen, getElem?_piece, if_pos (by decide), hidx,
    ← getElem?_map, map_lspId_lspEntries, hb, Option.getD_some]

lemma buildCSNPs_getElem? (hne : A.keys ≠ []) {c : Csnp} (hc : (A.buildCSNPs level)[k]? = some c) :
    k * maxLSPEntriesPerSNP < A.keys.length ∧
      c.entries = (A.lspEntries.drop (k * maxLSPEntriesPerSNP)).take maxLSPEntriesPerSNP ∧
      ∀ id, c.Spans id ↔ InRange maxLSPEntriesPerSNP A.keys k id := by
  have hemp : ¬ A.lspEntries.isEmpty := by
    intro h
    rw [List.isEmpty_iff] at h
    rw [← map_lspId_lspEntries, h] at hne
    exact hne rfl
  unfold Db.buildCSNPs at hc
  simp only at hc
  rw [if_neg hemp, getElem?_mapIdx, getElem?_chunks, length_lspEntries] at hc
  have hk : k * maxLSPEntriesPerSNP < A.keys.length := by
    by_contra hk
    rw [if_neg hk] at hc
    cases hc
  rw [if_pos hk, map_some] at hc
  cases hc
  refine ⟨hk, rfl, fun id => ?_⟩
  obtain ⟨a, ha⟩ : ∃ a, A.keys[k * maxLSPEntriesPerSNP]? = some a :=
    ⟨_, getElem?_eq_getElem hk⟩
  unfold Csnp.Spans InRange
  simp only
  refine and_congr ?_ ?_
  · by_cases hk0 : k = 0
    · simp only [hk0, if_true, true_or, iff_true]
      exact minLSPID_le id
    · rw [if_neg hk0, firstId_piece ha]
      simp [hk0, ha]
  · by_cases hlast : A.keys.length ≤ (k + 1) * maxLSPEntriesPerSNP
    · rw [if_pos hlast]
      exact ⟨fun _ => .inl hlast, fun _ => le_maxLSPID id⟩
    · obtain ⟨b, hb⟩ : ∃ b, A.keys[(k + 1) * maxLSPEntriesPerSNP - 1]? = some b :=
        ⟨_, getElem?_eq_getElem (by omega)⟩
      rw [if_neg hlast, lastId_piece hb]
      simp [hlast, hb]

lemma exists_buildCSNPs (level : Level) (hne : A.keys ≠ [])
    (hk : k * maxLSPEntriesPerSNP < A.keys.length) :
    ∃ c, (A.buildCSNPs level)[k]? = some c := by
  have hemp : ¬ A.lspEntries.isEmpty := by
    intro h
    rw [List.isEmpty_iff] at h
    rw [← map_lspId_lspEntries, h] at hne
    exact hne rfl
  unfold Db.buildCSNPs
  simp only
  rw [if_neg hemp, getElem?_mapIdx, getElem?_chunks, length_lspEntries, if_pos hk]
  exact ⟨_, rfl⟩

end

/-! ## What the PDUs of a database list and span -/

section

variable {A : Db} {level : Level} {id : LspId}

lemma ids_buildCSNPs {k : ℕ} {c : Csnp} (hne : A.keys ≠ [])
    (hc : (A.buildCSNPs level)[k]? = some c) :
    c.ids = (A.keys.drop (k * maxLSPEntriesPerSNP)).take maxLSPEntriesPerSNP := by
  unfold Csnp.ids
  rw [(buildCSNPs_getElem? hne hc).2.1, map_take, map_drop, map_lspId_lspEntries]

lemma buildCSNPs_of_nil (hnil : A.keys = []) :
    A.buildCSNPs level =
      [{ level, startLSPID := minLSPID, endLSPID := maxLSPID, entries := [] }] := by
  have hemp : A.lspEntries.isEmpty := by
    rw [List.isEmpty_iff, ← map_eq_nil_iff, map_lspId_lspEntries, hnil]
  unfold Db.buildCSNPs
  simp only
  rw [if_pos hemp]

lemma notMem_ids_of_none (hnone : A.lookup id = none) : ∀ c ∈ A.buildCSNPs level, id ∉ c.ids := by
  intro c hc hid
  by_cases hnil : A.keys = []
  · rw [buildCSNPs_of_nil hnil, mem_singleton] at hc
    subst hc
    cases hid
  · obtain ⟨k, hk⟩ := mem_iff_getElem?.1 hc
    rw [ids_buildCSNPs hnil hk] at hid
    obtain ⟨a, ha⟩ := (mem_keys_iff A).1 (mem_of_mem_drop (mem_of_mem_take hid))
    rw [hnone] at ha
    cases ha

lemma mem_lspEntries_of_mem : ∀ c ∈ A.buildCSNPs level, ∀ e ∈ c.entries, e ∈ A.lspEntries := by
  intro c hc e he
  by_cases hnil : A.keys = []
  · rw [buildCSNPs_of_nil hnil, mem_singleton] at hc
    subst hc
    cases he
  · obtain ⟨k, hk⟩ := mem_iff_getElem?.1 hc
    rw [(buildCSNPs_getElem? hnil hk).2.1] at he
    exact mem_of_mem_drop (mem_of_mem_take he)

lemma buildCSNPs_of_mem (level : Level) {a : Entry} (ha : A.lookup id = some a) :
    ∃ pre c post, A.buildCSNPs level = pre ++ c :: post ∧ c.ids.Nodup ∧ a.snp id ∈ c.entries ∧
      ∀ c' ∈ pre ++ post, id ∉ c'.ids ∧ ¬ c'.Spans id := by
  have hmem : id ∈ A.keys := (mem_keys_iff A).mpr ⟨a, ha⟩
  have hne : A.keys ≠ [] := ne_nil_of_mem hmem
  have hpos : 0 < maxLSPEntriesPerSNP := by decide
  have hentry : a.snp id ∈ A.lspEntries := mem_lspEntries_iff.mpr ⟨a, ha, rfl⟩
  obtain ⟨i, hi⟩ := mem_iff_getElem?.mp hentry
  have hid : A.keys[i]? = some id := by
    rw [← map_lspId_lspEntries, getElem?_map, hi]
    rfl
  have hlen := (List.getElem?_eq_some_iff.mp hid).1
  have hmod := Nat.div_add_mod' i maxLSPEntriesPerSNP
  have hlt := Nat.mod_lt i hpos
  obtain ⟨c, hc⟩ := exists_buildCSNPs level hne
    (show i / maxLSPEntriesPerSNP * maxLSPEntriesPerSNP < A.keys.length by omega)
  obtain ⟨hk, hentries, hspans⟩ := buildCSNPs_getElem? hne hc
  -- another PDU neither lists the LSP nor spans it
  have hother : ∀ j c', (A.buildCSNPs level)[j]? = some c' → j ≠ i / maxLSPEntriesPerSNP →
      id ∉ c'.ids ∧ ¬ c'.Spans id := by
    intro j c' hc' hj
    obtain ⟨hjk, -, hspans'⟩ := buildCSNPs_getElem? hne hc'
    refine ⟨fun hin => hj ?_, fun hin => hj ?_⟩
    · rw [ids_buildCSNPs hne hc'] at hin
      obtain ⟨m, hm⟩ := mem_iff_getElem?.mp hin
      rw [getElem?_piece] at hm
      split_ifs at hm with hm15
      have hidx : j * maxLSPEntriesPerSNP + m = i := by
        rw [← rank_of_getElem? A.sorted_keys hm, rank_of_getElem? A.sorted_keys hid]
      rw [← hidx, Nat.mul_comm, Nat.mul_add_div hpos, Nat.div_eq_of_lt hm15, Nat.add_zero]
    · exact (inRange_iff_of_mem hpos A.sorted_keys hjk hid).mp ((hspans' id).mp hin)
  obtain ⟨hlenc, hget⟩ := List.getElem?_eq_some_iff.mp hc
  refine ⟨(A.buildCSNPs level).take (i / maxLSPEntriesPerSNP), c,
    (A.buildCSNPs level).drop (i / maxLSPEntriesPerSNP + 1), ?_, ?_, ?_, ?_⟩
  · rw [← hget, cons_getElem_drop_succ, take_append_drop]
  · rw [ids_buildCSNPs hne hc]
    exact A.nodup_keys.sublist ((take_sublist _ _).trans (drop_sublist _ _))
  · rw [hentries]
    refine mem_iff_getElem?.mpr ⟨i % maxLSPEntriesPerSNP, ?_⟩
    rw [getElem?_piece, if_pos hlt, hmod]
    exact hi
  · intro c' hc'
    rcases mem_append.mp hc' with hc' | hc'
    · obtain ⟨j, hj⟩ := mem_iff_getElem?.mp hc'
      rw [getElem?_take] at hj
      split_ifs at hj with hlt'
      exact hother j c' hj (Nat.ne_of_lt hlt')
    · obtain ⟨j, hj⟩ := mem_iff_getElem?.mp hc'
      rw [getElem?_drop] at hj
      exact hother _ c' hj (by omega)

lemma exists_spans_iff (hne : A.keys ≠ []) :
    (∃ c ∈ A.buildCSNPs level, c.Spans id) ↔
      ∃ k, k * maxLSPEntriesPerSNP < A.keys.length ∧ InRange maxLSPEntriesPerSNP A.keys k id := by
  constructor
  · rintro ⟨c, hc, hspans⟩
    obtain ⟨k, hk⟩ := mem_iff_getElem?.1 hc
    obtain ⟨hlt, -, hiff⟩ := buildCSNPs_getElem? hne hk
    exact ⟨k, hlt, (hiff id).1 hspans⟩
  · rintro ⟨k, hlt, hin⟩
    obtain ⟨c, hc⟩ := exists_buildCSNPs level hne hlt
    exact ⟨c, mem_of_getElem? hc, ((buildCSNPs_getElem? hne hc).2.2 id).2 hin⟩

end

/-! ## The receiving side -/

section

variable {A : Db} {level : Level} {cid : CircuitId} {B : Link} {id : LspId}

/-- The side after all PDUs of a database. Source: snp.go SendCSNP, ReceiveCSNP. -/
def Link.reconciled (A : Db) (level : Level) (cid : CircuitId) (B : Link) : Link :=
  (A.buildCSNPs level).foldl (Link.receiveCSNP cid) B

/-- The LSPs that a database lists and a side does not hold, or holds in an older version. -/
def wantedIds (A B : Db) : List LspId :=
  (A.lspEntries.filter fun e => wants e (B.lookup e.lspId)).map (·.lspId)

lemma mem_wantedIds_iff {B : Db} :
    id ∈ wantedIds A B ↔ ∃ a, A.lookup id = some a ∧ wants (a.snp id) (B.lookup id) := by
  unfold wantedIds
  rw [mem_map]
  constructor
  · rintro ⟨e, he, rfl⟩
    obtain ⟨hin, hw⟩ := mem_filter.1 he
    obtain ⟨a, ha, heq⟩ := mem_lspEntries_iff.1 hin
    exact ⟨a, ha, heq ▸ hw⟩
  · rintro ⟨a, ha, hw⟩
    refine ⟨a.snp id, mem_filter.2 ⟨?_, hw⟩, rfl⟩
    exact mem_lspEntries_iff.2 ⟨a, ha, rfl⟩

variable {a held : Entry}

/-- At the identifier of an LSP that the database lists it is as if its entry had come alone, with
the requests that were made before it. -/
lemma reconciled_of_mem (level : Level) (cid : CircuitId) (ha : A.lookup id = some a) :
    ∃ l₁ : Link, l₁.db.lookup id = B.db.lookup id ∧
      l₁.pending.lookup id = B.pending.lookup id ∧
      (B.reconciled A level cid).db.lookup id =
        (l₁.reconcileCSNPEntry cid (a.snp id)).db.lookup id ∧
      (B.reconciled A level cid).pending.lookup id =
        (l₁.reconcileCSNPEntry cid (a.snp id)).pending.lookup id ∧
      ∀ S : Finset LspId, (∀ k ∈ B.pending.keys, k ∈ S) → (∀ k ∈ wantedIds A B.db, k ∈ S) →
        ∀ k ∈ l₁.pending.keys, k ∈ S := by
  obtain ⟨pre, c, post, hcs, hnd, he, hapart⟩ := buildCSNPs_of_mem level ha
  have hpre : ∀ c' ∈ pre, id ∉ c'.ids ∧ ¬ c'.Spans id := fun c' hc' =>
    hapart c' (mem_append_left _ hc')
  have hpost : ∀ c' ∈ post, id ∉ c'.ids ∧ ¬ c'.Spans id := fun c' hc' =>
    hapart c' (mem_append_right _ hc')
  have hmem : id ∈ c.ids := mem_map.2 ⟨a.snp id, he, rfl⟩
  obtain ⟨pre', hsub, l₁, hl₁, hdb₁, hp₁, hdb₂, hp₂⟩ :=
    foldl_reconcile_of_mem cid (pre.foldl (Link.receiveCSNP cid) B) hnd he
  have hfinal : B.reconciled A level cid = post.foldl (Link.receiveCSNP cid) ((pre.foldl
        (Link.receiveCSNP cid) B).receiveCSNP cid c) := by
    unfold Link.reconciled
    rw [hcs, foldl_append, foldl_cons]
  refine ⟨l₁, hdb₁.trans (foldl_receive_of_apart hpre).1,
    hp₁.trans (foldl_receive_of_apart hpre).2, ?_, ?_, fun S hS hw => ?_⟩
  · rw [hfinal, (foldl_receive_of_apart hpost).1, receiveCSNP_of_mem hmem]
    exact hdb₂
  · rw [hfinal, (foldl_receive_of_apart hpost).2, pending_receiveCSNP]
    exact hp₂
  · -- what was listed before is wanted only if it is among the wanted LSPs
    have hlisted : ∀ c' ∈ A.buildCSNPs level, ∀ e ∈ c'.entries,
        wants e (B.db.lookup e.lspId) → e.lspId ∈ S := by
      intro c' hc' e he' hwant
      obtain ⟨b, hb, heq⟩ := mem_lspEntries_iff.1 (mem_lspEntries_of_mem c' hc' e he')
      refine hw _ (mem_wantedIds_iff.2 ⟨b, hb, ?_⟩)
      rw [← heq]
      exact hwant
    rw [hl₁]
    refine mem_of_pending_foldl (mem_of_pending_receive hS fun c' hc' => ?_) fun e he' hwant => ?_
    · exact hlisted c' (by rw [hcs]; exact mem_append_left _ hc')
    · rw [(agree_foldl_receive cid pre B).wants] at hwant
      exact hlisted c (by rw [hcs]; simp) e (hsub he') hwant

lemma srm_reconciled_of_mem (level : Level) (cid : CircuitId)
    (ha : A.lookup id = some a) (hheld : B.db.lookup id = some held) :
    ∃ held', (B.reconciled A level cid).db.lookup id = some held' ∧
      (cid ∈ held'.srm ↔ flagged cid (a.snp id) held) := by
  obtain ⟨l₁, hdb₁, -, hdb, -, -⟩ := reconciled_of_mem (B := B) level cid ha
  rw [hdb]
  exact srm_reconcileCSNPEntry (hdb₁.trans hheld)

lemma srm_reconciled_of_none (level : Level) (cid : CircuitId)
    (hnone : A.lookup id = none) (hheld : B.db.lookup id = some held) :
    ∃ held', (B.reconciled A level cid).db.lookup id = some held' ∧
      (cid ∈ held'.srm ↔ cid ∈ held.srm ∨ ∃ c ∈ A.buildCSNPs level, c.Spans id) :=
  foldl_receive_of_notMem (notMem_ids_of_none hnone) hheld

lemma pending_reconciled (level : Level) (cid : CircuitId)
    (ha : A.lookup id = some a) (hheld : B.db.lookup id = some held)
    (hne : compareSNPEntry (a.snp id) held ≠ .gt) :
    (B.reconciled A level cid).pending.lookup id =
      if compareSNPEntry (a.snp id) held = .lt then B.pending.lookup id else none := by
  obtain ⟨l₁, hdb₁, hp₁, -, hp, -⟩ := reconciled_of_mem (B := B) level cid ha
  rw [hp, ← hp₁]
  exact pending_of_not_wants (hdb₁.trans hheld) hne

lemma requested_of_room (level : Level) (cid : CircuitId)
    (hroom : (B.pending.keys ++ wantedIds A B.db).toFinset.card ≤ maxPendingPerCircuit)
    (hw : id ∈ wantedIds A B.db) :
    ∃ r, (B.reconciled A level cid).pending.lookup id = some r := by
  obtain ⟨a, ha, hwant⟩ := mem_wantedIds_iff.1 hw
  obtain ⟨l₁, hdb₁, -, -, hp, hkeys⟩ := reconciled_of_mem (B := B) level cid ha
  rw [hp]
  have hwant' : wants (a.snp id) (l₁.db.lookup (a.snp id).lspId) := by
    change wants (a.snp id) (l₁.db.lookup id)
    rw [hdb₁]
    exact hwant
  refine pending_of_wants hwant' fun hnone => Nat.lt_of_lt_of_le ?_ hroom
  -- the identifier is in the set and has no request yet, so the others are fewer
  have hmem : id ∈ (B.pending.keys ++ wantedIds A B.db).toFinset := by
    simp [hw]
  have hin : ∀ k ∈ l₁.pending.keys, k ∈ (B.pending.keys ++ wantedIds A B.db).toFinset.erase id := by
    intro k hk
    refine Finset.mem_erase.2 ⟨?_, ?_⟩
    · rintro rfl
      obtain ⟨r, hr⟩ := (mem_keys_iff _).1 hk
      rw [show l₁.pending.lookup k = none from hnone] at hr
      cases hr
    · refine hkeys _ (fun k hk => ?_) (fun k hk => ?_) k hk
      · simp [hk]
      · simp [hk]
  exact Nat.lt_of_le_of_lt (l₁.pending.size_le_of_subset hin) (Finset.card_erase_lt_of_mem hmem)

end

end Ze.Isis
