import Ze.Isis.Reconcile

/-!
# When complete sequence numbers reconcile exactly

`Exact` is what a side should look like after all complete PDUs of a neighbour's database: SRM for
exactly the LSPs that the neighbour lacks or holds in an older version, and requests for exactly
those that it holds in a newer one. `Ready` is when it does (`csnps_exact_iff`): the ranges cover
the whole space, and no flag or request from before is in the way.
-/

namespace Ze.Isis

open Ze.Lib List
open Fin (ofNat)

section

variable {A : Db} {level : Level} {cid : CircuitId} {B : Link} {id : LspId}

/-- The neighbour does not hold the LSP, or holds an older version. -/
def Lacks (A : Db) (id : LspId) (held : Entry) : Prop :=
  ∀ a, A.lookup id = some a → compareSNPEntry (a.snp id) held = .lt

/-- The flags and the requests of a side are exact. Source: snp.go ReceiveCSNP. -/
structure Exact (A : Db) (cid : CircuitId) (B B' : Link) : Prop where
  srm : ∀ id held, B'.db.lookup id = some held → (cid ∈ held.srm ↔ Lacks A id held)
  requested : ∀ id r, B'.pending.lookup id = some r → id ∈ wantedIds A B.db
  wanted : (B.pending.keys ++ wantedIds A B.db).toFinset.card ≤ maxPendingPerCircuit →
    ∀ id ∈ wantedIds A B.db, ∃ r, B'.pending.lookup id = some r

/-- Where a PDU ends and the next one begins there is no room for an identifier; SRM is not set for
an LSP that the neighbour holds in a newer version; and every request is for an LSP that the
neighbour holds, in a version that is not older. -/
structure Ready (A : Db) (cid : CircuitId) (B : Link) : Prop where
  adjacent : ∀ (k : ℕ) a b, A.keys[(k + 1) * maxLSPEntriesPerSNP - 1]? = some a →
    A.keys[(k + 1) * maxLSPEntriesPerSNP]? = some b → b.val = a.val + 1
  unflagged : ∀ id a held, A.lookup id = some a → B.db.lookup id = some held →
    compareSNPEntry (a.snp id) held = .gt → cid ∉ held.srm
  answered : ∀ id r, B.pending.lookup id = some r → ∃ a, A.lookup id = some a ∧
    ∀ held, B.db.lookup id = some held → compareSNPEntry (a.snp id) held ≠ .lt

lemma covers_iff_adjacent :
    (∀ id, ∃ c ∈ A.buildCSNPs level, c.Spans id) ↔
      ∀ (k : ℕ) a b, A.keys[(k + 1) * maxLSPEntriesPerSNP - 1]? = some a →
        A.keys[(k + 1) * maxLSPEntriesPerSNP]? = some b → b.val = a.val + 1 := by
  have hpos : 0 < maxLSPEntriesPerSNP := by decide
  constructor
  · intro hcov k a b ha hb
    have hk : 0 < (k + 1) * maxLSPEntriesPerSNP := Nat.mul_pos (Nat.succ_pos k) hpos
    have hlen := (List.getElem?_eq_some_iff.mp hb).1
    have hab : a.val < b.val := lt_of_getElem? A.sorted_keys (by omega) ha hb
    by_contra hne
    -- the identifier after the last one of the PDU lies in the gap
    have hx : a.val + 1 < 2 ^ 64 := by omega
    have hax : a < (⟨a.val + 1, hx⟩ : LspId) := Nat.lt_succ_self _
    have hxb : (⟨a.val + 1, hx⟩ : LspId) < b := Nat.lt_of_le_of_ne hab (Ne.symm hne)
    have hlow := (lt_iff_lt_rank A.sorted_keys ha).1 hax
    have hhigh : ¬ (k + 1) * maxLSPEntriesPerSNP < rank A.keys ⟨a.val + 1, hx⟩ := fun h =>
      absurd ((lt_iff_lt_rank A.sorted_keys hb).2 h) (not_lt.2 hxb.le)
    have hrank : rank A.keys ⟨a.val + 1, hx⟩ = (k + 1) * maxLSPEntriesPerSNP := by
      omega
    have hnot : (⟨a.val + 1, hx⟩ : LspId) ∉ A.keys := by
      intro hmem
      obtain ⟨i, hi⟩ := mem_iff_getElem?.1 hmem
      have hi' := rank_of_getElem? A.sorted_keys hi
      have heq : i = (k + 1) * maxLSPEntriesPerSNP := hi'.symm.trans hrank
      rw [heq, hb, Option.some.injEq] at hi
      rw [hi] at hxb
      exact lt_irrefl _ hxb
    have hne' : A.keys ≠ [] := ne_nil_of_length_pos (by omega)
    have hex := (exists_spans_iff hne').1 (hcov ⟨a.val + 1, hx⟩)
    refine (exists_inRange_iff hpos A.sorted_keys hne' hnot).1 hex ⟨?_, ?_, ?_⟩
    · rw [hrank]
      exact hk
    · rw [hrank]
      exact hlen
    · rw [hrank]
      exact Nat.dvd_mul_left _ _
  · intro hadj id
    by_cases hnil : A.keys = []
    · rw [buildCSNPs_of_nil hnil]
      exact ⟨_, mem_singleton.2 rfl, minLSPID_le id, le_maxLSPID id⟩
    · rw [exists_spans_iff hnil]
      by_cases hmem : id ∈ A.keys
      · obtain ⟨i, hi⟩ := mem_iff_getElem?.1 hmem
        have hlen := (List.getElem?_eq_some_iff.mp hi).1
        have hk := Nat.div_mul_le_self i maxLSPEntriesPerSNP
        refine ⟨i / maxLSPEntriesPerSNP, by omega, ?_⟩
        exact (inRange_iff_of_mem hpos A.sorted_keys (by omega) hi).2 rfl
      · rw [exists_inRange_iff hpos A.sorted_keys hnil hmem]
        rintro ⟨hrpos, hrlt, q, hq⟩
        obtain ⟨k, rfl⟩ : ∃ k, q = k + 1 := by
          rcases q with - | k
          · omega
          · exact ⟨k, rfl⟩
        have hmul : maxLSPEntriesPerSNP * (k + 1) = (k + 1) * maxLSPEntriesPerSNP :=
          Nat.mul_comm _ _
        rw [hmul] at hq
        obtain ⟨a, ha⟩ : ∃ a, A.keys[(k + 1) * maxLSPEntriesPerSNP - 1]? = some a :=
          ⟨_, getElem?_eq_getElem (by omega)⟩
        obtain ⟨b, hb⟩ : ∃ b, A.keys[(k + 1) * maxLSPEntriesPerSNP]? = some b :=
          ⟨_, getElem?_eq_getElem (by omega)⟩
        have hval := hadj k a b ha hb
        have hlow : a < id := (lt_iff_lt_rank A.sorted_keys ha).2 (by omega)
        have hhigh : ¬ b < id := fun h => by
          have hlt := (lt_iff_lt_rank A.sorted_keys hb).1 h
          omega
        have hbid : id ≠ b := by
          rintro rfl
          exact hmem (mem_of_getElem? hb)
        have hle : id.val ≤ b.val := not_lt.1 hhigh
        have hne : id.val ≠ b.val := fun h => hbid (Fin.ext h)
        have hlow' : a.val < id.val := hlow
        omega

/-! ## The flags and the requests -/

variable {held held' a : Entry}

lemma lacks_of_bare_eq (h : held.bare = held'.bare) : Lacks A id held ↔ Lacks A id held' := by
  unfold Lacks
  refine forall_congr' fun a => forall_congr' fun _ => ?_
  rw [← compareSNPEntry_bare _ held, h, compareSNPEntry_bare]

lemma lacks_iff_lt (ha : A.lookup id = some a) :
    Lacks A id held ↔ compareSNPEntry (a.snp id) held = .lt := by
  constructor
  · exact fun h => h a ha
  · intro h b hb
    rw [ha, Option.some.injEq] at hb
    exact hb ▸ h

lemma flagged_iff_lt (cid : CircuitId) (e : LspEntry) (held : Entry) :
    (flagged cid e held ↔ compareSNPEntry e held = .lt) ↔
      (compareSNPEntry e held = .gt → cid ∉ held.srm) := by
  unfold flagged
  cases compareSNPEntry e held <;> simp

lemma mem_wantedIds_iff_gt (ha : A.lookup id = some a) (hheld : B.db.lookup id = some held) :
    id ∈ wantedIds A B.db ↔ compareSNPEntry (a.snp id) held = .gt := by
  rw [mem_wantedIds_iff, hheld]
  constructor
  · rintro ⟨b, hb, hw⟩
    rw [ha] at hb
    cases hb
    simpa [wants] using hw
  · intro h
    exact ⟨a, ha, by simp [wants, h]⟩

lemma notMem_wantedIds {D : Db} (hnone : A.lookup id = none) : id ∉ wantedIds A D := by
  rw [mem_wantedIds_iff]
  rintro ⟨a, ha, -⟩
  rw [hnone] at ha
  cases ha

/-- The flags are exact when the ranges cover the space and no flag is left on an older copy. -/
lemma srm_exact (hcov : ∀ id, ∃ c ∈ A.buildCSNPs level, c.Spans id) (h : Ready A cid B)
    (hheld' : (B.reconciled A level cid).db.lookup id = some held') :
    cid ∈ held'.srm ↔ Lacks A id held' := by
  obtain ⟨held, hheld, hbare⟩ := (agree_foldl_receive cid _ B).exists_held hheld'
  rw [← lacks_of_bare_eq hbare]
  cases ha : A.lookup id with
  | none =>
    obtain ⟨held'', hheld'', hsrm⟩ := srm_reconciled_of_none level cid ha hheld
    rw [hheld'] at hheld''
    cases hheld''
    refine iff_of_true (hsrm.2 (.inr (hcov id))) fun a ha' => ?_
    rw [ha] at ha'
    cases ha'
  | some a =>
    obtain ⟨held'', hheld'', hsrm⟩ := srm_reconciled_of_mem level cid ha hheld
    rw [hheld'] at hheld''
    cases hheld''
    rw [hsrm, lacks_iff_lt ha, flagged_iff_lt]
    exact h.unflagged id a held ha hheld

lemma requested_exact (h : Ready A cid B) {r : PendingReq}
    (hr : (B.reconciled A level cid).pending.lookup id = some r) : id ∈ wantedIds A B.db := by
  cases ha : A.lookup id with
  | none =>
    unfold Link.reconciled at hr
    rw [pending_foldl_of_notMem (notMem_ids_of_none ha)] at hr
    obtain ⟨a, ha', -⟩ := h.answered id r hr
    rw [ha] at ha'
    cases ha'
  | some a =>
    cases hheld : B.db.lookup id with
    | none => exact mem_wantedIds_iff.2 ⟨a, ha, by rw [hheld]; rfl⟩
    | some held =>
      rw [mem_wantedIds_iff_gt ha hheld]
      by_contra hne
      rw [pending_reconciled level cid ha hheld hne] at hr
      split_ifs at hr with hlt
      obtain ⟨b, hb, hnot⟩ := h.answered id r hr
      rw [ha] at hb
      cases hb
      exact hnot held hheld hlt

/-- **After all complete PDUs of a database** the other side has SRM set for exactly the LSPs that
the neighbour lacks, has requested exactly the LSPs that it lacks itself, and the ranges leave no
gap, if and only if the PDUs end where the next ones begin, no flag is left from before on an older
copy, and no request that the database does not answer. -/
theorem csnps_exact_iff (A : Db) (level : Level) (cid : CircuitId) (B : Link) :
    (Exact A cid B (B.reconciled A level cid) ∧ ∀ id, ∃ c ∈ A.buildCSNPs level, c.Spans id) ↔
      Ready A cid B := by
  constructor
  · rintro ⟨hexact, hcov⟩
    refine ⟨covers_iff_adjacent.1 hcov, fun id a held ha hheld => ?_, fun id r hr => ?_⟩
    · obtain ⟨held', hheld', hsrm⟩ := srm_reconciled_of_mem level cid ha hheld
      obtain ⟨held'', hheld'', hbare⟩ := (agree_foldl_receive cid _ B).exists_held hheld'
      rw [hheld] at hheld''
      cases hheld''
      have hiff := hsrm.symm.trans (hexact.srm id held' hheld')
      rw [← lacks_of_bare_eq hbare, lacks_iff_lt ha] at hiff
      exact (flagged_iff_lt cid _ held).1 hiff
    · cases ha : A.lookup id with
      | none =>
        have hstay : (B.reconciled A level cid).pending.lookup id = some r := by
          unfold Link.reconciled
          rw [pending_foldl_of_notMem (notMem_ids_of_none ha)]
          exact hr
        exact absurd (hexact.requested id r hstay) (notMem_wantedIds ha)
      | some a =>
        refine ⟨a, rfl, fun held hheld hlt => ?_⟩
        have hne : compareSNPEntry (a.snp id) held ≠ .gt := by
          rw [hlt]
          decide
        have hstay := pending_reconciled (B := B) level cid ha hheld hne
        rw [if_pos hlt, hr] at hstay
        exact hne ((mem_wantedIds_iff_gt ha hheld).1 (hexact.requested id r hstay))
  · intro h
    have hcov : ∀ id, ∃ c ∈ A.buildCSNPs level, c.Spans id := covers_iff_adjacent.2 h.adjacent
    refine ⟨⟨fun id held' hheld' => ?_, fun id r hr => ?_, fun hroom id hw => ?_⟩, hcov⟩
    · exact srm_exact hcov h hheld'
    · exact requested_exact h hr
    · exact requested_of_room level cid hroom hw

end

/-! ## A gap -/

def lspOf (id : LspId) : Lsp :=
  { level := .l2, lspId := id, sequence := 1, lifetime := 1200, checksum := 7, typeBlock := 3,
    tlvs := [] }

def sixteenSystems : Db :=
  (range 16).foldl (fun d k => (d.receive (lspOf (ofNat _ ((k + 1) * 65536))) false 0).1)
    .empty

/-- A side that holds the second fragment of system 15 alone. -/
def secondFragment : Link :=
  { db := (Db.receive .empty (lspOf (ofNat _ (15 * 65536 + 1))) false 0).1 }

/-- The first PDU ends with system 15 and the second one begins with system 16, so no range has the
second fragment of system 15, and the side that holds it does not flood it. -/
theorem uncovered :
    ¬ Exact sixteenSystems 0 secondFragment (secondFragment.reconciled sixteenSystems .l2 0) ∧
      ¬ ∀ id, ∃ c ∈ sixteenSystems.buildCSNPs .l2, c.Spans id := by
  have hnone : sixteenSystems.lookup (ofNat _ (15 * 65536 + 1)) = none := by decide +kernel
  have hsrm : ((secondFragment.reconciled sixteenSystems .l2 0).db.lookup
      (ofNat _ (15 * 65536 + 1))).any (fun e => decide (0 ∉ e.srm)) := by
    decide +kernel
  have hgap : ∀ c ∈ sixteenSystems.buildCSNPs .l2, ¬ (c.startLSPID ≤ ofNat _ (15 * 65536 + 1) ∧
        ofNat _ (15 * 65536 + 1) ≤ c.endLSPID) := by decide +kernel
  refine ⟨fun hexact => ?_, fun hcov => ?_⟩
  · obtain ⟨held, hheld, hnot⟩ := (Option.any_eq_true _ _).1 hsrm
    refine of_decide_eq_true hnot ((hexact.srm _ held hheld).2 fun a ha => ?_)
    rw [hnone] at ha
    cases ha
  · obtain ⟨c, hc, hspans⟩ := hcov (ofNat _ (15 * 65536 + 1))
    exact hgap c hc hspans

end Ze.Isis
