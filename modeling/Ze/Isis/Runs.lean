import Ze.Isis.Reconcile

/-!
# Runs of a flooder

`Op` is what can happen at a flooder, and `Entry.Coherent` what every entry of every run keeps.
-/

namespace Ze.Isis

open Ze.Lib

/-! ## Operations -/

/-- What can happen at a flooder. Source: flooding_wiring.go the handlers and timers;
lsdb_wiring.go ageOnce, armFlood, clearCircuitFlags. -/
inductive Op
  | receiveLSP (cid : CircuitId) (p2p : Bool) (lsp : Lsp) (now : ℕ)
  | receiveCSNP (cid : CircuitId) (csnp : Csnp)
  | receivePSNP (cid : CircuitId) (psnp : Psnp)
  | sendPSNP (c : FloodCircuit) (level : Level)
  | insert (lsp : Lsp) (now : ℕ)
  | armFlood (level : Level) (id : LspId)
  | ageOnce (now : ℕ)
  | clearCircuit (cid : CircuitId)
  | setCircuits (circuits : List FloodCircuit)

namespace Flooder

def apply (f : Flooder) : Op → Flooder
  | .receiveLSP cid p2p lsp now => f.receiveLSP cid p2p lsp now
  | .receiveCSNP cid csnp => f.receiveCSNP cid csnp
  | .receivePSNP cid psnp => f.receivePSNP cid psnp
  | .sendPSNP c level => (f.sendPSNP c level).2
  | .insert lsp now => f.insert lsp now
  | .armFlood level id => f.armFlood level id
  | .ageOnce now => f.ageOnce now
  | .clearCircuit cid => f.clearCircuit cid
  | .setCircuits circuits => { f with circuits }

def after (f : Flooder) (ops : List Op) : Flooder := ops.foldl apply f

end Flooder

/-! ## What an entry keeps -/

/-- An entry and the PDU it keeps belong together. Source: entry.go Entry. -/
structure Entry.Coherent (level : Level) (id : LspId) (e : Entry) : Prop where
  level : e.raw.level = level
  lspId : e.raw.lspId = id
  sequence : e.raw.sequence = e.sequence
  checksum : e.raw.checksum = e.checksum
  lifetime : e.lifetime = e.heard - e.aged
  purged : e.purged = true ↔ e.lifetime = 0
  raw : e.raw.lifetime = 0 → e.lifetime = 0

def Db.Coherent (level : Level) (d : Db) : Prop :=
  ∀ id e, d.lookup id = some e → e.Coherent level id

def Flooder.Coherent (f : Flooder) : Prop := ∀ level, (f.db level).Coherent level

section

variable {level : Level} {id : LspId} {d d' : Db} {e : Entry} {lsp : Lsp} {now : ℕ}

lemma coherent_bare_iff : e.bare.Coherent level id ↔ e.Coherent level id :=
  ⟨fun h => ⟨h.1, h.2, h.3, h.4, h.5, h.6, h.7⟩, fun h => ⟨h.1, h.2, h.3, h.4, h.5, h.6, h.7⟩⟩

lemma Db.Coherent.of_agree (h : d.Coherent level) (hagree : Agree d d') : d'.Coherent level := by
  intro id e' he'
  obtain ⟨e, he, hbare⟩ := hagree.exists_held he'
  rw [← coherent_bare_iff, ← hbare, coherent_bare_iff]
  exact h id e he

lemma Db.Coherent.replaceLocked (h : d.Coherent lsp.level) (own received : Bool) :
    (d.replaceLocked lsp own received now).Coherent lsp.level := by
  intro id e he
  unfold Db.replaceLocked at he
  simp only [SortedMap.lookup_put] at he
  by_cases hid : id = lsp.lspId
  · rw [if_pos hid] at he
    cases he
    exact ⟨rfl, hid.symm, rfl, rfl, rfl, decide_eq_true_iff, fun h => h⟩
  · rw [if_neg hid] at he
    exact h id e he

lemma Entry.Coherent.setLifetime (h : e.Coherent level id)
    (heq : e.compareFreshness lsp.sequence lsp.lifetime lsp.checksum = .equal) :
    (e.setLifetime lsp.lifetime).Coherent level id := by
  have hzero : lsp.lifetime = 0 ↔ e.lifetime = 0 := by
    unfold Entry.compareFreshness at heq
    split_ifs at heq
    tauto
  refine ⟨h.level, h.lspId, h.sequence, h.checksum, rfl, h.purged.trans hzero.symm, fun hraw => ?_⟩
  exact hzero.2 (h.raw hraw)

lemma Db.Coherent.receive (h : d.Coherent lsp.level) (own : Bool) :
    (d.receive lsp own now).1.Coherent lsp.level := by
  unfold Db.receive
  simp only
  split
  · exact h
  · split
    · rename_i e he
      split
      · exact h.replaceLocked own true
      · rename_i heq
        intro id e' he'
        rw [SortedMap.lookup_modify] at he'
        by_cases hid : id = lsp.lspId
        · rw [if_pos hid, hid, he, Option.map_some] at he'
          cases he'
          exact (hid ▸ h lsp.lspId e he).setLifetime heq
        · rw [if_neg hid] at he'
          exact h id e' he'
      · exact h
    · split
      · exact h
      · exact h.replaceLocked own true

lemma tick_cases {e' : Entry} (he' : (e.tick now).1 = some e') :
    (e'.raw = e.raw ∧ e'.sequence = e.sequence ∧ e'.checksum = e.checksum ∧ e'.heard = e.heard ∧
        e'.aged = e.aged + 1) ∧
      (e.purged ∧ e'.purged ∧ e'.lifetime = e.lifetime ∨
        e.purged = false ∧ e'.lifetime = e.lifetime - 1 ∧ (e'.purged ↔ e'.lifetime =
          0)) := by
  unfold Entry.tick Entry.markPurged at he'
  simp only at he'
  by_cases hp : e.purged
  · rw [if_pos hp] at he'
    split_ifs at he' <;> cases he' <;>
      exact ⟨⟨rfl, rfl, rfl, rfl, rfl⟩, .inl ⟨hp, hp, rfl⟩⟩
  · simp only [if_neg hp] at he'
    have hpf : e.purged = false := Bool.eq_false_iff.2 hp
    by_cases hzero : e.lifetime = 0
    · rw [if_pos hzero] at he'
      cases he'
      exact ⟨⟨rfl, rfl, rfl, rfl, rfl⟩, .inr ⟨hpf, by simp [hzero], by simp⟩⟩
    · rw [if_neg hzero] at he'
      by_cases hone : e.lifetime - 1 = 0
      · rw [if_pos hone] at he'
        cases he'
        exact ⟨⟨rfl, rfl, rfl, rfl, rfl⟩, .inr ⟨hpf, hone.symm, by simp⟩⟩
      · rw [if_neg hone] at he'
        cases he'
        exact ⟨⟨rfl, rfl, rfl, rfl, rfl⟩, .inr ⟨hpf, rfl, by simp [hpf, hone]⟩⟩

lemma Entry.Coherent.tick (h : e.Coherent level id) {e' : Entry}
    (he' : (e.tick now).1 = some e') : e'.Coherent level id := by
  obtain ⟨⟨hraw, hseq, hck, hheard, haged⟩, hcases⟩ := tick_cases he'
  have hlife := h.lifetime
  refine ⟨hraw ▸ h.level, hraw ▸ h.lspId, ?_, ?_, ?_, ?_, fun hz => ?_⟩
  · rw [hraw, hseq, h.sequence]
  · rw [hraw, hck, h.checksum]
  · rw [hheard, haged]
    rcases hcases with ⟨hp, -, hl⟩ | ⟨-, hl, -⟩
    · have hzero := h.purged.1 hp
      omega
    · omega
  · rcases hcases with ⟨hp, hp', hl⟩ | ⟨-, -, hiff⟩
    · rw [hl]
      exact iff_of_true hp' (h.purged.1 hp)
    · exact hiff
  · have hzero := h.raw (hraw ▸ hz)
    rcases hcases with ⟨-, -, hl⟩ | ⟨-, hl, -⟩ <;> omega

lemma Db.Coherent.tick (h : d.Coherent level) : (d.tick now).1.Coherent level := by
  intro id e' he'
  change (SortedMap.filterMap d fun e => (e.tick now).1).lookup id = some e' at he'
  rw [SortedMap.lookup_filterMap] at he'
  obtain ⟨e, he, he'⟩ := Option.bind_eq_some_iff.1 he'
  exact (h id e he).tick he'

end

/-! ## What only touches flags -/

section

variable {cid : CircuitId} {l : Link} {f : Flooder}

lemma agree_filterMap (d : Db) (g : Entry → Entry) (hg : ∀ e, (g e).bare = e.bare) :
    Agree d (d.filterMap fun e => some (g e)) := by
  intro id
  rw [SortedMap.lookup_filterMap]
  cases d.lookup id with
  | none => rfl
  | some e => simp only [Option.bind_some, Option.map_some, hg]

lemma agree_foldl {α : Type} {g : Db → α → Db} (hg : ∀ d a, Agree d (g d a)) (xs : List α)
    (d : Db) : Agree d (xs.foldl g d) := by
  induction xs generalizing d with
  | nil => exact Agree.refl d
  | cons x xs ih => exact (hg d x).trans (ih _)

lemma agree_reconcilePSNPEntry (cid : CircuitId) (l : Link) (e : LspEntry) :
    Agree l.db (l.reconcilePSNPEntry cid e).db := by
  unfold Link.reconcilePSNPEntry
  split
  · exact Agree.refl _
  · split
    · exact agree_setSRM _ _ _
    · exact agree_clearSRM _ _ _

lemma agree_foldl_reconcilePSNP (cid : CircuitId) (entries : List LspEntry) (l : Link) :
    Agree l.db (entries.foldl (Link.reconcilePSNPEntry cid) l).db := by
  induction entries generalizing l with
  | nil => exact Agree.refl l.db
  | cons e es ih => exact (agree_reconcilePSNPEntry cid l e).trans (ih _)

lemma agree_armSRMExcept (circuits : List FloodCircuit) (level : Level) (id : LspId)
    (skip : CircuitId) (d : Db) : Agree d (d.armSRMExcept circuits level id skip) := by
  refine agree_foldl (fun d c => ?_) circuits d
  split_ifs
  · exact Agree.refl d
  · exact agree_setSRM _ _ _

lemma agree_handleOlderLSP (cid : CircuitId) (l : Link) (lsp : Lsp) :
    Agree l.db (l.handleOlderLSP cid lsp).db := by
  unfold Link.handleOlderLSP
  split
  · exact Agree.refl _
  · split_ifs
    · exact agree_setSSN _ _ _
    · exact agree_setSRM _ _ _

lemma agree_receiveLSP (circuits : List FloodCircuit) (systemID : ℕ) (cid : CircuitId)
    (p2p : Bool) (l : Link) (lsp : Lsp) (now : ℕ) :
    Agree (l.db.receive lsp (decide (lsp.lspId.systemID = systemID)) now).1
      (l.receiveLSP circuits systemID cid p2p lsp now).db := by
  unfold Link.receiveLSP
  simp only
  split
  · split
    · exact agree_setSSN _ _ _
    · unfold Link.recordAckOnly Link.clearPending
      split_ifs <;> exact Agree.refl _
  · split
    · exact (agree_armSRMExcept _ _ _ _ _).trans (agree_setSSN _ _ _)
    · split_ifs
      · exact Agree.refl _
      · exact agree_setSSN _ _ _
    · exact agree_handleOlderLSP cid _ lsp

end

/-! ## Runs -/

section

variable {f : Flooder}

lemma Flooder.Coherent.update (h : f.Coherent) {level : Level} {d : Db}
    (hd : d.Coherent level) (level' : Level) :
    (Function.update f.db level d level').Coherent level' := by
  by_cases heq : level' = level
  · subst heq
    rw [Function.update_self]
    exact hd
  · rw [Function.update_of_ne heq]
    exact h level'

lemma Flooder.Coherent.armFlood (h : f.Coherent) (level : Level) (id : LspId) :
    (f.armFlood level id).Coherent := by
  have hagree : Agree (f.db level) (f.circuits.foldl
      (fun d c => if c.formsLevel level then d.setSRM id c.id else d) (f.db level)) := by
    refine agree_foldl (fun d c => ?_) _ _
    split_ifs
    · exact agree_setSRM _ _ _
    · exact Agree.refl d
  exact h.update ((h level).of_agree hagree)

lemma Flooder.Coherent.foldl_armFlood (h : f.Coherent) (level : Level) (ids : List LspId) :
    (ids.foldl (fun f id => f.armFlood level id) f).Coherent := by
  induction ids generalizing f with
  | nil => exact h
  | cons id ids ih => exact ih (h.armFlood level id)

lemma Flooder.Coherent.apply (h : f.Coherent) (o : Op) : (f.apply o).Coherent := by
  cases o with
  | receiveLSP cid p2p lsp now =>
    exact h.update (((h lsp.level).receive _).of_agree (agree_receiveLSP _ _ _ _ _ _ _))
  | receiveCSNP cid csnp =>
    exact h.update ((h csnp.level).of_agree (agree_receiveCSNP _ _ _))
  | receivePSNP cid psnp =>
    exact h.update ((h psnp.level).of_agree (agree_foldl_reconcilePSNP _ _ _))
  | sendPSNP c level =>
    change (f.sendPSNP c level).2.Coherent
    unfold Flooder.sendPSNP
    split_ifs
    · exact h
    · exact h.update ((h level).of_agree (agree_filterMap _ _ fun _ => rfl))
  | insert lsp now =>
    exact h.update ((h lsp.level).replaceLocked true false)
  | armFlood level id => exact h.armFlood level id
  | ageOnce now =>
    refine Flooder.Coherent.foldl_armFlood (Flooder.Coherent.foldl_armFlood ?_ .l1 _) .l2 _
    intro level
    cases level with
    | l1 => exact (h .l1).tick
    | l2 => exact (h .l2).tick
  | clearCircuit cid =>
    intro level
    exact (h level).of_agree (agree_filterMap _ _ fun _ => rfl)
  | setCircuits circuits => exact h

lemma Flooder.Coherent.after (h : f.Coherent) (ops : List Op) : (f.after ops).Coherent := by
  unfold Flooder.after
  induction ops generalizing f with
  | nil => exact h
  | cons o ops ih => exact ih (h.apply o)

lemma coherent_fresh (systemID : ℕ) (circuits : List FloodCircuit) :
    ({ systemID, circuits } : Flooder).Coherent := by
  intro level id e he
  cases he

end

/-- **Every entry keeps its LSP.** In every run of a flooder the stored PDU is the LSP of its entry
in all but the Remaining Lifetime; that is what was last written from a PDU less the ticks since;
and an entry is a purge exactly when it has none left. -/
theorem database_coherent (systemID : ℕ) (circuits : List FloodCircuit) (ops : List Op) :
    (({ systemID, circuits } : Flooder).after ops).Coherent :=
  (coherent_fresh systemID circuits).after ops

end Ze.Isis
