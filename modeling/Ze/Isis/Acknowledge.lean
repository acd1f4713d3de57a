import Ze.Lib.Run
import Ze.Isis.Lifetime

/-!
# Two flooders on a point-to-point circuit

`World` is two flooders and the PDUs that were sent from one to the other. A PDU that was sent may
arrive at any later time, more than once, or never, so a loss is a PDU that is not delivered.
-/

namespace Ze.Isis

open Ze.Lib List
open Function (update update_self)
open Option (any_eq_true any_some map_some)

/-! ## The circuit -/

/-- The two ends of a point-to-point circuit. Source: flooding.go FloodCircuit. -/
structure Cable where
  ends : Bool → FloodCircuit
  p2p : ∀ s, (ends s).p2p = true
  active : ∀ s, (ends s).passive = false

inductive Pdu
  | lsp (lsp : Lsp)
  | csnp (csnp : Csnp)
  | psnp (psnp : Psnp)

/-- A PDU arrives. Source: flooding_wiring.go handleLSP, handleCSNP, handlePSNP. -/
def Flooder.receivePdu (f : Flooder) (c : FloodCircuit) (now : ℕ) : Pdu → Flooder
  | .lsp lsp => f.receiveLSP c.id c.p2p lsp now
  | .csnp csnp => f.receiveCSNP c.id csnp
  | .psnp psnp => f.receivePSNP c.id psnp

/-- Two flooders, and what was sent to each of them. -/
structure World where
  side : Bool → Flooder
  net : Bool → List Pdu := fun _ => []

/-- The operation has nothing to do with PDUs on a circuit. -/
def Op.apart (cid : CircuitId) : Op → Bool
  | .receiveLSP c _ _ _ => decide (c ≠ cid)
  | .receiveCSNP c _ => decide (c ≠ cid)
  | .receivePSNP c _ => decide (c ≠ cid)
  | .sendPSNP c _ => decide (c.id ≠ cid)
  | _ => true

/-- What can happen: a side does something that is not on the circuit, one of its timers sends what
is due, or a PDU that was sent to it arrives. Source: flooding_wiring.go startFloodLoops. -/
inductive Event
  | apart (s : Bool) (o : Op)
  | flood (s : Bool)
  | sendPSNP (s : Bool) (level : Level)
  | sendCSNP (s : Bool) (level : Level)
  | deliver (s : Bool) (i : ℕ) (now : ℕ)

namespace World

def put (w : World) (s : Bool) (f : Flooder) : World :=
  { w with side := update w.side s f }

def send (w : World) (s : Bool) (pdus : List Pdu) : World :=
  { w with net := update w.net s (w.net s ++ pdus) }

/-- One event. Source: flooding_wiring.go startFloodLoops. -/
def step (k : Cable) (w : World) : Event → Option World
  | .apart s o =>
    if o.apart (k.ends s).id then some (w.put s ((w.side s).apply o)) else none
  | .flood s => some (w.send (!s) (((w.side s).floodOn (k.ends s)).map .lsp))
  | .sendPSNP s level =>
    let out := (w.side s).sendPSNP (k.ends s) level
    some ((w.put s out.2).send (!s) (out.1.map .psnp))
  | .sendCSNP s level =>
    some (w.send (!s) (((w.side s).sendCSNP (k.ends s) level).map .csnp))
  | .deliver s i now =>
    (w.net s)[i]?.map fun pdu => w.put s ((w.side s).receivePdu (k.ends s) now pdu)

/-- Two flooders that hold nothing. Source: flooding.go NewFlooder. -/
def start (systemID : Bool → ℕ) (circuits : Bool → List FloodCircuit) : World :=
  { side := fun s => { systemID := systemID s, circuits := circuits s } }

end World

/-! ## What both sides keep -/

section

variable {k : Cable} {w w' : World}

lemma receivePdu_eq_apply (f : Flooder) (c : FloodCircuit) (now : ℕ) (pdu : Pdu) :
    ∃ o, f.receivePdu c now pdu = f.apply o := by
  cases pdu with
  | lsp lsp => exact ⟨.receiveLSP c.id c.p2p lsp now, rfl⟩
  | csnp csnp => exact ⟨.receiveCSNP c.id csnp, rfl⟩
  | psnp psnp => exact ⟨.receivePSNP c.id psnp, rfl⟩

lemma coherent_put (h : ∀ s, (w.side s).Coherent) {s : Bool} {f : Flooder} (hf : f.Coherent) :
    ∀ s', ((w.put s f).side s').Coherent := by
  intro s'
  change (update w.side s f s').Coherent
  by_cases heq : s' = s
  · subst heq
    rw [update_self]
    exact hf
  · rw [Function.update_of_ne heq]
    exact h s'

lemma coherent_step (h : ∀ s, (w.side s).Coherent) (ev : Event)
    (hstep : World.step k w ev = some w') : ∀ s, (w'.side s).Coherent := by
  cases ev with
  | apart s o =>
    simp only [World.step] at hstep
    split_ifs at hstep
    cases hstep
    exact coherent_put h ((h s).apply o)
  | flood s =>
    cases hstep
    exact h
  | sendPSNP s level =>
    cases hstep
    exact coherent_put h ((h s).apply (.sendPSNP (k.ends s) level))
  | sendCSNP s level =>
    cases hstep
    exact h
  | deliver s i now =>
    obtain ⟨pdu, -, rfl⟩ := Option.map_eq_some_iff.1 hstep
    obtain ⟨o, ho⟩ := receivePdu_eq_apply (w.side s) (k.ends s) now pdu
    refine coherent_put h ?_
    rw [ho]
    exact (h s).apply o

lemma coherent_run {systemID : Bool → ℕ} {circuits : Bool → List FloodCircuit}
    {events : List Event} (hrun : run (World.step k) (.start systemID circuits) events = some w) :
    ∀ s, (w.side s).Coherent :=
  run_inv (I := fun w => ∀ s, (w.side s).Coherent) (fun _ ev _ h hs => coherent_step h ev hs)
    events _ w (fun s => coherent_fresh (systemID s) (circuits s)) hrun

end

/-! ## A retransmission -/

/-- Both copies are the same version of an LSP. Source: snp.go compareSNPEntry; entry.go
compareFreshness. -/
structure SameVersion (e e' : Entry) : Prop where
  sequence : e.sequence = e'.sequence
  checksum : e.checksum = e'.checksum
  purge : e.lifetime = 0 ↔ e'.lifetime = 0

/-- An acknowledgement of the LSP is queued for the circuit. Source: lsdb.go SSN; snp.go
recordAckOnly. -/
def Flooder.Queued (f : Flooder) (cid : CircuitId) (level : Level) (id : LspId) : Prop :=
  (f.db level).ssn id cid = true ∨ ((f.ackOnly cid level).lookup id).isSome = true

section

variable {l : Link} {d : Db} {lsp : Lsp} {held : Entry} {cid : CircuitId} {id : LspId}

lemma ssn_iff_of_lookup (h : d.lookup id = some held) : d.ssn id cid ↔ cid ∈ held.ssn := by
  unfold Db.ssn
  rw [h, any_some, decide_eq_true_iff]

lemma srm_iff_of_lookup (h : d.lookup id = some held) : d.srm id cid ↔ cid ∈ held.srm := by
  unfold Db.srm
  rw [h, any_some, decide_eq_true_iff]

lemma receive_of_same (hheld : d.lookup lsp.lspId = some held)
    (hseq : lsp.sequence = held.sequence) (hck : lsp.checksum = held.checksum)
    (hzero : lsp.lifetime = 0 → held.lifetime = 0)
    (hpurged : held.purged ↔ held.lifetime = 0) (own : Bool) (now : ℕ) :
    d.receive lsp own now =
      if lsp.lifetime ≠ 0 ∧ held.lifetime = 0 then (d, { freshness := .older, stored := false })
      else (d.modify lsp.lspId (·.setLifetime lsp.lifetime),
        { freshness := .equal, stored := false }) := by
  have hconf : Db.ownConflict (some held) lsp = false := by
    unfold Db.ownConflict
    by_cases hp : held.purged
    · simp [hp]
    · have hne : lsp.lifetime ≠ 0 := fun h => hp (hpurged.2 (hzero h))
      simp [hp, hseq, hck, hne]
  unfold Db.receive
  simp only [hheld, hconf, Bool.and_false, Bool.false_eq_true, if_false]
  unfold Entry.compareFreshness
  rw [hseq, hck, if_neg (lt_irrefl _), if_neg (lt_irrefl _), if_neg fun h => h.2 (hzero h.1)]
  by_cases hcls : lsp.lifetime ≠ 0 ∧ held.lifetime = 0
  · rw [if_pos hcls, if_pos hcls]
  · rw [if_neg hcls, if_neg hcls, if_pos rfl]

lemma receiveLSP_of_same (circuits : List FloodCircuit) (systemID : ℕ) (cid : CircuitId)
    (hheld : l.db.lookup lsp.lspId = some held)
    (hseq : lsp.sequence = held.sequence) (hck : lsp.checksum = held.checksum)
    (hzero : lsp.lifetime = 0 → held.lifetime = 0)
    (hpurged : held.purged ↔ held.lifetime = 0) (now : ℕ) :
    ((l.receiveLSP circuits systemID cid true lsp now).db.ssn lsp.lspId cid ↔
        cid ∈ held.ssn ∨ lsp.lifetime ≠ 0 ∧ held.lifetime = 0) ∧
      (l.receiveLSP circuits systemID cid true lsp now).ackOnly = l.ackOnly := by
  unfold Link.receiveLSP
  rw [receive_of_same hheld hseq hck hzero hpurged]
  by_cases hcls : lsp.lifetime ≠ 0 ∧ held.lifetime = 0
  · simp only [if_pos hcls, Bool.false_eq_true, if_false, Link.handleOlderLSP, hheld, if_pos hseq]
    refine ⟨?_, trivial⟩
    have hset : (l.db.setSSN lsp.lspId cid).lookup lsp.lspId =
        some { held with ssn := insert cid held.ssn } := by
      unfold Db.setSSN
      rw [SortedMap.lookup_modify, if_pos rfl, hheld, map_some]
    rw [ssn_iff_of_lookup hset]
    simp [hcls]
  · simp only [if_neg hcls, Bool.false_eq_true, if_false, if_true]
    refine ⟨?_, trivial⟩
    have hset : (SortedMap.modify l.db lsp.lspId (·.setLifetime lsp.lifetime)).lookup lsp.lspId =
        some (held.setLifetime lsp.lifetime) := by
      rw [SortedMap.lookup_modify, if_pos rfl, hheld, map_some]
    rw [ssn_iff_of_lookup hset]
    simp only [hcls, or_false]
    rfl

/-! ## Sequence numbers that list the version that is held -/

/-- An LSP with SRM cleared on a circuit. Source: lsdb.go ClearSRM. -/
def Entry.confirmed (cid : CircuitId) (e : Entry) : Entry := { e with srm := e.srm.erase cid }

lemma foldl_confirmed (cid : CircuitId) {g : Link → LspEntry → Link}
    (hother : ∀ l e, id ≠ e.lspId → (g l e).db.lookup id = l.db.lookup id)
    (hsame : ∀ l e h, e.lspId = id → l.db.lookup id = some h → compareSNPEntry e h = .eq →
      (g l e).db.lookup id = some (h.confirmed cid))
    {entries : List LspEntry} (hheld : l.db.lookup id = some held)
    (heq : ∀ e ∈ entries, e.lspId = id → compareSNPEntry e held = .eq) :
    (entries.foldl g l).db.lookup id =
      if id ∈ entries.map (·.lspId) then some (held.confirmed cid) else some held := by
  induction entries generalizing l held with
  | nil => exact hheld
  | cons e es ih =>
    rw [foldl_cons]
    by_cases hid : e.lspId = id
    · have hfirst := hsame l e held hid hheld (heq e mem_cons_self hid)
      have hrest := ih hfirst fun e' he' hid' => heq e' (mem_cons_of_mem _ he') hid'
      have htwice : (held.confirmed cid).confirmed cid = held.confirmed cid := by
        unfold Entry.confirmed
        rw [Finset.erase_idem]
      rw [hrest, htwice, ite_self, if_pos (by simp [hid])]
    · have hfirst := (hother l e (Ne.symm hid)).trans hheld
      rw [ih hfirst fun e' he' hid' => heq e' (mem_cons_of_mem _ he') hid']
      refine if_congr ?_ rfl rfl
      rw [map_cons, mem_cons]
      exact ⟨.inr, fun h => h.resolve_left (Ne.symm hid)⟩

lemma reconcilePSNPEntry_of_ne (cid : CircuitId) (l : Link) (e : LspEntry) (h : id ≠ e.lspId) :
    (l.reconcilePSNPEntry cid e).db.lookup id = l.db.lookup id := by
  unfold Link.reconcilePSNPEntry
  split
  · rfl
  · split
    · simp only [Db.setSRM, SortedMap.lookup_modify, if_neg h]
    · simp only [Db.clearSRM, SortedMap.lookup_modify, if_neg h]

lemma srm_receiveCSNP_of_same {c : Csnp} (hheld : l.db.lookup id = some held)
    (heq : ∀ e ∈ c.entries, e.lspId = id → compareSNPEntry e held = .eq) (hid : id ∈ c.ids) :
    (l.receiveCSNP cid c).db.srm id cid = false := by
  have hlook : (l.receiveCSNP cid c).db.lookup id = some (held.confirmed cid) := by
    rw [receiveCSNP_of_mem hid, foldl_confirmed cid
      (fun l e h => (reconcileCSNPEntry_of_ne h).1) (fun l e h hl hh hcmp => ?_) hheld heq]
    · exact if_pos hid
    · subst hl
      unfold Link.reconcileCSNPEntry
      simp only [hh, hcmp]
      simp only [Link.clearPending, Db.clearSRM, SortedMap.lookup_modify, if_true, hh, map_some]
      rfl
  rw [← Bool.not_eq_true, srm_iff_of_lookup hlook]
  exact Finset.notMem_erase cid held.srm

lemma srm_receivePSNP_of_same {p : Psnp} (hheld : l.db.lookup id = some held)
    (heq : ∀ e ∈ p.entries, e.lspId = id → compareSNPEntry e held = .eq)
    (hid : id ∈ p.entries.map (·.lspId)) : (l.receivePSNP cid p).db.srm id cid = false := by
  have hlook : (l.receivePSNP cid p).db.lookup id = some (held.confirmed cid) := by
    unfold Link.receivePSNP
    rw [foldl_confirmed cid (reconcilePSNPEntry_of_ne cid) (fun l e h hl hh hcmp => ?_) hheld heq]
    · exact if_pos hid
    · subst hl
      unfold Link.reconcilePSNPEntry
      simp only [hh, hcmp]
      simp only [Db.clearSRM, SortedMap.lookup_modify, if_true, hh, map_some]
      rfl
  rw [← Bool.not_eq_true, srm_iff_of_lookup hlook]
  exact Finset.notMem_erase cid held.srm

end

/-! ## The sequence numbers of the other side -/

section

variable {A : Db} {level : Level} {id : LspId} {e e' : Entry}

lemma compareSNPEntry_of_same (h : SameVersion e e') : compareSNPEntry (e'.snp id) e = .eq := by
  have hseq : (e'.snp id).sequence = e.sequence := h.sequence.symm
  have hlife : (e'.snp id).lifetime = 0 ↔ e.lifetime = 0 := h.purge.symm
  unfold compareSNPEntry
  rw [hseq, if_neg (lt_irrefl _), if_neg (lt_irrefl _), if_neg fun hc => hc.2 (hlife.1 hc.1),
    if_neg fun hc => hc.1 (hlife.2 hc.2)]

variable {c : Csnp} {entries : List LspEntry}

lemma level_of_mem_buildCSNPs (hc : c ∈ A.buildCSNPs level) : c.level = level := by
  unfold Db.buildCSNPs at hc
  simp only at hc
  split_ifs at hc
  · rw [mem_singleton] at hc
    rw [hc]
  · obtain ⟨k, hk, rfl⟩ := mem_mapIdx.1 hc
    rfl

lemma eq_snp_of_mem_csnp (hc : c ∈ A.buildCSNPs level) (he : A.lookup id = some e)
    {x : LspEntry} (hx : x ∈ c.entries) (hid : x.lspId = id) : x = e.snp id := by
  obtain ⟨a, ha, heq⟩ := mem_lspEntries_iff.mp (mem_lspEntries_of_mem c hc x hx)
  rw [hid, he, Option.some.injEq] at ha
  rw [heq, hid, ha]

lemma exists_mem_chunks {x : LspEntry} (hx : x ∈ entries) :
    ∃ ch ∈ chunks entries, x ∈ ch := by
  obtain ⟨i, hi⟩ := mem_iff_getElem?.mp hx
  have hlen := (List.getElem?_eq_some_iff.mp hi).1
  have hmod := Nat.div_add_mod' i maxLSPEntriesPerSNP
  have hlt : i % maxLSPEntriesPerSNP < maxLSPEntriesPerSNP := Nat.mod_lt i (by decide)
  refine ⟨(entries.drop (i / maxLSPEntriesPerSNP * maxLSPEntriesPerSNP)).take maxLSPEntriesPerSNP,
    mem_iff_getElem?.mpr ⟨i / maxLSPEntriesPerSNP, ?_⟩,
    mem_iff_getElem?.mpr ⟨i % maxLSPEntriesPerSNP, ?_⟩⟩
  · rw [getElem?_chunks, if_pos (by omega)]
  · rw [getElem?_piece, if_pos hlt, hmod]
    exact hi

lemma mem_of_mem_chunks {ch : List LspEntry} (hch : ch ∈ chunks entries) {x : LspEntry}
    (hx : x ∈ ch) : x ∈ entries := by
  obtain ⟨k, hk⟩ := mem_iff_getElem?.mp hch
  rw [getElem?_chunks] at hk
  split_ifs at hk
  rw [Option.some.injEq] at hk
  rw [← hk] at hx
  exact mem_of_mem_drop (mem_of_mem_take hx)

lemma mem_sortEntries_iff {x : LspEntry} : x ∈ Link.sortEntries entries ↔ x ∈ entries := by
  unfold Link.sortEntries
  exact mem_insertionSort _

variable {cid : CircuitId} {l : Link}

/-- No request for the LSP is queued for the circuit, and no acknowledgement of a copy that was
refused. Source: snp.go buildPSNP. -/
def Link.Clear (l : Link) (id : LspId) : Prop :=
  l.pending.lookup id = none ∧ ∀ x ∈ l.ackOnly.items, x.2.lspId ≠ id

lemma mem_psnpEntries_iff (hclear : l.Clear id) (he : l.db.lookup id = some e) {x : LspEntry}
    (hid : x.lspId = id) : x ∈ l.psnpEntries cid ↔ cid ∈ e.ssn ∧ x = e.snp id := by
  unfold Link.psnpEntries
  rw [mem_append, mem_append]
  constructor
  · rintro ((hx | hx) | hx)
    · obtain ⟨⟨k, a⟩, hmem, rfl⟩ := mem_map.1 hx
      obtain ⟨hin, hssn⟩ := mem_filter.1 hmem
      have hk : k = id := hid
      rw [hk] at hin
      have ha := (SortedMap.mem_items_iff _).1 hin
      rw [he] at ha
      cases ha
      exact ⟨of_decide_eq_true hssn, by rw [hk]⟩
    · obtain ⟨k, hk, rfl⟩ := mem_map.1 hx
      obtain ⟨r, hr⟩ := (SortedMap.mem_keys_iff _).1 hk
      rw [show k = id from hid, hclear.1] at hr
      cases hr
    · obtain ⟨y, hy, rfl⟩ := mem_map.1 hx
      exact absurd hid (hclear.2 y hy)
  · rintro ⟨hssn, rfl⟩
    refine .inl (.inl (mem_map.2 ⟨(id, e), mem_filter.2 ⟨?_, ?_⟩, rfl⟩))
    · exact (SortedMap.mem_items_iff _).2 he
    · exact decide_eq_true hssn

lemma buildPSNP_of_ssn (level : Level) (hclear : l.Clear id) (he : l.db.lookup id = some e)
    (hssn : cid ∈ e.ssn) :
    (∃ p ∈ (l.buildPSNP cid level).1, id ∈ p.entries.map (·.lspId)) ∧
      ∀ p ∈ (l.buildPSNP cid level).1, p.level = level ∧
        ∀ x ∈ p.entries, x.lspId = id → x = e.snp id := by
  unfold Link.buildPSNP
  constructor
  · have hmem : e.snp id ∈ l.psnpEntries cid :=
      (mem_psnpEntries_iff hclear he rfl).2 ⟨hssn, rfl⟩
    obtain ⟨ch, hch, hin⟩ := exists_mem_chunks (mem_sortEntries_iff.2 hmem)
    exact ⟨{ level, entries := ch }, mem_map.2 ⟨ch, hch, rfl⟩, mem_map.2 ⟨e.snp id, hin, rfl⟩⟩
  · intro p hp
    obtain ⟨ch, hch, rfl⟩ := mem_map.1 hp
    refine ⟨rfl, fun x hx hid => ?_⟩
    have hmem := mem_sortEntries_iff.1 (mem_of_mem_chunks hch hx)
    exact ((mem_psnpEntries_iff hclear he hid).1 hmem).2

end

/-! ## Every state of every run -/

/-- What becomes of an LSP that `x` retransmits to `y`, which holds the same version: the
retransmission queues nothing for a duplicate, and the next sequence numbers of `y` that list the
LSP end it. Source: flooding.go ReceiveLSP; snp.go ReceiveCSNP, ReceivePSNP. -/
structure Settled (x y : Flooder) (cx cy : FloodCircuit) (level : Level) (id : LspId)
    (ex ey : Entry) : Prop where
  resent : ex.raw ∈ x.floodOn cx
  queued : ∀ now, (y.receivePdu cy now (.lsp ex.raw)).Queued cy.id level id ↔
    y.Queued cy.id level id ∨ ex.raw.lifetime ≠ 0 ∧ ey.lifetime = 0
  csnp : (∃ c ∈ y.sendCSNP cy level, id ∈ c.ids) ∧
    ∀ c ∈ y.sendCSNP cy level, id ∈ c.ids → ∀ now,
      ((x.receivePdu cx now (.csnp c)).db level).srm id cx.id = false
  psnp : (y.db level).ssn id cy.id = true → (y.link cy.id level).Clear id →
    (∃ p ∈ (y.sendPSNP cy level).1, id ∈ p.entries.map (·.lspId)) ∧
      ∀ p ∈ (y.sendPSNP cy level).1, id ∈ p.entries.map (·.lspId) → ∀ now,
        ((x.receivePdu cx now (.psnp p)).db level).srm id cx.id = false

section

variable {x y : Flooder} {cx cy : FloodCircuit} {level : Level} {id : LspId} {ex ey : Entry}

lemma db_withLink (f : Flooder) (cid : CircuitId) (level : Level) (l : Link) :
    (f.withLink cid level l).db level = l.db := update_self _ _ _

lemma ackOnly_withLink (f : Flooder) (cid : CircuitId) (level : Level) (l : Link) :
    (f.withLink cid level l).ackOnly cid level = l.ackOnly := by
  change update f.ackOnly cid (update (f.ackOnly cid) level l.ackOnly) cid level =
    _
  rw [update_self, update_self]

lemma queued_receiveLSP_iff (hx : ex.Coherent level id) (hy : ey.Coherent level id)
    (hey : (y.db level).lookup id = some ey) (hsame : SameVersion ex ey) (hp2p : cy.p2p)
    (now : ℕ) :
    (y.receivePdu cy now (.lsp ex.raw)).Queued cy.id level id ↔
      y.Queued cy.id level id ∨ ex.raw.lifetime ≠ 0 ∧ ey.lifetime = 0 := by
  obtain rfl := hx.level
  obtain rfl := hx.lspId
  have hzero : ex.raw.lifetime = 0 → ey.lifetime = 0 := fun h => hsame.purge.1 (hx.raw h)
  obtain ⟨hssn, hack⟩ := receiveLSP_of_same (l := y.link cy.id ex.raw.level) y.circuits y.systemID
    cy.id hey (hx.sequence.trans hsame.sequence) (hx.checksum.trans hsame.checksum) hzero hy.purged
    now
  unfold Flooder.Queued
  simp only [Flooder.receivePdu, Flooder.receiveLSP, hp2p]
  rw [db_withLink, ackOnly_withLink, hssn, hack, ssn_iff_of_lookup hey]
  exact or_right_comm

section

variable (hex : (x.db level).lookup id = some ex) (hey : (y.db level).lookup id = some ey)
  (hsame : SameVersion ex ey) (hforms : cy.formsLevel level) (hactive : cy.passive = false)
include hex hey hsame hforms hactive

/-- The complete PDUs of the other side clear SRM. -/
lemma csnp_settles :
    (∃ c ∈ y.sendCSNP cy level, id ∈ c.ids) ∧
      ∀ c ∈ y.sendCSNP cy level, id ∈ c.ids → ∀ now,
        ((x.receivePdu cx now (.csnp c)).db level).srm id cx.id = false := by
  have hsend : y.sendCSNP cy level = (y.db level).buildCSNPs level := by
    unfold Flooder.sendCSNP
    rw [if_neg (by simp [hforms, hactive])]
  rw [hsend]
  constructor
  · obtain ⟨pre, c, post, hcs, -, hmem, -⟩ := buildCSNPs_of_mem level hey
    exact ⟨c, by rw [hcs]; simp, mem_map.2 ⟨ey.snp id, hmem, rfl⟩⟩
  · intro c hc hid now
    obtain rfl := level_of_mem_buildCSNPs hc
    simp only [Flooder.receivePdu, Flooder.receiveCSNP]
    rw [db_withLink]
    refine srm_receiveCSNP_of_same hex (fun e he heid => ?_) hid
    rw [eq_snp_of_mem_csnp hc hey he heid]
    exact compareSNPEntry_of_same hsame

lemma psnp_settles (hssn : (y.db level).ssn id cy.id) (hclear : (y.link cy.id level).Clear id) :
    (∃ p ∈ (y.sendPSNP cy level).1, id ∈ p.entries.map (·.lspId)) ∧
      ∀ p ∈ (y.sendPSNP cy level).1, id ∈ p.entries.map (·.lspId) → ∀ now,
        ((x.receivePdu cx now (.psnp p)).db level).srm id cx.id = false := by
  have hsend : (y.sendPSNP cy level).1 = ((y.link cy.id level).buildPSNP cy.id level).1 := by
    unfold Flooder.sendPSNP
    rw [if_neg (by simp [hforms, hactive])]
  rw [ssn_iff_of_lookup hey] at hssn
  obtain ⟨hlisted, hentries⟩ := buildPSNP_of_ssn (l := y.link cy.id level) level hclear hey hssn
  rw [hsend]
  refine ⟨hlisted, fun p hp hid now => ?_⟩
  obtain ⟨rfl, hall⟩ := hentries p hp
  simp only [Flooder.receivePdu, Flooder.receivePSNP]
  rw [db_withLink]
  refine srm_receivePSNP_of_same hex (fun e he heid => ?_) hid
  rw [hall e he heid]
  exact compareSNPEntry_of_same hsame

end

/-- **In every state of every run** in which one side has SRM set for an LSP that the other side
holds in the same version, the retransmission of it queues an acknowledgement only for a purge of
which the PDU knows nothing, and the next complete PDU of the other side that lists the LSP clears
SRM, as does its next partial PDU that lists it while SSN is set there and nothing else is queued
for it. -/
theorem retransmission_settled {k : Cable} {systemID : Bool → ℕ}
    {circuits : Bool → List FloodCircuit} {events : List Event} {w : World}
    (hrun : run (World.step k) (.start systemID circuits) events = some w) {s : Bool}
    (hforms : ∀ s, (k.ends s).formsLevel level)
    (hex : ((w.side s).db level).lookup id = some ex) (hsrm : (k.ends s).id ∈ ex.srm)
    (hey : ((w.side (!s)).db level).lookup id = some ey) (hsame : SameVersion ex ey) :
    Settled (w.side s) (w.side (!s)) (k.ends s) (k.ends (!s)) level id ex ey := by
  have hco := coherent_run hrun
  refine ⟨?_, ?_, ?_, ?_⟩
  · refine mem_floodOn_iff.2 ⟨k.active s, level, hforms s, ?_⟩
    exact mem_floodCircuitLevel_iff.2 ⟨id, ex, hex, hsrm, rfl⟩
  · apply queued_receiveLSP_iff (hco s level id ex hex) (hco (!s) level id ey hey) hey hsame
    exact k.p2p (!s)
  · exact csnp_settles hex hey hsame (hforms (!s)) (k.active (!s))
  · exact psnp_settles hex hey hsame (hforms (!s)) (k.active (!s))

end

/-! ## A lost acknowledgement -/

/-- A circuit of level 2 with the number 0 at both ends. -/
def backToBack : Cable where
  ends := fun _ => { id := 0, p2p := true, passive := false, formsL1 := false, formsL2 := true }
  p2p := fun _ => rfl
  active := fun _ => rfl

def pairStart : World :=
  .start (fun | false => 1 | true => 2) fun _ =>
    [{ id := 0, p2p := true, passive := false, formsL1 := false, formsL2 := true }]

def ownLsp : Lsp :=
  { level := .l2, lspId := Fin.ofNat _ 65536, sequence := 1, lifetime := 1200, checksum := 5,
    typeBlock := 3, tlvs := [] }

/-- System 1 originates the LSP, floods it, and it arrives. -/
def flooded : List Event :=
  [.apart false (.insert ownLsp 0), .apart false (.armFlood .l2 ownLsp.lspId), .flood false,
    .deliver true 0 0]

/-- The side of system 1 has SRM set, and both hold the LSP. -/
def World.unsettled (w : World) : Bool :=
  (((w.side false).db .l2).lookup ownLsp.lspId).any fun ex =>
    (((w.side true).db .l2).lookup ownLsp.lspId).any fun ey =>
      decide (0 ∈ ex.srm ∧ ex.sequence = ey.sequence ∧ ex.checksum = ey.checksum ∧
        (ex.lifetime = 0 ↔ ey.lifetime = 0))

lemma exists_of_unsettled {w : World} (h : w.unsettled) :
    ∃ ex ey, ((w.side false).db .l2).lookup ownLsp.lspId = some ex ∧
      ((w.side true).db .l2).lookup ownLsp.lspId = some ey ∧ 0 ∈ ex.srm ∧ SameVersion ex ey := by
  obtain ⟨ex, hex, h⟩ := (any_eq_true _ _).1 h
  obtain ⟨ey, hey, h⟩ := (any_eq_true _ _).1 h
  obtain ⟨hsrm, hseq, hck, hpurge⟩ := of_decide_eq_true h
  exact ⟨ex, ey, hex, hey, hsrm, hseq, hck, hpurge⟩

/-- Right after the LSP has arrived. -/
theorem retransmission_settled_flooded :
    ∃ w ex ey, run (World.step backToBack) pairStart flooded = some w ∧
      ((w.side false).db .l2).lookup ownLsp.lspId = some ex ∧
      Settled (w.side false) (w.side true) (backToBack.ends false) (backToBack.ends true) .l2
        ownLsp.lspId ex ey := by
  have hany : (run (World.step backToBack) pairStart flooded).any World.unsettled := by
    decide +kernel
  obtain ⟨w, hrun, hun⟩ := (any_eq_true _ _).1 hany
  obtain ⟨ex, ey, hex, hey, hsrm, hsame⟩ := exists_of_unsettled hun
  exact ⟨w, ex, ey, hrun, hex,
    retransmission_settled (s := false) hrun (fun _ => rfl) hex hsrm hey hsame⟩

/-- The acknowledgement is sent and lost, and system 1 floods again. -/
def unacknowledged : List Event := flooded ++ [.sendPSNP true .l2, .flood false]

/-- System 1 has SRM set for an LSP that system 2 holds, the retransmission arrives, and no
acknowledgement is queued, so that the next partial PDU of system 2 does not exist. -/
theorem duplicate_unacknowledged :
    ∃ w ex ey, run (World.step backToBack) pairStart unacknowledged = some w ∧
      ((w.side false).db .l2).lookup ownLsp.lspId = some ex ∧
      ((w.side true).db .l2).lookup ownLsp.lspId = some ey ∧ 0 ∈ ex.srm ∧ SameVersion ex ey ∧
      ex.raw ∈ (w.side false).floodOn (backToBack.ends false) ∧
      ¬ ((w.side true).receivePdu (backToBack.ends true) 0 (.lsp ex.raw)).Queued 0 .l2
        ownLsp.lspId ∧
      (((w.side true).receivePdu (backToBack.ends true) 0 (.lsp ex.raw)).sendPSNP
        (backToBack.ends true) .l2).1 = [] := by
  have hany : (run (World.step backToBack) pairStart unacknowledged).any (fun w => w.unsettled &&
      (((w.side false).db .l2).lookup ownLsp.lspId).any fun ex =>
        let y := (w.side true).receivePdu (backToBack.ends true) 0 (.lsp ex.raw)
        decide (ex.raw ∈ (w.side false).floodOn (backToBack.ends false)) &&
          !((y.db .l2).ssn ownLsp.lspId 0) && !((y.ackOnly 0 .l2).lookup ownLsp.lspId).isSome &&
          decide ((y.sendPSNP (backToBack.ends true) .l2).1 = [])) = true := by
    decide +kernel
  obtain ⟨w, hrun, hall⟩ := (any_eq_true _ _).1 hany
  obtain ⟨hun, hrest⟩ := (Bool.and_eq_true _ _).mp hall
  obtain ⟨ex, ey, hex, hey, hsrm, hsame⟩ := exists_of_unsettled hun
  rw [hex, any_some] at hrest
  simp only [Bool.and_eq_true, decide_eq_true_eq, Bool.not_eq_true'] at hrest
  obtain ⟨⟨⟨hresent, hssn⟩, hack⟩, hnone⟩ := hrest
  refine ⟨w, ex, ey, hrun, hex, hey, hsrm, hsame, hresent, ?_, hnone⟩
  rintro (h | h)
  · rw [hssn] at h
    cases h
  · rw [hack] at h
    cases h

end Ze.Isis
