import Ze.Isis.Origination

/-!
# The numbers of one identifier

`Ordered` is that the numbers of an identifier only go up at each level, and start again from 1 only
after the purge at the last one and a full suspension. A `Track` is what the originator knows about
one identifier.
-/

namespace Ze.Isis

open Ze.Lib
open Function (update update_of_ne update_self)

/-! ## Sequence numbers that follow -/

/-- An LSP may follow another of its identifier: it has a greater number, or it is the purge of an
identifier whose numbers have run out, or it starts again from 1 when that purge and a full
suspension are past. Source: origination.go Originate. -/
def Write.Follows (p w : Write) : Prop :=
  p.lsp.sequence < w.lsp.sequence ∨
  (w.wrap = true ∧ w.lsp.lifetime = 0 ∧ w.lsp.sequence = maxSequenceNumber ∧
    p.lsp.sequence = maxSequenceNumber) ∨
  (p.lsp.lifetime = 0 ∧ p.lsp.sequence = maxSequenceNumber ∧ w.lsp.sequence = 1 ∧
    p.time + (defaultMaxAge + zeroAgeLifetime) ≤ w.time)

def lastOf (level : Level) (id : LspId) (ws : List Write) : Option Write :=
  ws.find? fun w => w.lsp.level = level ∧ w.lsp.lspId = id

/-- Every write may follow the one before it of the same identifier and level. -/
def Ordered : List Write → Prop
  | [] => True
  | w :: ws => (∀ p, lastOf w.lsp.level w.lsp.lspId ws = some p → p.Follows w) ∧ Ordered ws

/-! ## Tracks -/

structure Track where
  lastSeq : Option ℕ
  suspendUntil : Option ℕ
  last : Level → Option Write
  entry : Level → Option Entry

def Originator.track (o : Originator) (id : LspId) : Track where
  lastSeq := o.lastSeq id
  suspendUntil := o.suspendUntil id
  last level := lastOf level id o.writes
  entry level := (o.db level).lookup id

namespace Track

/-- The numbers are counted: no LSP of the identifier has a greater one than the counter. Source:
origination.go lastSeq. -/
structure Counting (t : Track) : Prop where
  active : t.suspendUntil = none
  bounded : ∀ m, t.lastSeq = some m → m ≤ maxSequenceNumber
  last : ∀ level w, t.last level = some w → ∃ m, t.lastSeq = some m ∧ w.lsp.sequence ≤ m

/-- The identifier is suspended since its last LSP at one level, the purge, and the other level has
none. Source: origination.go suspendUntil. -/
structure Suspended (t : Track) (level : Level) (w : Write) : Prop where
  last : t.last level = some w
  number : w.lsp.sequence = maxSequenceNumber
  purge : w.lsp.lifetime = 0
  deadline : t.suspendUntil = some (w.time + (defaultMaxAge + zeroAgeLifetime))
  forgotten : t.lastSeq = none
  alone : t.last level.other = none

def Written (t : Track) : Prop :=
  ∀ level e, t.entry level = some e → ∃ w, t.last level = some w ∧
    e.sequence = w.lsp.sequence ∧ (w.lsp.lifetime = 0 → e.purged = true)

structure Good (t : Track) : Prop where
  written : t.Written
  state : t.Counting ∨ ∃ level w, t.Suspended level w

end Track

lemma Level.eq_or_other (level a : Level) : a = level ∨ a = level.other := by
  cases level <;> cases a <;> simp [Level.other]

lemma Level.other_ne (level : Level) : level.other ≠ level := by
  cases level <;> simp [Level.other]

namespace Track

def put (t : Track) (w : Write) (e : Entry) : Track :=
  { t with
    last := update t.last w.lsp.level (some w)
    entry := update t.entry w.lsp.level (some e) }

section

variable {t : Track} {w : Write} {e : Entry} {level : Level}

lemma put_last_self : (t.put w e).last w.lsp.level = some w := update_self ..

lemma put_last_of_ne (h : level ≠ w.lsp.level) : (t.put w e).last level = t.last level :=
  update_of_ne h ..

lemma put_entry_self : (t.put w e).entry w.lsp.level = some e := update_self ..

lemma put_entry_of_ne (h : level ≠ w.lsp.level) : (t.put w e).entry level = t.entry level :=
  update_of_ne h ..

lemma last_put_cases {v : Write} (h : (t.put w e).last level = some v) :
    v = w ∨ t.last level = some v := by
  by_cases hl : level = w.lsp.level
  · subst hl
    rw [put_last_self] at h
    exact .inl (Option.some.inj h).symm
  · rw [put_last_of_ne hl] at h
    exact .inr h

lemma Written.put (h : t.Written) (hseq : e.sequence = w.lsp.sequence)
    (hpurge : w.lsp.lifetime = 0 → e.purged) : (t.put w e).Written := by
  intro level e' he'
  by_cases hl : level = w.lsp.level
  · subst hl
    rw [put_entry_self] at he'
    cases he'
    exact ⟨w, put_last_self, hseq, hpurge⟩
  · rw [put_entry_of_ne hl] at he'
    rw [put_last_of_ne hl]
    exact h level e' he'

lemma Counting.put (h : t.Counting) {next : ℕ} (hnext : w.lsp.sequence = next)
    (hle : next ≤ maxSequenceNumber) (hup : ∀ m, t.lastSeq = some m → m ≤ next) :
    Counting { t.put w e with lastSeq := some next } where
  active := h.active
  bounded m hm := by
    cases hm
    exact hle
  last level v hv := by
    refine ⟨next, rfl, ?_⟩
    rcases last_put_cases (e := e) hv with rfl | hv
    · exact hnext.le
    · obtain ⟨m, hm, hvm⟩ := h.last level v hv
      exact hvm.trans (hup m hm)

end

end Track

/-! ## Storing an LSP -/

section

variable (o : Originator) (lsp : Lsp) (wrap : Bool)

lemma lastOf_cons (level : Level) (id : LspId) (w : Write) (ws : List Write) :
    lastOf level id (w :: ws)
      = if w.lsp.level = level ∧ w.lsp.lspId = id then some w else lastOf level id ws := by
  unfold lastOf
  rw [List.find?_cons]
  by_cases h : w.lsp.level = level ∧ w.lsp.lspId = id
  · simp [h]
  · simp [h]

lemma lookup_insert (d : Db) (lsp : Lsp) (now : ℕ) :
    ∃ e : Entry,
      (∀ id, (d.insert lsp now).lookup id = if id = lsp.lspId then some e else d.lookup id) ∧
      e.sequence = lsp.sequence ∧ e.purged = decide (lsp.lifetime = 0) ∧ e.raw = lsp :=
  ⟨_, fun _ => SortedMap.lookup_put .., rfl, rfl, rfl⟩

lemma track_store_of_ne {id : LspId} (h : id ≠ lsp.lspId) :
    (o.store lsp wrap).track id = o.track id := by
  have hlast : ∀ level, lastOf level id (o.store lsp wrap).writes = lastOf level id o.writes := by
    intro level
    unfold Originator.store
    rw [lastOf_cons, if_neg]
    rintro ⟨-, h'⟩
    exact h h'.symm
  have hentry : ∀ level, ((o.store lsp wrap).db level).lookup id = (o.db level).lookup id := by
    intro level
    unfold Originator.store
    simp only
    by_cases hl : level = lsp.level
    · subst hl
      obtain ⟨e, he, -⟩ :=
        lookup_insert (o.db lsp.level) { lsp with checksum := o.checksumOf lsp } o.now
      rw [update_self, he, if_neg h]
    · rw [update_of_ne hl]
  unfold Originator.track
  simp only [hlast, hentry]
  rfl

lemma track_store : ∃ (w : Write) (e : Entry),
    (o.store lsp wrap).track lsp.lspId = (o.track lsp.lspId).put w e ∧
      (o.store lsp wrap).writes = w :: o.writes ∧
      w.lsp.level = lsp.level ∧ w.lsp.lspId = lsp.lspId ∧ w.lsp.sequence = lsp.sequence ∧
      w.lsp.lifetime = lsp.lifetime ∧ w.wrap = wrap ∧ w.time = o.now ∧
      e.sequence = lsp.sequence ∧ e.purged = decide (lsp.lifetime = 0) ∧ e.raw.tlvs = lsp.tlvs := by
  obtain ⟨e, he, hseq, hpurged, hraw⟩ :=
    lookup_insert (o.db lsp.level) { lsp with checksum := o.checksumOf lsp } o.now
  refine ⟨⟨{ lsp with checksum := o.checksumOf lsp }, wrap, o.now⟩, e, ?_, rfl, rfl, rfl, rfl, rfl,
    rfl, rfl, hseq, hpurged, by rw [hraw]⟩
  have hlast : (fun level => lastOf level lsp.lspId (o.store lsp wrap).writes)
      = update (fun level => lastOf level lsp.lspId o.writes) lsp.level
        (some ⟨{ lsp with checksum := o.checksumOf lsp }, wrap, o.now⟩) := by
    funext level
    unfold Originator.store
    rw [lastOf_cons]
    by_cases hl : level = lsp.level
    · subst hl
      simp
    · rw [update_of_ne hl, if_neg fun h => hl h.1.symm]
  have hentry : (fun level => ((o.store lsp wrap).db level).lookup lsp.lspId)
      = update (fun level => (o.db level).lookup lsp.lspId) lsp.level (some e) := by
    funext level
    unfold Originator.store
    simp only
    by_cases hl : level = lsp.level
    · subst hl
      rw [update_self, update_self, he, if_pos rfl]
    · rw [update_of_ne hl, update_of_ne hl]
  unfold Originator.track
  rw [hlast, hentry]
  rfl

end

/-! ## One fragment -/

section

variable {o : Originator} {level : Level} {id : LspId} {typeBlock lifetime : ℕ} {tlvs : List UInt8}

lemma nextChecked_of_ne {s : ℕ} (h : s ≠ maxSequenceNumber) : nextChecked s = (s + 1, false) :=
  if_neg h

lemma nextChecked_max : nextChecked maxSequenceNumber = (1, true) := if_pos rfl

lemma track_wrapFragment (o : Originator) (level : Level) (id : LspId) (typeBlock : ℕ) :
    ∃ (w : Write) (e : Entry),
    (o.wrapFragment level id typeBlock).track id
      = { (o.track id).put w e with
          lastSeq := none, suspendUntil := some (o.now + (defaultMaxAge + zeroAgeLifetime)) } ∧
      (o.wrapFragment level id typeBlock).writes = w :: o.writes ∧
      w.lsp.level = level ∧ w.lsp.lspId = id ∧ w.lsp.sequence = maxSequenceNumber ∧
      w.lsp.lifetime = 0 ∧ w.wrap ∧ w.time = o.now ∧
      e.sequence = maxSequenceNumber ∧ e.purged := by
  obtain ⟨w, e, htrack, hwrites, hl, hid, hseq, hlife, hwrap, htime, heseq, hep, -⟩ :=
    track_store o ⟨level, id, maxSequenceNumber, 0, 0, typeBlock, []⟩ true
  refine ⟨w, e, ?_, hwrites, hl, hid, hseq, hlife, hwrap, htime, heseq, by rw [hep]; rfl⟩
  rw [← htrack]
  unfold Originator.wrapFragment Originator.purgeFragment Originator.track
  simp only [update_self]
  rfl

lemma track_issueFragment (o : Originator) (level : Level) (id : LspId) (typeBlock lifetime : ℕ)
    (tlvs : List UInt8) (h : (o.lastSeq id).getD 0 ≠ maxSequenceNumber) : ∃ (w : Write) (e : Entry),
    (o.issueFragment level id typeBlock lifetime tlvs).1.track id
      = { (o.track id).put w e with lastSeq := some ((o.lastSeq id).getD 0 + 1) } ∧
      (o.issueFragment level id typeBlock lifetime tlvs).1.writes = w :: o.writes ∧
      (o.issueFragment level id typeBlock lifetime tlvs).2 = (true, false) ∧
      w.lsp.level = level ∧ w.lsp.lspId = id ∧ w.lsp.sequence = (o.lastSeq id).getD 0 + 1 ∧
      w.lsp.lifetime = lifetime ∧ w.time = o.now ∧
      e.sequence = (o.lastSeq id).getD 0 + 1 ∧ e.purged = decide (lifetime = 0) ∧ e.raw.tlvs =
        tlvs := by
  obtain ⟨w, e, htrack, hwrites, hl, hid, hseq, hlife, -, htime, heseq, hep, htlvs⟩ :=
    track_store o ⟨level, id, (o.lastSeq id).getD 0 + 1, lifetime, 0, typeBlock, tlvs⟩ false
  unfold Originator.issueFragment
  rw [nextChecked_of_ne h]
  refine ⟨w, e, ?_, hwrites, rfl, hl, hid, hseq, hlife, htime, heseq, hep, htlvs⟩
  rw [← htrack]
  simp only [Bool.false_eq_true, if_false]
  unfold Originator.track
  simp only [update_self]

lemma originateFragment_frame :
    (o.originateFragment level id typeBlock lifetime tlvs).1.now = o.now ∧
      ∀ id' ≠ id, (o.originateFragment level id typeBlock lifetime tlvs).1.track id' =
        o.track id' := by
  have hissue : ∀ o : Originator, (o.issueFragment level id typeBlock lifetime tlvs).1.now = o.now ∧
      ∀ id' ≠ id, (o.issueFragment level id typeBlock lifetime tlvs).1.track id' = o.track id' := by
    intro o
    unfold Originator.issueFragment
    simp only
    split_ifs
    · refine ⟨rfl, fun id' hne => ?_⟩
      rw [← track_store_of_ne o ⟨level, id, maxSequenceNumber, 0, 0, typeBlock, []⟩ true hne]
      unfold Originator.wrapFragment Originator.purgeFragment Originator.track
      simp only [update_of_ne hne]
    · refine ⟨rfl, fun id' hne => ?_⟩
      rw [← track_store_of_ne o ⟨level, id, (nextChecked ((o.lastSeq id).getD 0)).1, lifetime, 0,
        typeBlock, tlvs⟩ false hne]
      unfold Originator.track
      simp only [update_of_ne hne]
  unfold Originator.originateFragment
  split
  · split_ifs
    · exact ⟨rfl, fun _ _ => rfl⟩
    · refine ⟨(hissue _).1, fun id' hne => ((hissue _).2 id' hne).trans ?_⟩
      unfold Originator.release Originator.track
      simp only [update_of_ne hne]
  · exact hissue o

lemma ordered_cons {w : Write} {ws : List Write} :
    Ordered (w :: ws) ↔
      (∀ p, lastOf w.lsp.level w.lsp.lspId ws = some p → p.Follows w) ∧ Ordered ws := Iff.rfl

lemma Ordered.write {w : Write} (h : Ordered o.writes) (hl : w.lsp.level = level)
    (hid : w.lsp.lspId = id) (hfollows : ∀ p, (o.track id).last level = some p → p.Follows w) :
    Ordered (w :: o.writes) := by
  refine ordered_cons.2 ⟨?_, h⟩
  rw [hl, hid]
  exact hfollows

lemma Track.Good.purged_of_suspended {t : Track} {a : Level} {w : Write} {e : Entry}
    (hgood : t.Good) (hs : t.Suspended a w) (he : t.entry level = some e) : e.purged := by
  obtain ⟨v, hv, -, hpurge⟩ := hgood.written level e he
  rcases Level.eq_or_other a level with rfl | rfl
  · rw [hs.last] at hv
    cases hv
    exact hpurge hs.purge
  · rw [hs.alone] at hv
    cases hv

/-- What one fragment of a pass keeps and leaves: a good track, the order of the writes, and at the
level no live entry but the fragment. -/
def Kept (o : Originator) (level : Level) (id : LspId) (tlvs : List UInt8)
    (r : Originator × Bool × Bool) : Prop :=
  (r.1.track id).Good ∧ (Ordered o.writes → Ordered r.1.writes) ∧
    ∀ e, (r.1.track id).entry level = some e → e.purged = false →
      r.2 = (true, false) ∧ e.raw.tlvs = tlvs

lemma kept_wrap (hgood : (o.track id).Good) (hc : (o.track id).Counting)
    (hmax : o.lastSeq id = some maxSequenceNumber)
    (halone : lastOf level.other id o.writes = none) :
    Kept o level id tlvs (o.issueFragment level id typeBlock lifetime tlvs) := by
  have hwrapped : o.issueFragment level id typeBlock lifetime tlvs
      = (o.wrapFragment level id typeBlock, false, true) := by
    unfold Originator.issueFragment
    rw [hmax, Option.getD_some, nextChecked_max]
    rfl
  obtain ⟨w, e, htrack, hwrites, hl, hid, hseq, hzero, hwrap, htime, heseq, hep⟩ :=
    track_wrapFragment o level id typeBlock
  rw [hwrapped]
  unfold Kept
  simp only
  rw [htrack, hwrites]
  subst hl
  refine ⟨⟨?_, .inr ⟨w.lsp.level, w, ?_⟩⟩, fun h => h.write rfl hid ?_, ?_⟩
  · exact hgood.written.put (heseq.trans hseq.symm) fun _ => hep
  · refine ⟨Track.put_last_self (e := e), hseq, hzero, by rw [htime], rfl, ?_⟩
    exact (Track.put_last_of_ne (e := e) (Level.other_ne _)).trans halone
  · intro p hp
    obtain ⟨m, hm, hle⟩ := hc.last _ p hp
    have hm' : m = maxSequenceNumber := Option.some.inj (hm.symm.trans hmax)
    by_cases hlt : p.lsp.sequence < maxSequenceNumber
    · exact .inl (by rw [hseq]; exact hlt)
    · exact .inr (.inl ⟨hwrap, hzero, hseq, by omega⟩)
  · intro e' he' hlive
    rw [show _ = some e from Track.put_entry_self (t := o.track id)] at he'
    rw [← Option.some.inj he', hep] at hlive
    cases hlive

lemma kept_issue (hwritten : (o.track id).Written) (hlife : lifetime ≠ 0)
    (hne : (o.lastSeq id).getD 0 ≠ maxSequenceNumber)
    (hcount : ∀ (w : Write) (e : Entry), w.lsp.level = level →
      w.lsp.sequence = (o.lastSeq id).getD 0 + 1 →
      Track.Counting { (o.track id).put w e with lastSeq := some ((o.lastSeq id).getD 0 + 1) })
    (hfollows : ∀ p, (o.track id).last level = some p → ∀ w : Write,
      w.lsp.sequence = (o.lastSeq id).getD 0 + 1 → w.time = o.now → p.Follows w) :
    Kept o level id tlvs (o.issueFragment level id typeBlock lifetime tlvs) := by
  obtain ⟨w, e, htrack, hwrites, hres, hl, hid, hseq, hlt, htime, heseq, hep, htlvs⟩ :=
    track_issueFragment o level id typeBlock lifetime tlvs hne
  unfold Kept
  rw [htrack, hwrites, hres]
  subst hl
  refine ⟨⟨?_, .inl (hcount w e rfl hseq)⟩, fun h => h.write rfl hid ?_, ?_⟩
  · exact hwritten.put (heseq.trans hseq.symm) fun h => absurd (hlt.symm.trans h) hlife
  · exact fun p hp => hfollows p hp w hseq htime
  · intro e' he' _
    rw [show _ = some e from Track.put_entry_self (t := o.track id)] at he'
    rw [← Option.some.inj he']
    exact ⟨rfl, htlvs⟩

lemma release_lastSeq : (o.release id).lastSeq id = none := update_self ..

lemma release_suspendUntil : (o.release id).suspendUntil id = none := update_self ..

lemma kept_restart {v : Write} (hgood : (o.track id).Good) (hs : (o.track id).Suspended level v)
    (halone : lastOf level.other id o.writes = none)
    (hnow : v.time + (defaultMaxAge + zeroAgeLifetime) ≤ o.now) (hlife : lifetime ≠ 0) :
    Kept (o.release id) level id tlvs
      ((o.release id).issueFragment level id typeBlock lifetime tlvs) := by
  have hnone : ((o.release id).lastSeq id).getD 0 = 0 := by
    rw [release_lastSeq, Option.getD_none]
  refine kept_issue hgood.written hlife (by rw [hnone]; decide) ?_ ?_
  · intro w e hl hw
    rw [hnone] at hw ⊢
    subst hl
    refine ⟨release_suspendUntil, ?_, ?_⟩
    · intro m hm
      cases hm
      decide
    · intro b u hu
      refine ⟨1, rfl, ?_⟩
      rcases Level.eq_or_other w.lsp.level b with rfl | rfl
      · rw [show _ = some w from Track.put_last_self (t := (o.release id).track id)] at hu
        rw [← Option.some.inj hu, hw]
      · rw [show _ = _ from Track.put_last_of_ne (t := (o.release id).track id) (e := e)
          (Level.other_ne _)] at hu
        exact absurd (halone.symm.trans hu) (by simp)
  · intro p hp w hw htime
    rw [hnone] at hw
    have hpv : p = v := Option.some.inj (hp.symm.trans hs.last)
    subst hpv
    refine .inr (.inr ⟨hs.purge, hs.number, hw, ?_⟩)
    rw [htime]
    exact hnow

lemma kept_originateFragment (hgood : (o.track id).Good)
    (hone : o.lastSeq id = some maxSequenceNumber ∨ (o.suspendUntil id).any (· ≤ o.now) →
      lastOf level.other id o.writes = none) (hlife : lifetime ≠ 0) :
    Kept o level id tlvs (o.originateFragment level id typeBlock lifetime tlvs) := by
  unfold Originator.originateFragment
  rcases hgood.state with hc | ⟨a, v, hs⟩
  · -- the identifier is counted
    rw [show o.suspendUntil id = none from hc.active]
    simp only
    by_cases hmax : o.lastSeq id = some maxSequenceNumber
    · exact kept_wrap hgood hc hmax (hone (.inl hmax))
    · have hle : (o.lastSeq id).getD 0 < maxSequenceNumber := by
        rcases hl : o.lastSeq id with _ | m
        · decide
        · have := hc.bounded m hl
          have hne : m ≠ maxSequenceNumber := fun h => hmax (h ▸ hl)
          rw [Option.getD_some]
          omega
      have hup : ∀ m, (o.track id).lastSeq = some m → m ≤ (o.lastSeq id).getD 0 := by
        intro m hm
        rw [show o.lastSeq id = some m from hm, Option.getD_some]
      refine kept_issue hgood.written hlife hle.ne (fun w e _ hw => ?_) fun p hp w hw _ => ?_
      · exact hc.put hw hle fun m hm => (hup m hm).trans (Nat.le_succ _)
      · obtain ⟨m, hm, hpm⟩ := hc.last level p hp
        have := hup m hm
        exact .inl (by omega)
  · -- it is suspended
    rw [show o.suspendUntil id = some (v.time + (defaultMaxAge + zeroAgeLifetime)) from hs.deadline]
    simp only
    split_ifs with hnow
    · refine ⟨hgood, fun h => h, fun e he hlive => ?_⟩
      rw [hgood.purged_of_suspended hs he] at hlive
      cases hlive
    · have halone : lastOf level.other id o.writes = none := by
        apply hone
        right
        rw [show o.suspendUntil id = some
          (v.time + (defaultMaxAge + zeroAgeLifetime)) from hs.deadline]
        simpa using hnow
      -- the purge was at this level
      have ha : a = level := by
        rcases Level.eq_or_other level a with h | h
        · exact h
        · have hlast := hs.last
          rw [h] at hlast
          exact absurd (halone.symm.trans hlast) (by simp)
      subst ha
      exact kept_restart hgood hs halone (by omega) hlife

lemma kept_purgeStale {e : Entry} (hgood : (o.track id).Good)
    (he : (o.track id).entry level = some e) (hne : e.sequence ≠ maxSequenceNumber) :
    Kept o level id tlvs (o.purgeStale level id typeBlock, false, false) := by
  -- a suspended identifier is stored at the last number, if at all
  have hc : (o.track id).Counting := by
    rcases hgood.state with hc | ⟨a, v, hs⟩
    · exact hc
    · obtain ⟨w, hw, hseq, -⟩ := hgood.written level e he
      rcases Level.eq_or_other a level with rfl | rfl
      · rw [hs.last] at hw
        cases hw
        exact absurd (hseq.trans hs.number) hne
      · rw [hs.alone] at hw
        cases hw
  obtain ⟨v, hv, hvseq, -⟩ := hgood.written level e he
  obtain ⟨m, hm, hle⟩ := hc.last level v hv
  have hmax := hc.bounded m hm
  generalize hnext : (if m = maxSequenceNumber then maxSequenceNumber else m + 1) = next
  have hbounds : next ≤ maxSequenceNumber ∧ m ≤ next ∧ v.lsp.sequence < next := by
    rw [← hnext]
    split_ifs
    · omega
    · omega
  obtain ⟨w, e', htrack, hwrites, hl, hid, hseq, hzero, -, htime, heseq, hep, -⟩ :=
    track_store o ⟨level, id, next, 0, 0, typeBlock, []⟩ false
  have heq : o.purgeStale level id typeBlock
      = { o.store ⟨level, id, next, 0, 0, typeBlock, []⟩ false with
          lastSeq := update o.lastSeq id (some next) } := by
    unfold Originator.purgeStale Originator.purgeFragment nextChecked
    rw [show o.lastSeq id = some m from hm, Option.getD_some, ← hnext]
    split_ifs <;> rfl
  have htrack' : (o.purgeStale level id typeBlock).track id
      = { (o.track id).put w e' with lastSeq := some next } := by
    rw [heq, ← htrack]
    unfold Originator.track
    simp only [update_self]
  have hwrites' : (o.purgeStale level id typeBlock).writes = w :: o.writes := by
    rw [heq]
    exact hwrites
  unfold Kept
  simp only
  rw [htrack', hwrites']
  subst hl
  refine ⟨⟨?_, .inl ?_⟩, fun h => h.write rfl hid ?_, ?_⟩
  · exact hgood.written.put (heseq.trans hseq.symm) fun _ => by rw [hep]; rfl
  · refine hc.put hseq hbounds.1 ?_
    intro k hk
    rw [← Option.some.inj (hm.symm.trans hk)]
    exact hbounds.2.1
  · intro p hp
    rw [← Option.some.inj (hv.symm.trans hp)]
    exact .inl (by rw [hseq]; exact hbounds.2.2)
  · intro d hd hlive
    rw [show _ = some e' from Track.put_entry_self (t := o.track id)] at hd
    rw [← Option.some.inj hd, hep] at hlive
    cases hlive

lemma purgeStale_frame (o : Originator) (level : Level) (id : LspId) (typeBlock : ℕ) :
    (o.purgeStale level id typeBlock).now = o.now ∧
      ∀ id' ≠ id, (o.purgeStale level id typeBlock).track id' = o.track id' := by
  refine ⟨rfl, fun id' hne => ?_⟩
  rw [← track_store_of_ne o ⟨level, id, if (nextChecked
    ((o.lastSeq id).getD 0)).2 then maxSequenceNumber
    else (nextChecked ((o.lastSeq id).getD 0)).1, 0, 0, typeBlock, []⟩ false hne]
  unfold Originator.purgeStale Originator.purgeFragment Originator.track
  simp only [update_of_ne hne]

end

end Ze.Isis
