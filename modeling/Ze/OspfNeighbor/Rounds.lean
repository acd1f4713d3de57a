import Ze.OspfNeighbor.Exchange

/-!
# The rounds of an exchange

A master `m` and a slave `s`. In round `k` the master sends `asking m s k` and the slave answers
with `answering m s k`; round 0 is the negotiation.
-/

namespace Ze.OspfNeighbor

open List

/-! ## Request lists -/

/-- The request list after a list of headers; `none` if it has no room. Source: dd.go the loop
over dd.Headers. -/
def collect (db : Lsdb) : List LSAHeader → List LSAHeader → Option (List LSAHeader)
  | acc, [] => some acc
  | acc, h :: hs =>
    if db.shouldRequest h then (addRequest acc h).bind fun acc =>
      collect db acc hs else collect db acc hs

lemma collect_append (db : Lsdb) (acc hs hs' : List LSAHeader) :
    collect db acc (hs ++ hs') = (collect db acc hs).bind fun acc => collect db acc hs' := by
  induction hs generalizing acc with
  | nil => rfl
  | cons h hs ih =>
    rw [cons_append, collect, collect]
    split_ifs
    · rcases addRequest acc h with _ | acc'
      · rfl
      · exact ih acc'
    · exact ih acc

lemma exists_collect (db : Lsdb) {acc hs : List LSAHeader}
    (h : acc.length + hs.length ≤ maxRequestList) : ∃ acc', collect db acc hs = some acc' := by
  induction hs generalizing acc with
  | nil => exact ⟨acc, rfl⟩
  | cons x hs ih =>
    rw [length_cons] at h
    rw [collect]
    split_ifs
    · rw [addRequest]
      split_ifs with hmem hfull
      · exact ih (by omega)
      · omega
      · refine ih ?_
        rw [length_append, length_singleton]
        omega
    · exact ih (by omega)

lemma processHeaders_of_collect {db : Lsdb} {hs : List LSAHeader} {n : Neighbor}
    {acc : List LSAHeader} (h : collect db n.requestList hs = some acc) :
    processHeaders db hs n = (true, { n with requestList := acc, processed := n.processed ++
      hs }) := by
  induction hs generalizing n with
  | nil =>
    cases h
    rw [append_nil]
    rfl
  | cons x hs ih =>
    rw [collect] at h
    rw [processHeaders]
    by_cases hx : db.shouldRequest x
    · simp only [hx, if_true] at h ⊢
      rcases hadd : addRequest n.requestList x with _ | acc' <;> rw [hadd] at h
      · cases h
      · simp only [ih (n := { n with processed := n.processed ++ [x], requestList := acc' }) h]
        rw [append_assoc, singleton_append]
    · simp only [if_neg hx] at h ⊢
      simp only [ih (n := { n with processed := n.processed ++ [x] }) h]
      rw [append_assoc, singleton_append]

lemma processHeaders_of_collect_none {db : Lsdb} {hs : List LSAHeader} {n : Neighbor}
    (h : collect db n.requestList hs = none) : ∃ requestList processed,
      processHeaders db hs n = (false, { n with requestList := requestList, processed :=
        processed }) := by
  induction hs generalizing n with
  | nil => cases h
  | cons x hs ih =>
    rw [collect] at h
    rw [processHeaders]
    by_cases hx : db.shouldRequest x
    · simp only [hx, if_true] at h ⊢
      rcases hadd : addRequest n.requestList x with _ | acc' <;> rw [hadd] at h
      · exact ⟨_, _, rfl⟩
      · exact ih (n := { n with processed := n.processed ++ [x], requestList := acc' }) h
    · simp only [if_neg hx] at h ⊢
      exact ih (n := { n with processed := n.processed ++ [x] }) h

/-! ## Packets -/

section

variable (m s : Router)

/-- The headers that a packet of a router holds at most. Source: dd.go ddHeaderCapacity. -/
def Router.width (r : Router) : ℕ := ddHeaderCapacity r.cfg.interfaceMTU

/-- What a router describes to another. Source: dd.go handleExStartDDLocked. -/
def offered (r peer : Router) : List LSAHeader := describable peer.cfg.options r.lsdb.summary

/-- The first parts of what a router describes. Source: dd.go nextSummaryHeadersLocked. -/
def offeredIn (r peer : Router) (parts : ℕ) : List LSAHeader :=
  (offered r peer).take (parts * r.width)

/-- One part. Source: dd.go nextSummaryHeadersLocked. -/
def part (r peer : Router) (i : ℕ) : List LSAHeader :=
  ((offered r peer).drop (i * r.width)).take r.width

/-- Whether there is more behind the first parts. Source: dd.go sendDBDescLocked. -/
def moreAfter (r peer : Router) (parts : ℕ) : Bool :=
  decide (parts * r.width < (offered r peer).length)

/-- The first packet of a router in ExStart. Source: dd.go sendInitialDDLocked. -/
def initialDD (r : Router) : DBDesc :=
  ⟨r.cfg.interfaceMTU, r.cfg.options, initialFlags, initialDDSequence r.cfg.routerID, []⟩

/-- The sequence number of a round. Source: dd.go n.DDSequence. -/
def sequenceOf (k : ℕ) : BitVec 32 := initialDDSequence m.cfg.routerID + BitVec.ofNat 32 k

/-- What the master sends in a round. Source: dd.go sendDBDescLocked. -/
def asking : ℕ → DBDesc
  | 0 => initialDD m
  | k + 1 => ⟨m.cfg.interfaceMTU, m.cfg.options, { more := moreAfter m s (k + 1), master := true },
      sequenceOf m (k + 1), part m s k⟩

/-- What the slave answers in a round. Source: dd.go sendDBDescLocked. -/
def answering (k : ℕ) : DBDesc :=
  ⟨s.cfg.interfaceMTU, s.cfg.options, { more := moreAfter s m (k + 1) }, sequenceOf m k, part s m k⟩

/-! ## The ends, round by round -/

/-- An end in ExStart. Source: dd.go restartExchangeLocked, sendInitialDDLocked. -/
def fresh (r : Router) (peer : RouterID) (options : BitVec 32) : Neighbor where
  routerID := peer
  state := .exStart
  master := decide (0 < compareRouterID r.cfg.routerID peer)
  ddSequence := initialDDSequence r.cfg.routerID
  options := options
  summaryList := r.lsdb.summary
  lastSentDD := some (initialDD r)

/-- The master, waiting for the answer of round `k + 1`. Source: dd.go handleExchangeDDLocked.
-/
def masterAt (k : ℕ) (requestList : List LSAHeader) : Neighbor where
  routerID := s.cfg.routerID
  state := .exchange
  master := true
  ddSequence := sequenceOf m (k + 1)
  options := s.cfg.options
  requestList := requestList
  summaryList := offered m s
  summaryIndex := min ((k + 1) * m.width) (offered m s).length
  lastDD := some (answering m s k)
  lastSentDD := some (asking m s (k + 1))
  processed := offeredIn s m (k + 1)

/-- The master, done with round `k + 1` as the last one. Source: dd.go handleExchangeDDLocked.
-/
def masterDone (k : ℕ) (requestList : List LSAHeader) : Neighbor where
  routerID := s.cfg.routerID
  state := if requestList.length = 0 then .full else .loading
  master := true
  ddSequence := sequenceOf m (k + 1)
  options := s.cfg.options
  requestList := requestList
  summaryList := offered m s
  summaryIndex := min ((k + 1) * m.width) (offered m s).length
  lastDD := some (answering m s (k + 1))
  lastSentDD := some (asking m s (k + 1))
  processed := offeredIn s m (k + 2)

/-- The exchange goes on behind a round. Source: dd.go handleExchangeDDLocked. -/
def goesOn (k : ℕ) : Bool := (asking m s k).flags.more || (answering m s k).flags.more

/-- The slave, after its answer of round `k`. Source: dd.go handleExchangeDDLocked. -/
def slaveAt (k : ℕ) (requestList : List LSAHeader) : Neighbor where
  routerID := m.cfg.routerID
  state := if goesOn m s k then .exchange else if requestList.length = 0 then .full else .loading
  master := false
  ddSequence := sequenceOf m k
  options := m.cfg.options
  requestList := requestList
  summaryList := offered s m
  summaryIndex := min ((k + 1) * s.width) (offered s m).length
  lastDD := some (asking m s k)
  lastSentDD := some (answering m s k)
  processed := offeredIn m s k

end

/-! ## Parts -/

lemma Router.width_pos (r : Router) : 0 < r.width := by
  rw [Router.width, ddHeaderCapacity]
  split_ifs with h₁ h₂
  · exact Nat.one_pos
  · decide
  · omega

lemma Router.width_le (r : Router) : r.width ≤ maxRequestList := by
  rw [Router.width, ddHeaderCapacity]
  split_ifs with h₁ h₂
  · decide
  · decide
  · exact Nat.le_trans (Nat.not_lt.1 h₂) (by decide)

lemma offeredIn_succ (r peer : Router) (k : ℕ) :
    offeredIn r peer (k + 1) = offeredIn r peer k ++ part r peer k := by
  rw [offeredIn, offeredIn, part, Nat.succ_mul, take_add]

lemma offeredIn_of_not_more {r peer : Router} {k : ℕ} (h : moreAfter r peer k = false) :
    offeredIn r peer k = offered r peer := by
  rw [offeredIn, take_of_length_le]
  exact Nat.not_lt.1 (of_decide_eq_false h)

lemma length_part_le (r peer : Router) (k : ℕ) : (part r peer k).length ≤ maxRequestList := by
  rw [part, length_take]
  exact Nat.le_trans (Nat.min_le_left _ _) r.width_le

lemma length_offered (r peer : Router) : (offered r peer).length < 2 ^ 32 := by
  refine Nat.lt_of_le_of_lt ?_ r.lsdb.length_summary
  rw [offered, describable]
  split_ifs
  · exact Nat.le_refl _
  · exact length_filter_le _ _

lemma lt_of_moreAfter {r peer : Router} {k : ℕ} (h : moreAfter r peer k) : k + 1 < 2 ^ 32 := by
  have hlt := of_decide_eq_true h
  have hle : k ≤ k * r.width := Nat.le_mul_of_pos_right k r.width_pos
  have := length_offered r peer
  omega

lemma sendDBDesc_part {r peer : Router} {n : Neighbor} {k : ℕ}
    (hlist : n.summaryList = offered r peer)
    (hindex : n.summaryIndex = min (k * r.width) (offered r peer).length) :
    sendDBDesc r.cfg n {} =
      ({ n with
          summaryIndex := min ((k + 1) * r.width) (offered r peer).length
          lastSentDD := some ⟨r.cfg.interfaceMTU, r.cfg.options,
            { more := moreAfter r peer (k + 1), master := n.master }, n.ddSequence,
              part r peer k⟩ },
        ⟨r.cfg.interfaceMTU, r.cfg.options, { more := moreAfter r peer (k + 1), master :=
          n.master }, n.ddSequence, part r peer k⟩) := by
  have hnext : nextSummaryHeaders n ⟨false, false, n.master⟩ r.cfg.interfaceMTU =
      (part r peer k, min ((k + 1) * r.width) (offered r peer).length) := by
    rw [nextSummaryHeaders, hlist, hindex, part, Nat.succ_mul]
    by_cases hdone : (offered r peer).length ≤ k * r.width
    · have hdrop : (offered r peer).drop (k * r.width) = [] := drop_eq_nil_of_le hdone
      rw [if_pos (.inr (Nat.le_of_eq (Nat.min_eq_right hdone).symm)), Nat.min_eq_right hdone,
        hdrop, take_nil, Nat.min_eq_right (Nat.le_trans hdone (Nat.le_add_right _ _))]
    · have hmin : min (k * r.width) (offered r peer).length = k * r.width :=
        Nat.min_eq_left (Nat.le_of_lt (Nat.not_le.1 hdone))
      rw [hmin, if_neg (by simp only [Bool.false_eq_true, false_or]; exact hdone)]
      simp only [Prod.mk.injEq]
      refine ⟨?_, rfl⟩
      rcases Nat.le_total (k * r.width + r.width) (offered r peer).length with hle | hle
      · rw [show ddHeaderCapacity r.cfg.interfaceMTU = r.width from rfl, Nat.min_eq_left hle,
          Nat.add_sub_cancel_left]
      · rw [show ddHeaderCapacity r.cfg.interfaceMTU = r.width from rfl, Nat.min_eq_right hle,
          take_of_length_le (Nat.le_of_eq length_drop), take_of_length_le]
        rw [length_drop]
        omega
  have hmore : decide (min ((k + 1) * r.width) (offered r peer).length < (offered r peer).length) =
      moreAfter r peer (k + 1) := by
    rw [moreAfter]
    congr 1
    rw [eq_iff_iff]
    omega
  rw [sendDBDesc]
  simp only [Bool.false_or, hnext, Bool.not_false, Bool.true_and, hlist, hmore]

/-! ## Router IDs and sequence numbers -/

lemma initialDDSequence_ne_zero (rid : RouterID) : initialDDSequence rid ≠ 0#32 := by
  rw [initialDDSequence]
  split_ifs with h
  · decide
  · exact h

lemma compareOctets_trichotomy {as bs : List (BitVec 8)} (hlen : as.length = bs.length)
    (hne : as ≠ bs) :
    (0 < compareOctets as bs ∧ ¬ 0 < compareOctets bs as) ∨
      (0 < compareOctets bs as ∧ ¬ 0 < compareOctets as bs) := by
  induction as generalizing bs with
  | nil =>
    rcases bs with _ | ⟨b, bs⟩
    · exact absurd rfl hne
    · cases hlen
  | cons a as ih =>
    rcases bs with _ | ⟨b, bs⟩
    · cases hlen
    rw [compareOctets, compareOctets]
    split_ifs with h₁ h₂ h₃
    · bv_omega
    · exact .inl ⟨by decide, by decide⟩
    · exact .inr ⟨by decide, by decide⟩
    · obtain rfl : a = b := by bv_omega
      refine ih (Nat.succ.inj hlen) fun heq => hne (by rw [heq])

lemma compareRouterID_trichotomy {a b : RouterID} (h : a ≠ b) :
    (0 < compareRouterID a b ∧ ¬ 0 < compareRouterID b a) ∨
      (0 < compareRouterID b a ∧ ¬ 0 < compareRouterID a b) := by
  refine compareOctets_trichotomy rfl fun heq => h ?_
  rcases a with ⟨a₁, a₂, a₃, a₄⟩
  rcases b with ⟨b₁, b₂, b₃, b₄⟩
  simpa [RouterID.octets] using heq

lemma sequenceOf_succ (m : Router) (k : ℕ) : sequenceOf m (k + 1) = sequenceOf m k + 1 := by
  rw [sequenceOf, sequenceOf]
  bv_omega

lemma sequenceOf_zero (m : Router) : sequenceOf m 0 = initialDDSequence m.cfg.routerID := by
  rw [sequenceOf]
  bv_omega

lemma sequenceOf_succ_ne (m : Router) (k : ℕ) : sequenceOf m (k + 1) ≠ sequenceOf m k := by
  rw [sequenceOf_succ]
  bv_omega

lemma sequenceOf_ne_zero (m : Router) {k : ℕ} (hk : k + 1 < 2 ^ 32) :
    sequenceOf m (k + 1) ≠ initialDDSequence m.cfg.routerID := by
  rw [sequenceOf]
  bv_omega

/-! ## Starting over -/

lemma restart_eq (r : Router) (n : Neighbor) (reason : Reason) :
    restart r n reason = ⟨fresh r n.routerID n.options, [initialDD r], reason⟩ := by
  rw [restart, sendDBDesc, nextSummaryHeaders]
  simp only [initialFlags, Bool.true_or, true_or, if_true, Bool.not_true, Bool.false_and]
  rfl

lemma entered_eq (r : Router) (peer : RouterID) (options : BitVec 32) :
    entered r peer options = ⟨fresh r peer options, [initialDD r], .none⟩ := restart_eq r _ _

/-! ## What an end does with a packet -/

section

variable {m s : Router} {options : BitVec 32} {k : ℕ} {requestList : List LSAHeader} {dd : DBDesc}

lemma acceptDBDesc_eq (r : Router) {n : Neighbor} (h : State.exStart.rank ≤ n.state.rank)
    (dd : DBDesc) : acceptDBDesc r n dd =
      if n.lastDD = some dd then
        if n.master then ⟨n, [], .duplicateDrop⟩ else ⟨n, n.lastSentDD.toList, .duplicateResend⟩
      else if n.state = .exStart then handleExStartDD r n dd
      else if State.exchange.rank < n.state.rank then restart r n .seqNumberMismatch
      else handleExchangeDD r n dd := by
  have hinit : n.state ≠ .init := by
    intro heq
    rw [heq] at h
    exact absurd h (by decide)
  rw [acceptDBDesc]
  simp only [if_neg hinit, if_neg (Nat.not_lt.2 h), nil_append]

lemma acceptDBDesc_fresh (r : Router) (peer : RouterID) (dd : DBDesc) :
    acceptDBDesc r (fresh r peer options) dd = handleExStartDD r (fresh r peer options) dd := by
  rw [acceptDBDesc_eq r (Nat.le_refl _)]
  rfl

lemma fresh_master_refuses (hm : 0 < compareRouterID m.cfg.routerID s.cfg.routerID)
    (h : dd.flags.init ∨ dd.ddSequence ≠ initialDDSequence m.cfg.routerID) :
    acceptDBDesc m (fresh m s.cfg.routerID options) dd =
      ⟨fresh m s.cfg.routerID options, [], .negotiation⟩ := by
  rw [acceptDBDesc_fresh, handleExStartDD]
  refine if_pos ⟨decide_eq_true hm, ?_⟩
  rcases h with h | h
  · exact .inl h
  · exact .inr (.inr h)

lemma fresh_slave_refuses (hs : ¬ 0 < compareRouterID s.cfg.routerID m.cfg.routerID)
    (h : dd.flags.init = false) :
    acceptDBDesc s (fresh s m.cfg.routerID options) dd =
      ⟨fresh s m.cfg.routerID options, [], .negotiation⟩ := by
  have hlocal : decide (0 < compareRouterID s.cfg.routerID
      (fresh s m.cfg.routerID options).routerID) =
      false := decide_eq_false hs
  rw [acceptDBDesc_fresh, handleExStartDD]
  simp only [hlocal, h, Bool.false_eq_true, false_and, not_false_eq_true, true_or, and_self,
    if_true, if_false]

lemma fresh_slave_accepts (hs : ¬ 0 < compareRouterID s.cfg.routerID m.cfg.routerID) :
    acceptDBDesc s (fresh s m.cfg.routerID options) (asking m s 0) =
      ⟨slaveAt m s 0 [], [answering m s 0], .none⟩ := by
  have hlocal : decide (0 < compareRouterID s.cfg.routerID
      (fresh s m.cfg.routerID options).routerID) =
      false := decide_eq_false hs
  rw [acceptDBDesc_fresh, handleExStartDD]
  simp only [hlocal, Bool.false_eq_true, false_and, if_false]
  rw [if_neg (by simp [asking, initialDD, initialFlags, initialDDSequence_ne_zero])]
  simp only [asking, initialDD, processHeaders, Bool.false_eq_true, if_false]
  rw [@sendDBDesc_part s m _ 0 rfl (by simp [fresh])]
  simp only [slaveAt, answering, asking, initialDD, goesOn, initialFlags, Bool.true_or, if_true,
    sequenceOf_zero, offeredIn, Nat.zero_mul, take_zero, fresh, offered]

lemma fresh_master_accepts (hm : 0 < compareRouterID m.cfg.routerID s.cfg.routerID) :
    ∃ requestList, collect m.lsdb [] (offeredIn s m 1) = some requestList ∧
      acceptDBDesc m (fresh m s.cfg.routerID options) (answering m s 0) =
        ⟨masterAt m s 0 requestList, [asking m s 1], .none⟩ := by
  have hlocal : decide (0 < compareRouterID m.cfg.routerID
      (fresh m s.cfg.routerID options).routerID) =
      true := decide_eq_true hm
  have hparts : offeredIn s m 1 = part s m 0 := by
    rw [offeredIn_succ, offeredIn, Nat.zero_mul, take_zero, nil_append]
  have hroom : ([] : List LSAHeader).length + (part s m 0).length ≤ maxRequestList := by
    rw [length_nil, Nat.zero_add]
    exact length_part_le s m 0
  obtain ⟨requestList, hcollect⟩ := exists_collect m.lsdb hroom
  refine ⟨requestList, hparts ▸ hcollect, ?_⟩
  rw [acceptDBDesc_fresh, handleExStartDD]
  simp only [hlocal, true_and, not_true_eq_false, false_and, if_false]
  rw [if_neg (by simp [answering, sequenceOf_zero, fresh])]
  simp only [answering]
  rw [processHeaders_of_collect hcollect]
  simp only [if_true]
  rw [@sendDBDesc_part m s _ 0 rfl (by simp [fresh])]
  simp only [masterAt, answering, asking, fresh, hparts, sequenceOf_succ, sequenceOf_zero,
    nil_append, offered]

lemma answering_succ_ne (m s : Router) (k : ℕ) : answering m s (k + 1) ≠ answering m s k :=
  fun h =>
  sequenceOf_succ_ne m k (congrArg DBDesc.ddSequence h)

lemma asking_succ_ne (m s : Router) (k : ℕ) : asking m s (k + 1) ≠ asking m s k := by
  intro h
  have hseq := congrArg DBDesc.ddSequence h
  rcases k with _ | k
  · exact sequenceOf_succ_ne m 0 (hseq.trans (sequenceOf_zero m).symm)
  · exact sequenceOf_succ_ne m (k + 1) hseq

lemma acceptDBDesc_exchange (r : Router) {n : Neighbor} (hstate : n.state = .exchange)
    (hlast : n.lastDD ≠ some dd) : acceptDBDesc r n dd = handleExchangeDD r n dd := by
  have hrank : n.state.rank = 5 := congrArg State.rank hstate
  rw [acceptDBDesc_eq r (by rw [hrank]; decide), if_neg hlast, if_neg (by rw [hstate]; decide),
    if_neg (by rw [hrank]; decide)]

lemma processHeaders_then (r : Router) (hs : List LSAHeader) (n : Neighbor)
    (next : Neighbor → Handled) :
    (match processHeaders r.lsdb hs n with
      | (false, n) => restart r n .requestListLimit
      | (true, n) => next n) =
      match collect r.lsdb n.requestList hs with
      | none => ⟨fresh r n.routerID n.options, [initialDD r], .requestListLimit⟩
      | some acc => next { n with requestList := acc, processed := n.processed ++ hs } := by
  rcases hcollect : collect r.lsdb n.requestList hs with _ | acc
  · obtain ⟨_, _, hprocess⟩ := processHeaders_of_collect_none hcollect
    rw [hprocess]
    exact restart_eq ..
  · rw [processHeaders_of_collect hcollect]

lemma handleExchangeDD_master (r : Router) {n : Neighbor} (hmaster : n.master)
    (hinit : dd.flags.init = false) (hpeer : dd.flags.master = false)
    (hopts : dd.options = n.options) (hseq : dd.ddSequence = n.ddSequence) :
    handleExchangeDD r n dd =
      match collect r.lsdb n.requestList dd.headers with
      | none => ⟨fresh r n.routerID n.options, [initialDD r], .requestListLimit⟩
      | some requestList =>
        let n' := { n with
          lastDD := some dd
          requestList := requestList
          processed := n.processed ++ dd.headers }
        if dd.flags.more = true ∨ n.summaryIndex < n.summaryList.length then
          let sent := sendDBDesc r.cfg { n' with ddSequence := n.ddSequence + 1 } {}
          ⟨sent.1, [sent.2], .none⟩
        else ⟨exchangeDone n', [], .none⟩ := by
  rw [handleExchangeDD, if_neg (by simp [hinit, hpeer, hmaster, hopts]), if_neg (by simp [hseq]),
    if_neg (by simp [hmaster])]
  refine (processHeaders_then r _ _ _).trans ?_
  simp only [hmaster, if_true]

lemma handleExchangeDD_slave (r : Router) {n : Neighbor} (hmaster : n.master = false)
    (hinit : dd.flags.init = false) (hpeer : dd.flags.master)
    (hopts : dd.options = n.options) (hseq : dd.ddSequence = n.ddSequence + 1) :
    handleExchangeDD r n dd =
      match collect r.lsdb n.requestList dd.headers with
      | none => ⟨fresh r n.routerID n.options, [initialDD r], .requestListLimit⟩
      | some requestList =>
        let n' := { n with
          ddSequence := dd.ddSequence
          lastDD := some dd
          requestList := requestList
          processed := n.processed ++ dd.headers }
        let sent := sendDBDesc r.cfg n' {}
        if dd.flags.more = true ∨ sent.2.flags.more = true then ⟨sent.1, [sent.2], .none⟩
        else ⟨exchangeDone sent.1, [sent.2], .none⟩ := by
  rw [handleExchangeDD, if_neg (by simp [hinit, hpeer, hmaster, hopts]), if_neg (by simp [hmaster]),
    if_neg (by simp [hseq])]
  refine (processHeaders_then r _ _ _).trans ?_
  simp only [hmaster, Bool.false_eq_true, if_false]

/-! ## The master -/

lemma masterAt_drops : acceptDBDesc m (masterAt m s k requestList) (answering m s k) =
    ⟨masterAt m s k requestList, [], .duplicateDrop⟩ := by
  have hstate : State.exStart.rank ≤ (masterAt m s k requestList).state.rank := Nat.le_succ 4
  rw [acceptDBDesc_eq m hstate]
  exact if_pos rfl

lemma masterDone_drops : acceptDBDesc m (masterDone m s k requestList) (answering m s (k + 1)) =
    ⟨masterDone m s k requestList, [], .duplicateDrop⟩ := by
  have hstate : State.exStart.rank ≤ (masterDone m s k requestList).state.rank := by
    simp only [masterDone]
    split_ifs <;> decide
  rw [acceptDBDesc_eq m hstate]
  exact if_pos rfl

lemma masterAt_restarts (h : dd.flags.init) :
    acceptDBDesc m (masterAt m s k requestList) dd =
      ⟨fresh m s.cfg.routerID s.cfg.options, [initialDD m], .seqNumberMismatch⟩ := by
  have hlast : (masterAt m s k requestList).lastDD ≠ some dd := by
    intro heq
    have hinit := congrArg (fun d : DBDesc => d.flags.init) (Option.some.inj heq)
    exact absurd (hinit.trans h) (by simp [answering])
  rw [acceptDBDesc_exchange m rfl hlast, handleExchangeDD, if_pos (.inl h), restart_eq]
  rfl

lemma masterAt_answered : acceptDBDesc m (masterAt m s k requestList) (answering m s (k + 1)) =
    match collect m.lsdb requestList (part s m (k + 1)) with
    | none => ⟨fresh m s.cfg.routerID s.cfg.options, [initialDD m], .requestListLimit⟩
    | some requestList' =>
      if goesOn m s (k + 1) then ⟨masterAt m s (k + 1) requestList', [asking m s (k + 2)], .none⟩
      else ⟨masterDone m s k requestList', [], .none⟩ := by
  have hlast : (masterAt m s k requestList).lastDD ≠ some (answering m s (k + 1)) := fun heq =>
    answering_succ_ne m s k (Option.some.inj heq).symm
  rw [acceptDBDesc_exchange m rfl hlast, handleExchangeDD_master m rfl rfl rfl rfl rfl]
  simp only [masterAt, answering]
  rcases collect m.lsdb requestList (part s m (k + 1)) with _ | requestList'
  · rfl
  · have hmore : (moreAfter s m (k + 1 + 1) ∨
        min ((k + 1) * m.width) (offered m s).length < (offered m s).length) ↔ goesOn m s (k + 1) =
          true := by
      rw [goesOn, Bool.or_eq_true, or_comm]
      refine or_congr ?_ Iff.rfl
      rw [asking, moreAfter, decide_eq_true_iff]
      omega
    simp only [hmore]
    split_ifs
    · rw [@sendDBDesc_part m s _ (k + 1) rfl rfl]
      simp only [offeredIn_succ s m (k + 1), asking, ← sequenceOf_succ]
    · simp only [exchangeDone, masterDone, offeredIn_succ s m (k + 1), answering, asking]

/-! ## The slave -/

lemma slaveAt_resends : acceptDBDesc s (slaveAt m s k requestList) (asking m s k) =
    ⟨slaveAt m s k requestList, [answering m s k], .duplicateResend⟩ := by
  have hstate : State.exStart.rank ≤ (slaveAt m s k requestList).state.rank := by
    simp only [slaveAt]
    split_ifs <;> decide
  rw [acceptDBDesc_eq s hstate]
  exact if_pos rfl

lemma slaveAt_restarts : acceptDBDesc s (slaveAt m s (k + 1) requestList) (asking m s 0) =
    ⟨fresh s m.cfg.routerID m.cfg.options, [initialDD s], .seqNumberMismatch⟩ := by
  have hlast : (slaveAt m s (k + 1) requestList).lastDD ≠ some (asking m s 0) := by
    intro heq
    have hinit := congrArg (fun d : DBDesc => d.flags.init) (Option.some.inj heq)
    exact absurd hinit (by simp [asking, initialDD, initialFlags])
  rcases hgoes : goesOn m s (k + 1) with _ | _
  · have hrank : State.exchange.rank < (slaveAt m s (k + 1) requestList).state.rank := by
      simp only [slaveAt, hgoes, Bool.false_eq_true, if_false]
      split_ifs <;> decide
    have hstate : (slaveAt m s (k + 1) requestList).state ≠ .exStart := by
      intro heq
      rw [heq] at hrank
      exact absurd hrank (by decide)
    rw [acceptDBDesc_eq s (Nat.le_of_succ_le (Nat.le_of_lt hrank)), if_neg hlast, if_neg hstate,
      if_pos hrank, restart_eq]
    rfl
  · have hstate : (slaveAt m s (k + 1) requestList).state = .exchange := by
      simp only [slaveAt, hgoes, if_true]
    have hinit : (asking m s 0).flags.init := rfl
    rw [acceptDBDesc_exchange s hstate hlast, handleExchangeDD, if_pos (.inl hinit), restart_eq]
    rfl

lemma slaveAt_asked (hgoes : goesOn m s k) :
    acceptDBDesc s (slaveAt m s k requestList) (asking m s (k + 1)) =
      match collect s.lsdb requestList (part m s k) with
      | none => ⟨fresh s m.cfg.routerID m.cfg.options, [initialDD s], .requestListLimit⟩
      | some requestList' =>
        ⟨slaveAt m s (k + 1) requestList', [answering m s (k + 1)], .none⟩ := by
  have hlast : (slaveAt m s k requestList).lastDD ≠ some (asking m s (k + 1)) := fun heq =>
    asking_succ_ne m s k (Option.some.inj heq).symm
  have hstate : (slaveAt m s k requestList).state = .exchange := by
    simp only [slaveAt, hgoes, if_true]
  rw [acceptDBDesc_exchange s hstate hlast,
    handleExchangeDD_slave s rfl rfl rfl rfl (sequenceOf_succ m k)]
  rw [show (asking m s (k + 1)).headers = part m s k from rfl]
  rcases hcollect : collect s.lsdb requestList (part m s k) with _ | requestList'
  · simp only [slaveAt, hcollect]
  · have hsend := fun state => @sendDBDesc_part s m
      ⟨m.cfg.routerID, state, false, sequenceOf m (k + 1), m.cfg.options, requestList', offered s m,
        min ((k + 1) * s.width) (offered s m).length, some (asking m s (k + 1)),
          some (answering m s k), offeredIn m s k ++ part m s k⟩ (k + 1) rfl rfl
    have hseq : (asking m s (k + 1)).ddSequence = sequenceOf m (k + 1) := rfl
    have hmore : ((asking m s (k + 1)).flags.more ∨ moreAfter s m (k + 1 + 1)) ↔
        goesOn m s (k + 1) := by
      rw [goesOn, Bool.or_eq_true]
      exact Iff.rfl
    simp only [slaveAt, hcollect, hseq, hgoes, if_true, hsend, hmore, offeredIn_succ m s k]
    split_ifs with hnext hempty
    · rfl
    · simp only [exchangeDone, hempty, if_true]
      rfl
    · simp only [exchangeDone, hempty, if_false]
      rfl

end

end Ze.OspfNeighbor
