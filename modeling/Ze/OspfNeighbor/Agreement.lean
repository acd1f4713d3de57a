import Ze.OspfNeighbor.Rounds

/-!
# What both ends know when they leave Exchange

Whatever the channels do, the two ends and what is in flight are in one of the phases of `Phase`:
every step leads from a phase to a phase (`inPhase_of_step`). In the phases in which both have left
Exchange each has collected what the other describes, which is `exchange_agrees`.
-/

namespace Ze.OspfNeighbor

open Ze.Lib List

/-! ## Channels -/

/-- Packets of one kind and behind them packets of another. -/
def Followed (p q : DBDesc → Prop) (l : List DBDesc) : Prop :=
  ∃ l₁ l₂, l = l₁ ++ l₂ ∧ (∀ d ∈ l₁, p d) ∧ ∀ d ∈ l₂, q d

section

variable {p q : DBDesc → Prop} {d : DBDesc} {l left : List DBDesc}

lemma followed_of_all (h : ∀ d ∈ l, q d) : Followed p q l :=
  ⟨[], l, rfl, fun _ hd => absurd hd not_mem_nil, h⟩

lemma followed_of_first (h : ∀ d ∈ l, p d) : Followed p q l :=
  ⟨l, [], (append_nil l).symm, h, fun _ hd => absurd hd not_mem_nil⟩

lemma Followed.head (h : Followed p q (d :: l)) : (p d ∧ Followed p q l) ∨ ∀ x ∈ d :: l, q x := by
  obtain ⟨l₁, l₂, heq, hp, hq⟩ := h
  rcases l₁ with _ | ⟨x, l₁⟩
  · refine .inr fun x hx => hq x ?_
    rwa [← show d :: l = l₂ from heq]
  · rw [cons_append, cons.injEq] at heq
    obtain ⟨rfl, rfl⟩ := heq
    exact .inl ⟨hp d mem_cons_self, l₁, l₂, rfl, fun x hx =>
      hp x (mem_cons_of_mem _ hx), hq⟩

lemma all_left (hleft : left = l ∨ left = d :: l) (h : ∀ x ∈ d :: l, q x) : ∀ x ∈ left, q x := by
  rcases hleft with rfl | rfl
  · exact fun x hx => h x (mem_cons_of_mem _ hx)
  · exact h

lemma Followed.of_left (hleft : left = l ∨ left = d :: l) (h : Followed p q (d :: l)) :
    Followed p q left := by
  rcases hleft with rfl | rfl
  · rcases h.head with ⟨-, h⟩ | h
    · exact h
    · exact followed_of_all fun x hx => h x (mem_cons_of_mem _ hx)
  · exact h

lemma Followed.snoc (h : Followed p q l) (hd : q d) : Followed p q (l ++ [d]) := by
  obtain ⟨l₁, l₂, rfl, hp, hq⟩ := h
  refine ⟨l₁, l₂ ++ [d], append_assoc _ _ _, hp, fun x hx => ?_⟩
  rcases mem_append.1 hx with hx | hx
  · exact hq x hx
  · obtain rfl := mem_singleton.1 hx
    exact hd

lemma all_snoc (h : ∀ x ∈ l, q x) (hd : q d) : ∀ x ∈ l ++ [d], q x := by
  intro x hx
  rcases mem_append.1 hx with hx | hx
  · exact h x hx
  · obtain rfl := mem_singleton.1 hx
    exact hd

lemma followed_snoc_of_first (h : ∀ x ∈ l, p x) (hd : q d) : Followed p q (l ++ [d]) :=
  (followed_of_first h).snoc hd

lemma Followed.snoc_of_imp {r : DBDesc → Prop} {r' : DBDesc → Prop} (h : Followed p q l)
    (hp : ∀ x, p x → r x) (hq : ∀ x, q x → r x) (hd : r' d) : Followed r r' (l ++ [d]) := by
  obtain ⟨l₁, l₂, rfl, hl₁, hl₂⟩ := h
  refine followed_snoc_of_first (fun x hx => ?_) hd
  rcases mem_append.1 hx with hx | hx
  · exact hp x (hl₁ x hx)
  · exact hq x (hl₂ x hx)

end

/-! ## Phases -/

/-- A packet that a master in ExStart refuses. Source: dd.go handleExStartDDLocked. -/
def Refused (m : Router) (d : DBDesc) : Prop :=
  d.flags.init = true ∨ d.ddSequence ≠ initialDDSequence m.cfg.routerID

/-- The master, the packets to it, the slave and the packets to it, in every state that a run can
reach.
Source: dd.go. -/
inductive Phase (m s : Router) : Neighbor → List DBDesc → Neighbor → List DBDesc → Prop
  | start {o o' : BitVec 32} {toM toS : List DBDesc}
      (hM : Followed (Refused m) (· = initialDD s) toM)
      (hS : Followed (fun d => d.flags.init = false) (· = asking m s 0) toS) :
      Phase m s (fresh m s.cfg.routerID o) toM (fresh s m.cfg.routerID o') toS
  | negotiated {o : BitVec 32} {toM toS : List DBDesc}
      (hM : Followed (Refused m) (· = answering m s 0) toM) (hS : ∀ d ∈ toS, d = asking m s 0) :
      Phase m s (fresh m s.cfg.routerID o) toM (slaveAt m s 0 []) toS
  | asked {k : ℕ} {reqM reqS toM toS : List _} (hk : k + 1 < 2 ^ 32) (hgoes : goesOn m s k = true)
      (hreqM : collect m.lsdb [] (offeredIn s m (k + 1)) = some reqM)
      (hreqS : collect s.lsdb [] (offeredIn m s k) = some reqS)
      (hM : ∀ d ∈ toM, d = answering m s k)
      (hS : Followed (· = asking m s k) (· = asking m s (k + 1)) toS) :
      Phase m s (masterAt m s k reqM) toM (slaveAt m s k reqS) toS
  | answered {k : ℕ} {reqM reqS toM toS : List _} (hk : k + 1 < 2 ^ 32)
      (hreqM : collect m.lsdb [] (offeredIn s m (k + 1)) = some reqM)
      (hreqS : collect s.lsdb [] (offeredIn m s (k + 1)) = some reqS)
      (hM : Followed (· = answering m s k) (· = answering m s (k + 1)) toM)
      (hS : ∀ d ∈ toS, d = asking m s (k + 1)) :
      Phase m s (masterAt m s k reqM) toM (slaveAt m s (k + 1) reqS) toS
  | done {k : ℕ} {reqM reqS toM toS : List _} (hends : goesOn m s (k + 1) = false)
      (hreqM : collect m.lsdb [] (offeredIn s m (k + 2)) = some reqM)
      (hreqS : collect s.lsdb [] (offeredIn m s (k + 1)) = some reqS)
      (hM : ∀ d ∈ toM, d = answering m s (k + 1)) (hS : ∀ d ∈ toS, d = asking m s (k + 1)) :
      Phase m s (masterDone m s k reqM) toM (slaveAt m s (k + 1) reqS) toS
  | masterBack {k : ℕ} {o : BitVec 32} {reqS toM toS : List _} (hk : k + 1 < 2 ^ 32)
      (hM : ∀ d ∈ toM, d = answering m s (k + 1))
      (hS : Followed (· = asking m s (k + 1)) (· = asking m s 0) toS) :
      Phase m s (fresh m s.cfg.routerID o) toM (slaveAt m s (k + 1) reqS) toS
  | slaveBack {k : ℕ} {o : BitVec 32} {reqM toM toS : List _}
      (hM : Followed (· = answering m s k) (· = initialDD s) toM)
      (hS : ∀ d ∈ toS, d = asking m s (k + 1)) :
      Phase m s (masterAt m s k reqM) toM (fresh s m.cfg.routerID o) toS

namespace Phase

variable {m s : Router} {A B : Neighbor} {toM toS rest left : List DBDesc} {d : DBDesc}

lemma left_master (hleft : left = rest ∨ left = d :: rest) (h : Phase m s A (d :: rest) B toS) :
    Phase m s A left B toS := by
  cases h with
  | start hM hS => exact .start (hM.of_left hleft) hS
  | negotiated hM hS => exact .negotiated (hM.of_left hleft) hS
  | asked hk hgoes hreqM hreqS hM hS => exact .asked hk hgoes hreqM hreqS (all_left hleft hM) hS
  | answered hk hreqM hreqS hM hS => exact .answered hk hreqM hreqS (hM.of_left hleft) hS
  | done hends hreqM hreqS hM hS => exact .done hends hreqM hreqS (all_left hleft hM) hS
  | masterBack hk hM hS => exact .masterBack hk (all_left hleft hM) hS
  | slaveBack hM hS => exact .slaveBack (hM.of_left hleft) hS

lemma left_slave (hleft : left = rest ∨ left = d :: rest) (h : Phase m s A toM B (d :: rest)) :
    Phase m s A toM B left := by
  cases h with
  | start hM hS => exact .start hM (hS.of_left hleft)
  | negotiated hM hS => exact .negotiated hM (all_left hleft hS)
  | asked hk hgoes hreqM hreqS hM hS => exact .asked hk hgoes hreqM hreqS hM (hS.of_left hleft)
  | answered hk hreqM hreqS hM hS => exact .answered hk hreqM hreqS hM (all_left hleft hS)
  | done hends hreqM hreqS hM hS => exact .done hends hreqM hreqS hM (all_left hleft hS)
  | masterBack hk hM hS => exact .masterBack hk hM (hS.of_left hleft)
  | slaveBack hM hS => exact .slaveBack hM (all_left hleft hS)

lemma accept_master (hm : 0 < compareRouterID m.cfg.routerID s.cfg.routerID)
    (h : Phase m s A (d :: rest) B toS) (hleft : left = rest ∨ left = d :: rest) :
    Phase m s (acceptDBDesc m A d).neighbor left B (toS ++ (acceptDBDesc m A d).sent) := by
  -- a packet that changes nothing and sends nothing
  have hidle : ∀ {reason : Reason}, acceptDBDesc m A d = ⟨A, [], reason⟩ →
      Phase m s (acceptDBDesc m A d).neighbor left B (toS ++ (acceptDBDesc m A d).sent) := by
    intro reason heq
    rw [heq, append_nil]
    exact h.left_master hleft
  cases h with
  | start hM hS =>
    apply hidle
    apply fresh_master_refuses hm
    rcases hM.head with ⟨hd, -⟩ | hd
    · exact hd
    · exact .inl (by rw [hd d mem_cons_self]; rfl)
  | negotiated hM hS =>
    rcases hM.head with ⟨hd, -⟩ | hd
    · exact hidle (fresh_master_refuses hm hd)
    · obtain rfl := hd d mem_cons_self
      obtain ⟨reqM, hreqM, heq⟩ := fresh_master_accepts hm
      rw [heq]
      have hreqS : collect s.lsdb [] (offeredIn m s 0) = some [] := by
        rw [offeredIn, Nat.zero_mul, take_zero, collect]
      exact .asked (by decide) rfl hreqM hreqS (all_left hleft hd) (followed_snoc_of_first hS rfl)
  | asked hk hgoes hreqM hreqS hM hS =>
    obtain rfl := hM d mem_cons_self
    exact hidle masterAt_drops
  | answered hk hreqM hreqS hM hS =>
    rcases hM.head with ⟨rfl, -⟩ | hd
    · exact hidle masterAt_drops
    · obtain rfl := hd d mem_cons_self
      rename_i k reqM reqS
      rcases hcollect : collect m.lsdb reqM (part s m (k + 1)) with _ | reqM'
      · have heq := @masterAt_answered m s k reqM
        rw [hcollect] at heq
        rw [heq]
        exact .masterBack hk (all_left hleft hd) (followed_snoc_of_first hS rfl)
      · have heq := @masterAt_answered m s k reqM
        have hreqM' : collect m.lsdb [] (offeredIn s m (k + 2)) = some reqM' := by
          rw [offeredIn_succ, collect_append, hreqM]
          exact hcollect
        rw [hcollect] at heq
        simp only at heq
        rcases hgoes : goesOn m s (k + 1) with _ | _ <;> rw [hgoes] at heq
        · rw [heq]
          simp only [Bool.false_eq_true, if_false, append_nil]
          exact .done hgoes hreqM' hreqS (all_left hleft hd) hS
        · rw [heq]
          have hk' : k + 1 + 1 < 2 ^ 32 := by
            rcases Bool.or_eq_true_iff.1 hgoes with hmore | hmore
            · exact lt_of_moreAfter hmore
            · exact Nat.lt_of_succ_lt (lt_of_moreAfter hmore)
          exact .asked hk' hgoes hreqM' hreqS (all_left hleft hd) (followed_snoc_of_first hS rfl)
  | done hends hreqM hreqS hM hS =>
    obtain rfl := hM d mem_cons_self
    exact hidle masterDone_drops
  | masterBack hk hM hS =>
    obtain rfl := hM d mem_cons_self
    exact hidle (fresh_master_refuses hm (.inr (sequenceOf_ne_zero m hk)))
  | slaveBack hM hS =>
    rcases hM.head with ⟨rfl, -⟩ | hd
    · exact hidle masterAt_drops
    · obtain rfl := hd d mem_cons_self
      rw [masterAt_restarts rfl]
      refine .start (followed_of_all (all_left hleft hd))
        (followed_snoc_of_first (fun x hx => ?_) rfl)
      rw [hS x hx]
      rfl

lemma accept_slave (hs : ¬ 0 < compareRouterID s.cfg.routerID m.cfg.routerID)
    (h : Phase m s A toM B (d :: rest)) (hleft : left = rest ∨ left = d :: rest) :
    Phase m s A (toM ++ (acceptDBDesc s B d).sent) (acceptDBDesc s B d).neighbor left := by
  have hidle : ∀ {reason : Reason}, acceptDBDesc s B d = ⟨B, [], reason⟩ →
      Phase m s A (toM ++ (acceptDBDesc s B d).sent) (acceptDBDesc s B d).neighbor left := by
    intro reason heq
    rw [heq, append_nil]
    exact h.left_slave hleft
  cases h with
  | start hM hS =>
    rcases hS.head with ⟨hd, -⟩ | hd
    · exact hidle (fresh_slave_refuses hs hd)
    · obtain rfl := hd d mem_cons_self
      rw [fresh_slave_accepts hs]
      refine .negotiated (hM.snoc_of_imp (fun _ hx => hx) (fun x hx => ?_) rfl) (all_left hleft hd)
      exact .inl (by rw [hx]; rfl)
  | negotiated hM hS =>
    obtain rfl := hS d mem_cons_self
    rw [slaveAt_resends]
    exact .negotiated (hM.snoc rfl) (all_left hleft hS)
  | asked hk hgoes hreqM hreqS hM hS =>
    rcases hS.head with ⟨rfl, -⟩ | hd
    · rw [slaveAt_resends]
      exact .asked hk hgoes hreqM hreqS (all_snoc hM rfl) (hS.of_left hleft)
    · obtain rfl := hd d mem_cons_self
      rename_i k reqM reqS
      have heq := @slaveAt_asked m s k reqS hgoes
      rcases hcollect : collect s.lsdb reqS (part m s k) with _ | reqS' <;> rw [hcollect] at heq
      · rw [heq]
        exact .slaveBack (followed_snoc_of_first hM rfl) (all_left hleft hd)
      · rw [heq]
        refine .answered hk hreqM ?_ (followed_snoc_of_first hM rfl) (all_left hleft hd)
        rw [offeredIn_succ, collect_append, hreqS]
        exact hcollect
  | answered hk hreqM hreqS hM hS =>
    obtain rfl := hS d mem_cons_self
    rw [slaveAt_resends]
    exact .answered hk hreqM hreqS (hM.snoc rfl) (all_left hleft hS)
  | done hends hreqM hreqS hM hS =>
    obtain rfl := hS d mem_cons_self
    rw [slaveAt_resends]
    exact .done hends hreqM hreqS (all_snoc hM rfl) (all_left hleft hS)
  | masterBack hk hM hS =>
    rcases hS.head with ⟨rfl, -⟩ | hd
    · rw [slaveAt_resends]
      exact .masterBack hk (all_snoc hM rfl) (hS.of_left hleft)
    · obtain rfl := hd d mem_cons_self
      rw [slaveAt_restarts]
      refine .start (followed_snoc_of_first (fun x hx => ?_) rfl)
        (followed_of_all (all_left hleft hd))
      rw [hM x hx]
      exact .inr (sequenceOf_ne_zero m hk)
  | slaveBack hM hS =>
    obtain rfl := hS d mem_cons_self
    exact hidle (fresh_slave_refuses hs rfl)

lemma resend_master (h : Phase m s A toM B toS) : Phase m s A toM B (toS ++ retransmit A) := by
  cases h with
  | start hM hS => exact .start hM (hS.snoc rfl)
  | negotiated hM hS => exact .negotiated hM (all_snoc hS rfl)
  | asked hk hgoes hreqM hreqS hM hS => exact .asked hk hgoes hreqM hreqS hM (hS.snoc rfl)
  | answered hk hreqM hreqS hM hS => exact .answered hk hreqM hreqS hM (all_snoc hS rfl)
  | done hends hreqM hreqS hM hS =>
    rename_i k reqM reqS
    have hnone : retransmit (masterDone m s k reqM) = [] := by
      rw [retransmit, masterDone]
      simp only
      split_ifs <;> simp_all
    rw [hnone, append_nil]
    exact .done hends hreqM hreqS hM hS
  | masterBack hk hM hS => exact .masterBack hk hM (hS.snoc rfl)
  | slaveBack hM hS => exact .slaveBack hM (all_snoc hS rfl)

lemma resend_slave (h : Phase m s A toM B toS) : Phase m s A (toM ++ retransmit B) B toS := by
  have hslave : ∀ k reqS, retransmit (slaveAt m s k reqS) = [answering m s k] ∨
      retransmit (slaveAt m s k reqS) = [] := by
    intro k reqS
    rw [retransmit]
    split_ifs
    · exact .inl rfl
    · exact .inr rfl
  cases h with
  | start hM hS => exact .start (hM.snoc rfl) hS
  | negotiated hM hS =>
    rcases hslave 0 [] with heq | heq <;> rw [heq]
    · exact .negotiated (hM.snoc rfl) hS
    · rw [append_nil]
      exact .negotiated hM hS
  | asked hk hgoes hreqM hreqS hM hS =>
    rename_i k reqM reqS
    rcases hslave k reqS with heq | heq <;> rw [heq]
    · exact .asked hk hgoes hreqM hreqS (all_snoc hM rfl) hS
    · rw [append_nil]
      exact .asked hk hgoes hreqM hreqS hM hS
  | answered hk hreqM hreqS hM hS =>
    rename_i k reqM reqS
    rcases hslave (k + 1) reqS with heq | heq <;> rw [heq]
    · exact .answered hk hreqM hreqS (hM.snoc rfl) hS
    · rw [append_nil]
      exact .answered hk hreqM hreqS hM hS
  | done hends hreqM hreqS hM hS =>
    rename_i k reqM reqS
    rcases hslave (k + 1) reqS with heq | heq <;> rw [heq]
    · exact .done hends hreqM hreqS (all_snoc hM rfl) hS
    · rw [append_nil]
      exact .done hends hreqM hreqS hM hS
  | masterBack hk hM hS =>
    rename_i k o reqS
    rcases hslave (k + 1) reqS with heq | heq <;> rw [heq]
    · exact .masterBack hk (all_snoc hM rfl) hS
    · rw [append_nil]
      exact .masterBack hk hM hS
  | slaveBack hM hS => exact .slaveBack (hM.snoc rfl) hS

end Phase

/-! ## Runs -/

section

variable {m s : Router} {net net' : Net} {op : Op}

lemma stepLeft_eq_some (h : stepLeft m net op = some net') :
    (∃ d rest left, net.left.inbox = d :: rest ∧ (left = rest ∨ left = d :: rest) ∧
      net' = ⟨⟨(handleDBDesc m net.left.neighbor d).neighbor, left⟩, { net.right with
        inbox := net.right.inbox ++ (handleDBDesc m net.left.neighbor d).sent }⟩) ∨
    net' = { net with right :=
      { net.right with inbox := net.right.inbox ++ retransmit net.left.neighbor } } := by
  rcases op with again | _
  · rw [stepLeft] at h
    rcases hinbox : net.left.inbox with _ | ⟨d, rest⟩ <;> rw [hinbox] at h
    · cases h
    refine .inl ⟨d, rest, _, rfl, ?_, (Option.some.inj h).symm⟩
    split_ifs
    · exact .inr rfl
    · exact .inl rfl
  · exact .inr (Option.some.inj h).symm

lemma phase_of_stepLeft_master (hm : 0 < compareRouterID m.cfg.routerID s.cfg.routerID)
    (h : Phase m s net.left.neighbor net.left.inbox net.right.neighbor net.right.inbox)
    (hstep : stepLeft m net op = some net') :
    Phase m s net'.left.neighbor net'.left.inbox net'.right.neighbor net'.right.inbox := by
  rcases stepLeft_eq_some hstep with ⟨d, rest, left, hinbox, hleft, rfl⟩ | rfl
  · rw [hinbox] at h
    unfold handleDBDesc
    split_ifs
    · simpa only [append_nil] using h.left_master hleft
    · exact h.accept_master hm hleft
  · exact h.resend_master

lemma phase_of_stepLeft_slave (hs : ¬ 0 < compareRouterID s.cfg.routerID m.cfg.routerID)
    (h : Phase m s net.right.neighbor net.right.inbox net.left.neighbor net.left.inbox)
    (hstep : stepLeft s net op = some net') :
    Phase m s net'.right.neighbor net'.right.inbox net'.left.neighbor net'.left.inbox := by
  rcases stepLeft_eq_some hstep with ⟨d, rest, left, hinbox, hleft, rfl⟩ | rfl
  · rw [hinbox] at h
    unfold handleDBDesc
    split_ifs
    · simpa only [append_nil] using h.left_slave hleft
    · exact h.accept_slave hs hleft
  · exact h.resend_slave

end

/-- The ends are in a phase, with the one of the larger Router ID as the master. Source: dd.go. -/
def InPhase (l r : Router) (net : Net) : Prop :=
  (0 < compareRouterID l.cfg.routerID r.cfg.routerID ∧
    Phase l r net.left.neighbor net.left.inbox net.right.neighbor net.right.inbox) ∨
  (0 < compareRouterID r.cfg.routerID l.cfg.routerID ∧
    Phase r l net.right.neighbor net.right.inbox net.left.neighbor net.left.inbox)

lemma inPhase_initial {l r : Router} (hne : l.cfg.routerID ≠ r.cfg.routerID) (o o' : BitVec 32) :
    InPhase l r (initial l r o o') := by
  have hstart : ∀ m s : Router, ∀ o o', Phase m s (fresh m s.cfg.routerID o) [initialDD s]
      (fresh s m.cfg.routerID o') [initialDD m] := fun m s o o' =>
    .start (followed_of_all fun d hd => mem_singleton.1 hd)
      (followed_of_all fun d hd => mem_singleton.1 hd)
  rw [InPhase, initial, entered_eq, entered_eq]
  rcases compareRouterID_trichotomy hne with ⟨hl, -⟩ | ⟨hr, -⟩
  · exact .inl ⟨hl, hstart l r o o'⟩
  · exact .inr ⟨hr, hstart r l o' o⟩

/-- Every step leads from a phase to a phase. -/
lemma inPhase_of_step {l r : Router} (hne : l.cfg.routerID ≠ r.cfg.routerID) {net net' : Net}
    {act : Act}
    (h : InPhase l r net) (hstep : step l r net act = some net') : InPhase l r net' := by
  have hexcl : ∀ {a b : RouterID}, a ≠ b → 0 < compareRouterID a b → ¬ 0 < compareRouterID b a := by
    intro a b hab ha
    rcases compareRouterID_trichotomy hab with ⟨-, hb⟩ | ⟨-, hb⟩
    · exact hb
    · exact absurd ha hb
  rcases act with op | op
  · rcases h with ⟨hl, h⟩ | ⟨hr, h⟩
    · exact .inl ⟨hl, phase_of_stepLeft_master hl h hstep⟩
    · exact .inr ⟨hr, phase_of_stepLeft_slave (hexcl hne.symm hr) h hstep⟩
  · obtain ⟨swapped, hswapped, rfl⟩ := Option.map_eq_some_iff.1 hstep
    rcases h with ⟨hl, h⟩ | ⟨hr, h⟩
    · have hslave := @phase_of_stepLeft_slave l r net.swap swapped op (hexcl hne hl) h hswapped
      exact .inl ⟨hl, hslave⟩
    · have hmaster := @phase_of_stepLeft_master r l net.swap swapped op hr h hswapped
      exact .inr ⟨hr, hmaster⟩

/-! ## Agreement -/

/-- A header of what the peer describes is to be requested: its LSA is absent from the database or
newer than there, and no header before it asks for the LSA. Source: lsreq.go
shouldRequestLocked, addRequest. -/
def Wanted (r peer : Router) (h : LSAHeader) : Prop :=
  ∃ pre post, offered peer r = pre ++ h :: post ∧ r.lsdb.shouldRequest h = true ∧
    ∀ g ∈ pre, r.lsdb.shouldRequest g = true → g.key ≠ h.key

/-- A router has processed all that its peer describes to it, and requests exactly what it wants of
it.
Source: dd.go, lsreq.go. -/
def Agrees (r peer : Router) (n : Neighbor) : Prop :=
  n.processed = offered peer r ∧ ∀ h, h ∈ n.requestList ↔ Wanted r peer h

lemma first_cons_iff {p : LSAHeader → Bool} {x y : LSAHeader} {hs : List LSAHeader} :
    (∃ pre post, y :: hs = pre ++ x :: post ∧ p x ∧ ∀ g ∈ pre, p g → g.key ≠ x.key) ↔
      (x = y ∧ p x) ∨ ((p y → y.key ≠ x.key) ∧
        ∃ pre post, hs = pre ++ x :: post ∧ p x ∧ ∀ g ∈ pre, p g →
          g.key ≠ x.key) := by
  constructor
  · rintro ⟨pre, post, heq, hx, hpre⟩
    rcases pre with _ | ⟨g, pre⟩
    · obtain ⟨rfl, -⟩ := cons.inj heq
      exact .inl ⟨rfl, hx⟩
    · obtain ⟨rfl, rfl⟩ := cons.inj heq
      exact .inr ⟨hpre y mem_cons_self, pre, post, rfl, hx,
        fun g hg => hpre g (mem_cons_of_mem _ hg)⟩
  · rintro (⟨rfl, hx⟩ | ⟨hy, pre, post, rfl, hx, hpre⟩)
    · exact ⟨[], hs, rfl, hx, fun g hg => absurd hg not_mem_nil⟩
    · refine ⟨y :: pre, post, rfl, hx, fun g hg => ?_⟩
      rcases mem_cons.1 hg with rfl | hg
      · exact hy
      · exact hpre g hg

lemma mem_collect {db : Lsdb} {acc acc' hs : List LSAHeader} (h : collect db acc hs = some acc')
    (x : LSAHeader) : x ∈ acc' ↔ x ∈ acc ∨ ((∀ g ∈ acc, g.key ≠ x.key) ∧
      ∃ pre post, hs = pre ++ x :: post ∧ db.shouldRequest x ∧
        ∀ g ∈ pre, db.shouldRequest g → g.key ≠ x.key) := by
  induction hs generalizing acc with
  | nil =>
    cases h
    simp
  | cons y hs ih =>
    rw [first_cons_iff (p := db.shouldRequest)]
    rw [collect] at h
    by_cases hy : db.shouldRequest y
    · rw [if_pos hy, addRequest] at h
      by_cases hany : acc.any (fun existing => existing.key == y.key)
      · rw [if_pos hany, Option.bind_some] at h
        obtain ⟨e, he, hkey⟩ := any_eq_true.1 hany
        rw [beq_iff_eq] at hkey
        rw [ih h]
        refine or_congr_right (and_congr_right fun hacc => ?_)
        have hyx : y.key ≠ x.key := hkey ▸ hacc e he
        constructor
        · exact fun hrest => .inr ⟨fun _ => hyx, hrest⟩
        · rintro (⟨rfl, -⟩ | ⟨-, hrest⟩)
          · exact absurd rfl hyx
          · exact hrest
      · have hnone : ∀ g ∈ acc, g.key ≠ y.key := by
          intro g hg hkey
          exact hany (any_eq_true.2 ⟨g, hg, beq_iff_eq.2 hkey⟩)
        rw [if_neg hany] at h
        by_cases hfull : maxRequestList ≤ acc.length
        · rw [if_pos hfull] at h
          cases h
        · rw [if_neg hfull, Option.bind_some] at h
          rw [ih h]
          simp only [mem_append, mem_singleton]
          constructor
          · rintro ((hx | rfl) | ⟨hacc, hrest⟩)
            · exact .inl hx
            · exact .inr ⟨hnone, .inl ⟨rfl, hy⟩⟩
            · exact .inr ⟨fun g hg => hacc g (.inl hg), .inr ⟨fun _ => hacc y (.inr rfl), hrest⟩⟩
          · rintro (hx | ⟨hacc, ⟨rfl, -⟩ | ⟨hyx, hrest⟩⟩)
            · exact .inl (.inl hx)
            · exact .inl (.inr rfl)
            · refine .inr ⟨fun g hg => ?_, hrest⟩
              rcases hg with hg | rfl
              · exact hacc g hg
              · exact hyx hy
    · rw [if_neg hy] at h
      rw [ih h]
      refine or_congr_right (and_congr_right fun hacc => ?_)
      constructor
      · exact fun hrest => .inr ⟨fun hy' => absurd hy' hy, hrest⟩
      · rintro (⟨rfl, hx⟩ | ⟨-, hrest⟩)
        · exact absurd hx hy
        · exact hrest

lemma agrees_of_collect {r peer : Router} {n : Neighbor} (hprocessed : n.processed = offered peer r)
    (h : collect r.lsdb [] (offered peer r) = some n.requestList) : Agrees r peer n := by
  refine ⟨hprocessed, fun x => ?_⟩
  rw [mem_collect h, Wanted]
  simp

lemma Phase.agrees {m s : Router} {A B : Neighbor} {toM toS : List DBDesc}
    (h : Phase m s A toM B toS) (hA : State.exchange.rank < A.state.rank)
    (hB : State.exchange.rank < B.state.rank) : Agrees m s A ∧ Agrees s m B := by
  have hfresh : ∀ r peer o, ¬ State.exchange.rank < (fresh r peer o).state.rank := by
    intro r peer o hlt
    exact absurd (show State.exchange.rank < State.exStart.rank from hlt) (by decide)
  have hmaster : ∀ k reqM, ¬ State.exchange.rank < (masterAt m s k reqM).state.rank :=
    fun k reqM => Nat.lt_irrefl _
  cases h with
  | start hM hS | negotiated hM hS => exact absurd hA (hfresh _ _ _)
  | asked hk hgoes hreqM hreqS hM hS => exact absurd hA (hmaster _ _)
  | answered hk hreqM hreqS hM hS => exact absurd hA (hmaster _ _)
  | done hends hreqM hreqS hM hS =>
    obtain ⟨hmoreM, hmoreS⟩ := Bool.or_eq_false_iff.1 hends
    rw [offeredIn_of_not_more hmoreS] at hreqM
    rw [offeredIn_of_not_more hmoreM] at hreqS
    exact ⟨agrees_of_collect (offeredIn_of_not_more hmoreS) hreqM,
      agrees_of_collect (offeredIn_of_not_more hmoreM) hreqS⟩
  | masterBack hk hM hS => exact absurd hA (hfresh _ _ _)
  | slaveBack hM hS => exact absurd hA (hmaster _ _)

/-- When both ends have left Exchange, each has processed what the other describes to it, and its
request list holds exactly the headers of it whose LSAs are absent from its database or newer than
there, the first of each LSA. -/
theorem exchange_agrees (l r : Router) (hne : l.cfg.routerID ≠ r.cfg.routerID) (o o' : BitVec 32)
    (acts : List Act) (net : Net) (hrun : run (step l r) (initial l r o o') acts = some net)
    (hl : State.exchange.rank < net.left.neighbor.state.rank)
    (hr : State.exchange.rank < net.right.neighbor.state.rank) :
    Agrees l r net.left.neighbor ∧ Agrees r l net.right.neighbor := by
  have hphase : InPhase l r net := by
    refine run_inv (I := InPhase l r) ?_ acts _ net (inPhase_initial hne o o') hrun
    intro net act net' h hstep
    exact inPhase_of_step hne h hstep
  rcases hphase with ⟨-, h⟩ | ⟨-, h⟩
  · exact h.agrees hl hr
  · exact (h.agrees hr hl).symm

/-! ## Two routers on a link -/

/-- A header of an LSA of router 1. Source: types: LSAHeader. -/
def headerOf (type sequence : ℕ) : LSAHeader :=
  { type := BitVec.ofNat 16 type, linkStateID := 1#32, advertisingRouter := ⟨0#8, 0#8, 0#8, 1#8⟩,
    sequence := BitVec.ofNat 32 sequence }

/-- Router 1, with the option O, which describes an opaque LSA and two instances of its router LSA.
Source: table.go databaseSummaryLocked. -/
def describing : Router where
  cfg := { routerID := ⟨0#8, 0#8, 0#8, 1#8⟩, options := 0x40#32 }
  lsdb := ⟨[headerOf 10 1, headerOf 1 1, headerOf 1 2], fun _ => none, by decide⟩

/-- Router 2, with an empty database. Source: table.go databaseSummaryLocked. -/
def described : Router where
  cfg := { routerID := ⟨0#8, 0#8, 0#8, 2#8⟩ }
  lsdb := ⟨[], fun _ => none, by decide⟩

/-- The packets of an exchange, each delivered twice. Source: dd.go. -/
def delivered : List Act :=
  [.left (.deliver true), .left (.deliver false), .right (.deliver false), .right (.deliver false),
    .right (.deliver false), .left (.deliver true), .left (.deliver false), .right (.deliver true),
    .right (.deliver false)]

/-- An exchange whose packets are delivered twice. -/
theorem exchange_agrees_delivered : ∃ net,
    run (step describing described) (initial describing described 0#32 0#32) delivered = some net ∧
      Agrees describing described net.left.neighbor ∧
        Agrees described describing net.right.neighbor := by
  have hrun : (run (step describing described)
      (initial describing described 0#32 0#32) delivered).any
      (fun net => decide (State.exchange.rank < net.left.neighbor.state.rank) &&
        decide (State.exchange.rank < net.right.neighbor.state.rank)) := by
    decide +kernel
  obtain ⟨net, hnet, hstates⟩ := (Option.any_eq_true _ _).1 hrun
  obtain ⟨hl, hr⟩ := Bool.and_eq_true_iff.1 hstates
  exact ⟨net, hnet, exchange_agrees describing described (by decide) 0#32 0#32 delivered net hnet
    (of_decide_eq_true hl) (of_decide_eq_true hr)⟩

/-- Both ends have left Exchange, and the end without the option O has neither processed nor
requested the opaque LSA of the other, nor requested the second instance of the router LSA. -/
theorem exchange_leaves_out : ∃ net,
    run (step describing described) (initial describing described 0#32 0#32) delivered = some net ∧
      State.exchange.rank < net.left.neighbor.state.rank ∧
      State.exchange.rank < net.right.neighbor.state.rank ∧
      (∃ h ∈ describing.lsdb.summary, h ∉ net.right.neighbor.processed) ∧
      ¬ ∀ h, h ∈ net.right.neighbor.requestList ↔
        h ∈ describing.lsdb.summary ∧ described.lsdb.shouldRequest h := by
  have hrun : (run (step describing described)
      (initial describing described 0#32 0#32) delivered).any
      (fun net => decide (State.exchange.rank < net.left.neighbor.state.rank) &&
        decide (State.exchange.rank < net.right.neighbor.state.rank) &&
        decide (headerOf 10 1 ∉ net.right.neighbor.processed) &&
        decide (headerOf 1 2 ∉ net.right.neighbor.requestList)) := by
    decide +kernel
  obtain ⟨net, hnet, hparts⟩ := (Option.any_eq_true _ _).1 hrun
  simp only [Bool.and_eq_true, decide_eq_true_eq] at hparts
  obtain ⟨⟨⟨hl, hr⟩, hprocessed⟩, hrequested⟩ := hparts
  refine ⟨net, hnet, hl, hr, ⟨headerOf 10 1, by decide, hprocessed⟩, fun hall => ?_⟩
  exact hrequested ((hall (headerOf 1 2)).2 ⟨by decide, rfl⟩)

end Ze.OspfNeighbor
