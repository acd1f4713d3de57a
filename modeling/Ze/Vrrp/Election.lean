import Mathlib.Data.Fin.VecNotation
import Mathlib.Data.Fintype.Order
import Ze.Vrrp.Fsm

/-!
# Which master remains

Several routers of one virtual router find themselves Master at the same time, for instance after a
link that was split has healed. Each hears the advertisements of the others, in some order, while
some of them have already stepped down.
-/

namespace Ze.Vrrp

open Ze.Net
open Function (update update_of_ne update_self)

/-! ## The order of the routers -/

namespace Instance

/-- The primary address as the tie-break reads it. Source: vrrp/fsm/fsm.go senderWinsTieBreak. -/
def primary (i : Instance) : Addr :=
  i.cfg.localPrimaryIP.unmap

/-- What the routers contend with: priority and primary address. -/
def rank (i : Instance) : BitVec 8 × Addr :=
  (i.cfg.priority, i.primary)

/-- `a` has the lexicographically greater pair of priority and primary address. -/
def Outranks (a b : Instance) : Prop :=
  b.cfg.priority < a.cfg.priority ∨
    (a.cfg.priority = b.cfg.priority ∧ a.primary.cmp b.primary = .gt)

instance (a b : Instance) : Decidable (Outranks a b) :=
  inferInstanceAs (Decidable (_ ∨ _ ∧ _))

variable {a b c : Instance}

lemma Outranks.irrefl (a : Instance) : ¬ Outranks a a := by
  rintro (h | ⟨-, h⟩)
  · exact absurd h (BitVec.lt_irrefl _)
  · rw [Addr.cmp_eq_iff.2 rfl] at h
    cases h

lemma Outranks.trans (hab : Outranks a b) (hbc : Outranks b c) : Outranks a c := by
  rcases hab with hab | ⟨hab, hab'⟩ <;> rcases hbc with hbc | ⟨hbc, hbc'⟩
  · exact .inl (BitVec.lt_trans hbc hab)
  · exact .inl (hbc ▸ hab)
  · exact .inl (hab ▸ hbc)
  · exact .inr ⟨hab.trans hbc, Std.TransCmp.gt_trans hab' hbc'⟩

lemma Outranks.total (h : a.rank ≠ b.rank) : Outranks a b ∨ Outranks b a := by
  rcases Nat.lt_trichotomy a.cfg.priority.toNat b.cfg.priority.toNat with hlt | heq | hgt
  · exact .inr (.inl hlt)
  · have hp : a.cfg.priority = b.cfg.priority := BitVec.eq_of_toNat_eq heq
    have hne : a.primary ≠ b.primary := fun hip => h (Prod.ext hp hip)
    cases hcmp : a.primary.cmp b.primary with
    | lt => exact .inr (.inr ⟨hp.symm, Std.OrientedCmp.gt_of_lt hcmp⟩)
    | eq => exact absurd (Addr.cmp_eq_iff.1 hcmp) hne
    | gt => exact .inl (.inr ⟨hp, hcmp⟩)
  · exact .inl (.inl hgt)

end Instance

/-! ## One advertisement -/

/-- The advertisement a master sends: its priority and interval, from its primary address.
Source: vrrp/fsm/actions.go SendAdvert; vrrp/instance.go AdvertReceived -/
def Instance.advert (i : Instance) : AdvertReceived where
  priority := i.cfg.priority
  srcIP := i.cfg.localPrimaryIP
  intervalMs := i.cfg.advertIntervalMs
  vipCount := i.cfg.vips.length

section

variable {i s : Instance} {now : ℕ}

lemma cfg_handle_advert (i : Instance) (now : ℕ) (e : AdvertReceived) :
    (i.handle now (.advertReceived e)).1.cfg = i.cfg := by
  have hadopt : ∀ (j : Instance) (ms : ℤ), (j.adoptInterval ms).cfg = j.cfg := by
    intro j ms
    unfold Instance.adoptInterval
    split_ifs <;> rfl
  have hstop : ∀ (j : Instance) (out : List Action), (j.stopDelayIfArmed out).1.cfg = j.cfg := by
    intro j out
    unfold Instance.stopDelayIfArmed
    split_ifs <;> rfl
  unfold Instance.handle
  cases hst : i.state with
  | init => rfl
  | backup =>
    simp only [Instance.handleBackup, Instance.backupAdvert, Instance.armMasterDown,
      Instance.armPreemptDelay]
    split_ifs <;> simp only [hadopt, hstop] <;> rfl
  | master =>
    simp only [Instance.handleMaster, Instance.masterAdvert, Instance.armAdvert,
      Instance.demoteToBackup, Instance.armMasterDown, Instance.setState]
    split_ifs <;> simp only [hadopt] <;> rfl

lemma state_handle_advert_backup (h : i.state = .backup) (e : AdvertReceived) :
    (i.handle now (.advertReceived e)).1.state = .backup := by
  have hadopt : ∀ (j : Instance) (ms : ℤ), (j.adoptInterval ms).state = j.state := by
    intro j ms
    unfold Instance.adoptInterval
    split_ifs <;> rfl
  have hstop : ∀ (j : Instance) (out : List Action),
      (j.stopDelayIfArmed out).1.state = j.state := by
    intro j out
    unfold Instance.stopDelayIfArmed
    split_ifs <;> rfl
  unfold Instance.handle
  rw [h]
  simp only [Instance.handleBackup, Instance.backupAdvert, Instance.armMasterDown,
    Instance.armPreemptDelay]
  split_ifs <;> simp only [hadopt, hstop] <;> exact h

lemma senderWinsTieBreak_iff (hi : i.cfg.localPrimaryIP.isValid) :
    i.senderWinsTieBreak s.cfg.localPrimaryIP ↔ s.primary.cmp i.primary = .gt := by
  unfold Instance.senderWinsTieBreak Instance.primary
  rw [hi]
  simp

lemma state_handle_advert_master (h : i.state = .master) (hi : i.cfg.localPrimaryIP.isValid)
    (hs : 0#8 < s.cfg.priority) :
    (i.handle now (.advertReceived s.advert)).1.state
      = if s.Outranks i then .backup else .master := by
  unfold Instance.handle
  rw [h]
  have hzero : ¬ s.advert.priority = 0#8 := by
    intro hz
    have : s.cfg.priority = 0#8 := hz
    rw [this] at hs
    exact absurd hs (BitVec.lt_irrefl _)
  have hwin : (i.cfg.priority < s.advert.priority ∨
      (s.advert.priority = i.cfg.priority ∧
        (i.recordAdvert now s.advert).senderWinsTieBreak s.advert.srcIP)) ↔ s.Outranks i := by
    have := senderWinsTieBreak_iff (s := s) hi
    unfold Instance.Outranks
    rw [← this]
    rfl
  simp only [Instance.handleMaster, Instance.masterAdvert]
  rw [if_neg hzero]
  have hcfg : (i.recordAdvert now s.advert).cfg = i.cfg := rfl
  rw [hcfg]
  by_cases hout : s.Outranks i
  · rw [if_pos (hwin.2 hout), if_pos hout]
    rfl
  · rw [if_neg fun hc => hout (hwin.1 hc), if_neg hout]
    split_ifs <;> exact h

end

/-! ## A sequence of deliveries -/

section

variable {ι : Type} [DecidableEq ι]

/-- One advertisement of `sender` reaches `receiver`, whose clock reads `now`.
Source: instance.go handlePacket -/
structure Delivery (ι : Type) where
  sender : ι
  receiver : ι
  now : ℕ
  deriving DecidableEq

/-- The routers of the link after one delivery. A router sends what its configuration says, and
hearing advertisements does not change that. Source: fsm.go Handle. -/
def deliver (routers : ι → Instance) (d : Delivery ι) : ι → Instance :=
  update routers d.receiver
    ((routers d.receiver).handle d.now (.advertReceived (routers d.sender).advert)).1

/-- The routers of the link after a sequence of deliveries. Source: fsm.go Handle. -/
def deliverAll (routers : ι → Instance) (ds : List (Delivery ι)) : ι → Instance :=
  ds.foldl deliver routers

variable {routers : ι → Instance}

lemma cfg_deliver (routers : ι → Instance) (d : Delivery ι) (r : ι) :
    (deliver routers d r).cfg = (routers r).cfg := by
  unfold deliver
  by_cases h : r = d.receiver
  · subst h
    rw [update_self, cfg_handle_advert]
  · rw [update_of_ne h]

lemma outranks_deliver (routers : ι → Instance) (d : Delivery ι) (r s : ι) :
    (deliver routers d s).Outranks (deliver routers d r) ↔ (routers s).Outranks (routers r) := by
  unfold Instance.Outranks Instance.primary
  rw [cfg_deliver, cfg_deliver]

lemma state_deliverAll_backup {r : ι} (ds : List (Delivery ι)) (h : (routers r).state = .backup) :
    (deliverAll routers ds r).state = .backup := by
  induction ds generalizing routers with
  | nil => exact h
  | cons d ds ih =>
    show (deliverAll (deliver routers d) ds r).state = _
    apply ih
    unfold deliver
    by_cases hr : r = d.receiver
    · subst hr
      rw [update_self]
      exact state_handle_advert_backup h _
    · rw [update_of_ne hr]
      exact h

lemma state_deliverAll {r : ι} {ds : List (Delivery ι)} (h : (routers r).state = .master)
    (hvalid : (routers r).cfg.localPrimaryIP.isValid)
    (hprio : ∀ s, 0#8 < (routers s).cfg.priority) :
    (deliverAll routers ds r).state
      = if ∃ d ∈ ds, d.receiver = r ∧ (routers d.sender).Outranks (routers r) then .backup
        else .master := by
  induction ds generalizing routers with
  | nil =>
    rw [if_neg (by rintro ⟨d, hd, -⟩; cases hd)]
    exact h
  | cons d ds ih =>
    have hiff : (∃ e ∈ d :: ds, e.receiver = r ∧ (routers e.sender).Outranks (routers r)) ↔
        (d.receiver = r ∧ (routers d.sender).Outranks (routers r)) ∨
          ∃ e ∈ ds, e.receiver = r ∧ (routers e.sender).Outranks (routers r) := by
      simp only [List.mem_cons, exists_eq_or_imp]
    show (deliverAll (deliver routers d) ds r).state = _
    by_cases hd : d.receiver = r
    · have hstate : (deliver routers d r).state
          = if (routers d.sender).Outranks (routers r) then .backup else .master := by
        unfold deliver
        rw [hd, update_self]
        exact state_handle_advert_master h hvalid (hprio _)
      by_cases hout : (routers d.sender).Outranks (routers r)
      · rw [if_pos hout] at hstate
        rw [if_pos (hiff.2 (.inl ⟨hd, hout⟩))]
        exact state_deliverAll_backup ds hstate
      · rw [if_neg hout] at hstate
        rw [ih hstate (by rw [cfg_deliver]; exact hvalid) (fun s =>
          by rw [cfg_deliver]; exact hprio s)]
        simp only [outranks_deliver]
        refine if_congr ?_ rfl rfl
        rw [hiff]
        exact ⟨.inr, fun hc => hc.resolve_left fun hc => hout hc.2⟩
    · have hstate : (deliver routers d r).state = .master := by
        unfold deliver
        rw [update_of_ne (Ne.symm hd)]
        exact h
      rw [ih hstate (by rw [cfg_deliver]; exact hvalid) (fun s =>
        by rw [cfg_deliver]; exact hprio s)]
      simp only [outranks_deliver]
      refine if_congr ?_ rfl rfl
      rw [hiff]
      exact ⟨.inr, fun hc => hc.resolve_left fun hc => hd hc.1⟩

end

/-! ## Everybody has heard everybody -/

section

variable {ι : Type} [Finite ι] [Nonempty ι]

lemma exists_outranks {routers : ι → Instance}
    (hdistinct : ∀ r s, r ≠ s → (routers r).rank ≠ (routers s).rank) :
    ∃ w, ∀ r, r ≠ w → (routers w).Outranks (routers r) := by
  have htrans : IsTrans ι fun a b => (routers a).Outranks (routers b) :=
    ⟨fun _ _ _ => Instance.Outranks.trans⟩
  have hirrefl : Std.Irrefl fun a b => (routers a).Outranks (routers b) :=
    ⟨fun a => Instance.Outranks.irrefl (routers a)⟩
  have hwf := Finite.wellFounded_of_trans_of_irrefl fun a b => (routers a).Outranks (routers b)
  obtain ⟨w, -, hw⟩ := hwf.has_min Set.univ Set.univ_nonempty
  refine ⟨w, fun r hr => ?_⟩
  exact (Instance.Outranks.total (hdistinct r w hr)).resolve_left (hw r (Set.mem_univ r))

/-- **One master remains.** Routers that are all Master, with pairwise distinct pairs of priority
and valid primary address and no priority zero, hear each other's advertisements in any order and
any number of times, at least once each. Then the router whose pair is the greatest is Master, and
every other is Backup. -/
theorem one_master [DecidableEq ι] {routers : ι → Instance} {ds : List (Delivery ι)}
    (hmaster : ∀ r, (routers r).state = .master) (hprio : ∀ r, 0#8 < (routers r).cfg.priority)
    (hvalid : ∀ r, (routers r).cfg.localPrimaryIP.isValid)
    (hdistinct : ∀ r s, r ≠ s → (routers r).rank ≠ (routers s).rank)
    (hheard : ∀ r s, r ≠ s → ∃ d ∈ ds, d.receiver = r ∧ d.sender = s) :
    ∃ w, (∀ r, r ≠ w → (routers w).Outranks (routers r)) ∧
      (deliverAll routers ds w).state = .master ∧
      ∀ r, r ≠ w → (deliverAll routers ds r).state = .backup := by
  obtain ⟨w, hw⟩ := exists_outranks hdistinct
  refine ⟨w, hw, ?_, ?_⟩
  · rw [state_deliverAll (hmaster w) (hvalid w) hprio]
    refine if_neg ?_
    rintro ⟨d, -, -, hout⟩
    by_cases hd : d.sender = w
    · rw [hd] at hout
      exact Instance.Outranks.irrefl _ hout
    · exact Instance.Outranks.irrefl _ ((hw _ hd).trans hout)
  · intro r hr
    rw [state_deliverAll (hmaster r) (hvalid r) hprio]
    refine if_pos ?_
    obtain ⟨d, hd, hrec, hsend⟩ := hheard r w hr
    exact ⟨d, hd, hrec, hsend ▸ hw r hr⟩

/-- A router that started up and promoted itself when its down timer fired. -/
def promoted (priority : BitVec 8) (address : BitVec 32) : Instance :=
  let cfg : Config := ⟨3#8, false, priority, true, 0, 1000, .v4 address, [.v4 0x0a0000fe#32], false⟩
  (((new 0 cfg).handle 0 (.startup cfg)).1.handle 4 (.masterDownExpired 1#64)).1

/-- Three masters: two of one priority, and one of a lower priority with the greatest address. -/
def threeMasters : Fin 3 → Instance :=
  ![promoted 200#8 0x0a000001#32, promoted 200#8 0x0a000002#32, promoted 100#8 0x0a000003#32]

/-- Every router hears both others; the first has stepped down before the last is heard. -/
def threeDeliveries : List (Delivery (Fin 3)) :=
  [⟨1, 0, 5⟩, ⟨2, 1, 5⟩, ⟨2, 0, 6⟩, ⟨0, 1, 6⟩, ⟨0, 2, 7⟩, ⟨1, 2, 7⟩]

theorem one_master_three :
    ∃ w, (∀ r, r ≠ w → (threeMasters w).Outranks (threeMasters r)) ∧
      (deliverAll threeMasters threeDeliveries w).state = .master ∧
      ∀ r, r ≠ w → (deliverAll threeMasters threeDeliveries r).state = .backup :=
  one_master (by decide +kernel) (by decide +kernel) (by decide +kernel) (by decide +kernel)
    (by decide +kernel)

end

end Ze.Vrrp
