import Ze.SysRib.UnderWay

/-!
# The drained feed

What the worker's store holds once nothing is on its way to it: `stored_of_drained`. Every step
keeps for each prefix that its view is stored or on its way (`Settles.steps`), and that no record of
the overflow waits without a wake (`Awake.steps`).
-/

namespace Ze.SysRib

open List

open Ze.Lib (RangeOrder)
open Ze.LocRib (View Change)

namespace World

variable {st : Setup}

/-! ## Where the view of a prefix is -/

def lastFor (k : PrefixKey) (ch : List Change) : Option Change :=
  (ch.filter fun c => c.key = k).getLast?

def handFor (w : World) (k : PrefixKey) : Option Change := w.hand.filter fun c => c.key = k

variable (st) (same : View → View → Prop)

/-- The current view of a prefix is in the system RIB, or something on its way will bring it there:
a record of the overflow, the last change in the channel, a read that is due, or the change in hand.
What is behind it in the channel cannot be older: the overflow is taken from an empty channel only.
-/
def Settles (w : World) (k : PrefixKey) : Prop :=
  (w.offering.lookup k = some .full ∨ k ∈ w.overflow) ∨
    (∃ c, lastFor k w.ch = some c ∧ Option.Rel same (value c) (w.loc.current k)) ∨
    lastFor k w.ch = none ∧
      (k ∈ w.toRead ∨
        (∃ c, w.handFor k = some c ∧ Option.Rel same (value c) (w.loc.current k)) ∨
        w.handFor k = none ∧ ∃ u, Option.Rel same u (w.loc.current k) ∧
          w.rib.routes.lookup k = u.map (stored st))

variable {st} {same} {w w' : World} {k key : PrefixKey} {c : Change} {ch : List Change}

@[simp] lemma lastFor_nil : lastFor k [] = none := rfl

lemma lastFor_append (k : PrefixKey) (ch : List Change) (c : Change) :
    lastFor k (ch ++ [c]) = if c.key = k then some c else lastFor k ch := by
  unfold lastFor
  split_ifs with h <;> simp [filter_append, h]

lemma lastFor_cons (k : PrefixKey) (c : Change) (ch : List Change) :
    lastFor k (c :: ch) = (lastFor k ch).or (if c.key = k then some c else none) := by
  unfold lastFor
  split_ifs with h
  · rw [filter_cons_of_pos (by simpa using h), getLast?_cons]
    cases (ch.filter fun c => c.key = k).getLast? <;> rfl
  · rw [filter_cons_of_neg (by simpa using h), Option.or_none]

lemma Settles.congr (h : Settles st same w k)
    (hfull : w.offering.lookup k = some .full → w'.offering.lookup k = some .full ∨ k ∈ w'.overflow)
    (hoverflow : k ∈ w.overflow → k ∈ w'.overflow) (hlast : lastFor k w'.ch = lastFor k w.ch)
    (hread : k ∈ w.toRead → k ∈ w'.toRead) (hhand : w'.handFor k = w.handFor k)
    (hcurrent : ∀ u, Option.Rel same u (w.loc.current k) → Option.Rel same u (w'.loc.current k))
    (hroutes : w'.rib.routes.lookup k = w.rib.routes.lookup k) : Settles st same w' k := by
  unfold Settles at h ⊢
  rw [hlast, hhand, hroutes]
  rcases h with h | ⟨c, hc, hrel⟩ | ⟨hnone, h | ⟨c, hc, hrel⟩ | ⟨hnot, u, hrel, hu⟩⟩
  · exact .inl (h.elim hfull fun h => .inr (hoverflow h))
  · exact .inr (.inl ⟨c, hc, hcurrent _ hrel⟩)
  · exact .inr (.inr ⟨hnone, .inl (hread h)⟩)
  · exact .inr (.inr ⟨hnone, .inr (.inl ⟨c, hc, hcurrent _ hrel⟩)⟩)
  · exact .inr (.inr ⟨hnone, .inr (.inr ⟨hnot, u, hcurrent _ hrel, hu⟩)⟩)

lemma Settles.further (h : Settles st same w k) (hoffer : w'.offering = w.offering)
    (hoverflow : w'.overflow = w.overflow) (hch : w'.ch = w.ch) (hloc : w'.loc = w.loc)
    (hnext : (k ∈ w.toRead ∨
        (∃ c, w.handFor k = some c ∧ Option.Rel same (value c) (w.loc.current k)) ∨
        w.handFor k = none ∧ ∃ u, Option.Rel same u (w.loc.current k) ∧
          w.rib.routes.lookup k = u.map (stored st)) →
      k ∈ w'.toRead ∨
        (∃ c, w'.handFor k = some c ∧ Option.Rel same (value c) (w.loc.current k)) ∨
        w'.handFor k = none ∧ ∃ u, Option.Rel same u (w.loc.current k) ∧
          w'.rib.routes.lookup k = u.map (stored st)) : Settles st same w' k := by
  unfold Settles at h ⊢
  rw [hoffer, hoverflow, hch, hloc]
  exact h.imp_right (Or.imp_right fun h => ⟨h.1, hnext h.2⟩)

/-! ### The Loc-RIB and the offers -/

variable {new : Option View} {lpm : Lpm} {choice : Choice}

lemma current_change_of_ne (h : k ≠ key) (u : Option View)
    (hrel : Option.Rel same u (w.loc.current k)) :
    Option.Rel same u ((w.change key new lpm).loc.current k) := by
  have hk : (w.change key new lpm).loc.current k = w.loc.current k := Function.update_of_ne h _ _
  rw [hk]
  exact hrel

lemma rel_refl (hrefl : ∀ v, same v v) (u : Option View) : Option.Rel same u u := by
  cases u with
  | none => exact .none
  | some v => exact .some (hrefl v)

lemma rel_change (hrefl : ∀ v, same v v) (w : World) (key : PrefixKey) (new : Option View)
    (lpm : Lpm) : Option.Rel same new ((w.change key new lpm).loc.current key) := by
  have hk : (w.change key new lpm).loc.current key = new := Function.update_self _ _ _
  rw [hk]
  exact rel_refl hrefl new

lemma Settles.onward (h : Settles st same w k) (hoffer : w'.offering = w.offering)
    (hoverflow : w'.overflow = w.overflow) (hch : w'.ch = w.ch) (hloc : w'.loc = w.loc)
    (hhand : w.hand = none) (hhand' : w'.hand = none) (hread : w'.toRead = w.toRead)
    (hroutes : w'.rib.routes = w.rib.routes) : Settles st same w' k := by
  refine h.further hoffer hoverflow hch hloc fun hdue => ?_
  have hno : ∀ t : World, t.hand = none → t.handFor k = none := by
    intro t ht
    rw [handFor, ht]
    rfl
  rw [hread, hno w' hhand', hroutes]
  rw [hno w hhand] at hdue
  exact hdue

lemma Settles.walk {ks : List PrefixKey} {rib : SysRIB} (hrefl : ∀ v, same v v)
    (h : Settles st same w k) (hworker : w.worker = .seed (key :: ks))
    (hroutes : ∀ k, rib.routes.lookup k =
      if k = key then (w.loc.current key).map (stored st) else w.rib.routes.lookup k) :
    Settles st same { w with worker := .seed ks, rib := rib } k := by
  refine h.further rfl rfl rfl rfl fun hdue => ?_
  rw [hroutes]
  by_cases hk : k = key
  · subst hk
    exact .inr (.inr ⟨by simp [handFor, hand], w.loc.current k, rel_refl hrefl _, if_pos rfl⟩)
  · rw [if_neg hk]
    simpa [toRead, hworker, hk, handFor, hand] using hdue

lemma Settles.event {rest : Rest} {rib : SysRIB} (h : Settles st same w k)
    (hworker : w.worker = .event c rest) (hroutes : rib.routes.lookup k =
      if k = c.key then (value c).map (stored st) else w.rib.routes.lookup k) :
    Settles st same { w with worker := .cover c.key.2 rest, rib := rib } k := by
  refine h.further rfl rfl rfl rfl fun hdue => ?_
  rw [hroutes]
  by_cases hk : c.key = k
  · rcases hdue with hread | ⟨c', hc', hrel⟩ | ⟨hnot, -⟩
    · exact .inl (by simpa [toRead, hworker] using hread)
    · obtain ⟨rfl, -⟩ : c = c' ∧ c'.key = k := by simpa [handFor, hand, hworker, hk] using hc'
      exact .inr (.inr ⟨by simp [handFor, hand], value c, hrel, if_pos hk.symm⟩)
    · simp [handFor, hand, hworker, hk] at hnot
  · rw [if_neg (Ne.symm hk)]
    simpa [toRead, hworker, handFor, hand, hk] using hdue

lemma Settles.take (h : Settles st same w k) (hworker : w.worker = .resume .take)
    (hch : w.ch = []) :
    Settles st same
      { w with worker := .resume (.keys (choice.ord.keys w.overflow)), overflow := ∅ } k := by
  have hlast : lastFor k w.ch = none := by rw [hch, lastFor_nil]
  rcases h with (hfull | hover) | ⟨c, hc, -⟩ | ⟨-, hdue⟩
  · exact .inl (.inl hfull)
  · exact .inr (.inr ⟨hlast, .inl ((choice.ord.mem_keys _ _).2 hover)⟩)
  · rw [hlast] at hc
    cases hc
  · refine .inr (.inr ⟨hlast, .inr ?_⟩)
    simpa [toRead, Rest.toRead, handFor, hand, hworker] using hdue

lemma Settles.works (hrefl : ∀ v, same v v) (hf : Formed (.base st) w) (h : Settles st same w k)
    (hworks : Works st choice w w') : Settles st same w' k := by
  cases hworks with
  | walked hworker | cover hworker | spent hworker | untaken hworker | done hworker =>
    exact h.onward rfl rfl rfl rfl (by simp [hand, hworker]) (by simp [hand])
      (by simp [toRead, hworker, Rest.toRead]) rfl
  | still hworker =>
    exact h.onward rfl rfl rfl rfl (by simp [hand, hworker]) (by simp [hand])
      (by simp [toRead, hworker]) (SysRIB.routes_cascadeRecompute w.rib (w.env choice) _)
  | spread hworker hrib =>
    subst hrib
    exact h.onward rfl rfl rfl rfl (by simp [hand, hworker]) (by simp [hand])
      (by simp [toRead, hworker]) (SysRIB.routes_cascadeRecompute w.rib (w.env choice) _)
  | @skip key _ hworker _ hcurrent =>
    refine h.walk hrefl hworker fun k => ?_
    rw [hcurrent]
    split_ifs with hk
    · exact hk ▸ (hf.seed _ hworker).2 key mem_cons_self
    · rfl
  | @store key _ v hworker _ hcurrent =>
    refine h.walk hrefl hworker ?_
    rw [hcurrent]
    exact routes_processed w choice (hf.current key v hcurrent)
  | event hworker =>
    exact h.event hworker (routes_processed w choice (hf.inHand _ (by simp [hand, hworker])) k)
  | take hworker _ hch => exact h.take hworker hch
  | @read key ks hworker =>
    refine h.further rfl rfl rfl rfl fun hdue => ?_
    by_cases hk : k = key
    · subst hk
      refine .inr (.inl ⟨reread k (w.loc.current k), by simp [handFor, hand], ?_⟩)
      rw [value_reread]
      exact rel_refl hrefl _
    · simpa [toRead, Rest.toRead, handFor, hand, hworker, hk, Ne.symm hk] using hdue

lemma Settles.receive (h : Settles st same w k) (hidle : w.worker = .idle) (hch : w.ch = c :: ch) :
    Settles st same { w with ch := ch, worker := .event c .take } k := by
  unfold Settles at h ⊢
  rw [hch, lastFor_cons] at h
  refine h.imp_right fun h => ?_
  by_cases heq : c.key = k
  · cases hlast : lastFor k ch with
    | some c' =>
      rw [hlast] at h
      exact .inl ⟨c', rfl, by simpa [heq] using h⟩
    | none =>
      rw [hlast, if_pos heq] at h
      exact .inr ⟨rfl, .inr (.inl ⟨c, by simp [handFor, hand, heq], by simpa using h⟩)⟩
  · rw [if_neg heq, Option.or_none] at h
    refine h.imp_right fun h => ⟨h.1, ?_⟩
    simpa [toRead, Rest.toRead, handFor, hand, hidle, heq] using h.2

lemma Settles.steps {act : Act} (hrefl : ∀ v, same v v)
    (htrans : ∀ u v t, same u v → same v t → same u t) (hf : Formed (.base st) w)
    (h : Settles st same w k) (hsteps : Steps st same w act w') : Settles st same w' k := by
  cases hsteps with
  | @queue key new =>
    by_cases hk : k = key
    · subst hk
      refine .inr (.inl ⟨changeFor k (w.loc.current k) new, ?_, ?_⟩)
      · rw [lastFor_append, if_pos (key_changeFor _ _ _)]
      · rw [value_changeFor]
        exact rel_change hrefl w k new _
    · refine h.congr .inl id ?_ id rfl (current_change_of_ne hk) rfl
      rw [lastFor_append, if_neg]
      rw [key_changeFor]
      exact Ne.symm hk
  | @crowd key =>
    by_cases hk : k = key
    · subst hk
      exact .inl (.inl (Finmap.lookup_insert _))
    · refine h.congr (fun hfull => .inl ?_) id rfl id rfl (current_change_of_ne hk) rfl
      exact (Finmap.lookup_insert_of_ne _ hk).trans hfull
  | @handoff key new _ hidle hch =>
    by_cases hk : k = key
    · subst hk
      refine .inr (.inr ⟨?_, .inr (.inl ⟨changeFor k (w.loc.current k) new, ?_, ?_⟩)⟩)
      · show lastFor k w.ch = none
        rw [hch, lastFor_nil]
      · simp [handFor, hand]
      · rw [value_changeFor]
        exact rel_change hrefl w k new _
    · refine h.congr .inl id rfl ?_ ?_ (current_change_of_ne hk) rfl
      · simp [toRead, hidle]
      · simp [handFor, hand, hidle, Ne.symm hk]
  | @silent key u v lpm hu _ hsame =>
    by_cases hk : k = key
    · subst hk
      refine h.congr .inl id rfl id rfl ?_ rfl
      intro x hx
      have hnew : (w.change k (some v) lpm).loc.current k = some v := Function.update_self _ _ _
      rw [hu] at hx
      rw [hnew]
      cases hx with
      | some hx => exact .some (htrans _ _ _ hx hsame)
    · exact h.congr .inl id rfl id rfl (current_change_of_ne hk) rfl
  | @record key =>
    by_cases hk : k = key
    · subst hk
      exact .inl (.inr (Finset.mem_insert_self _ _))
    · refine h.congr (fun hfull => .inl ?_) Finset.mem_insert_of_mem rfl id rfl (fun _ => id) rfl
      exact (Finmap.lookup_insert_of_ne _ hk).trans hfull
  | wake hrecorded =>
    refine h.congr (fun hfull => .inl ?_) id rfl id rfl (fun _ => id) rfl
    refine (Finmap.lookup_erase_ne ?_).trans hfull
    rintro rfl
    rw [hrecorded] at hfull
    cases hfull
  | receive hidle hch => exact h.receive hidle hch
  | woken hidle =>
    exact h.congr .inl id rfl (by simp [toRead, hidle]) (by simp [handFor, hand, hidle])
      (fun _ => id) rfl
  | work hworks => exact h.works hrefl hf hworks

/-! ## No overflow waits without a wake -/

end World

/-- What the worker does after the change in hand, once it has one. -/
def Phase.rest : Phase → Option Rest
  | .seed _ => none
  | .idle => none
  | .event _ rest => some rest
  | .cover _ rest => some rest
  | .cascade _ _ rest => some rest
  | .resume rest => some rest

namespace World

/-- The overflowed prefixes that the worker has taken and not read yet. -/
def waiting (w : World) : List PrefixKey := w.worker.rest.elim [] Rest.toRead

variable {st : Setup} {same : View → View → Prop} {w w' : World} {key : PrefixKey}

/-- While prefixes wait in the overflow set, the worker is going to ask for them: it is about to, a
change is queued, a wake is pending, or an offer is about to send one. -/
def Awake (w : World) : Prop :=
  w.overflow ≠ ∅ → w.wake = true ∨ (∃ k, w.offering.lookup k = some .recorded) ∨ w.ch ≠ [] ∨
    w.worker.rest = some .take

lemma Awake.of_rest (hrest : w.worker.rest = some .take) : Awake w :=
  fun _ => .inr (.inr (.inr hrest))

lemma Awake.congr (h : Awake w) (hoverflow : w'.overflow = w.overflow) (hwake : w'.wake = w.wake)
    (hoffer : ∀ k, w.offering.lookup k = some .recorded → w'.offering.lookup k = some .recorded)
    (hch : w.ch ≠ [] → w'.ch ≠ []) (hrest : w'.worker.rest = w.worker.rest) : Awake w' := by
  intro hover
  rw [hoverflow] at hover
  rw [hwake, hrest]
  rcases h hover with h | ⟨k, hk⟩ | h | h
  · exact .inl h
  · exact .inr (.inl ⟨k, hoffer k hk⟩)
  · exact .inr (.inr (.inl (hch h)))
  · exact .inr (.inr (.inr h))

lemma Awake.works {choice : Choice} (h : Awake w) (hworks : Works st choice w w') : Awake w' := by
  cases hworks with
  | walked hworker | skip hworker | store hworker | event hworker | cover hworker
  | spent hworker | still hworker | spread hworker =>
    exact h.congr rfl rfl (fun _ => id) id (by simp [Phase.rest, hworker])
  | untaken _ hnothing => exact fun hover => .inr (.inr (.inl (hnothing.resolve_left hover)))
  | take => exact fun hover => absurd rfl hover
  | done hworker | read hworker =>
    intro hover
    simpa [Phase.rest, hworker] using h hover

lemma Awake.steps {act : Act} (h : Awake w) (hsteps : Steps st same w act w') : Awake w' := by
  cases hsteps with
  | queue => exact h.congr rfl rfl (fun _ => id) (fun _ => by simp) rfl
  | crowd hmay =>
    refine h.congr rfl rfl (fun k hk => ?_) id rfl
    refine (Finmap.lookup_insert_of_ne _ ?_).trans hk
    rintro rfl
    rw [hmay.1] at hk
    cases hk
  | handoff | receive | woken => exact Awake.of_rest rfl
  | silent => exact h.congr rfl rfl (fun _ => id) id rfl
  | @record key => exact fun _ => .inr (.inl ⟨key, Finmap.lookup_insert _⟩)
  | wake => exact fun _ => .inl rfl
  | work hworks => exact h.works hworks

/-! ## Runs -/

structure FeedInv (st : Setup) (same : View → View → Prop) (w : World) : Prop where
  formed : Formed (.base st) w
  settles : ∀ k, Settles st same w k
  awake : Awake w

lemma FeedInv.steps {act : Act} (hrefl : ∀ v, same v v)
    (htrans : ∀ u v t, same u v → same v t → same u t) (h : FeedInv st same w)
    (hsteps : Steps st same w act w') : FeedInv st same w' where
  formed := h.formed.steps (brings_base hsteps) hsteps
  settles := fun k => (h.settles k).steps hrefl htrans h.formed hsteps
  awake := h.awake.steps hsteps

lemma FeedInv.start {loc : Loc} {rib : SysRIB} {ks : List PrefixKey} (hks : Walks st loc ks)
    (hrib : rib.routes = ∅) : FeedInv st same (start loc rib ks) where
  formed := by
    constructor
    · exact hks.current
    · simp [World.start]
    · simp [World.start, hand]
    · exact hks.keys
    · simp [World.start]
    · simp [World.start]
    · intro ks' hks'
      obtain rfl : ks = ks' := by simpa [World.start] using hks'
      refine ⟨hks.nodup, fun k _ => ?_⟩
      show rib.routes.lookup k = none
      rw [hrib, Finmap.lookup_empty]
  settles := by
    intro k
    refine .inr (.inr ⟨rfl, ?_⟩)
    by_cases hk : k ∈ ks
    · exact .inl hk
    · refine .inr (.inr ⟨rfl, none, ?_, ?_⟩)
      · have hnone : loc.current k = none := by
          by_contra hne
          exact hk (hks.covers k hne)
        show Option.Rel same none (loc.current k)
        rw [hnone]
        exact .none
      · show rib.routes.lookup k = none
        rw [hrib, Finmap.lookup_empty]
  awake := fun h => absurd rfl h

/-- **Theorem.** For every interleaving of the changes of the Loc-RIB, the offers, the wakes and the
steps of the worker, and for every size of the channel: in a state where the channel and the
overflow set are empty and the worker is idle, the system RIB stores, for every prefix whose offer
is over, the best path and the group that the Loc-RIB holds (up to its own `same`), and nothing
where it holds none. A prefix in the overflow set never waits for an unrelated change: the idle
worker has a wake or a change pending, or an offer is about to send one. -/
theorem stored_of_drained (st : Setup) (same : View → View → Prop) [DecidableRel same]
    (hrefl : ∀ v, same v v) (htrans : ∀ u v t, same u v → same v t → same u t)
    (loc : Loc) (rib : SysRIB) (ks : List PrefixKey) (hks : Walks st loc ks)
    (hrib : rib.routes = ∅) (acts : List Act) (w : World)
    (hrun : Ze.Lib.run (World.step st same) (World.start loc rib ks) acts = some w) :
    (w.ch = [] → w.overflow = ∅ → w.worker = .idle →
      ∀ k, w.offering.lookup k ≠ some .full →
        ∃ u, Option.Rel same u (w.loc.current k) ∧
          w.rib.routes.lookup k = u.map (stored st)) ∧
    (w.overflow ≠ ∅ → w.worker = .idle →
      w.wake ∨ w.ch ≠ [] ∨ ∃ k, w.offering.lookup k = some .recorded) := by
  have hinv : FeedInv st same w := by
    refine Ze.Lib.run_inv ?_ acts _ w (FeedInv.start hks hrib) hrun
    exact fun s act s' h hstep => h.steps hrefl htrans (steps_of_step hstep)
  refine ⟨fun hch hover hidle k hoffer => ?_, fun hover hidle => ?_⟩
  · rcases hinv.settles k with (hfull | hmem) | ⟨c, hc, -⟩ | ⟨-, hread | ⟨c, hc, -⟩ | ⟨-, h⟩⟩
    · exact absurd hfull hoffer
    · rw [hover] at hmem
      exact absurd hmem (Finset.notMem_empty k)
    · rw [hch, lastFor_nil] at hc
      cases hc
    · simp [toRead, hidle] at hread
    · simp [handFor, hand, hidle] at hc
    · exact h
  · rcases hinv.awake hover with h | h | h | h
    · exact .inl h
    · exact .inr (.inr h)
    · exact .inr (.inl h)
    · simp [Phase.rest, hidle] at h

def exampleKey : PrefixKey := (⟨1, 1⟩, ⟨.v4 0x0a000000#32, 8⟩)

def exampleView : View := ({ source := 1, nextHop := .v4 0xc0000201#32 }, [])

/-- Ranges that meet the one protocol and the one prefix. -/
noncomputable def exampleChoice : Choice where
  range := RangeOrder.listing ["static"] (nodup_singleton _)
  sort := PathSort.insertion
  ord := RangeOrder.listing [exampleKey] (nodup_singleton _)

/-- With no room in the channel, the one change goes through the overflow set. -/
noncomputable def overflowRun : List Act :=
  [.work exampleChoice, .report exampleKey (some exampleView) fun _ _ => none, .record exampleKey,
    .wake exampleKey, .woken, .work exampleChoice, .work exampleChoice, .work exampleChoice,
    .work exampleChoice, .work exampleChoice, .work exampleChoice]

theorem stored_of_drained_overflow :
    ∃ w, Ze.Lib.run (World.step (staticSetup 0) (· = ·))
        (World.start ⟨fun _ => none, fun _ _ => none⟩ SysRIB.new []) overflowRun = some w ∧
      w.ch = [] ∧ w.overflow = ∅ ∧ w.worker = .idle ∧
      w.rib.routes.lookup exampleKey = some (stored (staticSetup 0) exampleView) := by
  have heval : ((Ze.Lib.run (World.step (staticSetup 0) (· = ·))
      (World.start ⟨fun _ => none, fun _ _ => none⟩ SysRIB.new []) overflowRun).any fun w =>
        w.ch.isEmpty && w.overflow == ∅ && w.worker.isIdle && w.offering.lookup exampleKey ==
          none &&
          w.loc.current exampleKey == some exampleView) = true := by
    decide +kernel
  obtain ⟨w, hrun, hw⟩ := (Option.any_eq_true _ _).mp heval
  simp only [Bool.and_eq_true, List.isEmpty_iff, beq_iff_eq] at hw
  obtain ⟨⟨⟨⟨hch, hover⟩, hidle⟩, hoffer⟩, hcurrent⟩ := hw
  have hidle : w.worker = .idle := Phase.eq_idle hidle
  have hwalks : Walks (staticSetup 0) ⟨fun _ => none, fun _ _ => none⟩ [] :=
    { nodup := nodup_nil
      keys := by simp
      current := by simp
      covers := by simp }
  obtain ⟨u, hrel, hu⟩ := (stored_of_drained (staticSetup 0) (· = ·) (fun _ => rfl)
    (fun _ _ _ => Eq.trans) _ SysRIB.new [] hwalks rfl overflowRun w hrun).1 hch hover hidle
    exampleKey (by simp [hoffer])
  refine ⟨w, hrun, hch, hover, hidle, ?_⟩
  rw [hcurrent] at hrel
  cases hrel with
  | some heq => rw [hu, heq, Option.map_some]

end World

end Ze.SysRib
